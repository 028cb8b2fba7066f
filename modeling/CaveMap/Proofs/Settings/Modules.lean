import CaveMap.Proofs.Settings.Revise
import CaveMap.Session.Command

namespace CaveMap.Settings

theorem isEnabled_iff {s : Settings} {id : String} : s.isEnabled id ↔ .text id ∈ s.enabledModules := by
  rw [isEnabled, List.any_eq_true]
  constructor
  · rintro ⟨v, hv, he⟩
    rwa [Value.equals_text_iff.1 he] at hv
  · intro h
    exact ⟨.text id, h, by simp⟩

theorem isEnabled_addModule (s : Settings) (m : MapModule) (id : String) :
    (s.addModule m).isEnabled id = (decide (m.id = id) || s.isEnabled id) := by
  rw [Bool.eq_iff_iff, Bool.or_eq_true, decide_eq_true_eq, isEnabled_iff, isEnabled_iff, addModule,
    Value.mem_distinct_text, List.mem_append, List.mem_singleton, Value.text.injEq, or_comm, eq_comm]

theorem mem_withoutId {items : List Value} {id other : String} :
    .text other ∈ withoutId items id ↔ .text other ∈ items ∧ other ≠ id := by
  rw [withoutId, List.mem_filter, Value.equals_text, Bool.not_eq_true', decide_eq_false_iff_not]

theorem isEnabled_removeModule (s : Settings) (other id : String) :
    (s.removeModule other).isEnabled id = (decide (other ≠ id) && s.isEnabled id) := by
  rw [Bool.eq_iff_iff, Bool.and_eq_true, decide_eq_true_eq, isEnabled_iff, isEnabled_iff, removeModule,
    mem_withoutId, and_comm, ne_comm]

theorem isEnabled_setEnabled (s : Settings) (other : String) (enabled : Bool) (id : String) :
    (s.setEnabled other enabled).isEnabled id = if other = id then enabled else s.isEnabled id := by
  rw [Bool.eq_iff_iff, isEnabled_iff, setEnabled, List.mem_append, mem_withoutId]
  by_cases h : other = id
  · subst h
    cases enabled <;> simp
  · have hother : id ≠ other := Ne.symm h
    rw [if_neg h, isEnabled_iff]
    cases enabled <;> simp [hother]

/-- No module is enabled twice. -/
def EnabledOnce (s : Settings) : Prop := Value.distinct s.enabledModules = s.enabledModules

theorem EnabledOnce.of_revise {s t : Settings} {changes : Changes} (h : s.revise changes = .ok t) : t.EnabledOnce := by
  have henabled := (revise_eq_ok h).enabledModules
  unfold distinctItems at henabled
  split at henabled
  · cases henabled
  · next items hitems =>
    split at henabled
    · cases henabled
    · rw [EnabledOnce, ← Except.ok.inj henabled, Value.distinct_distinct]

theorem withoutId_append (front back : List Value) (id : String) :
    withoutId (front ++ back) id = withoutId front id ++ withoutId back id := List.filter_append ..

theorem withoutId_comm (items : List Value) (id other : String) :
    withoutId (withoutId items id) other = withoutId (withoutId items other) id := by
  rw [withoutId, withoutId, withoutId, withoutId, List.filter_filter, List.filter_filter]
  simp only [Bool.and_comm]

theorem withoutId_of_ne {v : Value} {id : String} (h : v ≠ .text id) : withoutId [v] id = [v] := by
  have hv : v.equals (.text id) = false := Bool.eq_false_iff.2 fun he => h (Value.equals_text_iff.1 he)
  simp [withoutId, hv]

theorem withoutId_self (id : String) : withoutId [.text id] id = [] := by
  simp [withoutId]

theorem withoutId_of_notMem {items : List Value} {id : String} (h : .text id ∉ items) :
    withoutId items id = items := by
  apply List.filter_eq_self.2
  intro v hv
  rw [Bool.not_eq_true', Bool.eq_false_iff]
  intro he
  exact h (Value.equals_text_iff.1 he ▸ hv)

theorem any_withoutId {v : Value} {id : String} (h : v ≠ .text id) (items : List Value) :
    (withoutId items id).any v.equals = items.any v.equals := by
  rw [withoutId, List.any_filter]
  congr 1
  funext w
  cases hw : w.equals (.text id) with
  | false => rfl
  | true =>
    have hne : v.equals w = false := by
      rw [Value.equals_text_iff.1 hw, Bool.eq_false_iff]
      exact fun he => h (Value.equals_text_iff.1 he)
    rw [hne]
    rfl

theorem withoutId_distinct (items : List Value) (id : String) :
    withoutId (Value.distinct items) id = Value.distinct (withoutId items id) := by
  induction items using List.reverseRecOn with
  | nil => rfl
  | append_singleton front v ih =>
    rw [Value.distinct_append_singleton, withoutId_append]
    by_cases hv : v = .text id
    · subst hv
      rw [withoutId_self, List.append_nil, ← ih]
      split
      · rfl
      · rw [withoutId_append, withoutId_self, List.append_nil]
    · rw [withoutId_of_ne hv, Value.distinct_append_singleton, ← ih, any_withoutId hv]
      split
      · rfl
      · rw [withoutId_append, withoutId_of_ne hv]

theorem removeModule_addModule {s : Settings} {m : MapModule} (hm : ∀ other ∈ s.customModules, other.id ≠ m.id)
    (hoff : s.isEnabled m.id = false) (hs : s.EnabledOnce) : (s.addModule m).removeModule m.id = s := by
  have hnot : .text m.id ∉ s.enabledModules := by
    intro hin
    rw [isEnabled_iff.2 hin] at hoff
    cases hoff
  have hcustom : (s.customModules ++ [m]).filter (·.id ≠ m.id) = s.customModules := by
    rw [List.filter_append, List.filter_eq_self.2 (by simpa using hm)]
    simp
  have henabled : withoutId (Value.distinct (s.enabledModules ++ [.text m.id])) m.id = s.enabledModules := by
    rw [withoutId_distinct, withoutId_append, withoutId_of_notMem hnot, withoutId_self, List.append_nil]
    exact hs
  simp only [addModule, removeModule, hcustom, henabled]

theorem removeModule_addModule_of_ne {m : MapModule} {id : String} (h : m.id ≠ id) (s : Settings) :
    (s.removeModule id).addModule m = (s.addModule m).removeModule id := by
  have hcustom : s.customModules.filter (·.id ≠ id) ++ [m] = (s.customModules ++ [m]).filter (·.id ≠ id) := by
    simp [List.filter_append, h]
  have hne : Value.text m.id ≠ .text id := fun he => h (Value.text.inj he)
  simp only [addModule, removeModule, hcustom, withoutId_distinct, withoutId_append, withoutId_of_ne hne]

theorem removeModule_comm (s : Settings) (id other : String) :
    (s.removeModule id).removeModule other = (s.removeModule other).removeModule id := by
  simp only [removeModule, withoutId_comm s.enabledModules id other, List.filter_filter, Bool.and_comm]

theorem removeModule_setEnabled_of_ne {id other : String} (h : other ≠ id) (enabled : Bool) (s : Settings) :
    (s.removeModule id).setEnabled other enabled = (s.setEnabled other enabled).removeModule id := by
  have hne : Value.text other ≠ .text id := fun he => h (Value.text.inj he)
  simp only [removeModule, setEnabled, withoutId_append, withoutId_comm s.enabledModules id other]
  cases enabled with
  | false => rfl
  | true => rw [if_pos rfl, withoutId_of_ne hne]

end CaveMap.Settings
