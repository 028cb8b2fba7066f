import CaveMap.Log.Line
import CaveMap.Proofs.Table
import Mathlib.Data.List.DropRight

namespace CaveMap.Log.Context

inductive Change
  | set (key : String) (v : Value)
  | drop (key : String)
  | clear

namespace Change

def apply (context : Context) : Change → Context
  | set key v => context.insert key v
  | drop key => context.erase key
  | clear => ∅

def value? (key : String) : Change → Option Value
  | set k v => if k = key then some v else none
  | _ => none

def drops (key : String) : Change → Bool
  | set .. => false
  | drop k => k = key
  | clear => true

end Change

inductive Call
  | push (fields : List (String × Value))
  /-- Without keys, all of them. -/
  | pop (keys : Option (List String))

namespace Call

def run (context : Context) : Call → Context
  | push fields => context.push fields
  | pop keys => context.pop keys

def fields : Call → List (String × Value)
  | push fields => fields
  | pop _ => []

def changes : Call → List Change
  | push fields => fields.map fun (key, v) => .set key v
  | pop none => [.clear]
  | pop (some keys) => keys.map .drop

theorem run_eq (context : Context) (call : Call) : call.run context = call.changes.foldl Change.apply context := by
  cases call with
  | push fields =>
    rw [changes, List.foldl_map]
    rfl
  | pop keys =>
    cases keys with
    | none => rfl
    | some keys =>
      rw [changes, List.foldl_map]
      rfl

end Call

/-- What has happened since a key was last taken away. -/
def since (changes : List Change) (key : String) : List Change := changes.rtakeWhile (!·.drops key)

/-- The last value of a key that was not taken away afterwards. -/
def lastValue? (changes : List Change) (key : String) : Option Value :=
  (since changes key).reverse.findSome? (·.value? key)

/-- The place of the change that has brought a key in. -/
def place? (changes : List Change) (key : String) : Option Nat :=
  ((since changes key).findIdx? fun change => (change.value? key).isSome).map
    (changes.length - (since changes key).length + ·)

/-- Exactly the fields that are left by changes, in the order in which their keys have come in. -/
structure LeftBy (changes : List Change) (fields : List (String × Value)) : Prop where
  mem_iff : ∀ key v, (key, v) ∈ fields ↔ lastValue? changes key = some v
  ordered : fields.Pairwise fun a b => ∀ m n, place? changes a.1 = some m → place? changes b.1 = some n → m < n

variable {changes : List Change} {change : Change} {key : String} {context : Context}

theorem since_concat (changes : List Change) (change : Change) (key : String) :
    since (changes ++ [change]) key = if change.drops key then [] else since changes key ++ [change] := by
  rw [since, List.rtakeWhile_concat]
  cases change.drops key <;> rfl

theorem lastValue?_concat (changes : List Change) (change : Change) (key : String) :
    lastValue? (changes ++ [change]) key =
      if change.drops key then none else (change.value? key).or (lastValue? changes key) := by
  rw [lastValue?, since_concat]
  split
  · rfl
  · rw [List.reverse_append, List.reverse_singleton, List.singleton_append, List.findSome?_cons]
    cases change.value? key <;> rfl

theorem length_since (changes : List Change) (key : String) : (since changes key).length ≤ changes.length :=
  (List.rtakeWhile_suffix _ _).length_le

theorem place?_concat (changes : List Change) (change : Change) (key : String) :
    place? (changes ++ [change]) key =
      if change.drops key then none
      else (place? changes key).or (if (change.value? key).isSome then some changes.length else none) := by
  have hle := length_since changes key
  rw [place?, since_concat]
  split
  · rfl
  · rw [List.findIdx?_append, place?, List.length_append, List.length_append, List.length_singleton,
      Nat.add_sub_add_right]
    cases (since changes key).findIdx? fun change => (change.value? key).isSome with
    | some n => rfl
    | none =>
      by_cases hv : (change.value? key).isSome
      · simp [hv]
        omega
      · simp [hv]

theorem place?_lt {n : Nat} (h : place? changes key = some n) : n < changes.length := by
  induction changes using List.reverseRecOn with
  | nil => cases h
  | append_singleton changes change ih =>
    rw [place?_concat] at h
    rw [List.length_append, List.length_singleton]
    split at h
    · cases h
    · cases hplace : place? changes key with
      | some m =>
        rw [hplace] at h
        cases h
        exact Nat.lt_succ_of_lt (ih hplace)
      | none =>
        rw [hplace, Option.none_or] at h
        split at h
        · cases h
          exact Nat.lt_succ_self _
        · cases h

theorem isSome_place? (changes : List Change) (key : String) :
    (place? changes key).isSome = (lastValue? changes key).isSome := by
  induction changes using List.reverseRecOn with
  | nil => rfl
  | append_singleton changes change ih =>
    rw [place?_concat, lastValue?_concat]
    split
    · rfl
    · rw [Option.isSome_or, Option.isSome_or, ih, Bool.or_comm]
      cases change.value? key <;> rfl

section

variable (changes : List Change) (key : String) (v : Value) (k : String)

theorem lastValue?_set :
    lastValue? (changes ++ [.set key v]) k = if key = k then some v else lastValue? changes k := by
  rw [lastValue?_concat, if_neg (by simp [Change.drops]), Change.value?]
  split <;> rfl

theorem place?_set :
    place? (changes ++ [.set key v]) k = (place? changes k).or (if key = k then some changes.length else none) := by
  rw [place?_concat, if_neg (by simp [Change.drops]), Change.value?]
  by_cases hk : key = k <;> simp [hk]

theorem lastValue?_drop : lastValue? (changes ++ [.drop key]) k = if key = k then none else lastValue? changes k := by
  rw [lastValue?_concat]
  simp [Change.drops, Change.value?]

theorem place?_drop : place? (changes ++ [.drop key]) k = if key = k then none else place? changes k := by
  rw [place?_concat]
  simp [Change.drops, Change.value?]

end

namespace LeftBy

theorem mem_keys (h : LeftBy changes context.entries) : key ∈ context.keys ↔ (lastValue? changes key).isSome := by
  rw [Option.isSome_iff_exists, Table.keys, List.mem_map]
  constructor
  · rintro ⟨⟨k, v⟩, hin, rfl⟩
    exact ⟨v, (h.mem_iff k v).1 hin⟩
  · rintro ⟨v, hv⟩
    exact ⟨(key, v), (h.mem_iff key v).2 hv, rfl⟩

theorem set_known (h : LeftBy changes context.entries) (hin : key ∈ context.keys) (v : Value) :
    LeftBy (changes ++ [.set key v]) (context.insert key v).entries := by
  have hplace (k : String) : place? (changes ++ [.set key v]) k = place? changes k := by
    rw [place?_set]
    by_cases hk : key = k
    · subst hk
      obtain ⟨n, hn⟩ := Option.isSome_iff_exists.1 ((isSome_place? changes key).trans (h.mem_keys.1 hin))
      rw [hn, Option.some_or]
    · rw [if_neg hk, Option.or_none]
  rw [Table.entries_insert_of_mem hin]
  refine ⟨fun k w => ?_, ?_⟩
  · rw [lastValue?_set, List.mem_map]
    by_cases hk : key = k
    · rw [if_pos hk, Option.some.injEq]
      constructor
      · rintro ⟨field, -, he⟩
        obtain ⟨hfirst, hsecond⟩ := Prod.mk.inj he
        rwa [if_pos (hfirst.trans hk.symm)] at hsecond
      · rintro rfl
        obtain ⟨field, hfield, he⟩ := List.mem_map.1 hin
        exact ⟨field, hfield, by rw [if_pos he, he, hk]⟩
    · rw [if_neg hk, ← h.mem_iff]
      constructor
      · rintro ⟨⟨other, old⟩, hfield, he⟩
        obtain ⟨rfl, hsecond⟩ := Prod.mk.inj he
        rw [if_neg (Ne.symm hk)] at hsecond
        exact hsecond ▸ hfield
      · exact fun hfield => ⟨(k, w), hfield, by rw [if_neg (Ne.symm hk)]⟩
  · simp only [List.pairwise_map, hplace]
    exact h.ordered

theorem set_new (h : LeftBy changes context.entries) (hnot : key ∉ context.keys) (v : Value) :
    LeftBy (changes ++ [.set key v]) (context.insert key v).entries := by
  have hnone : lastValue? changes key = none := by simpa using mt h.mem_keys.2 hnot
  have hnew : place? (changes ++ [.set key v]) key = some changes.length := by
    have hold : place? changes key = none := by simpa [hnone] using isSome_place? changes key
    rw [place?_set, hold, if_pos rfl, Option.none_or]
  have hold {field : String × Value} (hin : field ∈ context.entries) :
      place? (changes ++ [.set key v]) field.1 = place? changes field.1 := by
    have hne : key ≠ field.1 := fun he => hnot (he ▸ List.mem_map_of_mem hin)
    rw [place?_set, if_neg hne, Option.or_none]
  rw [Table.entries_insert_of_not_mem hnot]
  refine ⟨fun k w => ?_, List.pairwise_append.2 ⟨?_, List.pairwise_singleton _ _, ?_⟩⟩
  · rw [lastValue?_set, List.mem_append, h.mem_iff, List.mem_singleton]
    by_cases hk : key = k
    · subst hk
      simp [hnone, eq_comm]
    · simp [hk, Ne.symm hk]
  · refine h.ordered.imp_of_mem fun ha hb hab => ?_
    rwa [hold ha, hold hb]
  · rintro field hin last hlast m n hm hn
    rw [List.mem_singleton.1 hlast, hnew, Option.some.injEq] at hn
    rw [hold hin] at hm
    exact hn ▸ place?_lt hm

theorem drop (h : LeftBy changes context.entries) (key : String) :
    LeftBy (changes ++ [.drop key]) (context.erase key).entries := by
  refine ⟨fun k w => ?_, ?_⟩
  · rw [lastValue?_drop, Table.erase, List.mem_filter, h.mem_iff]
    by_cases hk : key = k
    · simp [hk]
    · simp [hk, Ne.symm hk]
  · refine (h.ordered.filter _).imp_of_mem fun ha hb hab => ?_
    have hkept {field : String × Value} (hin : field ∈ (context.erase key).entries) :
        place? (changes ++ [.drop key]) field.1 = place? changes field.1 := by
      have hne : field.1 ≠ key := by simpa using (List.mem_filter.1 hin).2
      rw [place?_drop, if_neg hne.symm]
    rwa [hkept ha, hkept hb]

theorem clear (changes : List Change) : LeftBy (changes ++ [.clear]) (∅ : Context).entries := by
  refine ⟨fun key v => ?_, List.Pairwise.nil⟩
  rw [lastValue?_concat, Change.drops, if_pos rfl]
  exact iff_of_false List.not_mem_nil nofun

theorem apply (h : LeftBy changes context.entries) (change : Change) :
    LeftBy (changes ++ [change]) (change.apply context).entries := by
  cases change with
  | set key v =>
    by_cases hin : key ∈ context.keys
    · exact h.set_known hin v
    · exact h.set_new hin v
  | drop key => exact h.drop key
  | clear => exact clear changes

end LeftBy

theorem leftBy_foldl (changes : List Change) : LeftBy changes (changes.foldl Change.apply ∅).entries := by
  induction changes using List.reverseRecOn with
  | nil => exact ⟨fun _ _ => iff_of_false List.not_mem_nil nofun, List.Pairwise.nil⟩
  | append_singleton changes change ih =>
    rw [List.foldl_append]
    exact ih.apply change

/-- The context after calls, which is empty in the beginning. -/
def after (calls : List Call) : Context := calls.foldl Call.run ∅

theorem after_eq (calls : List Call) : after calls = (calls.flatMap Call.changes).foldl Change.apply ∅ := by
  have hfold (context : Context) :
      calls.foldl Call.run context = (calls.flatMap Call.changes).foldl Change.apply context := by
    induction calls generalizing context with
    | nil => rfl
    | cons call rest ih => rw [List.foldl_cons, ih, List.flatMap_cons, List.foldl_append, Call.run_eq]
  exact hfold ∅

theorem leftBy_after (calls : List Call) : LeftBy (calls.flatMap Call.changes) (after calls).entries := by
  rw [after_eq]
  exact leftBy_foldl _

theorem mem_of_lastValue? {v : Value} (h : lastValue? changes key = some v) : .set key v ∈ changes := by
  obtain ⟨change, hin, hv⟩ := List.exists_of_findSome?_eq_some h
  have hchange : change ∈ changes := (List.rtakeWhile_suffix _ _).mem (List.mem_reverse.1 hin)
  cases change with
  | set k w =>
    rw [Change.value?, Option.ite_none_right_eq_some, Option.some.injEq] at hv
    obtain ⟨rfl, rfl⟩ := hv
    exact hchange
  | drop => cases hv
  | clear => cases hv

/-- Nothing is in the context that has not been pushed. -/
theorem mem_fields_of_mem_after {calls : List Call} {field : String × Value} (h : field ∈ (after calls).entries) :
    ∃ call ∈ calls, field ∈ call.fields := by
  have hset := mem_of_lastValue? (((leftBy_after calls).mem_iff field.1 field.2).1 h)
  obtain ⟨call, hcall, hin⟩ := List.mem_flatMap.1 hset
  refine ⟨call, hcall, ?_⟩
  cases call with
  | push fields =>
    obtain ⟨pushed, hpushed, he⟩ := List.mem_map.1 hin
    obtain ⟨hkey, hv⟩ := Change.set.inj he
    exact Prod.ext hkey hv ▸ hpushed
  | pop keys => cases keys <;> simp [Call.changes] at hin

end CaveMap.Log.Context
