import CaveMap.Proofs.Text.Lines
import CaveMap.Symbol

namespace CaveMap

namespace SymbolCategory

theorem space_not_mem_name (category : SymbolCategory) : ' ' ∉ category.name.toList := by
  cases category <;> decide

theorem name_inj {a b : SymbolCategory} (h : a.name = b.name) : a = b := by
  revert h
  cases a <;> cases b <;> decide

end SymbolCategory

namespace Symbol

open Text

/-- What one entry of an override table says. -/
structure Saying where
  category : SymbolCategory
  key : String
  /-- The symbol set, unless it is left to the enclosing level. -/
  set : Option String
  /-- The percentages of the color, if there is one. -/
  color : Option String
  hidden : Bool
  deriving DecidableEq

/-- What a directive does to a symbol type. -/
inductive Treatment
  | assign (set : String)
  | color (percentages : String)
  | hide
  deriving DecidableEq

namespace Treatment

def keyword : Treatment → String
  | assign _ => "symbol-assign"
  | color _ => "symbol-color"
  | hide => "symbol-hide"

def operand : Treatment → String
  | assign set => " " ++ set
  | color percentages => " " ++ percentages
  | hide => ""

end Treatment

structure Directive where
  category : SymbolCategory
  key : String
  treatment : Treatment
  deriving DecidableEq

def Directive.text (d : Directive) : String :=
  d.treatment.keyword ++ " " ++ d.category.name ++ " " ++ d.key ++ d.treatment.operand

namespace Saying

def isSilent (s : Saying) : Bool := s.set.isNone && s.color.isNone && !s.hidden

/-- Symbol set, color and hiding, in this order. -/
def treatments (s : Saying) : List Treatment :=
  (s.set.map Treatment.assign).toList ++ (s.color.map Treatment.color).toList ++ if s.hidden then [.hide] else []

def directives (s : Saying) : List Directive :=
  s.treatments.map fun treatment => ⟨s.category, s.key, treatment⟩

end Saying

def saying (default : Value) (key : String) (override : SymbolOverride) : Saying where
  category := override.category
  key
  set :=
    if defers (resolvedSet override default) then none else some (resolvedSet override default).shown
  color :=
    if (ofOption override.color).holds then some (Color.percentagesOf (ofOption override.color)) else none
  hidden := !override.visible

/-- What the entries of a table say, in the order of the table. -/
def sayings (table : SymbolTable) (default : Value) : List Saying :=
  table.entries.map fun (key, override) => saying default key override

theorem directives_eq (key : String) (override : SymbolOverride) (default : Value) :
    directives key override default = (saying default key override).directives.map Directive.text := by
  unfold directives saying Saying.directives Saying.treatments
  simp only [List.map_append, String.append_assoc]
  congr 1
  · congr 1
    · split
      · rfl
      · simp [Directive.text, Treatment.keyword, Treatment.operand, String.append_assoc]
    · split
      · simp [Directive.text, Treatment.keyword, Treatment.operand, String.append_assoc]
      · rfl
  · cases override.visible with
    | true => rfl
    | false => simp [Directive.text, Treatment.keyword, Treatment.operand, String.append_assoc]

theorem tableDirectives_eq (table : SymbolTable) (default : Value) :
    tableDirectives table default = ((sayings table default).flatMap Saying.directives).map Directive.text := by
  rw [sayings, List.flatMap_map, List.map_flatMap, tableDirectives]
  exact List.flatMap_congr fun entry _ => directives_eq entry.1 entry.2 default

theorem first_space_inj {a b c d : String} (ha : ' ' ∉ a.toList) (hc : ' ' ∉ c.toList)
    (h : a ++ (" " ++ b) = c ++ (" " ++ d)) : a = c ∧ b = d := by
  have hblank : " ".toList = [' '] := rfl
  rw [← String.toList_inj] at h
  simp only [String.toList_append, hblank, List.singleton_append] at h
  obtain ⟨hfront, hback⟩ := first_mark_inj ha hc h
  exact ⟨String.toList_inj.1 hfront, String.toList_inj.1 hback⟩

namespace Treatment

variable {t u : Treatment} {key other : String}

theorem space_not_mem_keyword (t : Treatment) : ' ' ∉ t.keyword.toList := by
  cases t <;> simp [keyword]

/-- A treatment is known by its keyword and what stands behind a symbol type without spaces. -/
theorem operand_inj (hkey : ' ' ∉ key.toList) (hother : ' ' ∉ other.toList) (hkeyword : t.keyword = u.keyword)
    (h : key ++ t.operand = other ++ u.operand) : key = other ∧ t = u := by
  cases t with
  | assign set =>
    cases u with
    | assign set' => exact (first_space_inj hkey hother h).imp_right (congrArg assign)
    | color | hide => simp [keyword] at hkeyword
  | color percentages =>
    cases u with
    | color percentages' => exact (first_space_inj hkey hother h).imp_right (congrArg color)
    | assign | hide => simp [keyword] at hkeyword
  | hide =>
    cases u with
    | hide => exact ⟨suffixed_inj h, rfl⟩
    | assign | color => simp [keyword] at hkeyword

end Treatment

namespace Directive

theorem text_inj {d e : Directive} (hd : ' ' ∉ d.key.toList) (he : ' ' ∉ e.key.toList) (h : d.text = e.text) :
    d = e := by
  simp only [text, String.append_assoc] at h
  obtain ⟨hkeyword, h⟩ :=
    first_space_inj d.treatment.space_not_mem_keyword e.treatment.space_not_mem_keyword h
  obtain ⟨hcategory, h⟩ := first_space_inj d.category.space_not_mem_name e.category.space_not_mem_name h
  obtain ⟨hkey, htreatment⟩ := Treatment.operand_inj hd he hkeyword h
  obtain ⟨category, key, treatment⟩ := d
  obtain ⟨category', key', treatment'⟩ := e
  obtain rfl : category = category' := SymbolCategory.name_inj hcategory
  obtain rfl : key = key' := hkey
  obtain rfl : treatment = treatment' := htreatment
  rfl

theorem map_text_inj {ds es : List Directive} (hd : ∀ d ∈ ds, ' ' ∉ d.key.toList)
    (he : ∀ e ∈ es, ' ' ∉ e.key.toList) (h : ds.map text = es.map text) : ds = es := by
  induction ds generalizing es with
  | nil => exact (List.map_eq_nil_iff.1 h.symm).symm
  | cons d ds ih =>
    cases es with
    | nil => cases h
    | cons e es =>
      rw [List.forall_mem_cons] at hd he
      obtain ⟨hfirst, hrest⟩ := List.cons.inj h
      rw [text_inj hd.1 he.1 hfirst, ih hd.2 he.2 hrest]

end Directive

namespace Saying

variable {s t : Saying}

theorem key_of_mem_directives {d : Directive} (h : d ∈ s.directives) : d.key = s.key ∧ d.category = s.category := by
  obtain ⟨treatment, -, rfl⟩ := List.mem_map.1 h
  exact ⟨rfl, rfl⟩

theorem directives_eq_nil_iff : s.directives = [] ↔ s.isSilent := by
  simp [directives, treatments, isSilent, and_assoc]

theorem eq_of_treatments (hc : s.category = t.category) (hk : s.key = t.key) (h : s.treatments = t.treatments) :
    s = t := by
  obtain ⟨category, key, set, color, hidden⟩ := s
  obtain ⟨category', key', set', color', hidden'⟩ := t
  cases set <;> cases color <;> cases hidden <;> cases set' <;> cases color' <;> cases hidden' <;>
    simp_all [treatments]

theorem directives_inj (hs : s.directives ≠ []) (h : s.directives = t.directives) : s = t := by
  obtain ⟨d, hd⟩ := List.exists_mem_of_ne_nil _ hs
  obtain ⟨hkey, hcategory⟩ := key_of_mem_directives hd
  obtain ⟨hkey', hcategory'⟩ := key_of_mem_directives (h ▸ hd)
  have htreatments : s.directives.map Directive.treatment = t.directives.map Directive.treatment := by rw [h]
  rw [directives, directives, List.map_map, List.map_map] at htreatments
  exact eq_of_treatments (hcategory.symm.trans hcategory') (hkey.symm.trans hkey')
    (by simpa [Function.comp_def] using htreatments)

/-- The directives of one entry stand together, apart from those of entries with other keys. -/
theorem filter_directives {ss : List Saying} (h : s.key ∉ ss.map key) :
    (s.directives ++ ss.flatMap directives).filter (·.key = s.key) = s.directives := by
  have hown : s.directives.filter (·.key = s.key) = s.directives :=
    List.filter_eq_self.2 fun d hd => decide_eq_true (key_of_mem_directives hd).1
  have hothers : (ss.flatMap directives).filter (·.key = s.key) = [] := by
    refine List.filter_eq_nil_iff.2 fun d hd he => h ?_
    obtain ⟨other, hin, hd⟩ := List.mem_flatMap.1 hd
    rw [← of_decide_eq_true he, (key_of_mem_directives hd).1]
    exact List.mem_map_of_mem hin
  rw [List.filter_append, hown, hothers, List.append_nil]

theorem flatMap_directives_inj {ss ts : List Saying} (hs : ∀ s ∈ ss, s.directives ≠ [])
    (ht : ∀ t ∈ ts, t.directives ≠ []) (hks : (ss.map key).Nodup) (hkt : (ts.map key).Nodup)
    (h : ss.flatMap directives = ts.flatMap directives) : ss = ts := by
  induction ss generalizing ts with
  | nil =>
    cases ts with
    | nil => rfl
    | cons t ts =>
      rw [List.flatMap_cons] at h
      exact absurd (List.append_eq_nil_iff.1 h.symm).1 (ht t List.mem_cons_self)
  | cons s ss ih =>
    cases ts with
    | nil =>
      rw [List.flatMap_cons] at h
      exact absurd (List.append_eq_nil_iff.1 h).1 (hs s List.mem_cons_self)
    | cons t ts =>
      rw [List.forall_mem_cons] at hs ht
      obtain ⟨hsk, hks⟩ := List.nodup_cons.1 hks
      obtain ⟨htk, hkt⟩ := List.nodup_cons.1 hkt
      rw [List.flatMap_cons, List.flatMap_cons] at h
      have hkey : s.key = t.key := by
        have hhead := congrArg List.head? h
        rw [List.head?_append_of_ne_nil _ hs.1, List.head?_append_of_ne_nil _ ht.1] at hhead
        obtain ⟨d, hd⟩ := Option.ne_none_iff_exists'.1 (List.head?_eq_none_iff.not.2 hs.1)
        rw [← (key_of_mem_directives (List.mem_of_mem_head? hd)).1,
          ← (key_of_mem_directives (List.mem_of_mem_head? (hhead ▸ hd))).1]
      have hdirectives : s.directives = t.directives := by
        rw [← filter_directives hsk, h, hkey, filter_directives htk]
      rw [hdirectives] at h
      rw [directives_inj hs.1 hdirectives, ih hs.2 ht.2 hks hkt (List.append_cancel_left h)]

theorem flatMap_directives_filter (ss : List Saying) :
    (ss.filter (!·.isSilent)).flatMap directives = ss.flatMap directives := by
  induction ss with
  | nil => rfl
  | cons s ss ih =>
    rw [List.filter_cons, List.flatMap_cons]
    cases hs : s.isSilent with
    | true =>
      rw [directives_eq_nil_iff.2 hs]
      exact ih
    | false => exact congrArg (s.directives ++ ·) ih

end Saying

variable {a b : SymbolTable}

theorem keys_sayings (table : SymbolTable) (default : Value) : (sayings table default).map Saying.key = table.keys := by
  rw [sayings, List.map_map]
  rfl

theorem key_of_mem_flatMap {table : SymbolTable} {default : Value} {d : Directive}
    (h : d ∈ (sayings table default).flatMap Saying.directives) : d.key ∈ table.keys := by
  obtain ⟨s, hs, hd⟩ := List.mem_flatMap.1 h
  rw [(Saying.key_of_mem_directives hd).1, ← keys_sayings table default]
  exact List.mem_map_of_mem hs

theorem directives_eq_nil_iff {key : String} {override : SymbolOverride} {default : Value} :
    directives key override default = [] ↔ (saying default key override).isSilent := by
  rw [directives_eq, List.map_eq_nil_iff, Saying.directives_eq_nil_iff]

/-- Two tables have the same directives exactly when their entries say the same, one after the other, apart from
those that say nothing. The directives of an entry stand together, in the order of the table, and are none
exactly when it says nothing. -/
theorem tableDirectives_eq_iff (ha : ∀ key ∈ a.keys, ' ' ∉ key.toList)
    (hb : ∀ key ∈ b.keys, ' ' ∉ key.toList) (d e : Value) :
    (tableDirectives a d = tableDirectives b e ↔
        (sayings a d).filter (!·.isSilent) = (sayings b e).filter (!·.isSilent)) ∧
      (tableDirectives a d = (sayings a d).flatMap fun s => s.directives.map Directive.text) ∧
      ∀ key override, (key, override) ∈ a.entries →
        (directives key override d = [] ↔ (saying d key override).isSilent) := by
  refine ⟨⟨fun h => ?_, fun h => ?_⟩, ?_, fun key override _ => directives_eq_nil_iff⟩
  · have hspeaks (ss : List Saying) : ∀ s ∈ ss.filter (!·.isSilent), s.directives ≠ [] := fun s hs hnil => by
      simpa [Saying.directives_eq_nil_iff.1 hnil] using (List.mem_filter.1 hs).2
    have hkeys (table : SymbolTable) (default : Value) :
        (((sayings table default).filter (!·.isSilent)).map Saying.key).Nodup := by
      have hnodup : ((sayings table default).map Saying.key).Nodup := by
        rw [keys_sayings]
        exact table.nodup
      exact hnodup.sublist (List.filter_sublist.map _)
    rw [tableDirectives_eq, tableDirectives_eq] at h
    have hdirectives := Directive.map_text_inj (fun _ hin => ha _ (key_of_mem_flatMap hin))
      (fun _ hin => hb _ (key_of_mem_flatMap hin)) h
    refine Saying.flatMap_directives_inj (hspeaks _) (hspeaks _) (hkeys a d) (hkeys b e) ?_
    rw [Saying.flatMap_directives_filter, Saying.flatMap_directives_filter, hdirectives]
  · rw [tableDirectives_eq, tableDirectives_eq, ← Saying.flatMap_directives_filter, h,
      Saying.flatMap_directives_filter]
  · rw [tableDirectives_eq, List.map_flatMap]

def openTable : SymbolTable :=
  .ofList
    [("wall", { type := "wall", category := .line, color := some "#ff0000" }),
     ("pit", { type := "pit", category := .point, visible := false, symbolSet := some "SKBB" })]

def closedTable : SymbolTable :=
  .ofList
    [("bat", { type := "bat", category := .point, symbolSet := some "DEFAULT" }),
     ("wall", { type := "wall", category := .line, color := some "#fe0000", symbolSet := some "UIS" }),
     ("pit", { type := "pit", category := .point, visible := false, color := some "", symbolSet := some "SKBB" })]

theorem tableDirectives_eq_iff_open_closed :
    (∀ key ∈ openTable.keys, ' ' ∉ key.toList) ∧ (∀ key ∈ closedTable.keys, ' ' ∉ key.toList) ∧
      tableDirectives openTable (.text "UIS") = tableDirectives closedTable (.text "DEFAULT") := by
  have hopen : ∀ key ∈ openTable.keys, ' ' ∉ key.toList := by decide
  have hclosed : ∀ key ∈ closedTable.keys, ' ' ∉ key.toList := by decide
  refine ⟨hopen, hclosed, (tableDirectives_eq_iff hopen hclosed _ _).1.2 ?_⟩
  decide +kernel

end Symbol

end CaveMap
