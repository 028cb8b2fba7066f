import CaveMap.Proofs.Session.Files
import CaveMap.Proofs.Text.Words
import CaveMap.Proofs.Value

namespace CaveMap

open Text

namespace SymbolCategory

theorem ofName?_name (category : SymbolCategory) : ofName? category.name = some category := by
  cases category <;> decide

theorem isWord_name (category : SymbolCategory) : IsWord category.name.toList := by
  cases category <;> decide

end SymbolCategory

namespace Drawing

def typePlace? (first : String) : Option Nat :=
  if first = "point" then some 3 else if first = "line" ∨ first = "area" then some 1 else none

def named? (words : List String) : Option (String × String) := do
  let first ← words.head?
  let place ← typePlace? first
  return (first, ← words[place]?)

/-- The symbol types that a drawing names, one line after the other. -/
def named (content : String) : List (String × String) :=
  (lines content.toList).filterMap fun line => named? ((words line).map String.ofList)

theorem named?_words (line : List Char) :
    named? ((words line).map String.ofList) =
      (usedSymbol? line).map fun (category, type) => (category.name, type) := by
  unfold usedSymbol?
  generalize (words line).map String.ofList = parts
  split
  · rfl
  · rfl
  · rfl
  · next hpoint hline harea =>
    cases parts with
    | nil => rfl
    | cons first rest =>
      unfold named? typePlace?
      rw [List.head?_cons]
      by_cases hp : first = "point"
      · subst hp
        match rest with
        | [] => rfl
        | [_] => rfl
        | [_, _] => rfl
        | _ :: _ :: type :: more => exact absurd rfl (hpoint _ _ type more)
      · by_cases hl : first = "line" ∨ first = "area"
        · cases rest with
          | nil => simp [hp, hl]
          | cons type more =>
            rcases hl with rfl | rfl
            · exact absurd rfl (hline type more)
            · exact absurd rfl (harea type more)
        · simp [hp, hl]

theorem named_eq (content : String) :
    named content = (uses content).map fun (category, type) => (category.name, type) := by
  unfold named uses
  rw [List.map_filterMap]
  exact congrArg (List.filterMap · _) (funext named?_words)

theorem isWord_of_usedSymbol? {line : List Char} {use : SymbolCategory × String} (h : usedSymbol? line = some use) :
    IsWord use.2.toList := by
  have hword : use.2 ∈ (words line).map String.ofList := by
    unfold usedSymbol? at h
    split at h
    · next he => cases h; simp [he]
    · next he => cases h; simp [he]
    · next he => cases h; simp [he]
    · cases h
  obtain ⟨word, hin, he⟩ := List.mem_map.1 hword
  rw [← he, String.toList_ofList]
  exact isWord_of_mem_words hin

variable {content key : String}

theorem isWord_of_mem_uses {use : SymbolCategory × String} (h : use ∈ uses content) : IsWord use.2.toList := by
  obtain ⟨line, -, hline⟩ := List.mem_filterMap.1 h
  exact isWord_of_usedSymbol? hline

/-- One more symbol type for a table; its override has to pass the check of overrides. -/
def addNamed (table : SymbolTable) (name : String × String) : Except OverrideFault SymbolTable :=
  if table.contains name.2 then return table
  else do
    let override ←
      SymbolOverride.make name.2 (.text name.1) true (some scannedColor) (some Symbol.deferredSet)
    return table.insert name.2 override

def checkedScan (content : String) : Except OverrideFault SymbolTable :=
  (named content).foldlM addNamed ∅

theorem make_scanned (category : SymbolCategory) {type : String} (h : type ≠ "") :
    SymbolOverride.make type (.text category.name) true (some scannedColor) (some Symbol.deferredSet) =
      .ok (scannedOverride category type) := by
  have hfilled : ¬ type.isEmpty := by simpa using h
  have hknown : (Value.text category.name).text?.bind SymbolCategory.ofName? = some category :=
    category.ofName?_name
  unfold SymbolOverride.make
  rw [if_neg hfilled, hknown]
  rfl

theorem foldlM_addNamed {found : List (SymbolCategory × String)} (h : ∀ use ∈ found, use.2 ≠ "")
    (table : SymbolTable) :
    (found.map fun (category, type) => (category.name, type)).foldlM addNamed table =
      .ok (table.fill (found.map entryOf)) := by
  induction found generalizing table with
  | nil => rfl
  | cons use rest ih =>
    obtain ⟨category, type⟩ := use
    rw [List.forall_mem_cons] at h
    have hstep : addNamed table (category.name, type) =
        .ok (if table.contains type then table else table.insert type (scannedOverride category type)) := by
      unfold addNamed
      rw [make_scanned category h.1]
      cases table.contains type <;> rfl
    rw [List.map_cons, List.foldlM_cons, hstep]
    exact ih h.2 _

theorem checkedScan_eq (content : String) : checkedScan content = .ok (scan content) := by
  rw [checkedScan, named_eq, foldlM_addNamed fun use hin he => ?_]
  · rfl
  · exact (isWord_of_mem_uses hin).ne_nil (by rw [he]; rfl)

theorem keys_scan (content : String) : (scan content).keys = ((named content).map (·.2)).eraseDups := by
  rw [scan_eq, Table.keys_fill_empty, named_eq, List.map_map, List.map_map]
  rfl

theorem lookup_entryOf (key : String) (found : List (SymbolCategory × String)) :
    (found.map entryOf).lookup key = (found.find? (·.2 = key)).map fun use => scannedOverride use.1 key := by
  induction found with
  | nil => rfl
  | cons use rest ih =>
    obtain ⟨category, type⟩ := use
    have hentry : entryOf (category, type) = (type, scannedOverride category type) := rfl
    rw [List.map_cons, hentry, List.lookup_cons, List.find?_cons]
    by_cases he : type = key
    · simp [he]
    · have hne : (key == type) = false := beq_eq_false_iff_ne.2 (Ne.symm he)
      simp [he, hne, ih]

theorem get?_scan (h : key ∈ (scan content).keys) : ∃ category : SymbolCategory,
    ((named content).find? (·.2 = key)).map (·.1) = some category.name ∧
      (scan content).get? key = some (scannedOverride category key) := by
  have hlookup : (scan content).get? key = ((uses content).map entryOf).lookup key := by
    rw [scan_eq, Table.get?_fill]
    exact Option.none_or
  obtain ⟨override, hget⟩ := Option.isSome_iff_exists.1 (Table.contains_iff.2 h)
  rw [hlookup, lookup_entryOf] at hget ⊢
  obtain ⟨use, hfind, rfl⟩ := Option.map_eq_some_iff.1 hget
  refine ⟨use.1, ?_, by rw [hfind]; rfl⟩
  rw [named_eq, List.find?_map]
  change Option.map _ (Option.map _ ((uses content).find? (·.2 = key))) = _
  rw [hfind]
  rfl

theorem isWord_of_mem_keys (h : key ∈ (scan content).keys) : IsWord key.toList := by
  rw [scan_eq, Table.mem_keys_fill_empty] at h
  obtain ⟨entry, hentry, rfl⟩ := List.mem_map.1 h
  obtain ⟨use, huse, rfl⟩ := List.mem_map.1 hentry
  exact isWord_of_mem_uses huse

theorem eq_scannedOverride {override : SymbolOverride} (h : (key, override) ∈ (scan content).entries) :
    override = scannedOverride override.category key := by
  rcases Table.mem_entries_fill h with hin | hin
  · exact absurd hin List.not_mem_nil
  · obtain ⟨use, -, he⟩ := List.mem_map.1 hin
    cases he
    rfl

theorem scan_entry {override : SymbolOverride} (h : (key, override) ∈ (scan content).entries) :
    key ≠ "" ∧ override.type = key := by
  refine ⟨?_, by rw [eq_scannedOverride h]; rfl⟩
  rintro rfl
  exact (isWord_of_mem_keys (List.mem_map_of_mem h)).ne_nil rfl

theorem uses_eq_filled (content : String) :
    uses content = ((lines content.toList).filter (!·.isEmpty)).filterMap usedSymbol? := by
  rw [uses, List.filterMap_filter]
  refine List.filterMap_congr fun line _ => ?_
  cases line with
  | nil => rfl
  | cons c rest => rfl

theorem uses_append (front back : String) : uses (front ++ "\n" ++ back) = uses front ++ uses back := by
  have hfeed : "\n".toList = ['\n'] := rfl
  simp only [uses_eq_filled, String.toList_append, hfeed, List.append_assoc, List.singleton_append]
  rw [filled_lines_append, List.filterMap_append]

theorem scan_append (front back : String) : scan (front ++ "\n" ++ back) = (scan front).fill (scan back).entries := by
  simp only [scan_eq, uses_append, List.map_append, Table.fill_append, Table.fill_fill_empty]

/-- What both drawings use is kept as the first one uses it. -/
theorem entries_scan_append (front back : String) :
    (scan (front ++ "\n" ++ back)).entries =
      (scan front).entries ++ (scan back).entries.filter (·.1 ∉ (scan front).keys) := by
  have hnodup : (((scan back).entries.filter (·.1 ∉ (scan front).keys)).map (·.1)).Nodup :=
    (scan back).nodup.sublist (List.filter_sublist.map _)
  rw [scan_append, Table.entries_fill, Table.firsts_of_nodup hnodup]

theorem wordsOf_directive {keyword : String} (hkeyword : IsWord keyword.toList) (category : SymbolCategory)
    (hkey : IsWord key.toList) (operand : String) :
    wordsOf (keyword ++ " " ++ (category.name ++ " " ++ key) ++ " " ++ operand) =
      [keyword, category.name, key] ++ wordsOf operand := by
  have hassoc : keyword ++ " " ++ (category.name ++ " " ++ key) ++ " " ++ operand =
      keyword ++ " " ++ (category.name ++ " " ++ (key ++ " " ++ operand)) := by
    simp only [String.append_assoc]
  rw [hassoc, wordsOf_append hkeyword, wordsOf_append category.isWord_name, wordsOf_append hkey]
  rfl

/-- The directives of a scanned symbol, in words: its symbol set if there is one to name, and its color. -/
def scannedWords (default key : String) (category : SymbolCategory) : List (List String) :=
  (if default = "" ∨ default = "DEFAULT" then [] else [["symbol-assign", category.name, key] ++ [default]]) ++
    [["symbol-color", category.name, key] ++ wordsOf "[0 0 0]"]

theorem deferredSet_defers : Symbol.defers (Symbol.ofOption (some Symbol.deferredSet)) := by
  simp [Symbol.defers, Symbol.ofOption]

theorem scannedColor_holds : (Symbol.ofOption (some scannedColor)).holds := by decide

theorem map_wordsOf_directives {default : String} (hdefault : ∀ c ∈ default.toList, isBlank c = false)
    (hkey : IsWord key.toList) (category : SymbolCategory) :
    (Symbol.directives key (scannedOverride category key) (.text default)).map wordsOf =
      scannedWords default key category := by
  have hset : Symbol.resolvedSet (scannedOverride category key) (.text default) = .text default :=
    if_pos deferredSet_defers
  have hcolored : (Symbol.ofOption (scannedOverride category key).color).holds = true := scannedColor_holds
  have hdefers : Symbol.defers (.text default) ↔ default = "" ∨ default = "DEFAULT" := by
    simp [Symbol.defers, Value.holds, Symbol.deferredSet]
  have hcolor : wordsOf ("symbol-color" ++ " " ++ (category.name ++ " " ++ key) ++ " " ++ "[0 0 0]") =
      ["symbol-color", category.name, key] ++ wordsOf "[0 0 0]" :=
    wordsOf_directive (by decide) category hkey _
  unfold Symbol.directives scannedWords
  dsimp only
  rw [hset, if_pos hcolored]
  by_cases hd : default = "" ∨ default = "DEFAULT"
  · rw [if_pos (hdefers.2 hd), if_pos hd]
    exact congrArg ([·]) hcolor
  · have hne : default ≠ "" := fun he => hd (.inl he)
    have hassign : wordsOf ("symbol-assign" ++ " " ++ (category.name ++ " " ++ key) ++ " " ++ default) =
        ["symbol-assign", category.name, key] ++ [default] := by
      rw [wordsOf_directive (by decide) category hkey, wordsOf_isWord ⟨by simpa using hne, hdefault⟩]
    rw [if_neg (fun h => hd (hdefers.1 h)), if_neg hd]
    exact congrArg₂ ([·, ·]) hassign hcolor

theorem map_wordsOf_tableDirectives {default : String} (hdefault : ∀ c ∈ default.toList, isBlank c = false)
    (content : String) :
    (Symbol.tableDirectives (scan content) (.text default)).map wordsOf =
      (scan content).entries.flatMap fun (key, override) => scannedWords default key override.category := by
  rw [Symbol.tableDirectives, List.map_flatMap]
  refine List.flatMap_congr fun entry hin => ?_
  obtain ⟨key, override⟩ := entry
  have hkey : IsWord key.toList := isWord_of_mem_keys (List.mem_map_of_mem hin)
  dsimp only
  rw [eq_scannedOverride hin]
  exact map_wordsOf_directives hdefault hkey override.category

/-- No scan fails. It finds the symbol types that lines name, each under the category of its first line, and all of
them words, which the directives of the scanned symbols keep apart from the words around them. -/
theorem scan_finds_named (content : String) :
    checkedScan content = .ok (scan content) ∧
      (scan content).keys = ((named content).map (·.2)).eraseDups ∧
      (∀ key ∈ (scan content).keys,
        (∃ category : SymbolCategory, ((named content).find? (·.2 = key)).map (·.1) = some category.name ∧
          (scan content).get? key =
            some { type := key, category, visible := true, color := some "#000000", symbolSet := some "DEFAULT" }) ∧
        key ≠ "" ∧ ∀ c ∈ key.toList, isBlank c = false ∧ isLineEnd c = false) ∧
      ∀ default : String, (∀ c ∈ default.toList, isBlank c = false) →
        (Symbol.tableDirectives (scan content) (.text default)).map wordsOf =
          (scan content).entries.flatMap fun (key, override) => scannedWords default key override.category := by
  refine ⟨checkedScan_eq content, keys_scan content, fun key hkey => ⟨get?_scan hkey, ?_, fun c hc => ?_⟩,
    fun default hdefault => map_wordsOf_tableDirectives hdefault content⟩
  · rintro rfl
    exact (isWord_of_mem_keys hkey).ne_nil rfl
  · have hblank := (isWord_of_mem_keys hkey).not_isBlank c hc
    refine ⟨hblank, Bool.eq_false_iff.2 fun hend => ?_⟩
    rw [isBlank_of_isLineEnd hend] at hblank
    cases hblank

/-- Lines with too few words, with a type that was there before, and behind a line separator. -/
def sketch : String :=
  "point 10 20 station\r\nline wall -close on\u2028area\x09water  \npoint 1 wall\nline\narea wall\nscrap line pit"

theorem scan_finds_named_sketch :
    (∀ c ∈ "UIS".toList, isBlank c = false) ∧
      (Symbol.tableDirectives (scan sketch) (.text "UIS")).map wordsOf =
        [["symbol-assign", "point", "station", "UIS"], ["symbol-color", "point", "station", "[0", "0", "0]"],
         ["symbol-assign", "line", "wall", "UIS"], ["symbol-color", "line", "wall", "[0", "0", "0]"],
         ["symbol-assign", "area", "water", "UIS"], ["symbol-color", "area", "water", "[0", "0", "0]"]] := by
  have hword : IsWord "UIS".toList := by decide
  refine ⟨hword.not_isBlank, ((scan_finds_named sketch).2.2.2 "UIS" hword.not_isBlank).trans ?_⟩
  decide +kernel

end Drawing

end CaveMap
