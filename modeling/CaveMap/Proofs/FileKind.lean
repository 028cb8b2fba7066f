import CaveMap.Proofs.Path
import CaveMap.Proofs.Text.Words
import Mathlib.Data.List.TakeWhile

namespace CaveMap

namespace Text

/-- The second text is the first one in lower case, whatever stands there for letters whose lower case has no ASCII
character. -/
inductive Lowered : List Char → List Char → Prop
  | nil : Lowered [] []
  | letter (c : Char) {text low : List Char} : Lowered text low → Lowered (c :: text) (lowerLetters c ++ low)
  | foreign {c : Char} {letters text low : List Char} : 128 ≤ c.toNat → lowerLetters c = [c] → letters ≠ [] →
      (∀ d ∈ letters, 128 ≤ d.toNat) → Lowered text low → Lowered (c :: text) (letters ++ low)

theorem lowered_lower (text : List Char) : Lowered text (lower text) := by
  induction text with
  | nil => exact .nil
  | cons c rest ih =>
    rw [lower, List.flatMap_cons]
    exact ih.letter c

theorem mem_lowerLetters {mark : Char} (hmark : mark.toNat < 65) {c : Char} :
    mark ∈ lowerLetters c ↔ mark = c := by
  have hcapital : ∀ n < 91, 65 ≤ n → 65 ≤ (Char.ofNat (n + 32)).toNat := by decide
  have hle {a b : Char} (h : a ≤ b) : a.toNat ≤ b.toNat := UInt32.le_iff_toNat_le.1 h
  unfold lowerLetters
  split
  · next hc =>
    have hlow : 65 ≤ c.toNat := hle hc.1
    have hhigh : c.toNat ≤ 90 := hle hc.2
    have hother := hcapital c.toNat (by omega) hlow
    rw [List.mem_singleton]
    constructor <;> (rintro rfl; omega)
  · split
    · next hc =>
      have hi : 'i'.toNat = 105 := rfl
      have hdot : '\u0307'.toNat = 775 := rfl
      rw [List.mem_cons, List.mem_singleton]
      constructor
      · rintro (rfl | rfl) <;> omega
      · rintro rfl
        omega
    · next hc =>
      have hk : 'k'.toNat = 107 := rfl
      rw [List.mem_singleton]
      constructor <;> (rintro rfl; omega)
    · exact List.mem_singleton

theorem lowerLetters_ne_nil (c : Char) : lowerLetters c ≠ [] := by
  unfold lowerLetters
  split
  · exact List.cons_ne_nil _ _
  · split <;> exact List.cons_ne_nil _ _

namespace Lowered

variable {text low low' front back : List Char}

theorem eq_nil_iff (h : Lowered text low) : low = [] ↔ text = [] := by
  cases h with
  | nil => exact Iff.rfl
  | letter c _ => simp [lowerLetters_ne_nil]
  | foreign _ _ hne _ _ => simp [hne]

theorem mem_iff (h : Lowered text low) {mark : Char} (hmark : mark.toNat < 65) : mark ∈ low ↔ mark ∈ text := by
  induction h with
  | nil => exact Iff.rfl
  | letter c _ ih => rw [List.mem_append, List.mem_cons, mem_lowerLetters hmark, ih]
  | @foreign c letters text low hc _ _ hletters _ ih =>
    have hout : mark ∉ letters := fun hin => by
      have := hletters mark hin
      omega
    have hne : mark ≠ c := by
      rintro rfl
      omega
    rw [List.mem_append, List.mem_cons, ih]
    simp [hout, hne]

theorem split (h : Lowered (front ++ back) low) : ∃ f b, low = f ++ b ∧ Lowered front f ∧ Lowered back b := by
  induction front generalizing low with
  | nil => exact ⟨[], low, rfl, .nil, h⟩
  | cons c front ih =>
    cases h with
    | letter _ h =>
      obtain ⟨f, b, rfl, hf, hb⟩ := ih h
      exact ⟨_, b, (List.append_assoc _ _ _).symm, hf.letter c, hb⟩
    | foreign hc hself hne hletters h =>
      obtain ⟨f, b, rfl, hf, hb⟩ := ih h
      exact ⟨_, b, (List.append_assoc _ _ _).symm, .foreign hc hself hne hletters hf, hb⟩

theorem split_point (h : Lowered (front ++ '.' :: back) low) :
    ∃ f b, low = f ++ '.' :: b ∧ Lowered front f ∧ Lowered back b := by
  obtain ⟨f, b, rfl, hf, hb⟩ := h.split
  cases hb with
  | letter _ hb => exact ⟨f, _, rfl, hf, hb⟩
  | foreign hc _ _ _ _ => exact absurd hc (by decide)

theorem eq_point (h : Lowered text ['.']) : text = ['.'] := by
  have hpoint : '.' ∈ text := (h.mem_iff (by decide)).1 (List.mem_singleton_self _)
  obtain ⟨front, back, rfl⟩ := List.append_of_mem hpoint
  obtain ⟨f, b, hparts, hfront, hback⟩ := h.split_point
  obtain ⟨rfl, hb⟩ : f = [] ∧ ['.'] = '.' :: b := by
    cases f with
    | nil => exact ⟨rfl, hparts⟩
    | cons c f => simp at hparts
  obtain rfl : b = [] := (List.cons.inj hb).2.symm
  rw [hfront.eq_nil_iff.1 rfl, hback.eq_nil_iff.1 rfl, List.nil_append]

theorem eq_of_ascii (h : Lowered text low) (h' : Lowered text low') (hascii : ∀ c ∈ low, c.toNat < 128) :
    low = low' := by
  induction h generalizing low' with
  | nil =>
    cases h'
    rfl
  | letter c _ ih =>
    rw [List.forall_mem_append] at hascii
    cases h' with
    | letter _ h' => rw [ih h' hascii.2]
    | foreign hc hself _ _ _ =>
      rw [hself, List.forall_mem_singleton] at hascii
      omega
  | foreign _ _ hne hletters _ _ =>
    rw [List.forall_mem_append] at hascii
    obtain ⟨d, hd⟩ := List.exists_mem_of_ne_nil _ hne
    have hlow := hascii.1 d hd
    have hhigh := hletters d hd
    omega

theorem eq_iff_of_ascii (h : Lowered text low) (h' : Lowered text low') (name : List Char)
    (hascii : name.all fun c => c.toNat < 128) : low = name ↔ low' = name := by
  simp only [List.all_eq_true, decide_eq_true_eq] at hascii
  constructor
  · rintro rfl
    exact (h.eq_of_ascii h' hascii).symm
  · rintro rfl
    exact (h'.eq_of_ascii h hascii).symm

end Lowered

end Text

namespace FileKind

def components (path : List Char) : List (List Char) :=
  (path.splitOn '/').filter fun part => part ≠ [] ∧ part ≠ ['.']

theorem components_eq (path : List Char) :
    components path = (Text.pieces (· = '/') path).filter (· ≠ ['.']) := by
  rw [Text.pieces, Text.stretches_eq_splitOnP, List.filter_filter]
  refine List.filter_congr fun part _ => ?_
  cases part <;> simp

theorem lastComponent_eq (path : List Char) : lastComponent path = ((components path).getLast?).getD [] := by
  rw [lastComponent, components_eq]

theorem lastComponent_name {name : String} (h : Path.IsName name) : lastComponent name.toList = name.toList := by
  have hpieces := Path.pieces_joined (List.forall_mem_singleton.2 h)
  rw [String.intercalate_singleton, List.map_singleton] at hpieces
  have hpoint : name.toList ≠ ['.'] := fun he => h.2.2 (String.toList_inj.1 he)
  rw [lastComponent, hpieces, List.filter_cons_of_pos (by simpa using hpoint)]
  rfl

theorem lastComponent_append {name : String} (h : Path.IsName name) (directory : String) :
    lastComponent (directory ++ "/" ++ name).toList = name.toList := by
  have hname := lastComponent_name h
  have hslash : "/".toList = ['/'] := rfl
  rw [lastComponent] at hname ⊢
  rw [String.toList_append, String.toList_append, hslash, List.append_assoc, List.singleton_append,
    Text.pieces_append (by decide), List.filter_append]
  cases hlast : ((Text.pieces (· = '/') name.toList).filter (· ≠ ['.'])).getLast? with
  | none =>
    rw [hlast, Option.getD_none] at hname
    exact absurd (String.toList_inj.1 hname.symm) h.1
  | some last =>
    rw [hlast] at hname
    rw [List.getLast?_append, hlast]
    exact hname

theorem names_ofString (text : String) :
    (Path.ofString text).names = (components text.toList).map String.ofList := by
  change Path.namesOf text = _
  rw [Path.namesOf, List.filter_map, components_eq]
  congr 1
  refine List.filter_congr fun part _ => ?_
  simp [← String.toList_inj]

theorem name_ofString (text : String) : (Path.ofString text).name = String.ofList (lastComponent text.toList) := by
  rw [Path.name, names_ofString, List.getLast?_map, lastComponent_eq]
  cases (components text.toList).getLast? <;> rfl

theorem lastComponent_cases (text : String) :
    lastComponent text.toList = [] ∨ Path.IsName (String.ofList (lastComponent text.toList)) := by
  rw [← String.ofList_eq_empty_iff, ← name_ofString]
  exact (Path.named_ofString text).name

theorem lastComponent_ofList {name : List Char} (h : name = [] ∨ Path.IsName (String.ofList name)) :
    lastComponent name = name := by
  rcases h with rfl | h
  · rfl
  · have hself := lastComponent_name h
    rwa [String.toList_ofList] at hself

theorem isName_lowered {name low : List Char} (h : Path.IsName (String.ofList name))
    (hlow : Text.Lowered name low) : Path.IsName (String.ofList low) := by
  obtain ⟨hne, hslash, hpoint⟩ := h
  rw [String.toList_ofList] at hslash
  refine ⟨fun he => hne ?_, ?_, fun he => hpoint ?_⟩
  · rw [String.ofList_eq_empty_iff] at he ⊢
    exact hlow.eq_nil_iff.1 he
  · rwa [String.toList_ofList, hlow.mem_iff (by decide)]
  · rw [← String.toList_inj, String.toList_ofList] at he ⊢
    rw [he] at hlow
    exact hlow.eq_point

theorem ofFileName_name (text : String) : ofFileName (Path.ofString text).name = ofFileName text := by
  rw [ofFileName, name_ofString, String.toList_ofList, lastComponent_ofList (lastComponent_cases text), ofFileName]

theorem exists_last_point {name : List Char} (h : '.' ∈ name) :
    ∃ stem ext, name = stem ++ '.' :: ext ∧ '.' ∉ ext := by
  obtain ⟨ext, stem, hname, hext⟩ := List.eq_append_cons_of_mem (List.mem_reverse.2 h)
  refine ⟨stem.reverse, ext.reverse, ?_, by simpa using hext⟩
  rw [← List.reverse_reverse name, hname]
  simp

theorem suffix_append {stem ext : List Char} (h : '.' ∉ ext) :
    suffix (stem ++ '.' :: ext) = if stem = [] ∨ ext = [] then [] else '.' :: ext := by
  have hrun : ∀ c ∈ ext.reverse, decide (c ≠ '.') = true :=
    fun c hc => decide_eq_true fun he => h (he ▸ List.mem_reverse.1 hc)
  have htail : (stem ++ '.' :: ext).reverse.takeWhile (· ≠ '.') = ext.reverse := by
    rw [List.reverse_append, List.reverse_cons, List.append_assoc, List.takeWhile_append_of_pos hrun]
    simp
  have hlength : (stem ++ '.' :: ext).length ≤ ext.length + 1 ↔ stem = [] := by
    rw [List.length_append, List.length_cons, ← List.length_eq_zero_iff]
    omega
  unfold suffix
  rw [htail]
  simp only [List.isEmpty_reverse, List.isEmpty_iff, List.length_reverse, List.reverse_reverse, hlength, or_comm]

theorem suffix_of_not_mem {name : List Char} (h : '.' ∉ name) : suffix name = [] := by
  have htail : name.reverse.takeWhile (· ≠ '.') = name.reverse := by
    rw [List.takeWhile_eq_self_iff]
    exact fun c hc => decide_eq_true fun he => h (he ▸ List.mem_reverse.1 hc)
  unfold suffix
  rw [htail, if_pos (.inr (by simp))]

theorem suffix_eq (name : List Char) : ∃ stem, name = stem ++ suffix name ∧
    (suffix name = [] ∨ ∃ rest, rest ≠ [] ∧ suffix name = '.' :: rest) := by
  by_cases h : '.' ∈ name
  · obtain ⟨stem, ext, rfl, hext⟩ := exists_last_point h
    rw [suffix_append hext]
    split
    · exact ⟨_, (List.append_nil _).symm, .inl rfl⟩
    · next hends => exact ⟨stem, rfl, .inr ⟨ext, (not_or.1 hends).2, rfl⟩⟩
  · rw [suffix_of_not_mem h]
    exact ⟨name, (List.append_nil _).symm, .inl rfl⟩

def suffixKinds : List (String × FileKind) :=
  [("th", source), ("th2", drawing), ("thconfig", config), ("txt", text)]

/-- The kind of a file with a name in lower case. -/
inductive IsKindOf (name : List Char) : FileKind → Prop
  | config : name = "thconfig".toList → IsKindOf name config
  | suffix {stem ext : List Char} : name ≠ "thconfig".toList → name = stem ++ '.' :: ext → '.' ∉ ext →
      stem ≠ [] → ext ≠ [] → IsKindOf name ((suffixKinds.lookup (String.ofList ext)).getD other)
  | other : name ≠ "thconfig".toList →
      (∀ stem ext, name = stem ++ '.' :: ext → '.' ∉ ext → stem = [] ∨ ext = []) → IsKindOf name other

theorem IsKindOf.unique {name : List Char} {kind kind' : FileKind} (h : IsKindOf name kind)
    (h' : IsKindOf name kind') : kind = kind' := by
  cases h with
  | config hconfig =>
    cases h' with
    | config => rfl
    | suffix hne | other hne => exact absurd hconfig hne
  | suffix hne hname hext hstem hne' =>
    cases h' with
    | config hconfig => exact absurd hconfig hne
    | suffix _ hname' hext' =>
      obtain ⟨-, rfl⟩ := Text.last_mark_inj hext hext' (hname.symm.trans hname')
      rfl
    | other _ hends => exact ((hends _ _ hname hext).elim hstem hne').elim
  | other hne hends =>
    cases h' with
    | config hconfig => exact absurd hconfig hne
    | suffix _ hname hext hstem hne' => exact ((hends _ _ hname hext).elim hstem hne').elim
    | other => rfl

theorem ofSuffix_point (ext : List Char) :
    ofSuffix ('.' :: ext) = (suffixKinds.lookup (String.ofList ext)).getD other := by
  have hiff (name : String) : '.' :: ext = '.' :: name.toList ↔ String.ofList ext = name := by
    rw [← String.toList_inj, String.toList_ofList, List.cons.injEq, and_iff_right rfl]
  have hsource : '.' :: ext = ".th".toList ↔ String.ofList ext = "th" := hiff "th"
  have hdrawing : '.' :: ext = ".th2".toList ↔ String.ofList ext = "th2" := hiff "th2"
  have hconfig : '.' :: ext = ".thconfig".toList ↔ String.ofList ext = "thconfig" := hiff "thconfig"
  have htext : '.' :: ext = ".txt".toList ↔ String.ofList ext = "txt" := hiff "txt"
  unfold ofSuffix suffixKinds
  simp only [hsource, hdrawing, hconfig, htext, List.lookup_cons, List.lookup_nil]
  split_ifs with hth hth2 hthconfig htxt
  · rw [hth]
    rfl
  · rw [hth2]
    rfl
  · rw [hthconfig]
    rfl
  · rw [htxt]
    rfl
  · rw [beq_false_of_ne hth, beq_false_of_ne hth2, beq_false_of_ne hthconfig, beq_false_of_ne htxt]
    rfl

theorem ofSuffix_congr {a b : List Char}
    (h : ∀ name : List Char, (name.all fun c => c.toNat < 128) → (a = name ↔ b = name)) :
    ofSuffix a = ofSuffix b := by
  unfold ofSuffix
  simp only [h ".th".toList (by decide), h ".th2".toList (by decide), h ".thconfig".toList (by decide),
    h ".txt".toList (by decide)]

theorem isKindOf_ofFileName {text : String} {low : List Char} (h : Text.Lowered (lastComponent text.toList) low) :
    IsKindOf low (ofFileName text) := by
  unfold ofFileName
  generalize lastComponent text.toList = last at h
  have hlower := Text.lowered_lower last
  have hiff := h.eq_iff_of_ascii hlower "thconfig".toList (by decide)
  dsimp only
  by_cases hconfig : low = "thconfig".toList
  · rw [if_pos (hiff.1 hconfig)]
    exact .config hconfig
  rw [if_neg fun he => hconfig (hiff.2 he)]
  by_cases hpoint : '.' ∈ last
  · obtain ⟨stem, ext, rfl, hext⟩ := exists_last_point hpoint
    obtain ⟨lowStem, lowExt, rfl, hstem, hlowExt⟩ := h.split_point
    have hnot : '.' ∉ lowExt := fun hin => hext ((hlowExt.mem_iff (by decide)).1 hin)
    have hnot' : '.' ∉ Text.lower ext := fun hin => hext (((Text.lowered_lower ext).mem_iff (by decide)).1 hin)
    have hparts : Text.lower (stem ++ '.' :: ext) = Text.lower stem ++ '.' :: Text.lower ext := by
      rw [Text.lower, List.flatMap_append, List.flatMap_cons]
      rfl
    have hiffEnds : (Text.lower stem = [] ∨ Text.lower ext = []) ↔ (lowStem = [] ∨ lowExt = []) := by
      rw [(Text.lowered_lower stem).eq_nil_iff, (Text.lowered_lower ext).eq_nil_iff, hstem.eq_nil_iff,
        hlowExt.eq_nil_iff]
    rw [hparts, suffix_append hnot']
    by_cases hends : lowStem = [] ∨ lowExt = []
    · rw [if_pos (hiffEnds.2 hends)]
      refine .other hconfig fun stem' ext' he hext' => ?_
      obtain ⟨rfl, rfl⟩ := Text.last_mark_inj hnot hext' he
      exact hends
    · rw [if_neg fun he => hends (hiffEnds.1 he)]
      rw [not_or] at hends
      have hkind : ofSuffix ('.' :: Text.lower ext) = ofSuffix ('.' :: lowExt) := by
        refine ofSuffix_congr fun name hascii => ?_
        exact Text.Lowered.eq_iff_of_ascii ((Text.lowered_lower ext).letter '.') (hlowExt.letter '.') name hascii
      rw [hkind, ofSuffix_point]
      exact .suffix hconfig rfl hnot hends.1 hends.2
  · have hlow : '.' ∉ low := fun hin => hpoint ((h.mem_iff (by decide)).1 hin)
    rw [suffix_of_not_mem fun hin => hpoint ((hlower.mem_iff (by decide)).1 hin)]
    refine .other hconfig fun stem ext he _ => absurd ?_ hlow
    rw [he]
    exact List.mem_append_right stem List.mem_cons_self

theorem ofFileName_eq_path (text : String) :
    ofFileName text =
      let name := String.ofList (Text.lower (Path.ofString text).name.toList)
      if name = "thconfig" then config else ofSuffix (Path.ofString name).suffix.toList := by
  have hself : lastComponent (Text.lower (lastComponent text.toList)) = Text.lower (lastComponent text.toList) := by
    have hlow := Text.lowered_lower (lastComponent text.toList)
    exact lastComponent_ofList ((lastComponent_cases text).imp hlow.eq_nil_iff.2 (isName_lowered · hlow))
  have hconfig (base : List Char) : String.ofList base = "thconfig" ↔ base = "thconfig".toList := by
    rw [← String.toList_inj, String.toList_ofList]
  simp only [ofFileName, Path.suffix, name_ofString, String.toList_ofList, hself, hconfig]

end FileKind

end CaveMap
