import CaveMap.Proofs.Files.Refusal

namespace CaveMap

/-- A path to a name, straight down, that the system looks up with the suffix of the temporary file behind it. -/
structure Path.Downward (p : Path) : Prop where
  named : p.Named
  name : p.name ≠ ""
  down : ".." ∉ p.names
  acceptable : p.temporary.Acceptable
  short : ∀ name ∈ p.temporary.names, name.utf8ByteSize ≤ FileTree.maxName

/-- A place in which another one lies. -/
def Above (q place : List String) : Prop := q <+: place ∧ q ≠ place

namespace FileTree

variable {tree : FileTree} {p : Path} {q : List String}

theorem onWay_down {start names : List String} (hstart : ".." ∉ start) (hnames : ".." ∉ names) :
    OnWay start names q ↔ ∃ front, front <+: names ∧ q = start ++ front := by
  refine exists_congr fun front => and_congr_right fun hfront => ?_
  rw [Path.stepBack_append_names fun hin => hnames (hfront.subset hin), Path.stepBack_names hstart]

section Down

variable (h : tree.Proper) (hp : p.Downward)

include hp

theorem parent_down : ".." ∉ p.parent.names := fun hin =>
  hp.down (by rw [Path.names_eq hp.name]; exact List.mem_append_left _ hin)

theorem name_down : p.name ≠ ".." := fun he =>
  hp.down (by rw [Path.names_eq hp.name, he]; exact List.mem_append_right _ List.mem_cons_self)

include h

theorem way_down :
    Path.stepBack (tree.origin p.slashes ++ p.parent.names) = tree.origin p.slashes ++ p.parent.names := by
  rw [Path.stepBack_append_names (parent_down hp), Path.stepBack_names (h.not_mem_origin _)]

theorem place_down : p.place tree.working = tree.origin p.slashes ++ p.parent.names ++ [p.name] := by
  have hname : ".." ∉ [p.name] := by simpa [eq_comm] using name_down hp
  rw [Path.place_eq, Path.names_eq hp.name, ← List.append_assoc, Path.stepBack_append_names hname, way_down h hp]

theorem temporary_down : p.temporary.place tree.working =
    tree.origin p.slashes ++ p.parent.names ++ [p.name ++ temporarySuffix] := by
  rw [temporary_place_eq, way_down h hp]

theorem above_of_onWay (hq : OnWay (tree.origin p.slashes) p.parent.names q) : Above q (p.place tree.working) := by
  obtain ⟨front, hfront, rfl⟩ := (onWay_down (h.not_mem_origin _) (parent_down hp)).1 hq
  have hbegins : tree.origin p.slashes ++ front <+: tree.origin p.slashes ++ p.parent.names :=
    (List.prefix_append_right_inj _).2 hfront
  rw [place_down h hp]
  refine ⟨hbegins.trans (List.prefix_append _ _), fun he => ?_⟩
  have hlength := hbegins.length_le
  rw [he, List.length_append, List.length_singleton] at hlength
  omega

theorem onWay_of_above (hq : Above q (p.place tree.working)) :
    OnWay (tree.origin p.slashes) p.parent.names q ∨ tree.get? q = some .directory := by
  obtain ⟨hbegins, hne⟩ := hq
  rw [place_down h hp] at hbegins hne
  have hway := (List.prefix_concat_iff.1 hbegins).resolve_left hne
  rcases List.prefix_or_prefix_of_prefix hway (List.prefix_append _ _) with hstart | ⟨front, rfl⟩
  · obtain ⟨back, hback⟩ := hstart
    exact .inr (h.directory_of_prefix (hback ▸ h.origin_directory p.slashes))
  · refine .inl ((onWay_down (h.not_mem_origin _) (parent_down hp)).2 ⟨front, ?_, rfl⟩)
    exact (List.prefix_append_right_inj _).1 hway

theorem not_above_temporary : ¬ Above (p.temporary.place tree.working) (p.place tree.working) := by
  rintro ⟨hbegins, hne⟩
  refine hne (hbegins.eq_of_length ?_)
  rw [place_down h hp, temporary_down h hp]
  simp only [List.length_append, List.length_singleton]

/-- The directories can be made just where no file is above the one to be written. -/
theorem passable_down : tree.Passable p.slashes p.parent.names ↔
    ¬ ∃ q bytes, Above q (p.place tree.working) ∧ tree.get? q = some (.file bytes) := by
  constructor
  · rintro hpassable ⟨q, bytes, habove, hfile⟩
    rcases onWay_of_above h hp habove with hway | hdirectory
    · exact hpassable.clear q hway bytes hfile
    · rw [hfile] at hdirectory
      cases hdirectory
  · intro hnone
    refine ⟨hp.acceptable.front, fun name hin => .inr (hp.short name (List.mem_append_left _ hin)), ?_⟩
    exact fun q hway bytes hfile => hnone ⟨q, bytes, above_of_onWay h hp hway, hfile⟩

theorem room_down (hfree : tree.get? (p.temporary.place tree.working) = none) : tree.Room p where
  acceptable := hp.acceptable
  short := hp.short _ (List.mem_append_right _ List.mem_cons_self)
  free := ⟨by simp [hfree], fun hway => not_above_temporary h hp (above_of_onWay h hp hway)⟩

theorem admits_down (hroom : tree.Room p) (hway : tree.Passable p.slashes p.parent.names)
    (hfile : tree.get? (p.place tree.working) ≠ some .directory) : tree.Admits p where
  isName := hp.named.name.resolve_left hp.name
  acceptable := hroom.acceptable_target hp.name
  acceptableTemporary := hp.acceptable
  short := hroom.short
  shortWay := hway.short
  downward := name_down hp
  clear := hway.clear
  free := by
    simp only [List.forall_mem_cons, List.not_mem_nil, false_imp_iff, implies_true, and_true]
    exact ⟨⟨hfile, fun hon => (above_of_onWay h hp hon).2 rfl⟩, hroom.free⟩

end Down

/-- What writing a file comes to: it fails where a directory stands at the place or a file above it, and keeps
everything then; otherwise the file is there and everything else is kept. -/
structure Whole (tree : FileTree) (p : Path) (bytes : List UInt8) (tree' : FileTree)
    (result : Except WriteFault Unit) : Prop where
  fails_iff : (∃ fault, result = .error fault) ↔ tree.get? (p.place tree.working) = some .directory ∨
    ∃ q others, Above q (p.place tree.working) ∧ tree.get? q = some (.file others)
  written : result = .ok () → tree'.get? (p.place tree.working) = some (.file bytes)
  kept : ∀ q entry, tree.get? q = some entry → q ≠ p.place tree.working ∨ result ≠ .ok () →
    tree'.get? q = some entry
  temporary : tree'.get? (p.temporary.place tree.working) = none
  new : ∀ q entry, tree.get? q = none → tree'.get? q = some entry →
    (q = p.place tree.working ∧ result = .ok ()) ∨ (entry = .directory ∧ Above q (p.place tree.working))

section Extends

variable {made : FileTree} {above : List String → Prop} (hext : tree.Extends made above)

include hext

theorem Extends.new {entry : FileEntry} (hnone : tree.get? q = none) (hentry : made.get? q = some entry) :
    entry = .directory ∧ above q := by
  rcases hext.entries q with hsame | ⟨-, hdirectory, habove⟩
  · rw [hsame, hnone] at hentry
    cases hentry
  · rw [hdirectory] at hentry
    cases hentry
    exact ⟨rfl, habove⟩

theorem Extends.get?_eq_none (hnone : tree.get? q = none) (hnot : ¬ above q) : made.get? q = none := by
  rcases hext.entries q with hsame | ⟨-, -, habove⟩
  · rw [hsame, hnone]
  · exact absurd habove hnot

end Extends

section Writing

variable {bytes : List UInt8} (h : tree.Proper) (hp : p.Downward)
  (hfree : tree.get? (p.temporary.place tree.working) = none)

include h hp hfree

theorem whole_of_admits (hadmits : tree.Admits p) :
    tree.Whole p bytes (tree.writeAtomically p bytes).1 (tree.writeAtomically p bytes).2 := by
  obtain ⟨made, hwrite, hway, hmade, -⟩ := writeAtomically_moved h hadmits bytes
  have hext := hway.mono fun q => above_of_onWay h hp
  have hget (q : List String) : (made.moved p bytes).get? q = if q = p.place tree.working then some (.file bytes)
      else if q = p.temporary.place tree.working then none else made.get? q := by
    rw [get?_moved hmade, hext.working]
  rw [hwrite]
  refine ⟨iff_of_false (by simp) ?_, fun _ => ?_, fun q entry hentry hne => ?_, ?_, fun q entry hnone hentry => ?_⟩
  · rintro (hdirectory | habove)
    · exact (hadmits.free _ List.mem_cons_self).1 hdirectory
    · exact (passable_down h hp).1 hadmits.way habove
  · rw [hget, if_pos rfl]
  · have hplace : q ≠ p.place tree.working := hne.resolve_right (not_not_intro rfl)
    have htemporary : q ≠ p.temporary.place tree.working := by
      rintro rfl
      rw [hfree] at hentry
      cases hentry
    rw [hget, if_neg hplace, if_neg htemporary]
    exact hext.get?_eq hentry
  · rw [hget, if_neg hadmits.places_ne, if_pos rfl]
  · rw [hget] at hentry
    by_cases hplace : q = p.place tree.working
    · exact .inl ⟨hplace, rfl⟩
    · by_cases htemporary : q = p.temporary.place tree.working
      · rw [if_neg hplace, if_pos htemporary] at hentry
        cases hentry
      · rw [if_neg hplace, if_neg htemporary] at hentry
        exact .inr (hext.new hnone hentry)

/-- A failure behind which nothing is new but directories above the file. -/
theorem whole_of_extends {tree' : FileTree} {fault : WriteFault}
    (hext : tree.Extends tree' (Above · (p.place tree.working)))
    (hreason : tree.get? (p.place tree.working) = some .directory ∨
      ∃ q others, Above q (p.place tree.working) ∧ tree.get? q = some (.file others)) :
    tree.Whole p bytes tree' (.error fault) where
  fails_iff := iff_of_true ⟨fault, rfl⟩ hreason
  written hok := by cases hok
  kept _ _ hentry _ := hext.get?_eq hentry
  temporary := hext.get?_eq_none hfree (not_above_temporary h hp)
  new _ _ hnone hentry := .inr (hext.new hnone hentry)

theorem whole_of_directory (hway : tree.Passable p.slashes p.parent.names)
    (hdirectory : tree.get? (p.place tree.working) = some .directory) :
    tree.Whole p bytes (tree.writeAtomically p bytes).1 (tree.writeAtomically p bytes).2 := by
  obtain ⟨made, fault, involved, hwrite, hmade⟩ := writeAtomically_unmoved h (hp.named.name.resolve_left hp.name) hway
    (room_down h hp hfree) (.inr (.inl hdirectory)) bytes
  have hext := hmade.mono fun q => above_of_onWay h hp
  have hne : p.temporary.place tree.working ≠ [] := by
    rw [temporary_place_eq]
    simp
  have hnone := hext.get?_eq_none hfree (not_above_temporary h hp)
  rw [hwrite]
  refine whole_of_extends h hp hfree ⟨hext.working, fun q => ?_⟩ (.inl hdirectory)
  rw [get?_erase _ hne, get?_set _ _ hne]
  by_cases hq : q = p.temporary.place tree.working
  · rw [if_pos hq, hq, hfree]
    exact .inl rfl
  · rw [if_neg hq, if_neg hq]
    exact hext.entries q

theorem whole_of_file (hway : ¬ tree.Passable p.slashes p.parent.names) :
    tree.Whole p bytes (tree.writeAtomically p bytes).1 (tree.writeAtomically p bytes).2 := by
  have hreason := not_not.1 fun hnone => hway ((passable_down h hp).2 hnone)
  have hmade := (ensureWay_extends (h.not_mem_origin p.slashes) p.parent.names.reverse).1
  rw [List.reverse_reverse] at hmade
  change tree.Extends (tree.makeDirectories p.parent).1 _ at hmade
  unfold writeAtomically
  cases hresult : tree.makeDirectories p.parent with
  | mk made result =>
    cases result with
    | ok => exact absurd (passable_of_make h hresult) hway
    | error fault =>
      rw [hresult] at hmade
      exact whole_of_extends h hp hfree (hmade.mono fun q => above_of_onWay h hp) (.inr hreason)

/-- On a path straight down, with nothing at the temporary path, a file is written whole or not at all. -/
theorem writeAtomically_whole (bytes : List UInt8) :
    tree.Whole p bytes (tree.writeAtomically p bytes).1 (tree.writeAtomically p bytes).2 := by
  by_cases hway : tree.Passable p.slashes p.parent.names
  · by_cases hdirectory : tree.get? (p.place tree.working) = some .directory
    · exact whole_of_directory h hp hfree hway hdirectory
    · exact whole_of_admits h hp hfree (admits_down h hp (room_down h hp hfree) hway hdirectory)
  · exact whole_of_file h hp hfree hway

end Writing

def workshop : FileTree :=
  { entries := [(["maps"], .directory), (["maps", "layout.thl"], .file [1]), (["maps", "thconfig"], .file [2]),
      (["taken"], .file [3])]
    working := ["maps"] }

theorem proper_workshop : workshop.Proper := .of_entries (by decide) (by decide)

theorem downward_workshop : ∀ text ∈ ["out/a4/layout.thl", "/taken/layout.thl"],
    (Path.ofString text).Downward ∧ workshop.get? ((Path.ofString text).temporary.place ["maps"]) = none := by
  have hpaths : ∀ text ∈ ["out/a4/layout.thl", "/taken/layout.thl"],
      (Path.ofString text).name ≠ "" ∧ ".." ∉ (Path.ofString text).names ∧
        (∀ name ∈ (Path.ofString text).temporary.names, '\x00' ∉ name.toList) ∧
        (Path.ofString text).temporary.text.utf8ByteSize ≤ maxPath ∧
        (∀ name ∈ (Path.ofString text).temporary.names, name.utf8ByteSize ≤ maxName) ∧
        workshop.get? ((Path.ofString text).temporary.place ["maps"]) = none := by
    decide
  intro text hin
  obtain ⟨hname, hdown, hnulls, hlength, hshort, hfree⟩ := hpaths text hin
  exact ⟨⟨Path.named_ofString text, hname, hdown, ⟨hnulls, hlength⟩, hshort⟩, hfree⟩

/-- One path goes along missing directories, the other one below a file. -/
theorem writeAtomically_whole_workshop :
    workshop.Proper ∧
      ((Path.ofString "out/a4/layout.thl").Downward ∧
        workshop.get? ((Path.ofString "out/a4/layout.thl").temporary.place ["maps"]) = none ∧
        workshop.Whole (.ofString "out/a4/layout.thl") [7]
          (workshop.writeAtomically (.ofString "out/a4/layout.thl") [7]).1
          (workshop.writeAtomically (.ofString "out/a4/layout.thl") [7]).2) ∧
      (Path.ofString "/taken/layout.thl").Downward ∧
        workshop.get? ((Path.ofString "/taken/layout.thl").temporary.place ["maps"]) = none ∧
        workshop.Whole (.ofString "/taken/layout.thl") [7]
          (workshop.writeAtomically (.ofString "/taken/layout.thl") [7]).1
          (workshop.writeAtomically (.ofString "/taken/layout.thl") [7]).2 := by
  obtain ⟨hout, hfree⟩ := downward_workshop "out/a4/layout.thl" (by decide)
  obtain ⟨hbelow, hfree'⟩ := downward_workshop "/taken/layout.thl" (by decide)
  exact ⟨proper_workshop, ⟨hout, hfree, writeAtomically_whole proper_workshop hout hfree [7]⟩,
    hbelow, hfree', writeAtomically_whole proper_workshop hbelow hfree' [7]⟩

end FileTree

end CaveMap
