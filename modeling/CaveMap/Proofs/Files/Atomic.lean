import CaveMap.Files.Access
import CaveMap.Proofs.FileKind
import CaveMap.Proofs.Files.Directories

namespace CaveMap

namespace Path

variable {slashes : Nat} {names : List String} {name : String}

theorem name_concat : (⟨slashes, names ++ [name]⟩ : Path).name = name := by
  simp [Path.name]

theorem parent_concat : (⟨slashes, names ++ [name]⟩ : Path).parent = ⟨slashes, names⟩ := by
  simp [parent]

theorem names_eq {p : Path} (h : p.name ≠ "") : p.names = p.parent.names ++ [p.name] := by
  obtain ⟨slashes, names⟩ := p
  cases names using List.reverseRecOn with
  | nil => exact absurd rfl h
  | append_singleton names name => rw [name_concat, parent_concat]

theorem place_eq (tree : FileTree) (p : Path) :
    p.place tree.working = stepBack (tree.origin p.slashes ++ p.names) := by
  unfold place FileTree.origin isAbsolute
  by_cases h : p.slashes = 0 <;> simp [h]

def temporary (p : Path) : Path := ⟨p.slashes, p.parent.names ++ [p.name ++ FileTree.temporarySuffix]⟩

theorem withSuffix_temporary (hn : IsName name) :
    (⟨slashes, names ++ [name]⟩ : Path).withSuffix
      ((⟨slashes, names ++ [name]⟩ : Path).suffix ++ FileTree.temporarySuffix) =
      .ok ⟨slashes, names ++ [name ++ FileTree.temporarySuffix]⟩ := by
  obtain ⟨stem, hstem, hform⟩ := FileKind.suffix_eq name.toList
  have hslash : '/' ∉ FileKind.suffix name.toList := fun hin =>
    hn.2.1 (hstem ▸ List.mem_append_right stem hin)
  have hvalid : isSuffix ((⟨slashes, names ++ [name]⟩ : Path).suffix ++ FileTree.temporarySuffix) := by
    unfold isSuffix Path.suffix
    rw [name_concat, String.toList_append, String.toList_ofList]
    rcases hform with hnil | ⟨rest, hrest, hcons⟩
    · rw [hnil]
      decide
    · rw [hcons] at hslash ⊢
      cases rest with
      | nil => exact absurd rfl hrest
      | cons c rest => simpa [FileTree.temporarySuffix] using hslash
  have htake : name.toList.take (name.length - (FileKind.suffix name.toList).length) = stem := by
    have hlength := congrArg List.length hstem
    rw [String.length_toList, List.length_append] at hlength
    rw [hlength, Nat.add_sub_cancel]
    conv_lhs => rw [hstem]
    exact List.take_left
  have hname : String.ofList stem ++ (String.ofList (FileKind.suffix name.toList) ++ FileTree.temporarySuffix) =
      name ++ FileTree.temporarySuffix := by
    rw [← String.append_assoc, ← String.ofList_append, ← hstem, String.ofList_toList]
  unfold withSuffix
  rw [hvalid, name_concat]
  simp only [Bool.not_true, Bool.false_eq_true, if_false, String.isEmpty_iff, hn.1]
  unfold Path.suffix
  rw [name_concat, String.length_ofList, htake, hname, List.dropLast_concat]
  rfl

theorem withSuffix_eq_temporary {p : Path} (hn : IsName p.name) :
    p.withSuffix (p.suffix ++ FileTree.temporarySuffix) = .ok p.temporary := by
  have hsame : p = ⟨p.slashes, p.parent.names ++ [p.name]⟩ := by rw [← names_eq hn.1]
  conv_lhs => rw [hsame]
  exact withSuffix_temporary hn

end Path

namespace FileTree

variable {tree tree' : FileTree} {p : Path} {bytes : List UInt8}

variable {place : List String} {name : String}

theorem write_ok (hl : tree.locate p = .ok place) (hf : tree.get? place ≠ some .directory) :
    tree.write p bytes = .ok (tree.set place (.file bytes)) := by
  rw [write, hl]
  simp only [bind, Except.bind]
  rfl

theorem rename_ok {source : Path} {origin : List String} (hs : tree.locate source = .ok origin)
    (hl : tree.locate p = .ok place) (hn : source.name ≠ ".." ∧ p.name ≠ "..")
    (ho : tree.get? origin = some (.file bytes)) (hf : tree.get? place ≠ some .directory) :
    tree.rename source p = .ok ((tree.erase origin).set place (.file bytes)) := by
  have hbusy : ¬ (source.name = ".." ∨ p.name = "..") := not_or.2 hn
  rw [rename, hs, hl]
  simp only [bind, Except.bind, if_neg hbusy, ho]
  rfl

/-- A path at which a file can be written: no file stands on the way, and neither the file nor the temporary
one would take the place of a directory that is there or is made on the way. -/
structure Admits (tree : FileTree) (p : Path) : Prop where
  isName : Path.IsName p.name
  acceptable : p.Acceptable
  acceptableTemporary : p.temporary.Acceptable
  short : (p.name ++ temporarySuffix).utf8ByteSize ≤ maxName
  shortWay : ∀ name ∈ p.parent.names, name = ".." ∨ name.utf8ByteSize ≤ maxName
  downward : p.name ≠ ".."
  clear : tree.Clear (tree.origin p.slashes) p.parent.names
  free : ∀ q ∈ [p.place tree.working, p.temporary.place tree.working],
    tree.get? q ≠ some .directory ∧ ¬ OnWay (tree.origin p.slashes) p.parent.names q

/-- What the tree is after a file has been written. -/
structure Wrote (tree tree' : FileTree) (p : Path) (bytes : List UInt8) : Prop where
  proper : tree'.Proper
  working : tree'.working = tree.working
  leads : tree'.Leads (tree.origin p.slashes) p.parent.names
  file : tree'.get? (p.place tree.working) = some (.file bytes)
  kept : ∀ q entry, q ≠ p.place tree.working → q ≠ p.temporary.place tree.working →
    tree.get? q = some entry → tree'.get? q = some entry

theorem Admits.ne_of_directory (h : tree.Admits p) {q : List String} (hq : tree.get? q = some .directory) :
    q ≠ p.place tree.working ∧ q ≠ p.temporary.place tree.working := by
  constructor
  · rintro rfl
    exact (h.free _ List.mem_cons_self).1 hq
  · rintro rfl
    exact (h.free _ (List.mem_cons_of_mem _ List.mem_cons_self)).1 hq

theorem Admits.way (h : tree.Admits p) : tree.Passable p.slashes p.parent.names := by
  have hwhole : (⟨p.slashes, p.parent.names ++ [p.name]⟩ : Path).Acceptable := by
    rw [← Path.names_eq h.isName.1]
    exact h.acceptable
  exact ⟨hwhole.front, h.shortWay, h.clear⟩

theorem Admits.place_eq (h : tree.Admits p) : p.place tree.working =
    Path.stepBack (tree.origin p.slashes ++ p.parent.names) ++ [p.name] := by
  rw [Path.place_eq, Path.names_eq h.isName.1, ← List.append_assoc, Path.stepBack_append_names]
  simpa [eq_comm] using h.downward

theorem temporary_ne_up (name : String) : name ++ temporarySuffix ≠ ".." := by
  intro he
  have hlast := congrArg (fun s => s.toList.getLast?) he
  simp [temporarySuffix] at hlast

theorem temporary_place_eq (tree : FileTree) (p : Path) : p.temporary.place tree.working =
    Path.stepBack (tree.origin p.slashes ++ p.parent.names) ++ [p.name ++ temporarySuffix] := by
  rw [Path.place_eq, Path.temporary, ← List.append_assoc, Path.stepBack_append_names]
  simpa [eq_comm] using temporary_ne_up p.name

theorem temporary_ne (name : String) : name ++ temporarySuffix ≠ name := by
  intro he
  have hlength := congrArg String.length he
  rw [String.length_append] at hlength
  have hfour : temporarySuffix.length = 4 := by decide
  omega

theorem Admits.places_ne (h : tree.Admits p) : p.temporary.place tree.working ≠ p.place tree.working := by
  rw [h.place_eq, temporary_place_eq]
  exact fun he => temporary_ne p.name (List.append_cancel_left he |> List.singleton_injective)

theorem locate_temporary (hl : tree.Leads (tree.origin p.slashes) p.parent.names)
    (ha : p.temporary.Acceptable) (hs : (p.name ++ temporarySuffix).utf8ByteSize ≤ maxName) :
    tree.locate p.temporary = .ok (p.temporary.place tree.working) := by
  rw [temporary_place_eq, locate_concat ha rfl hl.walk]
  exact step_down hl.directory (temporary_ne_up p.name) hs

theorem locate_target (hl : tree.Leads (tree.origin p.slashes) p.parent.names) (ha : p.Acceptable)
    (hn : p.name ≠ "") (hs : (p.name ++ temporarySuffix).utf8ByteSize ≤ maxName) :
    tree.locate p = .ok (p.place tree.working) := by
  have hshort : p.name.utf8ByteSize ≤ maxName := by
    rw [String.utf8ByteSize_append] at hs
    omega
  have hnames := Path.names_eq hn
  rw [locate_concat ha hnames hl.walk, step_ok hl.directory (Path.not_mem_stepBack _) (.inr hshort),
    Path.stepBack_stepBack_append, List.append_assoc, ← hnames, ← Path.place_eq]

theorem Admits.ne_nil (h : tree.Admits p) :
    p.place tree.working ≠ [] ∧ p.temporary.place tree.working ≠ [] := by
  rw [h.place_eq, temporary_place_eq]
  simp

def moved (tree : FileTree) (p : Path) (bytes : List UInt8) : FileTree :=
  ((tree.set (p.temporary.place tree.working) (.file bytes)).erase (p.temporary.place tree.working)).set
    (p.place tree.working) (.file bytes)

theorem get?_moved (hp : tree.Admits p) (q : List String) : (tree.moved p bytes).get? q =
    if q = p.place tree.working then some (.file bytes)
    else if q = p.temporary.place tree.working then none
    else tree.get? q := by
  obtain ⟨htarget, hbeside⟩ := hp.ne_nil
  rw [moved, get?_set _ _ htarget, get?_erase _ hbeside, get?_set _ _ hbeside]
  by_cases h : q = p.temporary.place tree.working <;> simp [h]

theorem replace_eq (hp : tree.Admits p) (hl : tree.Leads (tree.origin p.slashes) p.parent.names) :
    tree.replace p p.temporary bytes = (tree.moved p bytes, .ok ()) := by
  have hfree := hp.free _ List.mem_cons_self
  have hfreeBeside := hp.free _ (List.mem_cons_of_mem _ List.mem_cons_self)
  obtain ⟨htarget, hbeside⟩ := hp.ne_nil
  have hwrite : tree.write p.temporary bytes = .ok (tree.set (p.temporary.place tree.working) (.file bytes)) :=
    write_ok (locate_temporary hl hp.acceptableTemporary hp.short) hfreeBeside.1
  have hleads : (tree.set (p.temporary.place tree.working) (.file bytes)).Leads (tree.origin p.slashes)
      p.parent.names := hl.mono fun q => set_directories hbeside hfreeBeside.1
  have hadmits : (tree.set (p.temporary.place tree.working) (.file bytes)).Admits p := by
    refine { hp with clear := ?_, free := ?_ }
    · intro q hq b
      rw [get?_set _ _ hbeside, if_neg]
      · exact hp.clear q hq b
      · rintro rfl
        exact hfreeBeside.2 hq
    · intro q hq
      refine ⟨?_, (hp.free q hq).2⟩
      rw [get?_set _ _ hbeside]
      split
      · simp
      · exact (hp.free q hq).1
  have hwritten : (tree.set (p.temporary.place tree.working) (.file bytes)).get?
      (p.temporary.place tree.working) = some (.file bytes) := by
    rw [get?_set _ _ hbeside, if_pos rfl]
  have hdownward : p.temporary.name ≠ ".." := by
    rw [Path.temporary, Path.name_concat]
    exact temporary_ne_up p.name
  have hrename := rename_ok (locate_temporary hleads hp.acceptableTemporary hp.short)
    (locate_target hleads hp.acceptable hp.isName.1 hp.short) ⟨hdownward, hp.downward⟩ hwritten
    (hadmits.free _ List.mem_cons_self).1
  rw [replace, hwrite]
  simp only [hrename]
  rfl

theorem proper_moved (h : tree.Proper) (hp : tree.Admits p)
    (hl : tree.Leads (tree.origin p.slashes) p.parent.names) : (tree.moved p bytes).Proper := by
  have hfree := (hp.free _ List.mem_cons_self).1
  have hfreeBeside := (hp.free _ (List.mem_cons_of_mem _ List.mem_cons_self)).1
  obtain ⟨-, hbeside⟩ := hp.ne_nil
  have hplaces := hp.places_ne
  rw [moved]
  generalize hq : p.temporary.place tree.working = beside at *
  have hbesideEq := hq.symm.trans (temporary_place_eq tree p)
  have hset : (tree.set beside (.file bytes)).Proper := by
    rw [hbesideEq] at hfreeBeside ⊢
    exact h.set_entry hl.directory (temporary_ne_up p.name) hfreeBeside _
  have hgone : (tree.set beside (.file bytes)).get? beside ≠ some .directory := by
    rw [get?_set _ _ hbeside, if_pos rfl]
    simp
  have herase : ((tree.set beside (.file bytes)).erase beside).Proper := hset.erase_file hbeside hgone
  rw [hp.place_eq] at hplaces hfree ⊢
  refine herase.set_entry ?_ hp.downward ?_ _
  · exact erase_directories hbeside hgone (set_directories hbeside hfreeBeside hl.directory)
  · rw [get?_erase _ hbeside, get?_set _ _ hbeside, if_neg hplaces.symm, if_neg hplaces.symm]
    exact hfree

theorem wrote_moved (h : tree.Proper) (hp : tree.Admits p)
    (hl : tree.Leads (tree.origin p.slashes) p.parent.names) : tree.Wrote (tree.moved p bytes) p bytes := by
  have hkept (q : List String) (entry : FileEntry) (hq : q ≠ p.place tree.working)
      (hq' : q ≠ p.temporary.place tree.working) (he : tree.get? q = some entry) :
      (tree.moved p bytes).get? q = some entry := by
    rw [get?_moved hp, if_neg hq, if_neg hq', he]
  have hdirectories {q : List String} (hq : tree.get? q = some .directory) :
      (tree.moved p bytes).get? q = some .directory :=
    hkept q _ (hp.ne_of_directory hq).1 (hp.ne_of_directory hq).2 hq
  exact ⟨proper_moved h hp hl, rfl, hl.mono fun _ => hdirectories, by rw [get?_moved hp, if_pos rfl], hkept⟩

theorem Admits.extends (hp : tree.Admits p)
    (he : tree.Extends tree' (OnWay (tree.origin p.slashes) p.parent.names)) : tree'.Admits p := by
  have horigin : tree'.origin p.slashes = tree.origin p.slashes := by rw [origin, origin, he.working]
  refine { hp with clear := ?_, free := ?_ }
  · rw [horigin]
    exact hp.clear.extends he
  · rw [he.working, horigin]
    intro q hq
    obtain ⟨hnot, hway⟩ := hp.free q hq
    refine ⟨fun hd => ?_, hway⟩
    rcases he.entries q with hsame | ⟨-, -, hon⟩
    · exact hnot (hsame ▸ hd)
    · exact hway hon

/-- Where a file can be written, the bytes are moved there once the directories on the way are made. -/
theorem writeAtomically_moved (h : tree.Proper) (hp : tree.Admits p) (bytes : List UInt8) :
    ∃ made, tree.writeAtomically p bytes = (made.moved p bytes, .ok ()) ∧
      tree.Extends made (OnWay (tree.origin p.slashes) p.parent.names) ∧ made.Admits p ∧
      made.Wrote (made.moved p bytes) p bytes := by
  obtain ⟨made, hmade, hext, hproper, hleads⟩ := Passable.make (p := p.parent) h hp.way
  have hadmits := hp.extends hext
  refine ⟨made, ?_, hext, hadmits, wrote_moved hproper hadmits hleads⟩
  rw [writeAtomically, hmade]
  simp only [Path.withSuffix_eq_temporary hp.isName]
  exact replace_eq hadmits hleads

/-- Where a file can be written, it is: with the bytes, and with all other entries as they were. -/
theorem writeAtomically_ok (h : tree.Proper) (hp : tree.Admits p) (bytes : List UInt8) :
    ∃ tree', tree.writeAtomically p bytes = (tree', .ok ()) ∧ tree.Wrote tree' p bytes := by
  obtain ⟨made, hwrite, hext, -, hwrote⟩ := writeAtomically_moved h hp bytes
  have horigin : made.origin p.slashes = tree.origin p.slashes := by rw [origin, origin, hext.working]
  refine ⟨made.moved p bytes, hwrite, hwrote.proper, hwrote.working.trans hext.working, ?_, ?_, ?_⟩
  · rw [← horigin]
    exact hwrote.leads
  · rw [← hext.working]
    exact hwrote.file
  · rw [← hext.working]
    exact fun q entry hq hq' he => hwrote.kept q entry hq hq' (hext.get?_eq he)

theorem Admits.locate (hp : tree.Admits p) (hworking : tree'.working = tree.working)
    (hl : tree'.Leads (tree.origin p.slashes) p.parent.names) : tree'.locate p = .ok (p.place tree.working) := by
  have hleads : tree'.Leads (tree'.origin p.slashes) p.parent.names := by
    rw [origin, hworking]
    exact hl
  rw [← hworking]
  exact locate_target hleads hp.acceptable hp.isName.1 hp.short

theorem Wrote.locate (hw : tree.Wrote tree' p bytes) (hp : tree.Admits p) :
    tree'.locate p = .ok (p.place tree.working) :=
  hp.locate hw.working hw.leads

theorem read_file {place : List String} (hlocate : tree.locate p = .ok place)
    (hfile : tree.get? place = some (.file bytes)) : tree.read p = .ok bytes := by
  rw [read, hlocate]
  simp only [bind, Except.bind, hfile]
  rfl

theorem Wrote.read (hw : tree.Wrote tree' p bytes) (hp : tree.Admits p) : tree'.read p = .ok bytes :=
  read_file (hw.locate hp) hw.file

theorem Wrote.directories (hw : tree.Wrote tree' p bytes) (hp : tree.Admits p) {q : List String}
    (hq : tree.get? q = some .directory) : tree'.get? q = some .directory :=
  hw.kept q .directory (hp.ne_of_directory hq).1 (hp.ne_of_directory hq).2 hq

/-- A second file is written beside the first one, unless it or its temporary one takes its place. -/
theorem Wrote.read_kept (hw : tree.Wrote tree' p bytes) (hp : tree.Admits p) {last : FileTree} {q : Path}
    {others : List UInt8} (hw' : tree'.Wrote last q others) (hq : tree'.Admits q)
    (hplace : p.place tree.working ≠ q.place tree.working)
    (htemporary : p.place tree.working ≠ q.temporary.place tree.working) : last.read p = .ok bytes := by
  have hlocate := hp.locate (hw'.working.trans hw.working)
    (hw.leads.mono fun _ hdirectory => hw'.directories hq hdirectory)
  rw [← hw.working] at hplace htemporary hlocate
  exact read_file hlocate (hw'.kept _ _ hplace htemporary (hw.working ▸ hw.file))

end FileTree

end CaveMap
