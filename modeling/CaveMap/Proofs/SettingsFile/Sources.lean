import CaveMap.Proofs.Files.Atomic
import CaveMap.SettingsFile.Save
import CaveMap.SettingsFile.Sources

namespace CaveMap

namespace FileTree

variable {tree tree' : FileTree} {p q : Path} {place place' : List String} {bytes : List UInt8}

theorem readText_congr {encoding : String} (hp : tree.locate p = .ok place) (hq : tree'.locate q = .ok place')
    (hg : tree.get? place = some (.file bytes)) (hg' : tree'.get? place' = some (.file bytes)) :
    tree'.readText q encoding = tree.readText p encoding := by
  simp only [readText, exists?, read, hp, hq, Except.mapError, bind, Except.bind, pure, Except.pure, hg, hg',
    Option.isSome_some, Bool.not_true, Bool.false_eq_true, if_false]

theorem file_of_readText {encoding content : String} (h : tree.readText p encoding = .ok content) :
    ∃ place bytes, tree.locate p = .ok place ∧ tree.get? place = some (.file bytes) := by
  cases hl : tree.locate p with
  | error fault =>
    have hread : tree.read p = .error fault := by
      rw [read, hl]
      rfl
    rw [readText, hread] at h
    cases he : tree.exists? p with
    | error => rw [he] at h; cases h
    | ok there => rw [he] at h; cases there <;> cases h
  | ok place =>
    cases hg : tree.get? place with
    | none =>
      rw [readText, exists?, hl] at h
      simp only [hg] at h
      cases h
    | some entry =>
      cases entry with
      | file bytes => exact ⟨place, bytes, rfl, hg⟩
      | directory =>
        rw [readText, exists?, read, hl] at h
        simp only [hg, bind, Except.bind] at h
        cases h

end FileTree

/-- An upload that was read from a place in the tree, where its text still is. -/
structure Upload.StoredAt (u : Upload) (tree : FileTree) (place : List String) : Prop where
  names : ∀ name ∈ place, Path.IsName name ∧ name ≠ ".."
  path : u.path = some (Path.ofPlace place).text
  fileName : place.getLast? = some u.fileName
  kind : u.kind = FileKind.ofFileName u.fileName
  content : tree.readText (Path.ofPlace place) "utf-8" = .ok u.content

namespace FileKind

theorem ofFileName_temporary {name : String} (h : Path.IsName name) :
    ofFileName (name ++ FileTree.temporarySuffix) = other := by
  have hlong : (name ++ FileTree.temporarySuffix).length = name.length + 4 := String.length_append _ _
  have hname : Path.IsName (name ++ FileTree.temporarySuffix) := by
    refine ⟨fun he => ?_, ?_, fun he => ?_⟩
    · rw [he] at hlong
      simp at hlong
    · rw [String.toList_append, List.mem_append, not_or]
      exact ⟨h.2.1, by decide⟩
    · have hone : ".".length = 1 := by decide
      rw [he, hone] at hlong
      omega
  have hlower : Text.lower (name ++ FileTree.temporarySuffix).toList =
      Text.lower name.toList ++ '.' :: "tmp".toList := by
    rw [String.toList_append, Text.lower, List.flatMap_append]
    rfl
  have hnotConfig : Text.lower name.toList ++ '.' :: "tmp".toList ≠ "thconfig".toList := by
    intro he
    have hend := congrArg List.getLast? he
    rw [List.getLast?_append_of_ne_nil _ (by decide)] at hend
    exact absurd hend (by decide)
  unfold ofFileName
  rw [lastComponent_name hname, hlower]
  dsimp only
  rw [if_neg hnotConfig, suffix_append (by decide)]
  split <;> rfl

end FileKind

variable {tree tree' : FileTree} {p : Path} {u : Upload} {place : List String} {bytes : List UInt8}

namespace Upload.StoredAt

theorem upward (h : u.StoredAt tree place) : ".." ∉ place := fun hin => (h.names _ hin).2 rfl

theorem located (h : u.StoredAt tree place) : tree.locate (Path.ofPlace place) = .ok place ∧
    (∃ bytes, tree.get? place = some (.file bytes)) ∧ (Path.ofPlace place).Acceptable ∧
    ∀ name ∈ place, name.utf8ByteSize ≤ FileTree.maxName := by
  obtain ⟨found, bytes, hlocate, hfile⟩ := FileTree.file_of_readText h.content
  have haccept := FileTree.acceptable_of_locate hlocate
  have hwalk : tree.walk [] place = .ok found := (FileTree.locate_eq haccept).symm.trans hlocate
  obtain ⟨hfound, hshort⟩ := FileTree.walk_eq_stepBack (by simp) hwalk
  rw [List.nil_append, Path.stepBack_names h.upward] at hfound
  rw [hfound] at hlocate hfile
  exact ⟨hlocate, ⟨bytes, hfile⟩, haccept, fun name hin => (hshort name hin).resolve_left (h.names name hin).2⟩

theorem ne_temporary (h : u.StoredAt tree place) (hp : tree.Admits p)
    (hk : u.kind = .source ∨ u.kind = .drawing) : place ≠ p.temporary.place tree.working := by
  intro he
  have hlast := h.fileName
  rw [he, FileTree.temporary_place_eq, List.getLast?_concat] at hlast
  have hkind := h.kind
  rw [← Option.some.inj hlast, FileKind.ofFileName_temporary hp.isName] at hkind
  rcases hk with hk | hk <;> (rw [hkind] at hk; cases hk)

end Upload.StoredAt

namespace SettingsFile

def wayTo (tree : FileTree) (p : Path) (place : List String) : Path :=
  Path.between (p.parent.place tree.working) place

theorem sourceText_stored (h : u.StoredAt tree place) :
    sourceText tree.working (some (Path.ofPlace (p.parent.place tree.working))) u =
      (wayTo tree p place).text := by
  have hbase : (Path.ofPlace (p.parent.place tree.working)).place tree.working =
      p.parent.place tree.working := Path.stepBack_names (Path.not_mem_stepBack _)
  have hplace : (Path.ofPlace place).place tree.working = place := Path.stepBack_names h.upward
  have hfilled : (Path.ofPlace place).text.isEmpty = false := by
    rw [Path.text_ofPlace]
    simp
  unfold sourceText
  rw [h.path]
  simp only [hfilled, Bool.false_eq_true, if_false]
  rw [hbase, Path.ofString_text_ofPlace fun name hin => (h.names name hin).1, hplace]
  rfl

theorem ofString_wayTo (h : u.StoredAt tree place) :
    Path.ofString (wayTo tree p place).text = wayTo tree p place := by
  obtain ⟨common, back, down, -, hdown, he⟩ := Path.between_eq (p.parent.place tree.working) place
  rw [wayTo, he]
  refine Path.ofString_text_relative fun name hin => ?_
  rcases List.mem_append.1 hin with hup | hin
  · rw [List.eq_of_mem_replicate hup]
    exact ⟨by decide, by decide, by decide⟩
  · exact (h.names name (hdown ▸ List.mem_append_right common hin)).1

theorem join_wayTo (tree : FileTree) (p : Path) (place : List String) :
    p.parent.join (wayTo tree p place) = ⟨p.slashes, p.parent.names ++ (wayTo tree p place).names⟩ := by
  obtain ⟨common, back, down, -, -, he⟩ := Path.between_eq (p.parent.place tree.working) place
  rw [wayTo, he]
  rfl

/-- From the directory of the written file, the way leads to the place of the upload. -/
theorem walk_wayTo (hw : tree.Wrote tree' p bytes) (hin : tree'.get? place ≠ none)
    (hs : ∀ name ∈ place, name.utf8ByteSize ≤ FileTree.maxName) :
    tree'.walk (tree'.origin p.slashes) (p.parent.names ++ (wayTo tree p place).names) = .ok place := by
  have horigin : tree'.origin p.slashes = tree.origin p.slashes := by
    rw [FileTree.origin, FileTree.origin, hw.working]
  have hbase : p.parent.place tree.working = Path.stepBack (tree.origin p.slashes ++ p.parent.names) :=
    Path.place_eq tree p.parent
  obtain ⟨common, back, down, hfrom, hto, he⟩ := Path.between_eq (p.parent.place tree.working) place
  have hdirectory : tree'.get? (common ++ back) = some .directory := by
    rw [← hfrom, hbase]
    exact hw.leads.directory
  subst hto
  rw [wayTo, he, horigin, FileTree.walk_append, hw.leads.walk, ← hbase, hfrom]
  change tree'.walk (common ++ back) (List.replicate back.length ".." ++ down) = .ok (common ++ down)
  rw [FileTree.walk_append, FileTree.walk_ups hw.proper hdirectory]
  exact FileTree.walk_down hw.proper hin fun name hname => hs name (List.mem_append_right common hname)

theorem not_null_joined (hp : tree.Admits p) (ha : (Path.ofPlace place).Acceptable) {name : String}
    (hin : name ∈ (p.parent.join (wayTo tree p place)).names) : '\x00' ∉ name.toList := by
  obtain ⟨common, back, down, -, hto, he⟩ := Path.between_eq (p.parent.place tree.working) place
  rw [join_wayTo, wayTo, he] at hin
  rcases List.mem_append.1 hin with hfront | hway
  · refine hp.acceptable.nulls name ?_
    rw [Path.names_eq hp.isName.1]
    exact List.mem_append_left _ hfront
  · rcases List.mem_append.1 hway with hup | hdown
    · rw [List.eq_of_mem_replicate hup]
      decide
    · exact ha.nulls name (hto ▸ List.mem_append_right common hdown)

theorem name_joined (hw : tree.Wrote tree' p bytes) {b : List UInt8} (hf : tree'.get? place = some (.file b))
    {name : String} (hn : place.getLast? = some name) : (p.parent.join (wayTo tree p place)).name = name := by
  have hbase : p.parent.place tree.working = Path.stepBack (tree.origin p.slashes ++ p.parent.names) :=
    Path.place_eq tree p.parent
  obtain ⟨common, back, down, hfrom, hto, he⟩ := Path.between_eq (p.parent.place tree.working) place
  have hdown : down ≠ [] := by
    rintro rfl
    rw [List.append_nil] at hto
    have hdirectory : tree'.get? (common ++ back) = some .directory := by
      rw [← hfrom, hbase]
      exact hw.leads.directory
    rw [← hto] at hdirectory
    rw [hw.proper.directory_of_prefix hdirectory] at hf
    cases hf
  rw [hto, List.getLast?_append_of_ne_nil _ hdown] at hn
  rw [join_wayTo, Path.name, wayTo, he]
  simp only
  rw [← List.append_assoc, List.getLast?_append_of_ne_nil _ hdown, hn]
  rfl

theorem place_joined (h : ".." ∉ place) :
    (p.parent.join (wayTo tree p place)).place tree.working = place := by
  have hbase : p.parent.place tree.working = Path.stepBack (tree.origin p.slashes ++ p.parent.names) :=
    Path.place_eq tree p.parent
  rw [join_wayTo, Path.place_eq, ← List.append_assoc, ← Path.stepBack_stepBack_append, ← hbase]
  exact Path.stepBack_between (hbase ▸ Path.not_mem_stepBack _) h

theorem readSource_stored (hp : tree.Admits p) (hw : tree.Wrote tree' p bytes) (hu : u.StoredAt tree place)
    (hk : u.kind = .source ∨ u.kind = .drawing) (hother : place ≠ p.place tree.working)
    (hshort : (p.parent.join (wayTo tree p place)).text.utf8ByteSize ≤ FileTree.maxPath) :
    readSource tree' p.parent (sourceText tree.working (some (Path.ofPlace (p.parent.place tree.working))) u) =
      .ok { name := u.fileName, content := u.content, path := u.path } := by
  obtain ⟨hlocate, ⟨b, hfile⟩, haccept, hnames⟩ := hu.located
  have hfile' : tree'.get? place = some (.file b) := hw.kept place _ hother (hu.ne_temporary hp hk) hfile
  have hjoin := join_wayTo tree p place
  have hacceptJoined : (p.parent.join (wayTo tree p place)).Acceptable :=
    ⟨fun name hin => not_null_joined hp haccept hin, hshort⟩
  have hlocate' : tree'.locate (p.parent.join (wayTo tree p place)) = .ok place := by
    rw [FileTree.locate_eq hacceptJoined, hjoin]
    exact walk_wayTo hw (by rw [hfile']; simp) hnames
  have hcontent := (FileTree.readText_congr hlocate hlocate' hfile hfile').trans hu.content
  unfold readSource
  rw [sourceText_stored hu, ofString_wayTo hu]
  simp only [hcontent]
  rw [fileAt, hw.working, name_joined hw hfile' hu.fileName, place_joined hu.upward, hu.path]
  rfl

end SettingsFile

end CaveMap
