import CaveMap.Proofs.Table
import CaveMap.Session.Command

namespace CaveMap

/-- An upload apart from its identifier. -/
def Upload.anonymous (u : Upload) : Upload := { u with id := "" }

/-- Settings apart from the identifiers of their uploads. -/
def Settings.anonymous (s : Settings) : Settings := { s with uploads := s.uploads.map Upload.anonymous }

namespace Drawing

def uses (content : String) : List (SymbolCategory × String) :=
  (Text.lines content.toList).filterMap usedSymbol?

def entryOf (use : SymbolCategory × String) : String × SymbolOverride :=
  (use.2, scannedOverride use.1 use.2)

theorem scan_eq (content : String) : scan content = Table.fill ∅ ((uses content).map entryOf) := rfl

end Drawing

namespace NewFile

def upload (file : NewFile) (id : String) : Upload :=
  { id, fileName := file.name, kind := FileKind.ofFileName file.name, content := file.content,
    path := file.path }

def uses (file : NewFile) : List (SymbolCategory × String) :=
  if FileKind.ofFileName file.name = .drawing then Drawing.uses file.content else []

end NewFile

theorem Settings.addFile_eq (s : Settings) (id : String) (file : NewFile) :
    s.addFile id file =
      { s with
        uploads := s.uploads ++ [file.upload id]
        symbols := s.symbols.fill (file.uses.map Drawing.entryOf) } := by
  unfold addFile NewFile.uses
  by_cases hd : FileKind.ofFileName file.name = .drawing
  · simp only [hd, if_true, Drawing.scan_eq, Table.fill_fill_empty, NewFile.upload]
  · simp only [hd, if_false, NewFile.upload]
    rfl

namespace Session

section Order

variable {ids : Nat → String}

theorem addFiles_append (session : Session) (front back : List NewFile) :
    addFiles ids session (front ++ back) = addFiles ids (addFiles ids session front) back := by
  rw [addFiles, List.foldl_append]
  rfl

/-- What every file keeps, files keep one after the other. -/
theorem addFiles_induction {P : Settings → Prop}
    (hstep : ∀ (s : Settings) (id : String) (file : NewFile), P s → P (s.addFile id file)) {session : Session}
    (h : P session.settings) (files : List NewFile) : P (addFiles ids session files).settings := by
  induction files generalizing session with
  | nil => exact h
  | cons file rest ih =>
    have hnext : P (session.settings.addFile (ids session.drawn) file) := hstep _ _ file h
    exact @ih ⟨_, session.drawn + 1⟩ hnext

/-- Identifiers may as well be counted from the number of those that have been drawn. -/
theorem addFiles_drawn (s : Settings) (drawn : Nat) (files : List NewFile) :
    (addFiles ids ⟨s, drawn⟩ files).settings =
      (addFiles (fun n => ids (drawn + n)) ⟨s, 0⟩ files).settings := by
  have hshift (from' : Nat) : (addFiles ids ⟨s, drawn + from'⟩ files).settings =
      (addFiles (fun n => ids (drawn + n)) ⟨s, from'⟩ files).settings := by
    induction files generalizing s from' with
    | nil => rfl
    | cons file rest ih => exact ih (s.addFile (ids (drawn + from')) file) (from' + 1)
  exact hshift 0

theorem drawn_addFiles (ids : Nat → String) (session : Session) (files : List NewFile) :
    (addFiles ids session files).drawn = session.drawn + files.length ∧
      (addFiles ids session files).settings.uploads.length =
        session.settings.uploads.length + files.length := by
  induction files generalizing session with
  | nil => exact ⟨rfl, rfl⟩
  | cons file rest ih =>
    let next : Session := ⟨session.settings.addFile (ids session.drawn) file, session.drawn + 1⟩
    have hdrawn : next.drawn = session.drawn + 1 := rfl
    have huploads : next.settings.uploads.length = session.settings.uploads.length + 1 := List.length_append
    obtain ⟨hdrawn', huploads'⟩ := ih next
    rw [hdrawn, Nat.add_right_comm] at hdrawn'
    rw [huploads, Nat.add_right_comm] at huploads'
    exact ⟨hdrawn', huploads'⟩

theorem addFiles_comm (change : Settings → Settings)
    (h : ∀ (s : Settings) (id : String) (file : NewFile),
      change (s.addFile id file) = (change s).addFile id file)
    (s : Settings) (drawn : Nat) (files : List NewFile) :
    change (addFiles ids ⟨s, drawn⟩ files).settings =
      (addFiles ids ⟨change s, drawn⟩ files).settings := by
  induction files generalizing s drawn with
  | nil => rfl
  | cons file rest ih =>
    have hrest := ih (s.addFile (ids drawn) file) (drawn + 1)
    rw [h] at hrest
    exact hrest

theorem enabledModules_addFiles (session : Session) (files : List NewFile) :
    (addFiles ids session files).settings.enabledModules = session.settings.enabledModules :=
  addFiles_induction (P := fun s => s.enabledModules = session.settings.enabledModules) (fun _ _ _ h => h) rfl files

theorem get_addFiles (session : Session) (ids : Nat → String) (files : List NewFile) :
    (session.addFiles ids files).settings.get = session.settings.get :=
  addFiles_induction (P := fun s => s.get = session.settings.get) (fun _ _ _ h => h) rfl files

end Order

/-- The uploads that files become, under the identifiers from `drawn` on. -/
def uploadsOf (ids : Nat → String) (drawn : Nat) (files : List NewFile) : List Upload :=
  (files.zipIdx drawn).map fun (file, n) => file.upload (ids n)

theorem anonymous_uploadsOf (ids : Nat → String) (drawn : Nat) (files : List NewFile) :
    (uploadsOf ids drawn files).map Upload.anonymous = files.map fun file => file.upload "" := by
  induction files generalizing drawn with
  | nil => rfl
  | cons file rest ih =>
    have hrest := ih (drawn + 1)
    unfold uploadsOf at hrest ⊢
    rw [List.zipIdx_cons, List.map_cons, List.map_cons, hrest]
    rfl

theorem addFiles_eq (ids : Nat → String) (s : Settings) (drawn : Nat) (files : List NewFile) :
    (addFiles ids ⟨s, drawn⟩ files).settings =
      { s with
        uploads := s.uploads ++ uploadsOf ids drawn files
        symbols := s.symbols.fill ((files.flatMap NewFile.uses).map Drawing.entryOf) } := by
  induction files generalizing s drawn with
  | nil =>
    have hnone : s.uploads ++ uploadsOf ids drawn [] = s.uploads := List.append_nil _
    rw [hnone]
    rfl
  | cons file rest ih =>
    have hcons : uploadsOf ids drawn (file :: rest) = file.upload (ids drawn) :: uploadsOf ids (drawn + 1) rest :=
      rfl
    have hstep : addFiles ids ⟨s, drawn⟩ (file :: rest) =
        addFiles ids ⟨s.addFile (ids drawn) file, drawn + 1⟩ rest := rfl
    rw [hstep, ih, Settings.addFile_eq, hcons, List.flatMap_cons, List.map_append, Table.fill_append,
      List.append_assoc, List.singleton_append]

/-- The identifiers show in the uploads only. -/
theorem anonymous_addFiles (ids : Nat → String) (s : Settings) (drawn : Nat) (files : List NewFile) :
    (addFiles ids ⟨s, drawn⟩ files).settings.anonymous =
      { s with
        uploads := s.uploads.map Upload.anonymous ++ files.map fun file => file.upload ""
        symbols := s.symbols.fill ((files.flatMap NewFile.uses).map Drawing.entryOf) } := by
  rw [addFiles_eq, Settings.anonymous, List.map_append, anonymous_uploadsOf]

theorem anonymous_addFiles_congr {ids ids' : Nat → String} {s t : Settings} {drawn drawn' : Nat}
    {files : List NewFile} (h : t.anonymous = s.anonymous) :
    (addFiles ids' ⟨t, drawn'⟩ files).settings.anonymous = (addFiles ids ⟨s, drawn⟩ files).settings.anonymous := by
  have hadded (s : Settings) (ids : Nat → String) (drawn : Nat) :
      (addFiles ids ⟨s, drawn⟩ files).settings.anonymous =
        { s.anonymous with
          uploads := s.anonymous.uploads ++ files.map fun file => file.upload ""
          symbols := s.anonymous.symbols.fill ((files.flatMap NewFile.uses).map Drawing.entryOf) } :=
    anonymous_addFiles ids s drawn files
  rw [hadded, hadded, h]

end Session

end CaveMap
