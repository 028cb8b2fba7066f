import CaveMap.Proofs.Drawing

namespace CaveMap

namespace Session

variable {ids : Nat → String} {session : Session}

theorem fileEvents_congr {s t : Settings} (h : s.symbols = t.symbols) (files : List NewFile) :
    fileEvents s files = fileEvents t files := by
  induction files generalizing s t with
  | nil => rfl
  | cons file rest ih =>
    have hfile : s.fileEvents file = t.fileEvents file := by
      unfold Settings.fileEvents
      rw [h]
    have hnext : (s.addFile "" file).symbols = (t.addFile "" file).symbols := by
      rw [Settings.addFile_eq, Settings.addFile_eq, h]
    rw [fileEvents, fileEvents, hfile, ih hnext]

theorem fileEvents_append (ids : Nat → String) (session : Session) (front back : List NewFile) :
    fileEvents session.settings (front ++ back) =
      fileEvents session.settings front ++ fileEvents (addFiles ids session front).settings back := by
  induction front generalizing session with
  | nil => rfl
  | cons file rest ih =>
    let next : Session := ⟨session.settings.addFile (ids session.drawn) file, session.drawn + 1⟩
    have hnext (files : List NewFile) :
        fileEvents (session.settings.addFile "" file) files = fileEvents next.settings files :=
      fileEvents_congr (s := session.settings.addFile "" file) (t := next.settings) rfl files
    rw [List.cons_append, fileEvents, fileEvents, hnext, hnext, ih next, List.append_assoc]
    rfl

theorem run_addFiles_append (ids : Nat → String) (session : Session) (front back : List NewFile) :
    run ids session (.addFiles (front ++ back)) =
      (do run ids (← run ids session (.addFiles front)) (.addFiles back)) := by
  change (⟨_, _⟩ : Logged Command.Fault Session) = ⟨_, _⟩
  rw [addFiles_append, fileEvents_append ids]
  rfl

/-- The entries that scans of the drawings among some files give, one drawing after the other. -/
def scannedEntries (files : List NewFile) : List (String × SymbolOverride) :=
  (files.filter (FileKind.ofFileName ·.name = .drawing)).flatMap fun file => (Drawing.scan file.content).entries

theorem scannedEntries_cons (file : NewFile) (rest : List NewFile) :
    scannedEntries (file :: rest) =
      (if FileKind.ofFileName file.name = .drawing then (Drawing.scan file.content).entries else []) ++
        scannedEntries rest := by
  by_cases hd : FileKind.ofFileName file.name = .drawing
  · simp [scannedEntries, hd]
  · simp [scannedEntries, hd]

theorem fill_scannedEntries (table : SymbolTable) (files : List NewFile) :
    table.fill ((files.flatMap NewFile.uses).map Drawing.entryOf) = table.fill (scannedEntries files) := by
  induction files generalizing table with
  | nil => rfl
  | cons file rest ih =>
    rw [List.flatMap_cons, List.map_append, Table.fill_append, ih, scannedEntries_cons, Table.fill_append,
      NewFile.uses]
    split
    · rw [Drawing.scan_eq, Table.fill_fill_empty]
    · rfl

theorem symbols_addFiles (ids : Nat → String) (session : Session) (files : List NewFile) :
    (addFiles ids session files).settings.symbols = session.settings.symbols.fill (scannedEntries files) := by
  rw [← fill_scannedEntries]
  exact congrArg Settings.symbols (addFiles_eq ids session.settings session.drawn files)

theorem addFiles_eq_updated (ids : Nat → String) (session : Session) (files : List NewFile) :
    addFiles ids session files =
      { settings := { session.settings with
          uploads := session.settings.uploads ++ uploadsOf ids session.drawn files
          symbols := session.settings.symbols.fill (scannedEntries files) }
        drawn := session.drawn + files.length } := by
  have hsettings := addFiles_eq ids session.settings session.drawn files
  have hdrawn := (drawn_addFiles ids session files).1
  rw [fill_scannedEntries] at hsettings
  exact congrArg₂ Session.mk hsettings hdrawn

/-- A drawing in two parts, however the lines of the parts end. -/
theorem symbols_addFiles_parts (ids : Nat → String) (session : Session) {name name' whole : String}
    (hname : FileKind.ofFileName name = .drawing) (hname' : FileKind.ofFileName name' = .drawing)
    (hwhole : FileKind.ofFileName whole = .drawing) (c d : String) (path path' path'' : Option String) :
    (addFiles ids session [⟨name, c, path⟩, ⟨name', d, path'⟩]).settings.symbols =
      (addFiles ids session [⟨whole, c ++ "\n" ++ d, path''⟩]).settings.symbols := by
  have hparts : scannedEntries [⟨name, c, path⟩, ⟨name', d, path'⟩] =
      (Drawing.scan c).entries ++ (Drawing.scan d).entries := by
    simp [scannedEntries, hname, hname']
  have hjoined : scannedEntries [⟨whole, c ++ "\n" ++ d, path''⟩] = (Drawing.scan (c ++ "\n" ++ d)).entries := by
    simp [scannedEntries, hwhole]
  rw [symbols_addFiles, symbols_addFiles, hparts, hjoined, Table.fill_append]
  simp only [Drawing.scan_eq, Table.fill_fill_empty]
  rw [Drawing.uses_append, List.map_append, Table.fill_append]

/-- Files come to the same in one batch or in two. A batch adds an upload for each file and the first entry of each
symbol type of its drawings that is new, behind the overrides that are there and stay as they are. A drawing that
holds the lines of two has the symbols of both, those of the first before those that only the second has. -/
theorem addFiles_composes (ids : Nat → String) (session : Session) (front back : List NewFile) :
    (run ids session (.addFiles (front ++ back)) =
        do run ids (← run ids session (.addFiles front)) (.addFiles back)) ∧
      (∃ next, (run ids session (.addFiles front)).result = .ok next ∧
        next.drawn = session.drawn + front.length ∧
        next.settings = { session.settings with
          uploads := session.settings.uploads ++ uploadsOf ids session.drawn front
          symbols := next.settings.symbols } ∧
        next.settings.symbols.entries = session.settings.symbols.entries ++
          Table.firsts ((scannedEntries front).filter (·.1 ∉ session.settings.symbols.keys))) ∧
      ∀ c d : String,
        (Drawing.scan (c ++ "\n" ++ d)).entries = (Drawing.scan c).entries ++
          (Drawing.scan d).entries.filter (·.1 ∉ (Drawing.scan c).keys) ∧
        ∀ (name name' whole : String) (path path' path'' : Option String),
          FileKind.ofFileName name = .drawing → FileKind.ofFileName name' = .drawing →
          FileKind.ofFileName whole = .drawing →
          (addFiles ids session [⟨name, c, path⟩, ⟨name', d, path'⟩]).settings.symbols =
            (addFiles ids session [⟨whole, c ++ "\n" ++ d, path''⟩]).settings.symbols := by
  refine ⟨run_addFiles_append ids session front back, ⟨addFiles ids session front, rfl, ?_⟩,
    fun c d => ⟨?_, ?_⟩⟩
  · rw [addFiles_eq_updated]
    exact ⟨rfl, rfl, Table.entries_fill _ _⟩
  · exact Drawing.entries_scan_append c d
  · intro name name' whole path path' path'' hname hname' hwhole
    exact symbols_addFiles_parts ids session hname hname' hwhole c d path path' path''

/-- The first part ends in a bare carriage return, and both use `wall`. -/
theorem addFiles_composes_at_return :
    FileKind.ofFileName "hall.th2" = .drawing ∧ FileKind.ofFileName "Pit.TH2" = .drawing ∧
      FileKind.ofFileName "cave.th2" = .drawing ∧
      (addFiles Text.decimalText start [⟨"hall.th2", "line wall\r", none⟩,
          ⟨"Pit.TH2", "area wall\u2028point 1 2 bat", none⟩]).settings.symbols =
        (addFiles Text.decimalText start
          [⟨"cave.th2", "line wall\r" ++ "\n" ++ "area wall\u2028point 1 2 bat", none⟩]).settings.symbols := by
  have hname : FileKind.ofFileName "hall.th2" = .drawing := by decide +kernel
  have hname' : FileKind.ofFileName "Pit.TH2" = .drawing := by decide +kernel
  have hwhole : FileKind.ofFileName "cave.th2" = .drawing := by decide +kernel
  obtain ⟨-, -, hparts⟩ := addFiles_composes Text.decimalText start [] []
  exact ⟨hname, hname', hwhole, (hparts _ _).2 _ _ _ _ _ _ hname hname' hwhole⟩

end Session

end CaveMap
