import CaveMap.Proofs.Files.Atomic

namespace CaveMap

namespace Path

theorem text_longer {slashes : Nat} {names : List String} {name suffix : String} :
    (⟨slashes, names ++ [name ++ suffix]⟩ : Path).text = (⟨slashes, names ++ [name]⟩ : Path).text ++ suffix := by
  have hjoin : String.intercalate "/" (names ++ [name ++ suffix]) =
      String.intercalate "/" (names ++ [name]) ++ suffix := by
    induction names with
    | nil => simp
    | cons first rest ih =>
      obtain ⟨second, more, he⟩ := List.exists_cons_of_ne_nil (l := rest ++ [name]) (by simp)
      obtain ⟨second', more', he'⟩ := List.exists_cons_of_ne_nil (l := rest ++ [name ++ suffix]) (by simp)
      rw [List.cons_append, List.cons_append, he, he', String.intercalate_cons_cons, String.intercalate_cons_cons,
        ← he, ← he', ih]
      simp only [String.append_assoc]
  unfold text
  rw [if_neg (by simp), if_neg (by simp), hjoin, String.append_assoc]

end Path

namespace FileTree

variable {tree tree' : FileTree} {p : Path} {slashes : Nat} {start names place : List String} {bytes : List UInt8}

theorem Leads.of_append {back : List String} (hstart : ".." ∉ start) (h : tree.Leads start (names ++ back)) :
    tree.Leads start names := by
  have hwalk := h.walk
  rw [walk_append] at hwalk
  cases hfront : tree.walk start names with
  | error fault =>
    rw [hfront] at hwalk
    cases hwalk
  | ok q =>
    rw [hfront] at hwalk
    obtain ⟨rfl, -⟩ := walk_eq_stepBack hstart hfront
    refine ⟨hfront, ?_⟩
    cases back with
    | nil => rw [← List.append_nil names]; exact h.directory
    | cons name rest =>
      change tree.walk (Path.stepBack (start ++ names)) (name :: rest) = _ at hwalk
      rw [walk_cons] at hwalk
      cases hstep : tree.step (Path.stepBack (start ++ names)) name with
      | error fault =>
        rw [hstep] at hwalk
        cases hwalk
      | ok next => exact step_directory hstep

theorem Leads.directory_of_onWay (hstart : ".." ∉ start) (h : tree.Leads start names) (hp : OnWay start names place) :
    tree.get? place = some .directory := by
  obtain ⟨front, ⟨back, rfl⟩, rfl⟩ := hp
  exact (h.of_append hstart).directory

theorem makeDirectory_eq_ok (h : tree.makeDirectory p = .ok tree') :
    ∃ place, tree.locate p = .ok place ∧ tree.get? place = none ∧ tree' = tree.set place .directory := by
  unfold makeDirectory at h
  cases hl : tree.locate p with
  | error fault =>
    rw [hl] at h
    cases h
  | ok place =>
    simp only [hl, bind, Except.bind] at h
    split at h
    · cases h
    · next hg =>
      cases h
      exact ⟨place, rfl, hg, rfl⟩

theorem walk_of_locate (hstart : ".." ∉ tree.origin p.slashes) {place : List String}
    (hl : tree.locate p = .ok place) :
    tree.walk (tree.origin p.slashes) p.names = .ok place ∧
      place = Path.stepBack (tree.origin p.slashes ++ p.names) := by
  rw [locate_eq (acceptable_of_locate hl)] at hl
  exact ⟨hl, (walk_eq_stepBack hstart hl).1⟩

theorem ensureDirectory_eq_ok (hstart : ".." ∉ tree.origin p.slashes) (h : tree.ensureDirectory p = .ok tree') :
    p.Acceptable ∧ tree.Extends tree' (OnWay (tree.origin p.slashes) p.names) ∧
      tree'.Leads (tree.origin p.slashes) p.names := by
  unfold ensureDirectory at h
  split at h
  · next made hmade =>
    cases h
    obtain ⟨place, hl, hg, rfl⟩ := makeDirectory_eq_ok hmade
    obtain ⟨hok, rfl⟩ := walk_of_locate hstart hl
    obtain ⟨hext, hthere⟩ := Extends.set_new hg
    refine ⟨acceptable_of_locate hl, hext.mono ?_, walk_mono (fun _ hd => hext.get?_eq hd) hok, hthere⟩
    rintro _ rfl
    exact onWay_last _ _
  · cases h
  · cases h
  · split at h
    · next hthere =>
      cases h
      unfold isDirectory at hthere
      split at hthere
      · next q hl =>
        obtain ⟨hok, rfl⟩ := walk_of_locate hstart hl
        exact ⟨acceptable_of_locate hl, .refl tree _, hok, of_decide_eq_true hthere⟩
      · cases hthere
    · cases h

/-- Whether or not all directories on a way can be made, nothing but some of them is new. -/
theorem ensureWay_extends (hstart : ".." ∉ tree.origin slashes) (up : List String) :
    tree.Extends (tree.ensureWay slashes up).1 (OnWay (tree.origin slashes) up.reverse) ∧
      ((tree.ensureWay slashes up).2 = .ok () → (⟨slashes, up.reverse⟩ : Path).Acceptable ∧
        (tree.ensureWay slashes up).1.Leads (tree.origin slashes) up.reverse) := by
  induction up generalizing tree with
  | nil =>
    rw [ensureWay]
    cases h : tree.ensureDirectory ⟨slashes, []⟩ with
    | error fault => exact ⟨.refl tree _, fun hok => by cases hok⟩
    | ok made =>
      obtain ⟨haccept, hext, hleads⟩ := ensureDirectory_eq_ok hstart h
      exact ⟨hext, fun _ => ⟨haccept, hleads⟩⟩
  | cons name up ih =>
    rw [ensureWay]
    cases h : tree.ensureDirectory ⟨slashes, (name :: up).reverse⟩ with
    | ok made =>
      obtain ⟨haccept, hext, hleads⟩ := ensureDirectory_eq_ok hstart h
      exact ⟨hext, fun _ => ⟨haccept, hleads⟩⟩
    | error fault =>
      cases fault with
      -- Only for a missing parent are the directories above made, and then the directory itself is tried again.
      | noEntry =>
        obtain ⟨hup, -⟩ := ih hstart
        have hwhole : tree.Extends (tree.ensureWay slashes up).1 (OnWay (tree.origin slashes) (name :: up).reverse) :=
          hup.mono fun q hq => by
            rw [List.reverse_cons]
            exact hq.further
        generalize tree.ensureWay slashes up = result at hwhole
        obtain ⟨upper, _ | _⟩ := result
        · exact ⟨hwhole, fun hok => by cases hok⟩
        · have horigin : upper.origin slashes = tree.origin slashes := by rw [origin, origin, hwhole.working]
          dsimp only
          cases h' : upper.ensureDirectory ⟨slashes, (name :: up).reverse⟩ with
          | error fault => exact ⟨hwhole, fun hok => by cases hok⟩
          | ok made =>
            have hstart' : ".." ∉ upper.origin slashes := horigin ▸ hstart
            obtain ⟨haccept, hext, hleads⟩ := ensureDirectory_eq_ok hstart' h'
            dsimp only at hext hleads
            rw [horigin] at hext hleads
            exact ⟨hwhole.trans hext, fun _ => ⟨haccept, hleads⟩⟩
      | _ => exact ⟨.refl tree _, fun hok => by cases hok⟩

/-- Directories can be made only along a way on which no file stands. -/
theorem passable_of_make (h : tree.Proper) {made : FileTree} (hmade : tree.makeDirectories p = (made, .ok ())) :
    tree.Passable p.slashes p.names := by
  have hstart := h.not_mem_origin p.slashes
  obtain ⟨hext, hok⟩ := ensureWay_extends hstart p.names.reverse
  rw [makeDirectories] at hmade
  rw [hmade, List.reverse_reverse] at hext hok
  obtain ⟨haccept, hleads⟩ := hok rfl
  refine ⟨haccept, (walk_eq_stepBack hstart hleads.walk).2, fun q hq b hfile => ?_⟩
  have hdirectory := hleads.directory_of_onWay hstart hq
  rw [hext.get?_eq hfile] at hdirectory
  cases hdirectory

structure Room (tree : FileTree) (p : Path) : Prop where
  acceptable : p.temporary.Acceptable
  short : (p.name ++ temporarySuffix).utf8ByteSize ≤ maxName
  free : tree.get? (p.temporary.place tree.working) ≠ some .directory ∧
    ¬ OnWay (tree.origin p.slashes) p.parent.names (p.temporary.place tree.working)

/-- A path at which writing is reported as failed: its name cannot be that of a file, or a directory is there or is
made on the way. -/
structure Refuses (tree : FileTree) (p : Path) : Prop where
  isName : Path.IsName p.name
  way : tree.Passable p.slashes p.parent.names
  reason : '\x00' ∈ p.name.toList ∨ tree.Room p ∧
    (p.name = ".." ∨ tree.get? (p.place tree.working) = some .directory ∨
      OnWay (tree.origin p.slashes) p.parent.names (p.place tree.working))

/-- A path at which writing fails without being reported as failed: it has no name, its directories cannot be made, or
there is no room for the temporary file. -/
inductive Blocks (tree : FileTree) (p : Path) : Prop
  | noName (h : p.name = "")
  | way (h : ¬ tree.Passable p.slashes p.parent.names)
  | temporary (isName : Path.IsName p.name) (way : tree.Passable p.slashes p.parent.names)
    (null : '\x00' ∉ p.name.toList) (h : ¬ tree.Room p)

theorem Room.acceptable_target (h : tree.Room p) (hn : p.name ≠ "") : p.Acceptable := by
  have htext : p.temporary.text = p.text ++ temporarySuffix := by
    rw [Path.temporary, Path.text_longer, ← Path.names_eq hn]
  refine ⟨fun name hin => ?_, ?_⟩
  · rw [Path.names_eq hn] at hin
    rcases List.mem_append.1 hin with hway | hname
    · exact h.acceptable.nulls name (List.mem_append_left _ hway)
    · have hnull := h.acceptable.nulls _ (List.mem_append_right p.parent.names (List.mem_singleton_self _))
      rw [String.toList_append, List.mem_append, not_or] at hnull
      rw [List.mem_singleton.1 hname]
      exact hnull.1
  · have hlength := h.acceptable.length
    rw [htext, String.utf8ByteSize_append] at hlength
    omega

theorem admits_or_refuses_or_blocks (hp : p.name = "" ∨ Path.IsName p.name) :
    tree.Admits p ∨ tree.Refuses p ∨ tree.Blocks p := by
  rcases hp with hnone | hname
  · exact .inr (.inr (.noName hnone))
  by_cases hway : tree.Passable p.slashes p.parent.names
  swap
  · exact .inr (.inr (.way hway))
  by_cases hnull : '\x00' ∈ p.name.toList
  · exact .inr (.inl ⟨hname, hway, .inl hnull⟩)
  by_cases hroom : tree.Room p
  swap
  · exact .inr (.inr (.temporary hname hway hnull hroom))
  by_cases hreason : p.name = ".." ∨ tree.get? (p.place tree.working) = some .directory ∨
      OnWay (tree.origin p.slashes) p.parent.names (p.place tree.working)
  · exact .inr (.inl ⟨hname, hway, .inr ⟨hroom, hreason⟩⟩)
  · simp only [not_or] at hreason
    refine .inl ⟨hname, hroom.acceptable_target hname.1, hroom.acceptable, hroom.short, hway.short, hreason.1,
      hway.clear, ?_⟩
    simp only [List.forall_mem_cons, List.not_mem_nil, false_imp_iff, implies_true, and_true]
    exact ⟨hreason.2, hroom.free⟩

/-- What is known of a file once its directories are there: whether anything stands at it or at the temporary one. -/
structure Placed (tree made : FileTree) (p : Path) : Prop where
  leads : made.Leads (made.origin p.slashes) p.parent.names
  directory : ∀ q, made.get? q = some .directory ↔
    tree.get? q = some .directory ∨ OnWay (tree.origin p.slashes) p.parent.names q
  working : made.working = tree.working

theorem Passable.placed (h : tree.Proper) (hway : tree.Passable p.slashes p.parent.names) :
    ∃ made, tree.makeDirectories p.parent = (made, .ok ()) ∧
      tree.Extends made (OnWay (tree.origin p.slashes) p.parent.names) ∧ tree.Placed made p := by
  obtain ⟨made, hmade, hext, hproper, hleads⟩ := Passable.make (p := p.parent) h hway
  refine ⟨made, hmade, hext, hleads, fun q => ⟨fun hd => ?_, ?_⟩, hext.working⟩
  · rcases hext.entries q with he | ⟨-, -, hon⟩
    · exact .inl (he ▸ hd)
    · exact .inr hon
  · rintro (hd | hon)
    · exact hext.get?_eq hd
    · have horigin : made.origin p.slashes = tree.origin p.slashes := by rw [origin, origin, hext.working]
      exact Leads.directory_of_onWay (hproper.not_mem_origin p.slashes) hleads (horigin ▸ hon)

theorem locate_null (h : ∃ name ∈ p.names, '\x00' ∈ name.toList) : tree.locate p = .error .nullCharacter := by
  have hany : p.names.any (·.toList.contains '\x00') = true := by simpa using h
  rw [locate, if_pos hany]
  rfl

theorem withSuffix_noName (h : p.name = "") : p.withSuffix (p.suffix ++ temporarySuffix) = .error (.noName p) := by
  have hvalid : Path.isSuffix (p.suffix ++ temporarySuffix) = true := by
    rw [Path.suffix, h]
    decide
  rw [Path.withSuffix, hvalid, h]
  rfl

/-- Where the temporary file cannot be looked up, its name or its path is too long. -/
theorem locate_temporary_tooLong (hl : tree.Leads (tree.origin p.slashes) p.parent.names)
    (hnull : ∀ name ∈ p.temporary.names, '\x00' ∉ name.toList)
    (h : ¬ (p.temporary.Acceptable ∧ (p.name ++ temporarySuffix).utf8ByteSize ≤ maxName)) :
    tree.locate p.temporary = .error .nameTooLong := by
  by_cases hlong : p.temporary.text.utf8ByteSize ≤ maxPath
  · have haccept : p.temporary.Acceptable := ⟨hnull, hlong⟩
    have hname : maxName < (p.name ++ temporarySuffix).utf8ByteSize := by
      rw [not_and] at h
      exact Nat.lt_of_not_le (h haccept)
    rw [locate_concat haccept rfl hl.walk, step, hl.directory]
    simp only [if_neg (temporary_ne_up p.name), if_pos hname]
    rfl
  · have hany : p.temporary.names.any (·.toList.contains '\x00') = false := by
      rw [List.any_eq_false]
      intro name hin
      simpa using hnull name hin
    rw [locate, hany, if_neg (by simp), if_pos (Nat.lt_of_not_le hlong)]
    rfl

variable {temporary : Path}

theorem write_of_locate {fault : FileFault} (hl : tree.locate p = .error fault) :
    tree.write p bytes = .error fault := by
  rw [write, hl]
  rfl

theorem write_directory (hl : tree.locate p = .ok place) (hd : tree.get? place = some .directory) :
    tree.write p bytes = .error .isDirectory := by
  rw [write, hl]
  simp only [bind, Except.bind, hd]
  rfl

theorem replace_null (h : tree.locate temporary = .error .nullCharacter) :
    tree.replace p temporary bytes = (tree, .error (.failed p .nullCharacter [temporary])) := by
  rw [replace, write_of_locate h]
  simp only [cleanUp, exists?, h]
  rfl

theorem replace_tooLong (h : tree.locate temporary = .error .nameTooLong) :
    tree.replace p temporary bytes = (tree, .error (.system .nameTooLong)) := by
  rw [replace, write_of_locate h]
  simp only [cleanUp, exists?, h]
  rfl

theorem replace_directory (hl : tree.locate temporary = .ok place) (hd : tree.get? place = some .directory) :
    tree.replace p temporary bytes = (tree, .error (.system .isDirectory)) := by
  rw [replace, write_directory hl hd]
  simp only [cleanUp, exists?, hl, hd, unlink, bind, Except.bind]
  rfl

theorem replace_unmoved {fault : FileFault} (hl : tree.locate temporary = .ok place)
    (hfree : tree.get? place ≠ some .directory)
    (hl' : (tree.set place (.file bytes)).locate temporary = .ok place)
    (hrename : (tree.set place (.file bytes)).rename temporary p = .error fault) (hne : place ≠ []) :
    tree.replace p temporary bytes =
      ((tree.set place (.file bytes)).erase place, .error (.failed p fault [temporary, p])) := by
  have hfile : (tree.set place (.file bytes)).get? place = some (.file bytes) := by
    rw [get?_set _ _ hne, if_pos rfl]
  rw [replace, write_ok hl hfree]
  simp only [hrename, cleanUp, exists?, hl', hfile, unlink, bind, Except.bind]
  rfl

theorem rename_eq_error {origin : List String} (hs : tree.locate temporary = .ok origin)
    (hl : tree.locate p = .ok place) (ho : tree.get? origin = some (.file bytes))
    (h : p.name = ".." ∨ tree.get? place = some .directory) : ∃ fault, tree.rename temporary p = .error fault := by
  rw [rename, hs, hl]
  simp only [bind, Except.bind]
  split
  · exact ⟨_, rfl⟩
  · next hbusy =>
    rw [not_or] at hbusy
    simp only [ho, h.resolve_left hbusy.2]
    exact ⟨_, rfl⟩

/-- Where the temporary file cannot be moved, it is removed again. -/
theorem writeAtomically_unmoved (h : tree.Proper) (hname : Path.IsName p.name)
    (hway : tree.Passable p.slashes p.parent.names) (hroom : tree.Room p)
    (hreason : p.name = ".." ∨ tree.get? (p.place tree.working) = some .directory ∨
      OnWay (tree.origin p.slashes) p.parent.names (p.place tree.working)) (bytes : List UInt8) :
    ∃ made fault involved,
      tree.writeAtomically p bytes = ((made.set (p.temporary.place tree.working) (.file bytes)).erase
        (p.temporary.place tree.working), .error (.failed p fault involved)) ∧
      tree.Extends made (OnWay (tree.origin p.slashes) p.parent.names) := by
  obtain ⟨made, hmade, hext, hplaced⟩ := hway.placed h
  rw [writeAtomically, hmade]
  simp only [Path.withSuffix_eq_temporary hname]
  have hlocate := locate_temporary hplaced.leads hroom.acceptable hroom.short
  have hfree : made.get? (p.temporary.place made.working) ≠ some .directory := by
    rw [hplaced.working, ne_eq, hplaced.directory, not_or]
    exact hroom.free
  have hne : p.temporary.place made.working ≠ [] := by
    rw [temporary_place_eq]
    simp
  have hset {q : List String} (hd : made.get? q = some .directory) :
      (made.set (p.temporary.place made.working) (.file bytes)).get? q = some .directory :=
    set_directories hne hfree hd
  have hleads : (made.set (p.temporary.place made.working) (.file bytes)).Leads (made.origin p.slashes)
      p.parent.names := hplaced.leads.mono fun q => hset
  have hlocate' := locate_temporary hleads hroom.acceptable hroom.short
  have htarget := locate_target hleads (hroom.acceptable_target hname.1) hname.1 hroom.short
  have hunfit : p.name = ".." ∨ (made.set (p.temporary.place made.working) (.file bytes)).get?
      (p.place made.working) = some .directory := by
    refine hreason.imp_right fun hd => hset ?_
    rw [hplaced.working]
    exact (hplaced.directory _).2 hd
  have hwritten : (made.set (p.temporary.place made.working) (.file bytes)).get?
      (p.temporary.place made.working) = some (.file bytes) := by
    rw [get?_set _ _ hne, if_pos rfl]
  obtain ⟨fault, hrename⟩ := rename_eq_error hlocate' htarget hwritten hunfit
  rw [← hplaced.working]
  exact ⟨made, _, _, replace_unmoved hlocate hfree hlocate' hrename hne, hext⟩

theorem writeAtomically_refused (h : tree.Proper) (hr : tree.Refuses p) (bytes : List UInt8) :
    ∃ tree' fault involved, tree.writeAtomically p bytes = (tree', .error (.failed p fault involved)) := by
  rcases hr.reason with hnull | ⟨hroom, hreason⟩
  · obtain ⟨made, hmade, -, -⟩ := hr.way.placed h
    rw [writeAtomically, hmade]
    simp only [Path.withSuffix_eq_temporary hr.isName]
    refine ⟨_, _, _, replace_null (locate_null ⟨_, List.mem_append_right _ (List.mem_singleton_self _), ?_⟩)⟩
    rw [String.toList_append]
    exact List.mem_append_left _ hnull
  · obtain ⟨made, fault, involved, hwrite, -⟩ := writeAtomically_unmoved h hr.isName hr.way hroom hreason bytes
    exact ⟨_, fault, involved, hwrite⟩

theorem writeAtomically_blocked (h : tree.Proper) (hb : tree.Blocks p) (bytes : List UInt8) :
    ∃ tree' fault, tree.writeAtomically p bytes = (tree', .error fault) ∧
      ∀ q cause involved, fault ≠ .failed q cause involved := by
  by_cases hway : tree.Passable p.slashes p.parent.names
  · obtain ⟨made, hmade, -, hplaced⟩ := hway.placed h
    rw [writeAtomically, hmade]
    cases hb with
    | noName hnone =>
      simp only [withSuffix_noName hnone]
      exact ⟨made, _, rfl, by simp⟩
    | way hnot => exact absurd hway hnot
    | temporary isName _ null hroom =>
      simp only [Path.withSuffix_eq_temporary isName]
      by_cases hshort : p.temporary.Acceptable ∧ (p.name ++ temporarySuffix).utf8ByteSize ≤ maxName
      · have hthere : made.get? (p.temporary.place made.working) = some .directory := by
          rw [hplaced.working, hplaced.directory]
          by_contra hfree
          exact hroom ⟨hshort.1, hshort.2, not_or.1 hfree⟩
        exact ⟨made, _, replace_directory (locate_temporary hplaced.leads hshort.1 hshort.2) hthere, by simp⟩
      · have hnull (name : String) (hin : name ∈ p.temporary.names) : '\x00' ∉ name.toList := by
          rcases List.mem_append.1 hin with hfront | hlast
          · exact hway.acceptable.nulls name hfront
          · rw [List.mem_singleton.1 hlast, String.toList_append, List.mem_append, not_or]
            exact ⟨null, by decide⟩
        exact ⟨made, _, replace_tooLong (locate_temporary_tooLong hplaced.leads hnull hshort), by simp⟩
  · cases hmade : tree.makeDirectories p.parent with
    | mk made result =>
      cases result with
      | ok => exact absurd (passable_of_make h hmade) hway
      | error fault =>
        rw [writeAtomically, hmade]
        exact ⟨made, .system fault, rfl, by simp⟩

end FileTree

end CaveMap
