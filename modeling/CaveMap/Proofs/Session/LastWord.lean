import CaveMap.Document.Layout
import CaveMap.Proofs.Session.History
import CaveMap.Proofs.Session.Independent
import CaveMap.Proofs.Settings.Modules

namespace CaveMap

namespace Command

/-- The module that a command registers under an id of the supply. -/
def registers? (id : String) : Command → Option MapModule
  | addModule name code description =>
    if Text.isBlankText name || Text.isBlankText code then none
    else some (Settings.newModule (MapModule.customId id) name code description)
  | _ => none

def removes? : Command → Option String
  | removeModule id => some id
  | _ => none

/-- The module id that a command turns on or off. A module that is registered is on, one that is removed is off. -/
def word? (id : String) : Command → Option (String × Bool)
  | removeModule other => some (other, false)
  | setEnabled other enabled => some (other, enabled)
  | command => (command.registers? id).map fun m => (m.id, true)

def draws (command : Command) : Nat := command.newUploads + command.newModules

end Command

namespace Session

/-- Commands, each with the id of the supply that is next when its turn comes. -/
def issued (ids : Nat → String) : Nat → List Command → List (String × Command)
  | _, [] => []
  | drawn, command :: rest => (ids drawn, command) :: issued ids (drawn + command.draws) rest

/-- What commands say of module ids, one after the other. -/
def words (commands : List (String × Command)) : List (String × Bool) :=
  commands.flatMap fun (id, command) => (command.word? id).toList

/-- The last word on an id. -/
def lastWord? (words : List (String × Bool)) (id : String) : Option Bool := words.reverse.lookup id

def removed (commands : List (String × Command)) : List String :=
  commands.flatMap fun (_, command) => command.removes?.toList

/-- The modules that are registered and not removed by what comes after. -/
def registered : List (String × Command) → List MapModule
  | [] => []
  | (id, command) :: rest => (command.registers? id).toList.filter (·.id ∉ removed rest) ++ registered rest

def afterAll (ids : Nat → String) (session : Session) (commands : List Command) : Session :=
  commands.foldl (after ids) session

end Session

namespace Settings

open Session

/-- The modules that there are after commands: the built-in ones, those from before, and the new ones. -/
def registry (s : Settings) (commands : List (String × Command)) : List MapModule :=
  MapModule.builtins ++ (s.customModules.filter (·.id ∉ removed commands) ++ registered commands)

/-- The modules whose ids have the last word in their favour, or no word and were on before. -/
def favoured (s : Settings) (commands : List (String × Command)) : List MapModule :=
  (s.registry commands).filter fun m => (lastWord? (words commands) m.id).getD (s.isEnabled m.id)

def moduleCode (s : Settings) : String := MapModule.joinedCode (Layout.enabledModules s)

end Settings

namespace Session

open Settings

variable {ids : Nat → String} {session : Session}

theorem lastWord?_append (front back : List (String × Bool)) (id : String) :
    lastWord? (front ++ back) id = (lastWord? back id).or (lastWord? front id) := by
  rw [lastWord?, List.reverse_append, List.lookup_append]
  rfl

theorem lastWord?_singleton (other id : String) (on : Bool) :
    lastWord? [(other, on)] id = if other = id then some on else none := by
  by_cases h : other = id
  · simp [lastWord?, h]
  · have hne : (id == other) = false := beq_false_of_ne (Ne.symm h)
    rw [if_neg h, lastWord?, List.reverse_singleton, List.lookup_cons, hne]
    rfl

theorem words_cons (id : String) (command : Command) (rest : List (String × Command)) :
    words ((id, command) :: rest) = (command.word? id).toList ++ words rest := List.flatMap_cons

theorem removed_cons (id : String) (command : Command) (rest : List (String × Command)) :
    removed ((id, command) :: rest) = command.removes?.toList ++ removed rest := List.flatMap_cons

theorem words_append (front back : List (String × Command)) : words (front ++ back) = words front ++ words back :=
  List.flatMap_append

theorem removed_append (front back : List (String × Command)) :
    removed (front ++ back) = removed front ++ removed back := List.flatMap_append

theorem modules_after {command : Command} (h : Part.modules ∉ command.parts) :
    (after ids session command).settings.customModules = session.settings.customModules ∧
      (after ids session command).settings.enabledModules = session.settings.enabledModules :=
  Prod.mk.inj (part_after ids session h)

theorem after_removeModule (ids : Nat → String) (session : Session) (id : String) :
    after ids session (.removeModule id) = { session with settings := session.settings.removeModule id } := rfl

theorem after_setEnabled (ids : Nat → String) (session : Session) (id : String) (enabled : Bool) :
    after ids session (.setEnabled id enabled) =
      { session with settings := session.settings.setEnabled id enabled } := rfl

theorem customModules_after (ids : Nat → String) (session : Session) (command : Command) :
    (after ids session command).settings.customModules =
      session.settings.customModules.filter (·.id ∉ command.removes?.toList) ++
        (command.registers? (ids session.drawn)).toList := by
  have hnone (command : Command) (h : Part.modules ∉ command.parts) :
      (after ids session command).settings.customModules =
        session.settings.customModules.filter (·.id ∉ (none : Option String).toList) ++
          (none : Option MapModule).toList := by
    rw [(modules_after h).1]
    simp
  cases command with
  | addModule name code description =>
    rw [after_addModule]
    simp only [Command.registers?, Command.removes?]
    split
    · simp
    · simp [addModule, MapModule.customId]
  | removeModule id =>
    rw [after_removeModule]
    simp [removeModule, Command.removes?, Command.registers?]
  | setEnabled id enabled =>
    rw [after_setEnabled]
    simp [setEnabled, Command.removes?, Command.registers?]
  | _ => exact hnone _ (by simp [Command.parts])

theorem isEnabled_after (ids : Nat → String) (session : Session) (command : Command) (id : String) :
    (after ids session command).settings.isEnabled id =
      (lastWord? (command.word? (ids session.drawn)).toList id).getD (session.settings.isEnabled id) := by
  have hnone (command : Command) (h : Part.modules ∉ command.parts) :
      (after ids session command).settings.isEnabled id = session.settings.isEnabled id := by
    rw [isEnabled, (modules_after h).2]
    rfl
  cases command with
  | addModule name code description =>
    rw [after_addModule]
    simp only [Command.word?, Command.registers?]
    split
    · rfl
    · rw [isEnabled_addModule, Option.map_some, Option.toList_some, lastWord?_singleton]
      simp only [newModule, MapModule.customId]
      by_cases h : "custom_" ++ ids session.drawn = id
      · simp [h]
      · simp [h]
  | removeModule other =>
    rw [after_removeModule, isEnabled_removeModule, Command.word?, Option.toList_some, lastWord?_singleton]
    by_cases h : other = id
    · simp [h]
    · simp [h]
  | setEnabled other enabled =>
    rw [after_setEnabled, isEnabled_setEnabled, Command.word?, Option.toList_some, lastWord?_singleton]
    by_cases h : other = id
    · simp [h]
    · simp [h]
  | _ => exact hnone _ (by simp [Command.parts])

theorem drawn_after (ids : Nat → String) (session : Session) (command : Command) :
    (after ids session command).drawn = session.drawn + command.draws :=
  (created ids session command).2.2.trans (Nat.add_assoc ..)

theorem customModules_afterAll (ids : Nat → String) (session : Session) (commands : List Command) :
    (afterAll ids session commands).settings.customModules =
      session.settings.customModules.filter (·.id ∉ removed (issued ids session.drawn commands)) ++
        registered (issued ids session.drawn commands) := by
  induction commands generalizing session with
  | nil => simp [afterAll, issued, removed, registered]
  | cons command rest ih =>
    have hrest := ih (after ids session command)
    rw [drawn_after, customModules_after, List.filter_append, List.filter_filter, List.append_assoc] at hrest
    refine hrest.trans ?_
    rw [issued, registered]
    congr 1
    apply List.filter_congr
    intro m _
    simp only [removed_cons, List.mem_append, not_or, Bool.decide_and, Bool.and_comm]

theorem isEnabled_afterAll (ids : Nat → String) (session : Session) (commands : List Command) (id : String) :
    (afterAll ids session commands).settings.isEnabled id =
      (lastWord? (words (issued ids session.drawn commands)) id).getD (session.settings.isEnabled id) := by
  induction commands generalizing session with
  | nil => rfl
  | cons command rest ih =>
    have hrest := ih (after ids session command)
    rw [drawn_after, isEnabled_after] at hrest
    refine hrest.trans ?_
    rw [issued, words_cons, lastWord?_append, Option.getD_or]

theorem enabledModules_afterAll (ids : Nat → String) (session : Session) (commands : List Command) :
    Layout.enabledModules (afterAll ids session commands).settings =
      session.settings.favoured (issued ids session.drawn commands) := by
  rw [Layout.enabledModules, MapModule.enabled, customModules_afterAll, favoured, registry]
  apply List.filter_congr
  intro m _
  exact isEnabled_afterAll ids session commands m.id

def enabling (on : List String) : List Command := on.map (.setEnabled · true)

def drawsOf (commands : List Command) : Nat := (commands.map Command.draws).sum

theorem issued_append (drawn : Nat) (front back : List Command) :
    issued ids drawn (front ++ back) = issued ids drawn front ++ issued ids (drawn + drawsOf front) back := by
  induction front generalizing drawn with
  | nil => rfl
  | cons command rest ih =>
    rw [List.cons_append, issued, issued, ih, drawsOf, drawsOf, List.map_cons, List.sum_cons, Nat.add_assoc]
    rfl

theorem registered_append (front back : List (String × Command)) :
    registered (front ++ back) = (registered front).filter (·.id ∉ removed back) ++ registered back := by
  induction front with
  | nil => rfl
  | cons first rest ih =>
    rw [List.cons_append, registered, registered, ih, List.filter_append, List.filter_filter, List.append_assoc]
    congr 1
    apply List.filter_congr
    intro m _
    simp only [removed_append, List.mem_append, not_or, Bool.decide_and, Bool.and_comm]

theorem registry_around {s : Settings} {front middle back : List (String × Command)} (hremoved : removed middle = [])
    (hregistered : registered middle = []) : s.registry (front ++ middle ++ back) = s.registry (front ++ back) := by
  have hall : removed (front ++ middle ++ back) = removed (front ++ back) := by
    rw [removed_append, removed_append, removed_append, hremoved, List.append_nil]
  have hnew : registered (front ++ middle ++ back) = registered (front ++ back) := by
    rw [registered_append, registered_append, registered_append, hremoved, hregistered]
    simp
  rw [registry, registry, hall, hnew]

theorem drawsOf_enabling (on : List String) : drawsOf (enabling on) = 0 := by
  induction on with
  | nil => rfl
  | cons id rest ih => exact List.sum_cons.trans ((Nat.zero_add _).trans ih)

theorem issued_enabling_cons (ids : Nat → String) (drawn : Nat) (id : String) (rest : List String) :
    issued ids drawn (enabling (id :: rest)) =
      (ids drawn, .setEnabled id true) :: issued ids drawn (enabling rest) := rfl

theorem issued_enabling (ids : Nat → String) (drawn : Nat) (on : List String) :
    words (issued ids drawn (enabling on)) = on.map (·, true) ∧ removed (issued ids drawn (enabling on)) = [] ∧
      registered (issued ids drawn (enabling on)) = [] := by
  induction on with
  | nil => exact ⟨rfl, rfl, rfl⟩
  | cons id rest ih =>
    obtain ⟨hwords, hremoved, hregistered⟩ := ih
    rw [issued_enabling_cons, words_cons, removed_cons, registered, hwords, hremoved, hregistered]
    exact ⟨rfl, rfl, rfl⟩

theorem lastWord?_enabled (on : List String) (id : String) :
    lastWord? (on.map (·, true)) id = if id ∈ on then some true else none := by
  induction on with
  | nil => rfl
  | cons first rest ih =>
    have hcons : lastWord? ((first :: rest).map (·, true)) id =
        (lastWord? (rest.map (·, true)) id).or (lastWord? [(first, true)] id) :=
      lastWord?_append [(first, true)] (rest.map (·, true)) id
    rw [hcons, ih, lastWord?_singleton]
    by_cases hrest : id ∈ rest
    · simp [hrest]
    · by_cases hfirst : first = id
      · simp [hrest, hfirst]
      · simp [hrest, hfirst, Ne.symm hfirst]

theorem issued_around (drawn : Nat) (front back : List Command) (on : List String) :
    issued ids drawn (front ++ enabling on ++ back) =
      issued ids drawn front ++ issued ids (drawn + drawsOf front) (enabling on) ++
        issued ids (drawn + drawsOf front) back := by
  have hdraws : drawsOf (front ++ enabling on) = drawsOf front := by
    rw [drawsOf, List.map_append, List.sum_append]
    exact congrArg (drawsOf front + ·) (drawsOf_enabling on)
  rw [issued_append, issued_append, hdraws]

/-- Of what is enabled somewhere in a run only the ids of modules count that are there in the end. -/
theorem enabledModules_enabling (ids : Nat → String) (session : Session) (front back : List Command)
    {on on' : List String}
    (h : ∀ m ∈ session.settings.registry (issued ids session.drawn (front ++ back)), m.id ∈ on ↔ m.id ∈ on') :
    Layout.enabledModules (afterAll ids session (front ++ enabling on ++ back)).settings =
      Layout.enabledModules (afterAll ids session (front ++ enabling on' ++ back)).settings := by
  have hregistry (on : List String) :
      session.settings.registry (issued ids session.drawn (front ++ enabling on ++ back)) =
        session.settings.registry (issued ids session.drawn (front ++ back)) := by
    obtain ⟨-, hremoved, hregistered⟩ := issued_enabling ids (session.drawn + drawsOf front) on
    rw [issued_around, issued_append, registry_around hremoved hregistered]
  have hword (on : List String) (id : String) :
      lastWord? (words (issued ids session.drawn (front ++ enabling on ++ back))) id =
        ((lastWord? (words (issued ids (session.drawn + drawsOf front) back)) id).or
          (if id ∈ on then some true else none)).or (lastWord? (words (issued ids session.drawn front)) id) := by
    rw [issued_around, words_append, words_append, lastWord?_append, lastWord?_append, Option.or_assoc,
      (issued_enabling ids (session.drawn + drawsOf front) on).1, lastWord?_enabled]
  rw [enabledModules_afterAll, enabledModules_afterAll, favoured, favoured, hregistry, hregistry]
  apply List.filter_congr
  intro m hm
  simp only [hword, h m hm]

theorem after_removed {command : Command} {drawn : Nat} {id : String}
    (h : ∀ word ∈ (command.word? (ids drawn)).toList, word.1 ≠ id) (s : Settings) :
    (after ids ⟨s.removeModule id, drawn⟩ command).settings =
      (after ids ⟨s, drawn⟩ command).settings.removeModule id := by
  have hothers (command : Command) (hc : (Command.removeModule id).Independent command) :
      (after ids ⟨s.removeModule id, drawn⟩ command).settings =
        (after ids ⟨s, drawn⟩ command).settings.removeModule id := by
    have hremoved (s : Settings) : s.after ids drawn (.removeModule id) = s.removeModule id := rfl
    have hcomm : (s.after ids drawn (.removeModule id)).after ids drawn command =
        (s.after ids drawn command).after ids drawn (.removeModule id) := Settings.after_comm hc
    rwa [hremoved, hremoved] at hcomm
  cases command with
  | addModule name code description =>
    rw [after_addModule, after_addModule]
    simp only [Command.word?, Command.registers?] at h
    split
    · rfl
    · next hfilled =>
      rw [if_neg hfilled] at h
      exact removeModule_addModule_of_ne (h _ (.head _)) s
  | removeModule other => exact removeModule_comm s id other
  | setEnabled other enabled => exact removeModule_setEnabled_of_ne (h _ (.head _)) enabled s
  | _ => exact hothers _ (by simp [Command.Independent, Command.parts])

theorem afterAll_removed {commands : List Command} {drawn : Nat} {id : String}
    (h : ∀ word ∈ words (issued ids drawn commands), word.1 ≠ id) (s : Settings) :
    (afterAll ids ⟨s.removeModule id, drawn⟩ commands).settings =
      (afterAll ids ⟨s, drawn⟩ commands).settings.removeModule id := by
  induction commands generalizing s drawn with
  | nil => rfl
  | cons command rest ih =>
    rw [issued, words_cons, List.forall_mem_append] at h
    -- Both runs draw the same number of ids, so the second one stays at the same place of the supply.
    have hsession (session : Session) (hdrawn : session.drawn = drawn) :
        after ids session command = ⟨(after ids session command).settings, drawn + command.draws⟩ := by
      rw [← hdrawn, ← drawn_after]
    have hstep : after ids ⟨s.removeModule id, drawn⟩ command =
        ⟨(after ids ⟨s, drawn⟩ command).settings.removeModule id, drawn + command.draws⟩ := by
      rw [← after_removed h.1 s]
      exact hsession _ rfl
    have hrest := ih h.2 (after ids ⟨s, drawn⟩ command).settings
    rw [← hstep, ← hsession ⟨s, drawn⟩ rfl] at hrest
    exact hrest

theorem addModule_refused_iff (ids : Nat → String) (session : Session) (name code description : String) :
    (∃ fault, (session.run ids (.addModule name code description)).result = .error fault) ↔
      (Text.isBlankText name || Text.isBlankText code) = true := by
  simp only [run]
  cases Text.isBlankText name with
  | true => exact iff_of_true ⟨_, rfl⟩ rfl
  | false =>
    cases Text.isBlankText code with
    | true => exact iff_of_true ⟨_, rfl⟩ rfl
    | false =>
      apply iff_of_false
      · rintro ⟨fault, h⟩
        cases h
      · exact Bool.false_ne_true

theorem after_refused {command : Command} {fault : Command.Fault}
    (h : (session.run ids command).result = .error fault) : after ids session command = session := by
  rw [after, h]

/-- Modules that are registered and go again leave no trace. -/
theorem settings_added_removed {name code description : String} {commands : List Command}
    (hdone : ∃ next, (session.run ids (.addModule name code description)).result = .ok next)
    (hnew : ∀ m ∈ session.settings.customModules, m.id ≠ MapModule.customId (ids session.drawn))
    (hoff : session.settings.isEnabled (MapModule.customId (ids session.drawn)) = false)
    (honce : session.settings.EnabledOnce)
    (hother : ∀ word ∈ words (issued ids (session.drawn + 1) commands),
      word.1 ≠ MapModule.customId (ids session.drawn)) :
    (afterAll ids session (.addModule name code description :: commands ++
        [.removeModule (MapModule.customId (ids session.drawn))])).settings =
      (afterAll ids ⟨session.settings, session.drawn + 1⟩ commands).settings := by
  have hfilled : ¬(Text.isBlankText name || Text.isBlankText code) = true := by
    intro hblank
    obtain ⟨next, hnext⟩ := hdone
    obtain ⟨fault, hfault⟩ := (addModule_refused_iff ids session name code description).2 hblank
    rw [hnext] at hfault
    cases hfault
  let m := newModule (MapModule.customId (ids session.drawn)) name code description
  have hadd : after ids session (.addModule name code description) =
      ⟨session.settings.addModule m, session.drawn + 1⟩ := by
    rw [after_addModule, if_neg hfilled]
    rfl
  calc (afterAll ids session (.addModule name code description :: commands ++ [.removeModule m.id])).settings
      = (afterAll ids ⟨session.settings.addModule m, session.drawn + 1⟩ commands).settings.removeModule m.id := by
        rw [afterAll, List.cons_append, List.foldl_cons, List.foldl_append, hadd]
        rfl
    _ = (afterAll ids ⟨(session.settings.addModule m).removeModule m.id, session.drawn + 1⟩ commands).settings :=
        (afterAll_removed hother _).symm
    _ = (afterAll ids ⟨session.settings, session.drawn + 1⟩ commands).settings := by
        rw [removeModule_addModule hnew hoff honce]

/-- The last word on an id decides whether a module shows. Of what is enabled on the way the order, repetitions and
ids of no module do not matter. A refused registration is as if it had not been tried, and a module that is registered
and removed again as if it had never been there, with the commands in between. -/
theorem last_word_decides (ids : Nat → String) (session : Session) :
    (∀ commands, (afterAll ids session commands).settings.moduleCode =
      String.intercalate "\n\n" ((session.settings.favoured (issued ids session.drawn commands)).map (·.code))) ∧
    (∀ front back on on', (∀ m ∈ session.settings.registry (issued ids session.drawn (front ++ back)),
        m.id ∈ on ↔ m.id ∈ on') →
      (afterAll ids session (front ++ enabling on ++ back)).settings.moduleCode =
        (afterAll ids session (front ++ enabling on' ++ back)).settings.moduleCode) ∧
    (∀ name code description fault commands,
      (session.run ids (.addModule name code description)).result = .error fault →
      afterAll ids session (.addModule name code description :: commands) = afterAll ids session commands) ∧
    ∀ name code description commands,
      (∃ next, (session.run ids (.addModule name code description)).result = .ok next) →
      (∀ m ∈ session.settings.customModules, m.id ≠ MapModule.customId (ids session.drawn)) →
      session.settings.isEnabled (MapModule.customId (ids session.drawn)) = false →
      session.settings.EnabledOnce →
      (∀ word ∈ words (issued ids (session.drawn + 1) commands), word.1 ≠ MapModule.customId (ids session.drawn)) →
      (afterAll ids session (.addModule name code description :: commands ++
          [.removeModule (MapModule.customId (ids session.drawn))])).settings =
        (afterAll ids ⟨session.settings, session.drawn + 1⟩ commands).settings := by
  refine ⟨?_, ?_, ?_, ?_⟩
  · intro commands
    rw [moduleCode, enabledModules_afterAll]
    rfl
  · intro front back on on' h
    exact congrArg MapModule.joinedCode (enabledModules_enabling ids session front back h)
  · intro name code description fault commands h
    exact congrArg (commands.foldl (after ids)) (after_refused h)
  · intro name code description commands hdone hnew hoff honce hother
    exact settings_added_removed hdone hnew hoff honce hother

def started : Session where
  settings :=
    { customModules := [newModule "custom_walls" "Walls" "% walls" ""]
      enabledModules := [.text "custom_walls", .text "a_sand_wiki"] }

def meanwhile : List Command :=
  [.setEnabled "a_sand_wiki" false, .addModule "Pits" "% pits" "", .addModule " " "% nothing" "",
   .setEnabled "nowhere" true, .removeModule "custom_walls"]

theorem last_word_decides_started :
    (∀ m ∈ started.settings.registry (issued Text.decimalText started.drawn (meanwhile ++ [])),
      m.id ∈ ["l_section_marker", "a_sand_wiki"] ↔
        m.id ∈ ["a_sand_wiki", "custom_walls", "l_section_marker", "a_sand_wiki"]) ∧
    (afterAll Text.decimalText started
        (meanwhile ++ enabling ["l_section_marker", "a_sand_wiki"] ++ [])).settings.moduleCode =
      (afterAll Text.decimalText started (meanwhile ++
        enabling ["a_sand_wiki", "custom_walls", "l_section_marker", "a_sand_wiki"] ++ [])).settings.moduleCode ∧
    (started.run Text.decimalText (.addModule "" "% nameless" "")).result = .error .noModuleName ∧
    afterAll Text.decimalText started (.addModule "" "% nameless" "" :: meanwhile) =
      afterAll Text.decimalText started meanwhile ∧
    (∃ next, (started.run Text.decimalText (.addModule "Hall" "% hall" "")).result = .ok next) ∧
    (∀ m ∈ started.settings.customModules, m.id ≠ MapModule.customId (Text.decimalText started.drawn)) ∧
    started.settings.isEnabled (MapModule.customId (Text.decimalText started.drawn)) = false ∧
    started.settings.EnabledOnce ∧
    (∀ word ∈ words (issued Text.decimalText (started.drawn + 1) meanwhile),
      word.1 ≠ MapModule.customId (Text.decimalText started.drawn)) ∧
    (afterAll Text.decimalText started (.addModule "Hall" "% hall" "" :: meanwhile ++
        [.removeModule (MapModule.customId (Text.decimalText started.drawn))])).settings =
      (afterAll Text.decimalText ⟨started.settings, started.drawn + 1⟩ meanwhile).settings := by
  have hids : ∀ m ∈ started.settings.registry (issued Text.decimalText started.drawn (meanwhile ++ [])),
      m.id ∈ ["l_section_marker", "a_sand_wiki"] ↔
        m.id ∈ ["a_sand_wiki", "custom_walls", "l_section_marker", "a_sand_wiki"] := by decide +kernel
  have hrefused : (started.run Text.decimalText (.addModule "" "% nameless" "")).result = .error .noModuleName := rfl
  have hdone : ∃ next, (started.run Text.decimalText (.addModule "Hall" "% hall" "")).result = .ok next := ⟨_, rfl⟩
  have hnew : ∀ m ∈ started.settings.customModules, m.id ≠ MapModule.customId (Text.decimalText started.drawn) := by
    decide +kernel
  have hoff : started.settings.isEnabled (MapModule.customId (Text.decimalText started.drawn)) = false := by
    decide +kernel
  have honce : started.settings.EnabledOnce :=
    Value.distinct_texts (show ["custom_walls", "a_sand_wiki"].Nodup by decide)
  have hother : ∀ word ∈ words (issued Text.decimalText (started.drawn + 1) meanwhile),
      word.1 ≠ MapModule.customId (Text.decimalText started.drawn) := by decide +kernel
  obtain ⟨-, henabling, hsame, hgone⟩ := last_word_decides Text.decimalText started
  exact ⟨hids, henabling _ _ _ _ hids, hrefused, hsame _ _ _ _ _ hrefused, hdone, hnew, hoff, honce, hother,
    hgone _ _ _ _ hdone hnew hoff honce hother⟩

end Session

end CaveMap
