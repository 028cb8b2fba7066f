import CaveMap.Log.Logger
import Mathlib.Data.List.Basic
import Mathlib.Data.List.Induction

namespace CaveMap.Log

namespace Handler

def isConsole : Handler → Bool
  | console _ => true
  | _ => false

def isFile : Handler → Bool
  | file .. => true
  | _ => false

end Handler

/-- A set-up, and the files that there are when it is asked for. -/
structure Attempt where
  tree : FileTree
  setup : SetUp

namespace Attempt

def consoles (attempt : Attempt) : List Handler :=
  if attempt.setup.console then [.console attempt.setup.colored] else []

/-- The file handler, none without a log file, or the fault that keeps the log file from being opened. -/
def files (attempt : Attempt) : Except FileFault (List Handler) :=
  match attempt.setup.file with
  | none => .ok []
  | some p => (openFile attempt.tree p).2.map fun place => [.file place attempt.setup.json]

/-- The handlers that are added, even if the set-up fails thereafter. -/
def added (attempt : Attempt) : List Handler :=
  match rankOf? attempt.setup.level, attempt.files with
  | none, _ => []
  | some _, .error _ => attempt.consoles
  | some _, .ok files => attempt.consoles ++ files

/-- The level is known, the log file can be opened, and the keys of the context are texts. -/
structure Succeeds (attempt : Attempt) : Prop where
  level : ∃ rank, rankOf? attempt.setup.level = some rank
  files : ∃ files, attempt.files = .ok files
  fields : ∃ fields, attempt.setup.fields? = some fields

theorem not_succeeds_of_level {attempt : Attempt} (h : rankOf? attempt.setup.level = none) : ¬ attempt.Succeeds := by
  rintro ⟨⟨rank, hrank⟩, -, -⟩
  rw [h] at hrank
  cases hrank

theorem added_cases (attempt : Attempt) : attempt.added = [] ∨ attempt.added = attempt.consoles ∨
    ∃ place, attempt.added = attempt.consoles ++ [.file place attempt.setup.json] := by
  unfold added files
  cases rankOf? attempt.setup.level with
  | none => exact .inl rfl
  | some rank =>
    cases attempt.setup.file with
    | none => exact .inr (.inl (List.append_nil _))
    | some p =>
      dsimp only
      cases (openFile attempt.tree p).2 with
      | error fault => exact .inr (.inl rfl)
      | ok place => exact .inr (.inr ⟨place, rfl⟩)

theorem foreign_consoles (attempt : Attempt) : attempt.consoles.filter Handler.isForeign = [] := by
  unfold consoles
  split <;> rfl

theorem foreign_added (attempt : Attempt) : attempt.added.filter Handler.isForeign = [] := by
  rcases attempt.added_cases with h | h | ⟨place, h⟩
  · rw [h]
    rfl
  · rw [h, foreign_consoles]
  · rw [h, List.filter_append, foreign_consoles]
    rfl

theorem countP_consoles (attempt : Attempt) :
    attempt.consoles.countP Handler.isConsole ≤ 1 ∧ attempt.consoles.countP Handler.isFile = 0 := by
  unfold consoles
  split
  · exact ⟨Nat.le_refl 1, rfl⟩
  · exact ⟨Nat.zero_le 1, rfl⟩

theorem countP_isConsole_added (attempt : Attempt) : attempt.added.countP Handler.isConsole ≤ 1 := by
  have hconsoles := attempt.countP_consoles.1
  rcases attempt.added_cases with h | h | ⟨place, h⟩
  · rw [h]
    exact Nat.zero_le 1
  · rwa [h]
  · rw [h, List.countP_append]
    exact hconsoles

theorem countP_isFile_added (attempt : Attempt) : attempt.added.countP Handler.isFile ≤ 1 := by
  have hconsoles := attempt.countP_consoles.2
  rcases attempt.added_cases with h | h | ⟨place, h⟩
  · rw [h]
    exact Nat.zero_le 1
  · rw [h, hconsoles]
    exact Nat.zero_le 1
  · rw [h, List.countP_append, hconsoles]
    exact Nat.le_refl 1

end Attempt

namespace Logger

variable {logger start : Logger} {attempt : Attempt} {attempts : List Attempt}

def own (logger : Logger) : List Handler := logger.handlers.filter (!·.isForeign)

def foreign (logger : Logger) : List Handler := logger.handlers.filter Handler.isForeign

def next (logger : Logger) (attempt : Attempt) : Logger := (logger.setUp attempt.tree attempt.setup).2.1

def answer (logger : Logger) (attempt : Attempt) : Except SetUpFault (List Handler) :=
  (logger.setUp attempt.tree attempt.setup).2.2

def after (logger : Logger) (attempts : List Attempt) : Logger := attempts.foldl next logger

/-- What a set-up can do: nothing, or only the first part of its work, or all of it. -/
inductive Steps (logger : Logger) (attempt : Attempt) : Logger → Except SetUpFault (List Handler) → Prop
  | refused (level : rankOf? attempt.setup.level = none) :
      Steps logger attempt logger (.error (.unknownLevel attempt.setup.level))
  | failed {rank : Nat} {fault : SetUpFault} (level : rankOf? attempt.setup.level = some rank)
      (fails : ¬ attempt.Succeeds) (other : ∀ name, fault ≠ .unknownLevel name) :
      Steps logger attempt { logger with rank, handlers := logger.kept ++ attempt.added } (.error fault)
  | done {rank : Nat} {fields : List (String × Value)} (level : rankOf? attempt.setup.level = some rank)
      (succeeds : attempt.Succeeds) (pushed : attempt.setup.fields? = some fields) :
      Steps logger attempt
        { rank, handlers := logger.kept ++ attempt.added, context := logger.context.push fields, isSetUp := true }
        (.ok attempt.added)

theorem finish_steps (logger : Logger) {rank : Nat} {made : List Handler}
    (hlevel : rankOf? attempt.setup.level = some rank) (hfiles : attempt.files = .ok made) :
    Steps logger attempt
      ({ logger with rank, handlers := logger.kept ++ attempt.added }.finish attempt.setup attempt.added).1
      ({ logger with rank, handlers := logger.kept ++ attempt.added }.finish attempt.setup attempt.added).2 := by
  unfold finish
  cases hfields : attempt.setup.fields? with
  | none =>
    refine .failed hlevel (fun hs => ?_) (by simp)
    obtain ⟨fields, h⟩ := hs.fields
    rw [hfields] at h
    cases h
  | some fields => exact .done hlevel ⟨⟨_, hlevel⟩, ⟨_, hfiles⟩, ⟨_, hfields⟩⟩ hfields

theorem steps (logger : Logger) (attempt : Attempt) :
    Steps logger attempt (logger.next attempt) (logger.answer attempt) := by
  unfold next answer setUp
  cases hlevel : rankOf? attempt.setup.level with
  | none => exact .refused hlevel
  | some rank =>
    -- The file is opened before the fields of the context are looked at.
    cases hfile : attempt.setup.file with
    | none =>
      have hfiles : attempt.files = .ok [] := by rw [Attempt.files, hfile]
      have hadded : attempt.added = attempt.consoles := by simp only [Attempt.added, hlevel, hfiles, List.append_nil]
      have hsteps := finish_steps logger hlevel hfiles
      rw [hadded] at hsteps
      exact hsteps
    | some p =>
      cases hopen : openFile attempt.tree p with
      | mk tree result =>
        cases result with
        | error fault =>
          have hfiles : attempt.files = .error fault := by
            simp only [Attempt.files, hfile, hopen]
            rfl
          have hadded : attempt.added = attempt.consoles := by simp only [Attempt.added, hlevel, hfiles]
          have hfails : ¬ attempt.Succeeds := by
            rintro ⟨-, ⟨files, h⟩, -⟩
            rw [hfiles] at h
            cases h
          have hsteps : Steps logger attempt _ (.error (.system fault)) := .failed hlevel hfails (by simp)
          rw [hadded] at hsteps
          simp only [hopen]
          exact hsteps
        | ok place =>
          have hfiles : attempt.files = .ok [.file place attempt.setup.json] := by
            simp only [Attempt.files, hfile, hopen]
            rfl
          have hadded : attempt.added = attempt.consoles ++ [.file place attempt.setup.json] := by
            simp only [Attempt.added, hlevel, hfiles]
          have hsteps := finish_steps logger hlevel hfiles
          rw [hadded] at hsteps
          simp only [hopen]
          exact hsteps

theorem foreign_kept (logger : Logger) : logger.kept.filter Handler.isForeign = logger.foreign := by
  unfold kept foreign
  split
  · exact List.filter_filter.trans (by simp only [Bool.and_self])
  · rfl

theorem own_kept (h : logger.isSetUp = true) : logger.kept.filter (!·.isForeign) = [] := by
  rw [kept, if_pos h, List.filter_filter]
  simp

theorem foreign_added (logger : Logger) (attempt : Attempt) :
    (logger.kept ++ attempt.added).filter Handler.isForeign = logger.foreign := by
  rw [List.filter_append, attempt.foreign_added, List.append_nil, foreign_kept]

namespace Steps

variable {later : Logger} {answer : Except SetUpFault (List Handler)}

theorem foreign_eq (h : Steps logger attempt later answer) : later.foreign = logger.foreign := by
  cases h with
  | refused => rfl
  | failed => exact foreign_added logger attempt
  | done => exact foreign_added logger attempt

theorem isSetUp_iff (h : Steps logger attempt later answer) :
    later.isSetUp ↔ logger.isSetUp ∨ attempt.Succeeds := by
  cases h with
  | refused hlevel => exact (or_iff_left (Attempt.not_succeeds_of_level hlevel)).symm
  | failed _ hfails => exact (or_iff_left hfails).symm
  | done _ hsucceeds => exact iff_of_true rfl (.inr hsucceeds)

theorem handlers_eq (h : Steps logger attempt later answer) (hnot : logger.isSetUp = false) :
    later.handlers = logger.handlers ++ attempt.added := by
  have hkept : logger.kept = logger.handlers := by rw [kept, hnot]; rfl
  cases h with
  | refused hlevel => rw [Attempt.added, hlevel, List.append_nil]
  | failed => rw [hkept]
  | done => rw [hkept]

end Steps

theorem answer_ok {made : List Handler} (h : logger.answer attempt = .ok made) :
    made = attempt.added ∧ rankOf? attempt.setup.level = some (logger.next attempt).rank ∧
      (logger.next attempt).handlers = logger.kept ++ made := by
  have hsteps := steps logger attempt
  rw [h] at hsteps
  generalize logger.next attempt = later at hsteps
  cases hsteps with
  | done hlevel => exact ⟨rfl, hlevel, rfl⟩

theorem next_of_unknownLevel {name : String} (h : logger.answer attempt = .error (.unknownLevel name)) :
    logger.next attempt = logger := by
  have hsteps := steps logger attempt
  rw [h] at hsteps
  generalize logger.next attempt = later at hsteps
  cases hsteps with
  | refused => rfl
  | failed _ _ hother => exact absurd rfl (hother _)

theorem after_concat (start : Logger) (attempts : List Attempt) (attempt : Attempt) :
    start.after (attempts ++ [attempt]) = (start.after attempts).next attempt := by
  rw [after, List.foldl_append]
  rfl

theorem foreign_after (start : Logger) (attempts : List Attempt) : (start.after attempts).foreign = start.foreign := by
  induction attempts using List.reverseRecOn with
  | nil => rfl
  | append_singleton attempts attempt ih => rw [after_concat, (steps _ attempt).foreign_eq, ih]

theorem isSetUp_after (start : Logger) (attempts : List Attempt) :
    (start.after attempts).isSetUp ↔ start.isSetUp ∨ ∃ attempt ∈ attempts, attempt.Succeeds := by
  induction attempts using List.reverseRecOn with
  | nil => simp [after]
  | append_singleton attempts attempt ih =>
    rw [after_concat, (steps _ attempt).isSetUp_iff, ih]
    simp only [List.mem_append, List.mem_singleton, or_and_right, exists_or, exists_eq_left, or_assoc]

theorem isSetUp_after_eq_false (hfresh : start.isSetUp = false)
    (hfail : ∀ attempt ∈ attempts, ¬ attempt.Succeeds) :
    (start.after attempts).isSetUp = false := by
  rw [← Bool.not_eq_true, isSetUp_after, hfresh]
  simpa using hfail

theorem handlers_after (hfresh : start.isSetUp = false) (hfail : ∀ attempt ∈ attempts, ¬ attempt.Succeeds) :
    (start.after attempts).handlers = start.handlers ++ attempts.flatMap Attempt.added := by
  induction attempts using List.reverseRecOn with
  | nil => exact (List.append_nil _).symm
  | append_singleton attempts attempt ih =>
    have hfront : ∀ attempt ∈ attempts, ¬ attempt.Succeeds := fun a hin => hfail a (List.mem_append_left _ hin)
    rw [after_concat, (steps _ attempt).handlers_eq (isSetUp_after_eq_false hfresh hfront), ih hfront,
      List.flatMap_append, List.flatMap_singleton, List.append_assoc]

theorem own_added (attempt : Attempt) : attempt.added.filter (!·.isForeign) = attempt.added := by
  refine List.filter_eq_self.2 fun h hin => ?_
  have hforeign := List.filter_eq_nil_iff.1 attempt.foreign_added h hin
  simpa using hforeign

variable {made : List Handler}

/-- Behind an earlier success, a set-up leaves no handlers but its own. -/
theorem own_after_success (hsuccess : ∃ a ∈ attempts, a.Succeeds)
    (h : (start.after attempts).answer attempt = .ok made) : (start.after (attempts ++ [attempt])).own = made := by
  obtain ⟨rfl, -, hhandlers⟩ := answer_ok h
  rw [after_concat, own, hhandlers, List.filter_append, own_added, own_kept, List.nil_append]
  exact (isSetUp_after start attempts).2 (.inr hsuccess)

/-- The first set-up that succeeds leaves what the failed ones before it have added. -/
theorem own_after_failures (hfresh : start.isSetUp = false) (hforeign : ∀ h ∈ start.handlers, h.isForeign)
    (hfail : ∀ a ∈ attempts, ¬ a.Succeeds) (h : (start.after attempts).answer attempt = .ok made) :
    (start.after (attempts ++ [attempt])).own = attempts.flatMap Attempt.added ++ made := by
  obtain ⟨rfl, -, hhandlers⟩ := answer_ok h
  have hkept : (start.after attempts).kept = start.handlers ++ attempts.flatMap Attempt.added := by
    rw [kept, isSetUp_after_eq_false hfresh hfail, handlers_after hfresh hfail]
    rfl
  have hstart : start.handlers.filter (!·.isForeign) = [] :=
    List.filter_eq_nil_iff.2 fun h hin => by simp [hforeign h hin]
  have hadded : (attempts.flatMap Attempt.added).filter (!·.isForeign) = attempts.flatMap Attempt.added := by
    rw [List.filter_flatMap]
    exact List.flatMap_congr fun attempt _ => own_added attempt
  rw [after_concat, own, hhandlers, hkept, List.filter_append, List.filter_append, hstart, hadded, own_added,
    List.nil_append]

/-- After a set-up that has succeeded, the logger has the handlers that it has made, those of other origin, and its
level. Only if it is the first to succeed do the handlers of failed ones before it stand there as well. -/
theorem handlers_after_success (hfresh : start.isSetUp = false) (hforeign : ∀ h ∈ start.handlers, h.isForeign)
    (h : (start.after attempts).answer attempt = .ok made) :
    ((start.after (attempts ++ [attempt])).own = made ↔
        (∃ a ∈ attempts, a.Succeeds) ∨ ∀ a ∈ attempts, a.added = []) ∧
      ((∀ a ∈ attempts, ¬ a.Succeeds) →
        (start.after (attempts ++ [attempt])).own = attempts.flatMap Attempt.added ++ made) ∧
      made.countP Handler.isConsole ≤ 1 ∧ made.countP Handler.isFile ≤ 1 ∧
      (start.after (attempts ++ [attempt])).foreign = start.handlers ∧
      rankOf? attempt.setup.level = some (start.after (attempts ++ [attempt])).rank ∧
      ∀ (logger : Logger) (other : Attempt) (name : String),
        logger.answer other = .error (.unknownLevel name) → logger.next other = logger := by
  obtain ⟨hmade, hlevel, -⟩ := answer_ok h
  refine ⟨⟨fun hown => ?_, ?_⟩, fun hfail => own_after_failures hfresh hforeign hfail h, ?_, ?_, ?_, ?_,
    fun _ _ _ => next_of_unknownLevel⟩
  · by_cases hsuccess : ∃ a ∈ attempts, a.Succeeds
    · exact .inl hsuccess
    · simp only [not_exists, not_and] at hsuccess
      rw [own_after_failures hfresh hforeign hsuccess h, List.append_left_eq_self] at hown
      exact .inr (List.flatMap_eq_nil_iff.1 hown)
  · rintro (hsuccess | hnone)
    · exact own_after_success hsuccess h
    · by_cases hsuccess : ∃ a ∈ attempts, a.Succeeds
      · exact own_after_success hsuccess h
      · simp only [not_exists, not_and] at hsuccess
        rw [own_after_failures hfresh hforeign hsuccess h, List.flatMap_eq_nil_iff.2 hnone, List.nil_append]
  · rw [hmade]
    exact attempt.countP_isConsole_added
  · rw [hmade]
    exact attempt.countP_isFile_added
  · rw [foreign_after]
    exact List.filter_eq_self.2 hforeign
  · rw [after_concat]
    exact hlevel

def occupied : FileTree := { entries := [(["taken"], .file [])], working := [] }

def blocked : Attempt := { tree := occupied, setup := { file := some ⟨0, ["taken", "run.log"]⟩ } }

def recovered : Attempt :=
  { tree := occupied, setup := { level := "debug", file := some ⟨0, ["logs", "run.log"]⟩, json := true } }

def plainly : Attempt := { tree := occupied, setup := { level := "DEBUG" } }

def captured : Logger := { handlers := [.foreign "capture"] }

theorem handlers_after_success_recovered :
    captured.isSetUp = false ∧ (∀ h ∈ captured.handlers, h.isForeign) ∧
      (captured.after [plainly, blocked]).answer recovered = .ok [.console false, .file ["logs", "run.log"] true] ∧
      (captured.after [plainly, blocked, recovered]).own = [.console false, .file ["logs", "run.log"] true] := by
  have hanswer : (captured.after [plainly, blocked]).answer recovered =
      .ok [.console false, .file ["logs", "run.log"] true] := by
    rfl
  have hsuccess : ∃ a ∈ [plainly, blocked], a.Succeeds :=
    ⟨_, List.mem_cons_self, ⟨10, by decide⟩, ⟨[], rfl⟩, ⟨[], rfl⟩⟩
  exact ⟨rfl, by decide, hanswer, (handlers_after_success rfl (by decide) hanswer).1.2 (.inl hsuccess)⟩

def unnamed : Attempt := { tree := occupied, setup := { context := [(.int 1, .text "x")] } }

/-- The first set-up cannot open its log file, or is given a key that is no text; the second one succeeds, and there
are two consoles. -/
theorem consoles_doubled :
    (((({} : Logger).after [blocked]).answer plainly).toOption = some [.console false] ∧
        (({} : Logger).after [blocked, plainly]).own = [.console false, .console false]) ∧
      ((({} : Logger).after [unnamed]).answer plainly).toOption = some [.console false] ∧
        (({} : Logger).after [unnamed, plainly]).own = [.console false, .console false] := by
  decide

end Logger

end CaveMap.Log
