import CaveMap.CommandLine.Arguments
import CaveMap.Proofs.SettingsFile.Derived

namespace CaveMap.CommandLine.Arguments

/-- The argument of the last switch in a word: from the word itself, or the word behind it. A switch without
argument needs none. -/
inductive Supplied : Switch → Option String → List (String × Word) → String → List (String × Word) → Prop
  | own {switch argument rest} (takes : switch.takesArgument) : Supplied switch (some argument) rest argument rest
  | behind {switch text rest} (takes : switch.takesArgument) :
      Supplied switch none ((text, .plain) :: rest) text rest
  | none {switch argument rest} (takes : switch.takesArgument = false) : Supplied switch argument rest "" rest

variable {words rest : List (String × Word)}

theorem Supplied.append {switch : Switch} {argument : Option String} {text : String}
    (h : Supplied switch argument words text rest) (back : List (String × Word)) :
    Supplied switch argument (words ++ back) text (rest ++ back) := by
  cases h with
  | own takes => exact .own takes
  | behind takes => exact .behind takes
  | none takes => exact .none takes

/-- Words that are read to their end: every one of them is a switch or the argument of one. -/
inductive Accepted : Arguments → List (String × Word) → Arguments → Prop
  | nil (args) : Accepted args [] args
  | switch {args next final word switch bundled attached switches argument words text rest}
      (known : switchesOf switch bundled attached = .ok (switches, argument))
      (noHelp : switches.contains .help = false)
      (supplied : Supplied (switches.getLastD switch) argument words text rest)
      (assigned : args.assign (switches.getLastD switch) text = .ok next) (more : Accepted next rest final) :
      Accepted args ((word, .spelled switch bundled attached) :: words) final

variable {args next final : Arguments} {extra : List String}

theorem read_switch {word text : String} {switch : Switch} {bundled : Bool} {attached : Option (List Char)}
    {switches : List Switch} {argument : Option String}
    (known : switchesOf switch bundled attached = .ok (switches, argument)) (noHelp : switches.contains .help = false)
    (supplied : Supplied (switches.getLastD switch) argument words text rest)
    (assigned : args.assign (switches.getLastD switch) text = .ok next) :
    args.read extra ((word, .spelled switch bundled attached) :: words) = next.read extra rest := by
  rw [read, known]
  cases supplied with
  | own takes => simp only [takes, noHelp, assigned, if_true, Bool.false_eq_true, if_false]
  | behind takes => simp only [takes, noHelp, assigned, if_true, Bool.false_eq_true, if_false]
  | none takes => simp only [takes, noHelp, assigned, Bool.false_eq_true, if_false]

theorem accepted_of_read (h : args.read extra words = .ok (.run final)) : extra = [] ∧ Accepted args words final := by
  fun_induction Arguments.read args extra words
  case case1 hempty =>
    cases h
    exact ⟨List.isEmpty_iff.1 hempty, .nil _⟩
  case case3 ih => exact absurd (ih h).1 (by simp)
  case case4 ih => exact absurd (ih h).1 (by simp)
  case case8 takes _ _ noHelp _ assigned known ih =>
    exact ⟨(ih h).1, .switch known (by simpa using noHelp) (.own takes) assigned (ih h).2⟩
  case case11 takes _ _ noHelp _ assigned known ih =>
    exact ⟨(ih h).1, .switch known (by simpa using noHelp) (.behind takes) assigned (ih h).2⟩
  case case15 known _ takes noHelp _ assigned ih =>
    have hnone := Bool.eq_false_of_not_eq_true takes
    exact ⟨(ih h).1, .switch known (by simpa using noHelp) (.none hnone) assigned (ih h).2⟩
  all_goals cases h

theorem Accepted.read_append (h : Accepted args words next) (back : List (String × Word)) :
    args.read [] (words ++ back) = next.read [] back := by
  induction h with
  | nil => rfl
  | switch known noHelp supplied assigned _ ih =>
    rw [List.cons_append, read_switch known noHelp (supplied.append back) assigned, ih]

theorem Accepted.read (h : Accepted args words final) : args.read [] words = .ok (.run final) := by
  have hread := h.read_append []
  rw [List.append_nil] at hread
  exact hread

theorem Accepted.ne_unknown (h : Accepted args words final) : ∀ word ∈ words, word.2 ≠ .unknown := by
  induction h with
  | nil => simp
  | @switch args next final word switch bundled attached switches argument words text rest _ _ supplied _ _ ih =>
    refine List.forall_mem_cons.2 ⟨Word.noConfusion, ?_⟩
    cases supplied with
    | own => exact ih
    | behind => exact List.forall_mem_cons.2 ⟨Word.noConfusion, ih⟩
    | none => exact ih

theorem classified_append {front : List String} (h : classified front = .ok words)
    (hknown : ∀ word ∈ words, word.2 ≠ .unknown) (back : List String) :
    classified (front ++ back) = (classified back).map (words ++ ·) := by
  induction front generalizing words with
  | nil =>
    cases h
    rw [List.nil_append]
    cases classified back <;> rfl
  | cons text front ih =>
    rw [classified] at h
    split at h
    · cases h
      exact absurd rfl (hknown _ List.mem_cons_self)
    · next hdash =>
      obtain ⟨word, hword, h⟩ := Except.bind_eq_ok.1 h
      obtain ⟨others, hothers, h⟩ := Except.bind_eq_ok.1 h
      cases h
      rw [List.cons_append, classified, if_neg hdash, hword,
        ih hothers fun other hin => hknown other (List.mem_cons_of_mem _ hin)]
      cases classified back <;> rfl

theorem accepted_of_parse {words : List String} (h : parse words = .ok (.run args)) :
    ∃ classes, classified words = .ok classes ∧ Accepted {} classes args := by
  obtain ⟨classes, hclasses, hread⟩ := Except.bind_eq_ok.1 h
  exact ⟨classes, hclasses, (accepted_of_read hread).2⟩

/-- What stands behind an accepted command line is read with its arguments. -/
theorem parse_append {front : List String} (h : parse front = .ok (.run args)) (back : List String) :
    parse (front ++ back) = classified back >>= args.read [] := by
  obtain ⟨words, hwords, haccepted⟩ := accepted_of_parse h
  rw [parse, classified_append hwords haccepted.ne_unknown]
  cases classified back with
  | error fault => rfl
  | ok others => exact haccepted.read_append others

section Invariant

variable {P : Arguments → Prop} (hassign : ∀ (args next : Arguments) (switch : Switch) (argument : String),
  P args → args.assign switch argument = .ok next → P next)

include hassign

theorem Accepted.keeps (h : Accepted args words final) (hstart : P args) : P final := by
  induction h with
  | nil => exact hstart
  | switch _ _ _ assigned _ ih => exact ih (hassign _ _ _ _ hstart assigned)

/-- What holds at first and is kept by every switch holds of whatever a command line is read as. -/
theorem parse_induction {words : List String} (hstart : P {}) (h : parse words = .ok (.run args)) : P args := by
  obtain ⟨classes, -, haccepted⟩ := accepted_of_parse h
  exact haccepted.keeps hassign hstart

end Invariant

end CaveMap.CommandLine.Arguments
