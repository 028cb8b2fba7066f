import CaveMap.Proofs.Table
import CaveMap.Session.Command

namespace CaveMap

/-- The color that a suggestion has for a type. An empty text stands for none. -/
def Suggestion.colorFor? (key : String) : Suggestion → Option String
  | ⟨some type, some color⟩ => if type = key ∧ type ≠ "" ∧ color ≠ "" then some color else none
  | _ => none

/-- Whether a suggestion has a color for a type of the table. -/
def Suggestion.Applies (symbols : SymbolTable) (suggestion : Suggestion) : Prop :=
  ∃ key ∈ symbols.keys, (suggestion.colorFor? key).isSome

instance (symbols : SymbolTable) (suggestion : Suggestion) : Decidable (suggestion.Applies symbols) :=
  inferInstanceAs (Decidable (∃ key ∈ symbols.keys, (suggestion.colorFor? key).isSome))

namespace Settings

/-- The last color that suggestions have for a type. -/
def lastColor? (suggestions : List Suggestion) (key : String) : Option String :=
  (suggestions.filterMap (·.colorFor? key)).getLast?

/-- An override with the last color that is suggested for its key. -/
def recolored (suggestions : List Suggestion) (key : String) (override : SymbolOverride) : SymbolOverride :=
  { override with color := (lastColor? suggestions key).or override.color }

variable {symbols : SymbolTable} {suggestion : Suggestion}

theorem lastColor?_append (front back : List Suggestion) (key : String) :
    lastColor? (front ++ back) key = (lastColor? back key).or (lastColor? front key) := by
  rw [lastColor?, List.filterMap_append, List.getLast?_append]
  rfl

theorem recolored_append (front back : List Suggestion) (key : String) (override : SymbolOverride) :
    recolored (front ++ back) key override = recolored back key (recolored front key override) := by
  rw [recolored, lastColor?_append, Option.or_assoc]
  rfl

theorem recolored_recolored (suggestions : List Suggestion) (key : String) (override : SymbolOverride) :
    recolored suggestions key (recolored suggestions key override) = recolored suggestions key override := by
  rw [recolored, recolored]
  cases lastColor? suggestions key <;> rfl

theorem colorFor?_eq_some_iff {key color : String} :
    suggestion.colorFor? key = some color ↔ suggestion = ⟨some key, some color⟩ ∧ key ≠ "" ∧ color ≠ "" := by
  obtain ⟨type, shade⟩ := suggestion
  cases type with
  | none => simp [Suggestion.colorFor?]
  | some type =>
    cases shade with
    | none => simp [Suggestion.colorFor?]
    | some shade =>
      simp only [Suggestion.colorFor?, Option.ite_none_right_eq_some, Option.some.injEq, Suggestion.mk.injEq]
      constructor
      · rintro ⟨⟨rfl, htype, hcolor⟩, rfl⟩
        exact ⟨⟨rfl, rfl⟩, htype, hcolor⟩
      · rintro ⟨⟨rfl, rfl⟩, hkey, hcolor⟩
        exact ⟨⟨rfl, hkey, hcolor⟩, rfl⟩

theorem suggested?_eq_some_iff {type : String} {override : SymbolOverride} :
    suggested? symbols suggestion = some (type, override) ↔
      ∃ color old, suggestion.colorFor? type = some color ∧ symbols.get? type = some old ∧
        override = { old with color := some color } := by
  simp only [suggested?, Option.bind_eq_bind, Option.bind_eq_some_iff, colorFor?_eq_some_iff]
  constructor
  · rintro ⟨other, htype, color, hcolor, old, hold, h⟩
    split at h
    · cases h
    · next hfilled =>
      cases h
      rw [Bool.or_eq_true, not_or, String.isEmpty_iff, String.isEmpty_iff] at hfilled
      refine ⟨color, old, ⟨?_, hfilled.1, hfilled.2⟩, hold, rfl⟩
      cases suggestion
      cases htype
      cases hcolor
      rfl
  · rintro ⟨color, old, ⟨rfl, htype, hcolor⟩, hold, rfl⟩
    refine ⟨type, rfl, color, rfl, old, hold, ?_⟩
    rw [if_neg (by simp [htype, hcolor])]
    rfl

theorem suggested?_isSome_iff : (suggested? symbols suggestion).isSome ↔ suggestion.Applies symbols := by
  constructor
  · intro h
    obtain ⟨⟨type, override⟩, h⟩ := Option.isSome_iff_exists.1 h
    obtain ⟨color, old, hcolor, hold, -⟩ := suggested?_eq_some_iff.1 h
    exact ⟨type, Table.mem_keys_of_get? hold, Option.isSome_iff_exists.2 ⟨color, hcolor⟩⟩
  · rintro ⟨key, hkey, hcolor⟩
    obtain ⟨color, hcolor⟩ := Option.isSome_iff_exists.1 hcolor
    obtain ⟨old, hold⟩ := Option.isSome_iff_exists.1 (Table.contains_iff.2 hkey)
    exact Option.isSome_iff_exists.2 ⟨_, suggested?_eq_some_iff.2 ⟨color, old, hcolor, hold, rfl⟩⟩

theorem recolored_of_none {key : String} (h : suggestion.colorFor? key = none) (override : SymbolOverride) :
    recolored [suggestion] key override = override := by
  simp [recolored, lastColor?, h]

theorem recolored_of_some {key color : String} (h : suggestion.colorFor? key = some color)
    (override : SymbolOverride) : recolored [suggestion] key override = { override with color := some color } := by
  simp [recolored, lastColor?, h]

theorem entries_recolor (symbols : SymbolTable) (suggestion : Suggestion) :
    (recolor symbols suggestion).entries =
      symbols.entries.map fun (key, override) => (key, recolored [suggestion] key override) := by
  unfold recolor
  split
  · next type override h =>
    obtain ⟨color, old, hcolor, hold, rfl⟩ := suggested?_eq_some_iff.1 h
    rw [Table.entries_insert_of_mem (Table.mem_keys_of_get? hold)]
    apply List.map_congr_left
    intro (key, override) hin
    dsimp only
    split
    · next hkey =>
      subst hkey
      have he : override = old := Option.some.inj ((Table.get?_of_mem hin).symm.trans hold)
      rw [recolored_of_some hcolor, he]
    · next hkey =>
      have hnone : suggestion.colorFor? key = none := by
        rw [(colorFor?_eq_some_iff.1 hcolor).1]
        simp [Suggestion.colorFor?, Ne.symm hkey]
      rw [recolored_of_none hnone]
  · next h =>
    have hnot : ¬suggestion.Applies symbols := by
      rw [← suggested?_isSome_iff, h]
      exact Bool.false_ne_true
    rw [← List.map_id symbols.entries, List.map_map]
    apply List.map_congr_left
    intro (key, override) hin
    have hnone : suggestion.colorFor? key = none := by
      rw [Option.eq_none_iff_forall_ne_some]
      intro color hcolor
      have hkey : key ∈ symbols.keys := List.mem_map_of_mem (f := (·.1)) hin
      exact hnot ⟨key, hkey, Option.isSome_iff_exists.2 ⟨color, hcolor⟩⟩
    exact congrArg (key, ·) (recolored_of_none hnone override).symm

/-- Suggestions, one after the other, give each override the last color that they have for its key. -/
theorem entries_suggestColors (symbols : SymbolTable) (suggestions : List Suggestion) :
    (suggestions.foldl recolor symbols).entries =
      symbols.entries.map fun (key, override) => (key, recolored suggestions key override) := by
  induction suggestions generalizing symbols with
  | nil => exact (List.map_id _).symm
  | cons first rest ih =>
    rw [List.foldl_cons, ih, entries_recolor, List.map_map]
    apply List.map_congr_left
    intro (key, override) _
    exact congrArg (key, ·) (recolored_append [first] rest key override).symm

theorem recolor_all_keys (symbols : SymbolTable) (suggestions : List Suggestion) :
    (suggestions.foldl recolor symbols).keys = symbols.keys := by
  rw [Table.keys, entries_suggestColors, List.map_map]
  rfl

variable {s : Settings}

theorem suggestColors_append (s : Settings) (front back : List Suggestion) :
    s.suggestColors (front ++ back) = (s.suggestColors front).suggestColors back := by
  rw [suggestColors, List.foldl_append]
  rfl

theorem suggestColors_twice (s : Settings) (suggestions : List Suggestion) :
    (s.suggestColors suggestions).suggestColors suggestions = s.suggestColors suggestions := by
  have hsymbols : suggestions.foldl recolor (suggestions.foldl recolor s.symbols) =
      suggestions.foldl recolor s.symbols := by
    apply Table.ext_entries
    rw [entries_suggestColors, entries_suggestColors, List.map_map]
    apply List.map_congr_left
    intro (key, override) _
    exact congrArg (key, ·) (recolored_recolored suggestions key override)
  simp only [suggestColors, hsymbols]

theorem suggestColors_without (h : ¬suggestion.Applies s.symbols) (front back : List Suggestion) :
    s.suggestColors (front ++ suggestion :: back) = s.suggestColors (front ++ back) := by
  have hnone : suggested? (front.foldl recolor s.symbols) suggestion = none := by
    rw [← Option.not_isSome_iff_eq_none, suggested?_isSome_iff, Suggestion.Applies, recolor_all_keys]
    exact h
  have hstep : recolor (front.foldl recolor s.symbols) suggestion = front.foldl recolor s.symbols := by
    rw [recolor, hnone]
  simp only [suggestColors, List.foldl_append, List.foldl_cons, hstep]

theorem run_suggestColors (ids : Nat → String) (session : Session) (suggestions : List Suggestion) :
    session.run ids (.suggestColors suggestions) =
      ⟨.ok { session with settings := session.settings.suggestColors suggestions },
        [.colorsSuggested (suggestions.countP (·.Applies session.settings.symbols))]⟩ := by
  have hcount : (suggestions.filter fun x => (suggested? session.settings.symbols x).isSome).length =
      suggestions.countP (·.Applies session.settings.symbols) := by
    rw [← List.countP_eq_length_filter]
    apply List.countP_congr
    intro x _
    rw [suggested?_isSome_iff, decide_eq_true_eq]
  simp only [Session.run, hcount]

/-- Suggestions come to the same in one go or in two, and change nothing when they are made again. Each override takes
the last color that is suggested for its key, or keeps its own, and stays as it is otherwise. A suggestion without a
color for a type of the table has no effect, and only the others are counted. -/
theorem last_suggestion_wins (ids : Nat → String) (session : Session) (a b : List Suggestion) :
    session.settings.suggestColors (a ++ b) = (session.settings.suggestColors a).suggestColors b ∧
      (session.settings.suggestColors a).suggestColors a = session.settings.suggestColors a ∧
      session.settings.suggestColors a =
        { session.settings with symbols := (session.settings.suggestColors a).symbols } ∧
      (session.settings.suggestColors a).symbols.entries = session.settings.symbols.entries.map (fun (key, override) =>
        (key, { override with color := (lastColor? a key).or override.color })) ∧
      (∀ suggestion : Suggestion, ¬suggestion.Applies session.settings.symbols → ∀ front back,
        session.settings.suggestColors (front ++ suggestion :: back) =
          session.settings.suggestColors (front ++ back)) ∧
      session.run ids (.suggestColors a) =
        ⟨.ok { session with settings := session.settings.suggestColors a },
          [.colorsSuggested (a.countP (·.Applies session.settings.symbols))]⟩ := by
  refine ⟨?_, ?_, rfl, ?_, ?_, ?_⟩
  · exact suggestColors_append session.settings a b
  · exact suggestColors_twice session.settings a
  · exact entries_suggestColors session.settings.symbols a
  · intro suggestion h front back
    exact suggestColors_without h front back
  · exact run_suggestColors ids session a

def nameless : Settings where
  symbols := Table.ofList [("wall", ⟨"wall", .line, true, none, none⟩), ("", ⟨"pit", .point, true, none, none⟩)]

theorem last_suggestion_wins_nameless :
    ¬(⟨some "", some "#aa0000"⟩ : Suggestion).Applies nameless.symbols ∧
      nameless.suggestColors ([⟨some "wall", some "#00aa00"⟩] ++ ⟨some "", some "#aa0000"⟩ :: [⟨some "wall", none⟩]) =
        nameless.suggestColors ([⟨some "wall", some "#00aa00"⟩] ++ [⟨some "wall", none⟩]) := by
  have h : ¬(⟨some "", some "#aa0000"⟩ : Suggestion).Applies nameless.symbols := by decide
  obtain ⟨-, -, -, -, hwithout, -⟩ := last_suggestion_wins Text.decimalText ⟨nameless, 0⟩ [] []
  exact ⟨h, hwithout _ h _ _⟩

end Settings

end CaveMap
