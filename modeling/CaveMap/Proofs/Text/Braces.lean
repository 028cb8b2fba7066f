import CaveMap.Proofs.Text.Lines
import Mathlib.Data.List.Infix

namespace CaveMap.Text

/-- From left to right there are never more closing than opening braces, and as many in the end. -/
structure Balanced (text : List Char) : Prop where
  never : ∀ front, front <+: text → front.count '\x7d' ≤ front.count '\x7b'
  even : text.count '\x7d' = text.count '\x7b'

/-- How many groups are open behind a character; none if it closes a group that is not open. -/
def deeper? (depth : Nat) (c : Char) : Option Nat :=
  if c = '\x7b' then some (depth + 1)
  else if c = '\x7d' then if depth = 0 then none else some (depth - 1)
  else some depth

/-- How many groups are open behind a text. -/
def depth? : Nat → List Char → Option Nat
  | depth, [] => some depth
  | depth, c :: rest => (deeper? depth c).bind (depth? · rest)

/-- What stands before the brace that closes the group around, and what stands behind it. -/
def group? : Nat → List Char → Option (List Char × List Char)
  | _, [] => none
  | depth, c :: rest =>
    match deeper? depth c with
    | none => some ([], rest)
    | some next => (group? next rest).map fun (inside, behind) => (c :: inside, behind)

variable {a b text : List Char} {depth middle next : Nat}

theorem depth?_append (depth : Nat) (a b : List Char) :
    depth? depth (a ++ b) = (depth? depth a).bind (depth? · b) := by
  induction a generalizing depth with
  | nil => rfl
  | cons c rest ih =>
    rw [List.cons_append, depth?, depth?, Option.bind_assoc]
    simp only [ih]

theorem depth?_opened (depth : Nat) (rest : List Char) :
    depth? depth ('\x7b' :: rest) = depth? (depth + 1) rest := rfl

theorem depth?_closed (depth : Nat) (rest : List Char) :
    depth? (depth + 1) ('\x7d' :: rest) = depth? depth rest := rfl

theorem depth?_closed_zero (rest : List Char) : depth? 0 ('\x7d' :: rest) = none := rfl

theorem deeper?_of_ne {c : Char} (hopen : c ≠ '\x7b') (hclose : c ≠ '\x7d') (depth : Nat) :
    deeper? depth c = some depth := by
  rw [deeper?, if_neg hopen, if_neg hclose]

theorem forall_prefix_cons {P : List Char → Prop} {c : Char} {rest : List Char} :
    (∀ front, front <+: c :: rest → P front) ↔ P [] ∧ ∀ front, front <+: rest → P (c :: front) := by
  constructor
  · intro h
    exact ⟨h [] List.nil_prefix, fun front hp => h (c :: front) (List.cons_prefix_cons.2 ⟨rfl, hp⟩)⟩
  · rintro ⟨hnil, hcons⟩ front hp
    rcases List.prefix_cons_iff.1 hp with rfl | ⟨tail, rfl, htail⟩
    · exact hnil
    · exact hcons tail htail

/-- The depth behind a text is that before it with the braces counted, if none of them closes too much. -/
theorem depth?_eq_some_iff :
    depth? depth text = some next ↔
      (∀ front, front <+: text → front.count '\x7d' ≤ depth + front.count '\x7b') ∧
        next + text.count '\x7d' = depth + text.count '\x7b' := by
  induction text generalizing depth with
  | nil =>
    simp only [depth?, Option.some.injEq, List.prefix_nil, forall_eq, List.count_nil]
    omega
  | cons c rest ih =>
    rw [forall_prefix_cons]
    by_cases hopen : c = '\x7b'
    · subst hopen
      rw [depth?_opened, ih]
      simp [Nat.add_assoc, Nat.add_comm 1]
    by_cases hclose : c = '\x7d'
    · subst hclose
      cases depth with
      | zero =>
        -- The text that ends with this brace has one too many.
        rw [depth?_closed_zero]
        refine iff_of_false nofun fun h => ?_
        have hone := h.1.2 [] List.nil_prefix
        simp at hone
      | succ depth =>
        rw [depth?_closed, ih]
        simp [Nat.add_right_comm _ 1, ← Nat.add_assoc]
    · rw [depth?, deeper?_of_ne hopen hclose, Option.bind_some, ih]
      simp [List.count_cons_of_ne hopen, List.count_cons_of_ne hclose]

theorem balanced_iff : Balanced text ↔ depth? 0 text = some 0 := by
  rw [depth?_eq_some_iff]
  simp only [Nat.zero_add]
  exact ⟨fun h => ⟨h.never, h.even⟩, fun h => ⟨h.1, h.2⟩⟩

instance (text : List Char) : Decidable (Balanced text) := decidable_of_iff _ balanced_iff.symm

theorem Balanced.depth?_eq (h : Balanced text) (depth : Nat) : depth? depth text = some depth := by
  rw [depth?_eq_some_iff]
  constructor
  · intro front hp
    exact Nat.le_add_left_of_le (h.never front hp)
  · rw [h.even]

theorem Balanced.append (ha : Balanced a) (hb : Balanced b) : Balanced (a ++ b) := by
  rw [balanced_iff, depth?_append, ha.depth?_eq, Option.bind_some, hb.depth?_eq]

theorem balanced_of_notMem (hopen : '\x7b' ∉ text) (hclose : '\x7d' ∉ text) : Balanced text where
  never front hp := by
    rw [List.count_eq_zero.2 fun hin => hclose (hp.subset hin)]
    exact Nat.zero_le _
  even := by rw [List.count_eq_zero.2 hopen, List.count_eq_zero.2 hclose]

theorem group?_append (h : depth? depth text = some next) (back : List Char) :
    group? depth (text ++ back) = (group? next back).map fun (inside, behind) => (text ++ inside, behind) := by
  induction text generalizing depth with
  | nil =>
    cases h
    simp
  | cons c rest ih =>
    rw [depth?] at h
    obtain ⟨middle, hc, hrest⟩ := Option.bind_eq_some_iff.1 h
    rw [List.cons_append, group?, hc]
    simp only [ih hrest, Option.map_map]
    rfl

theorem Balanced.group?_eq (h : Balanced text) (back : List Char) :
    group? 0 (text ++ '\x7d' :: back) = some (text, back) := by
  rw [group?_append (h.depth?_eq 0)]
  simp [group?, deeper?]

/-- A text that leads from one depth to another. -/
def Climbs (depth : Nat) (text : String) (next : Nat) : Prop := depth? depth text.toList = some next

instance (depth : Nat) (text : String) (next : Nat) : Decidable (Climbs depth text next) :=
  inferInstanceAs (Decidable (_ = _))

theorem Climbs.append {x y : String} (hx : Climbs depth x middle) (hy : Climbs middle y next) :
    Climbs depth (x ++ y) next := by
  rw [Climbs, String.toList_append, depth?_append, hx, Option.bind_some, hy]

theorem Balanced.climbs {x : String} (h : Balanced x.toList) (depth : Nat) : Climbs depth x depth := h.depth?_eq depth

theorem Climbs.append_balanced {x y : String} (hx : Climbs depth x next) (hy : Balanced y.toList) :
    Climbs depth (x ++ y) next := hx.append (hy.climbs next)

/-- Lines that lead from one depth to another. -/
inductive Stairs : Nat → List String → Nat → Prop
  | nil (depth : Nat) : Stairs depth [] depth
  | cons {depth middle next : Nat} {line : String} {rest : List String} :
      Climbs depth line middle → Stairs middle rest next → Stairs depth (line :: rest) next

theorem Stairs.cons_balanced {line : String} {rest : List String} (hline : Balanced line.toList)
    (hrest : Stairs depth rest next) : Stairs depth (line :: rest) next := .cons (hline.climbs depth) hrest

theorem Stairs.append {x y : List String} (hx : Stairs depth x middle) (hy : Stairs middle y next) :
    Stairs depth (x ++ y) next := by
  induction hx with
  | nil => exact hy
  | cons hline _ ih => exact .cons hline (ih hy)

theorem Stairs.of_balanced {lines : List String} (h : ∀ line ∈ lines, Balanced line.toList) (depth : Nat) :
    Stairs depth lines depth := by
  induction lines with
  | nil => exact .nil depth
  | cons line rest ih =>
    rw [List.forall_mem_cons] at h
    exact .cons_balanced h.1 (ih h.2)

theorem Stairs.climbs {lines : List String} (h : Stairs depth lines next) :
    Climbs depth (String.intercalate "\n" lines) next := by
  induction h with
  | nil => rfl
  | @cons _ _ _ line rest hline hrest ih =>
    cases rest with
    | nil =>
      cases hrest
      rwa [String.intercalate_singleton]
    | cons second more =>
      rw [String.intercalate_cons_cons]
      exact (hline.append (y := "\n") rfl).append ih

theorem Stairs.balanced {lines : List String} (h : Stairs 0 lines 0) :
    Balanced (String.intercalate "\n" lines).toList := balanced_iff.2 h.climbs

theorem Stairs.flatMap {f : String → List Char} (hf : ∀ depth line, depth? depth (f line) = depth? depth line.toList)
    {lines : List String} (h : Stairs depth lines next) : depth? depth (lines.flatMap f) = some next := by
  induction h with
  | nil => rfl
  | cons hline _ ih => rw [List.flatMap_cons, depth?_append, hf, hline, Option.bind_some, ih]

theorem Stairs.balanced_ended {lines : List String} (h : Stairs 0 lines 0) :
    Balanced (lines.flatMap (·.toList ++ ['\n'])) := by
  refine balanced_iff.2 (h.flatMap fun depth line => ?_)
  rw [depth?_append]
  cases depth? depth line.toList <;> rfl

theorem Stairs.balanced_started {lines : List String} (h : Stairs 0 lines 0) :
    Balanced (lines.flatMap ('\n' :: ·.toList)) :=
  balanced_iff.2 (h.flatMap (f := ('\n' :: ·.toList)) fun _ _ => rfl)

end CaveMap.Text
