import CaveMap.Number.Numeral
import CaveMap.Proofs.Text.Strip
import Mathlib.Data.Bool.AllAny

namespace CaveMap

open Text

def IsDigits (digits : List Char) : Prop := ∀ c ∈ digits, c.isDigit

namespace IsDigits

variable {digits more : List Char}

theorem append (h : IsDigits digits) (hm : IsDigits more) : IsDigits (digits ++ more) :=
  fun c hc => (List.mem_append.1 hc).elim (h c) (hm c)

theorem sublist (h : IsDigits digits) (hm : more.Sublist digits) : IsDigits more := fun c hc => h c (hm.subset hc)

theorem zeros (n : Nat) : IsDigits (List.replicate n '0') := by
  intro c hc
  rw [List.eq_of_mem_replicate hc]
  decide

theorem toDigits (n : Nat) : IsDigits (Nat.toDigits 10 n) :=
  fun _ hc => Nat.isDigit_of_mem_toDigits (by decide) (by decide) hc

theorem not_mem (h : IsDigits digits) {c : Char} (hc : c.isDigit = false) : c ∉ digits := by
  intro hin
  rw [h c hin] at hc
  cases hc

end IsDigits

theorem toNat_of_isDigit {c : Char} (h : c.isDigit) : 48 ≤ c.toNat ∧ c.toNat ≤ 57 := by
  have hbounds : 48 ≤ c.val ∧ c.val ≤ 57 := by simpa [Char.isDigit] using h
  exact ⟨UInt32.le_iff_toNat_le.1 hbounds.1, UInt32.le_iff_toNat_le.1 hbounds.2⟩

namespace Text

theorem decimalDigit?_of_isDigit {c : Char} (h : c.isDigit) : decimalDigit? c = some (c.toNat - '0'.toNat) := by
  obtain ⟨hlow, hhigh⟩ := toNat_of_isDigit h
  have hfirst : decimalZeros.find? (fun z => decide (z ≤ c.toNat) && decide (c.toNat < z + 10)) = some 0x30 := by
    rw [decimalZeros, List.find?_cons_of_pos]
    simp only [Bool.and_eq_true, decide_eq_true_eq]
    omega
  rw [decimalDigit?, hfirst]
  rfl

theorem isWritable_iff {i : Int} : isWritable i ↔ i.natAbs < Nat.pow 10 maxDigits := by
  rw [isWritable, decide_eq_true_iff, Nat.length_toDigits_le_iff (by decide) (by decide), Nat.pow_eq]

theorem digitIn?_of_isDigit {c : Char} (h : c.isDigit) : digitIn? 10 c = some (c.toNat - '0'.toNat) := by
  obtain ⟨hlow, hhigh⟩ := toNat_of_isDigit h
  have hsmall : ¬ ('a' ≤ c ∧ c ≤ 'f') := fun hc => by
    have hle : 'a'.toNat ≤ c.toNat := UInt32.le_iff_toNat_le.1 hc.1
    have ha : 'a'.toNat = 97 := rfl
    omega
  have hlarge : ¬ ('A' ≤ c ∧ c ≤ 'F') := fun hc => by
    have hle : 'A'.toNat ≤ c.toNat := UInt32.le_iff_toNat_le.1 hc.1
    have ha : 'A'.toNat = 65 := rfl
    omega
  have hten : c.toNat - '0'.toNat < 10 := by
    have hzero : '0'.toNat = 48 := rfl
    omega
  unfold digitIn?
  simp only [if_neg hsmall, if_neg hlarge, decimalDigit?_of_isDigit h]
  exact Option.filter_some_pos (decide_eq_true hten)

end Text

namespace Numeral

variable {digits : List Char}

theorem digitsValue?_of_isDigits (h : IsDigits digits) (hne : digits ≠ []) :
    digitsValue? 10 digits = some (Nat.ofDigitChars 10 digits 0) := by
  have hfold : ∀ n, digits.foldlM (fun n c => (digitIn? 10 c).map (n * 10 + ·)) n =
      some (Nat.ofDigitChars 10 digits n) := by
    clear hne
    induction digits with
    | nil => exact fun n => rfl
    | cons c rest ih =>
      intro n
      rw [List.foldlM_cons, digitIn?_of_isDigit (h c List.mem_cons_self), Nat.ofDigitChars_cons, Nat.mul_comm 10 n]
      exact ih (fun d hd => h d (List.mem_cons_of_mem _ hd)) _
  cases digits with
  | nil => exact absurd rfl hne
  | cons c rest => exact hfold 0

theorem dropUnderscores?_eq (isDigit : Char → Bool) (h : '_' ∉ digits) :
    dropUnderscores? isDigit digits = some digits := by
  induction digits with
  | nil => rfl
  | cons c rest ih =>
    rw [List.mem_cons, not_or] at h
    have hrest := ih h.2
    unfold dropUnderscores?
    split
    · next he => cases he
    · next he => exact absurd (List.cons.inj he).1.symm h.1
    · next he => exact absurd (by simp [(List.cons.inj he).2]) h.2
    · next he =>
      obtain ⟨rfl, rfl⟩ := List.cons.inj he
      rw [hrest]
      rfl

theorem splitSign_of_isDigit {c : Char} {rest : List Char} (h : c.isDigit) :
    splitSign (c :: rest) = (false, c :: rest) := by
  unfold splitSign
  split
  · next he =>
    rw [(List.cons.inj he).1] at h
    cases h
  · next he =>
    rw [(List.cons.inj he).1] at h
    cases h
  · rfl

theorem dropBaseMark_ten (text : List Char) : dropBaseMark 10 text = text := by
  unfold dropBaseMark
  split <;> simp

end Numeral

def figures : List Char := "0123456789+-.e".toList

def IsFigure (c : Char) : Prop := c ∈ figures

instance (c : Char) : Decidable (IsFigure c) := inferInstanceAs (Decidable (c ∈ figures))

theorem isFigure_of_isDigit {c : Char} (h : c.isDigit) : IsFigure c := by
  have hall : ∀ n < 58, 48 ≤ n → Char.ofNat n ∈ figures := by decide
  obtain ⟨hlow, hhigh⟩ := toNat_of_isDigit h
  rw [IsFigure, ← Char.ofNat_toNat c]
  exact hall c.toNat (by omega) hlow

namespace IsFigure

variable {c : Char}

theorem ne_underscore (h : IsFigure c) : c ≠ '_' := by
  rintro rfl
  exact absurd h (by decide)

theorem not_isBlank (h : IsFigure c) : isBlank c = false := by
  have hall : ∀ c ∈ figures, isBlank c = false := List.all_iff_forall_prop.1 (by decide)
  exact hall c h

theorem lowerLetters (h : IsFigure c) : Text.lowerLetters c = [c] := by
  have hall : ∀ c ∈ figures, Text.lowerLetters c = [c] := List.all_iff_forall_prop.1 (by decide)
  exact hall c h

end IsFigure

theorem flatMap_self {f : Char → List Char} {text : List Char} (h : ∀ c ∈ text, f c = [c]) : text.flatMap f = text := by
  rw [List.flatMap_congr h]
  exact List.flatMap_singleton' text

section Figures

variable {text : List Char}

theorem lower_figures (h : ∀ c ∈ text, IsFigure c) : lower text = text :=
  flatMap_self fun c hc => (h c hc).lowerLetters

theorem strip_figures (h : ∀ c ∈ text, IsFigure c) : stripOf isSpace text = text := by
  have hspace : ∀ c ∈ text, (!isSpace c) = true := fun c hc => by simp [isSpace, (h c hc).not_isBlank]
  refine stripOf_of_edges ?_ ?_
  · cases hhead : text.head? with
    | none => rfl
    | some c => exact hspace c (List.mem_of_mem_head? hhead)
  · cases hlast : text.getLast? with
    | none => rfl
    | some c => exact hspace c (List.mem_of_getLast? hlast)

end Figures

namespace Numeral

theorem integer?_toDigits (n : Nat) : integer? 10 (String.ofList (Nat.toDigits 10 n)) = some (n : Int) := by
  have hdigits := IsDigits.toDigits n
  have hfigures : ∀ c ∈ Nat.toDigits 10 n, IsFigure c := fun c hc => isFigure_of_isDigit (hdigits c hc)
  have hne : Nat.toDigits 10 n ≠ [] := Nat.toDigits_ne_nil
  have hsign : splitSign (Nat.toDigits 10 n) = (false, Nat.toDigits 10 n) := by
    cases hd : Nat.toDigits 10 n with
    | nil => exact absurd hd hne
    | cons c rest => exact splitSign_of_isDigit (hdigits c (by rw [hd]; exact List.mem_cons_self))
  have hvalue := digitsValue?_of_isDigits hdigits hne
  rw [Nat.ofDigitChars_ten_toDigits] at hvalue
  unfold integer?
  rw [String.toList_ofList, strip_figures hfigures, hsign]
  simp only [dropBaseMark_ten, dropUnderscores?_eq _ (hdigits.not_mem (by decide)), Option.bind_some, hvalue,
    Option.map_some]
  rfl

end Numeral

end CaveMap
