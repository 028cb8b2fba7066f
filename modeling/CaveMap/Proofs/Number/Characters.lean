import CaveMap.Value
import Mathlib.Data.List.Basic

namespace CaveMap

def isNumeralChar (c : Char) : Bool := c.isAlphanum || c = '-' || c = '+' || c = '.'

def IsNumeral (text : String) : Prop := ∀ c ∈ text.toList, isNumeralChar c

instance (text : String) : Decidable (IsNumeral text) :=
  List.decidableBAll (fun c => isNumeralChar c = true) text.toList

theorem IsNumeral.append {a b : String} (ha : IsNumeral a) (hb : IsNumeral b) : IsNumeral (a ++ b) := by
  intro c hc
  rw [String.toList_append, List.mem_append] at hc
  exact hc.elim (ha c) (hb c)

theorem IsNumeral.ite {p : Prop} [Decidable p] {a b : String} (ha : IsNumeral a) (hb : IsNumeral b) :
    IsNumeral (if p then a else b) := by
  split
  · exact ha
  · exact hb

theorem IsNumeral.not_mem {text : String} (h : IsNumeral text) {c : Char}
    (hc : isNumeralChar c = false) : c ∉ text.toList :=
  fun hin => by simpa [hc] using h c hin

theorem isNumeralChar_of_isDigit {c : Char} (h : c.isDigit) : isNumeralChar c := by
  simp [isNumeralChar, Char.isAlphanum, h]

theorem isNumeralChar_of_mem_toDigits {n : Nat} {c : Char} (h : c ∈ Nat.toDigits 10 n) :
    isNumeralChar c :=
  isNumeralChar_of_isDigit (Nat.isDigit_of_mem_toDigits (by decide) (by decide) h)

theorem isNumeralChar_of_mem_replicate {n : Nat} {c d : Char} (hd : isNumeralChar d)
    (h : c ∈ List.replicate n d) : isNumeralChar c := by
  rwa [List.eq_of_mem_replicate h]

namespace Text

theorem isNumeral_decimalText (n : Nat) : IsNumeral (decimalText n) := by
  intro c hc
  rw [decimalText, String.toList_ofList] at hc
  exact isNumeralChar_of_mem_toDigits hc

theorem isNumeral_integerText (i : Int) : IsNumeral (integerText i) := by
  refine .ite (.append ?_ (isNumeral_decimalText _)) (isNumeral_decimalText _)
  simp [IsNumeral, isNumeralChar]

theorem isNumeral_paddedText (width n : Nat) : IsNumeral (paddedText width n) := by
  intro c hc
  rw [paddedText, String.toList_ofList, List.mem_append] at hc
  exact hc.elim (isNumeralChar_of_mem_replicate (by decide)) isNumeralChar_of_mem_toDigits

end Text

namespace Decimal

theorem positional_chars (d : Decimal) {c : Char} (h : c ∈ d.positional.1 ∨ c ∈ d.positional.2) :
    isNumeralChar c := by
  unfold positional at h
  dsimp only at h
  split at h
  · rcases h with hw | hf
    · rw [List.mem_singleton.1 hw]
      decide
    · exact (List.mem_append.1 hf).elim (isNumeralChar_of_mem_replicate (by decide))
        isNumeralChar_of_mem_toDigits
  · rcases h with hw | hf
    · rcases List.mem_append.1 hw with ht | hz
      · exact isNumeralChar_of_mem_toDigits (List.mem_of_mem_take ht)
      · exact isNumeralChar_of_mem_replicate (by decide) hz
    · exact isNumeralChar_of_mem_toDigits (List.mem_of_mem_drop hf)

theorem isNumeral_scientific (d : Decimal) : IsNumeral d.scientific := by
  refine .append (.append (.append ?_ ?_) (.ite ?_ ?_)) (Text.isNumeral_paddedText _ _)
  · intro c hc
    rw [String.toList_ofList, List.mem_append] at hc
    rcases hc with ht | hf
    · exact isNumeralChar_of_mem_toDigits (List.mem_of_mem_take ht)
    · split at hf
      · exact absurd hf List.not_mem_nil
      · rcases List.mem_cons.1 hf with rfl | hd
        · decide
        · exact isNumeralChar_of_mem_toDigits (List.mem_of_mem_drop hd)
  all_goals decide

end Decimal

namespace Binary64

theorem isNumeral_signMark (negative : Bool) : IsNumeral (signMark negative) := by
  cases negative <;> simp [signMark, IsNumeral, isNumeralChar]

theorem isNumeral_pointed {d : Decimal} {fraction : List Char}
    (h : ∀ c ∈ fraction, isNumeralChar c) :
    IsNumeral (String.ofList (d.positional.1 ++ '.' :: fraction)) := by
  intro c hc
  rw [String.toList_ofList, List.mem_append, List.mem_cons] at hc
  rcases hc with hw | rfl | hf
  · exact d.positional_chars (.inl hw)
  · decide
  · exact h c hf

theorem isNumeral_text (x : Binary64) : IsNumeral x.text := by
  cases x with
  | nan => exact (by decide : IsNumeral "nan")
  | infinite negative =>
    refine (isNumeral_signMark negative).append ?_
    decide
  | finite negative code =>
    refine (isNumeral_signMark negative).append (.ite (isNumeral_pointed fun c hc => ?_) ?_)
    · split at hc
      · rw [List.mem_singleton.1 hc]
        decide
      · exact (shortest code).positional_chars (.inr hc)
    · exact (shortest code).isNumeral_scientific

theorem isNumeral_plainText (x : Binary64) : IsNumeral x.plainText := by
  unfold plainText
  split
  · exact Text.isNumeral_integerText _
  · exact (isNumeral_signMark _).append
      (isNumeral_pointed fun c hc => (shortest _).positional_chars (.inr hc))
  · exact isNumeral_text _

end Binary64

namespace Value

def IsNumber : Value → Prop
  | int _ => True
  | float _ => True
  | _ => False

theorem IsNumber.isNumeral_shown {v : Value} (h : v.IsNumber) : IsNumeral v.shown := by
  cases v with
  | int i => exact Text.isNumeral_integerText i
  | float x => exact x.isNumeral_text
  | _ => exact h.elim

theorem IsNumber.isNumeral_plain {v : Value} (h : v.IsNumber) : IsNumeral v.plain := by
  cases v with
  | int i => exact Text.isNumeral_integerText i
  | float x => exact x.isNumeral_plainText
  | _ => exact h.elim

end Value

end CaveMap
