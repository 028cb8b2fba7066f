import CaveMap.Text.Utf8
import Mathlib.Data.List.Monad

namespace CaveMap.Text

variable {rest : List UInt8}

theorem decodeUtf8From_start {b : UInt8} (h : b.toNat < 0x80) :
    decodeUtf8From none (b :: rest) = some (Char.ofNat b.toNat) :: decodeUtf8From none rest := by
  simp [decodeUtf8From, lead, h]

theorem decodeUtf8From_opening {b : UInt8} {p : PartialChar} (h : lead b = .opening p) :
    decodeUtf8From none (b :: rest) = decodeUtf8From (some p) rest := by
  simp [decodeUtf8From, h]

theorem toNat_ofNat_of_lt {n : Nat} (h : n < 256) : (UInt8.ofNat n).toNat = n := by
  rw [UInt8.toNat_ofNat']
  exact Nat.mod_eq_of_lt h

theorem decodeUtf8From_last {value low high n : Nat} (hn : n < 256) (hl : low ≤ n) (hh : n ≤ high) :
    decodeUtf8From (some ⟨value, 1, low, high⟩) (UInt8.ofNat n :: rest) =
      some (Char.ofNat (value * 64 + (n - 0x80))) :: decodeUtf8From none rest := by
  rw [decodeUtf8From, toNat_ofNat_of_lt hn]
  simp [hl, hh]

theorem decodeUtf8From_further {value m low high n : Nat} (hn : n < 256) (hl : low ≤ n)
    (hh : n ≤ high) : decodeUtf8From (some ⟨value, m + 2, low, high⟩) (UInt8.ofNat n :: rest) =
      decodeUtf8From (some ⟨value * 64 + (n - 0x80), m + 1, 0x80, 0xBF⟩) rest := by
  rw [decodeUtf8From, toNat_ofNat_of_lt hn]
  simp [hl, hh]

theorem lead_two {n : Nat} (hl : 0xC2 ≤ n) (hh : n < 0xE0) :
    lead (UInt8.ofNat n) = .opening ⟨n - 0xC0, 1, 0x80, 0xBF⟩ := by
  unfold lead
  rw [toNat_ofNat_of_lt (by omega)]
  dsimp only
  rw [if_neg (by omega), if_neg (by omega), if_pos hh]

theorem lead_three {n : Nat} (hl : 0xE0 ≤ n) (hh : n < 0xF0) :
    lead (UInt8.ofNat n) =
      .opening ⟨n - 0xE0, 2, if n = 0xE0 then 0xA0 else 0x80, if n = 0xED then 0x9F else 0xBF⟩ := by
  unfold lead
  rw [toNat_ofNat_of_lt (by omega)]
  dsimp only
  rw [if_neg (by omega), if_neg (by omega), if_neg (by omega), if_pos hh]

theorem lead_four {n : Nat} (hl : 0xF0 ≤ n) (hh : n < 0xF5) :
    lead (UInt8.ofNat n) =
      .opening ⟨n - 0xF0, 3, if n = 0xF0 then 0x90 else 0x80, if n = 0xF4 then 0x8F else 0xBF⟩ := by
  unfold lead
  rw [toNat_ofNat_of_lt (by omega)]
  dsimp only
  rw [if_neg (by omega), if_neg (by omega), if_neg (by omega), if_neg (by omega), if_pos hh]

theorem decodeUtf8From_char (c : Char) :
    decodeUtf8From none (String.utf8EncodeChar c ++ rest) = some c :: decodeUtf8From none rest := by
  have hvalid : c.toNat < 0xD800 ∨ (0xDFFF < c.toNat ∧ c.toNat < 0x110000) := c.valid
  have hself : Char.ofNat c.toNat = c := Char.ofNat_toNat c
  unfold String.utf8EncodeChar
  change decodeUtf8From none ((if c.toNat ≤ 0x7F then _ else _) ++ rest) = _
  have hn : c.val.toNat = c.toNat := rfl
  simp only [hn]
  generalize c.toNat = n at hvalid hself
  split
  · next h =>
    rw [List.singleton_append, decodeUtf8From_start, toNat_ofNat_of_lt (by omega), hself]
    rw [toNat_ofNat_of_lt (by omega)]
    omega
  · split
    · rw [List.cons_append, List.singleton_append, decodeUtf8From_opening (lead_two (by omega) (by omega)),
        decodeUtf8From_last (by omega) (by omega) (by omega)]
      have hvalue : (n / 64 % 32 + 192 - 192) * 64 + (n % 64 + 128 - 128) = n := by omega
      rw [hvalue, hself]
    · split
      · rw [List.cons_append, List.cons_append, List.singleton_append,
          decodeUtf8From_opening (lead_three (by omega) (by omega)),
          decodeUtf8From_further (m := 0) (by omega) (by split <;> omega) (by split <;> omega),
          decodeUtf8From_last (by omega) (by omega) (by omega)]
        have hvalue : ((n / 4096 % 16 + 224 - 224) * 64 + (n / 64 % 64 + 128 - 128)) * 64 +
            (n % 64 + 128 - 128) = n := by omega
        rw [hvalue, hself]
      · rw [List.cons_append, List.cons_append, List.cons_append, List.singleton_append,
          decodeUtf8From_opening (lead_four (by omega) (by omega)),
          decodeUtf8From_further (m := 1) (by omega) (by split <;> omega) (by split <;> omega),
          decodeUtf8From_further (m := 0) (by omega) (by omega) (by omega),
          decodeUtf8From_last (by omega) (by omega) (by omega)]
        have hvalue : (((n / 262144 % 8 + 240 - 240) * 64 + (n / 4096 % 64 + 128 - 128)) * 64 +
            (n / 64 % 64 + 128 - 128)) * 64 + (n % 64 + 128 - 128) = n := by omega
        rw [hvalue, hself]

theorem decodeUtf8_utf8 (text : List Char) : decodeUtf8 (utf8 text) = text.map some := by
  unfold decodeUtf8 utf8
  induction text with
  | nil => rfl
  | cons c rest ih => rw [List.flatMap_cons, decodeUtf8From_char, ih, List.map_cons]

theorem ofUtf8?_utf8 (text : List Char) : ofUtf8? (utf8 text) = some (String.ofList text) := by
  have hmap : (text.map some).mapM id = some text := by
    rw [List.mapM_map]
    exact List.mapM_pure.trans (by rw [List.map_id']; rfl)
  rw [ofUtf8?, decodeUtf8_utf8, hmap]
  rfl

end CaveMap.Text
