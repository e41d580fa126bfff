import FaultRelay.Text.Utf8

/-! Decoding against the encoding of the standard library. A character has one well-formed sequence,
which is read from its first byte on; whatever does not begin with one is answered with a
replacement. So decoding is inverse to encoding as long as no replacement turns up. -/
namespace FaultRelay.Text

section Bytes

variable {a b : UInt8}

theorem isContinuation_iff : isContinuation b = true ↔ 128 ≤ b.toNat ∧ b.toNat ≤ 191 := by
  simp [isContinuation, UInt8.le_iff_toNat_le]

theorem startsTwo_iff : startsTwo a = true ↔ 194 ≤ a.toNat ∧ a.toNat ≤ 223 := by
  simp [startsTwo, UInt8.le_iff_toNat_le]

theorem startsThree_iff : startsThree a = true ↔ 224 ≤ a.toNat ∧ a.toNat ≤ 239 := by
  simp [startsThree, UInt8.le_iff_toNat_le]

theorem startsFour_iff : startsFour a = true ↔ 240 ≤ a.toNat ∧ a.toNat ≤ 244 := by
  simp [startsFour, UInt8.le_iff_toNat_le]

theorem followsThree_iff : followsThree a b = true ↔ 128 ≤ b.toNat ∧ b.toNat ≤ 191 ∧
    (a.toNat = 224 → 160 ≤ b.toNat) ∧ (a.toNat = 237 → b.toNat ≤ 159) := by
  unfold followsThree
  by_cases first : a = 0xE0
  · subst first
    simp [UInt8.le_iff_toNat_le]
    omega
  · by_cases surrogate : a = 0xED
    · subst surrogate
      simp [UInt8.le_iff_toNat_le]
      omega
    · have other : a.toNat ≠ 224 ∧ a.toNat ≠ 237 :=
        ⟨fun same => first (UInt8.toNat_inj.1 same), fun same => surrogate (UInt8.toNat_inj.1 same)⟩
      rw [if_neg first, if_neg surrogate, isContinuation_iff]
      omega

theorem followsFour_iff : followsFour a b = true ↔ 128 ≤ b.toNat ∧ b.toNat ≤ 191 ∧
    (a.toNat = 240 → 144 ≤ b.toNat) ∧ (a.toNat = 244 → b.toNat ≤ 143) := by
  unfold followsFour
  by_cases first : a = 0xF0
  · subst first
    simp [UInt8.le_iff_toNat_le]
    omega
  · by_cases last : a = 0xF4
    · subst last
      simp [UInt8.le_iff_toNat_le]
      omega
    · have other : a.toNat ≠ 240 ∧ a.toNat ≠ 244 :=
        ⟨fun same => first (UInt8.toNat_inj.1 same), fun same => last (UInt8.toNat_inj.1 same)⟩
      rw [if_neg first, if_neg last, isContinuation_iff]
      omega

end Bytes

inductive Sequence : List UInt8 → Char → Prop
  | one {a : UInt8} (small : a < 0x80) : Sequence [a] (Char.ofNat a.toNat)
  | two {a b : UInt8} (lead : startsTwo a = true) (second : isContinuation b = true) :
      Sequence [a, b] (joinTwo a b)
  | three {a b c : UInt8} (lead : startsThree a = true) (second : followsThree a b = true)
      (third : isContinuation c = true) : Sequence [a, b, c] (joinThree a b c)
  | four {a b c d : UInt8} (lead : startsFour a = true) (second : followsFour a b = true)
      (third : isContinuation c = true) (fourth : isContinuation d = true) :
      Sequence [a, b, c, d] (joinFour a b c d)

/-- What is decoded first is a well-formed sequence, or else a replacement. -/
theorem decodeFirst_cases (a : UInt8) (rest : List UInt8) :
    (decodeFirst a rest).1 = replacement ∨
      ∃ more, Sequence (a :: more) (decodeFirst a rest).1 ∧
        rest = more ++ rest.drop (decodeFirst a rest).2 := by
  fun_cases decodeFirst a rest with
  | case1 small | case3 _ _ small => exact .inr ⟨[], .one small, rfl⟩
  | case4 b rest _ lead second => exact .inr ⟨[b], .two lead second, rfl⟩
  | case6 b _ _ lead second c rest third => exact .inr ⟨[b, c], .three lead second third, rfl⟩
  | case10 b _ _ _ lead second c d rest third fourth =>
      exact .inr ⟨[b, c, d], .four lead second third fourth, rfl⟩
  | _ => exact .inl rfl

theorem toNat_ofNat {n : Nat} (valid : n.isValidChar) : (Char.ofNat n).val.toNat = n := by
  unfold Char.ofNat
  rw [dif_pos valid]
  rfl

theorem utf8EncodeChar_of_sequence {bytes : List UInt8} {c : Char} (sequence : Sequence bytes c) :
    String.utf8EncodeChar c = bytes := by
  unfold String.utf8EncodeChar
  cases sequence with
  | @one a small =>
      have range : a.toNat < 128 := small
      rw [toNat_ofNat (.inl (by omega))]
      simp only
      rw [if_pos (by omega), UInt8.ofNat_toNat]
  | @two a b lead second =>
      rw [startsTwo_iff] at lead
      rw [isContinuation_iff] at second
      -- `simp only` reduces the local definition that stands for the number of the character.
      rw [joinTwo, lowBits, toNat_ofNat (.inl (by omega))]
      simp only
      rw [if_neg (by omega), if_pos (by omega)]
      simp only [List.cons.injEq, ← UInt8.toNat_inj, UInt8.toNat_ofNat', and_true]
      omega
  | @three a b c lead second third =>
      rw [startsThree_iff] at lead
      rw [followsThree_iff] at second
      rw [isContinuation_iff] at third
      rw [joinThree, lowBits, lowBits, toNat_ofNat (by unfold Nat.isValidChar; omega)]
      simp only
      rw [if_neg (by omega), if_neg (by omega), if_pos (by omega)]
      simp only [List.cons.injEq, ← UInt8.toNat_inj, UInt8.toNat_ofNat', and_true]
      omega
  | @four a b c d lead second third fourth =>
      rw [startsFour_iff] at lead
      rw [followsFour_iff] at second
      rw [isContinuation_iff] at third fourth
      rw [joinFour, lowBits, lowBits, lowBits, toNat_ofNat (by unfold Nat.isValidChar; omega)]
      simp only
      rw [if_neg (by omega), if_neg (by omega), if_neg (by omega)]
      simp only [List.cons.injEq, ← UInt8.toNat_inj, UInt8.toNat_ofNat', and_true]
      omega

/-- Every character has a well-formed sequence: none of its bytes leaves the range of its place. -/
theorem sequence_utf8EncodeChar (c : Char) : Sequence (String.utf8EncodeChar c) c := by
  have range := c.valid
  have same : Char.ofNat c.val.toNat = c := Char.ofNat_toNat c
  have byte : ∀ {n : Nat}, n < 256 → (UInt8.ofNat n).toNat = n := UInt8.toNat_ofNat_of_lt'
  simp only [UInt32.isValidChar, Nat.isValidChar] at range
  unfold String.utf8EncodeChar
  generalize c.val.toNat = v at *
  subst same
  simp only
  split
  · have sequence := Sequence.one (a := .ofNat v)
      (UInt8.lt_iff_toNat_lt.2 (by rw [byte (by omega)]; exact Nat.lt_succ_of_le ‹_›))
    rwa [byte (by omega)] at sequence
  split
  · have sequence := Sequence.two (a := .ofNat (v / 64 % 0x20 + 0xC0)) (b := .ofNat (v % 0x40 + 0x80))
      (startsTwo_iff.2 (by rw [byte (by omega)]; omega))
      (isContinuation_iff.2 (by rw [byte (by omega)]; omega))
    rw [joinTwo, lowBits, byte (by omega), byte (by omega)] at sequence
    rwa [show (v / 64 % 0x20 + 0xC0) % 32 * 64 + (v % 0x40 + 0x80) % 64 = v by omega] at sequence
  split
  · have sequence := Sequence.three (a := .ofNat (v / 4096 % 0x10 + 0xE0))
      (b := .ofNat (v / 64 % 0x40 + 0x80)) (c := .ofNat (v % 0x40 + 0x80))
      (startsThree_iff.2 (by rw [byte (by omega)]; omega))
      (followsThree_iff.2 (by rw [byte (by omega), byte (by omega)]; omega))
      (isContinuation_iff.2 (by rw [byte (by omega)]; omega))
    rw [joinThree, lowBits, lowBits, byte (by omega), byte (by omega), byte (by omega)] at sequence
    rwa [show (v / 4096 % 0x10 + 0xE0) % 16 * 4096 + (v / 64 % 0x40 + 0x80) % 64 * 64 +
      (v % 0x40 + 0x80) % 64 = v by omega] at sequence
  · have sequence := Sequence.four (a := .ofNat (v / 262144 % 0x08 + 0xF0))
      (b := .ofNat (v / 4096 % 0x40 + 0x80)) (c := .ofNat (v / 64 % 0x40 + 0x80))
      (d := .ofNat (v % 0x40 + 0x80))
      (startsFour_iff.2 (by rw [byte (by omega)]; omega))
      (followsFour_iff.2 (by rw [byte (by omega), byte (by omega)]; omega))
      (isContinuation_iff.2 (by rw [byte (by omega)]; omega))
      (isContinuation_iff.2 (by rw [byte (by omega)]; omega))
    rw [joinFour, lowBits, lowBits, lowBits, byte (by omega), byte (by omega), byte (by omega),
      byte (by omega)] at sequence
    rwa [show (v / 262144 % 0x08 + 0xF0) % 8 * 262144 + (v / 4096 % 0x40 + 0x80) % 64 * 4096 +
      (v / 64 % 0x40 + 0x80) % 64 * 64 + (v % 0x40 + 0x80) % 64 = v by omega] at sequence

theorem not_small {a : UInt8} (large : 128 ≤ a.toNat) : ¬a < 0x80 := by
  rw [UInt8.lt_iff_toNat_lt]
  exact Nat.not_lt.2 large

theorem decodeFirst_sequence {a : UInt8} {more : List UInt8} {c : Char}
    (sequence : Sequence (a :: more) c) (rest : List UInt8) :
    decodeFirst a (more ++ rest) = (c, more.length) := by
  cases sequence with
  | one small => cases rest <;> simp [decodeFirst, small]
  | @two _ b lead second =>
      have range := startsTwo_iff.1 lead
      simp [decodeFirst, not_small (show 128 ≤ a.toNat by omega), lead, second]
  | @three _ b c lead second third =>
      have range := startsThree_iff.1 lead
      have two : startsTwo a = false := by
        rw [Bool.eq_false_iff, ne_eq, startsTwo_iff]; omega
      simp [decodeFirst, not_small (show 128 ≤ a.toNat by omega), two, lead, second, third]
  | @four _ b c d lead second third fourth =>
      have range := startsFour_iff.1 lead
      have two : startsTwo a = false := by
        rw [Bool.eq_false_iff, ne_eq, startsTwo_iff]; omega
      have three : startsThree a = false := by
        rw [Bool.eq_false_iff, ne_eq, startsThree_iff]; omega
      simp [decodeFirst, not_small (show 128 ≤ a.toNat by omega), two, three, lead, second, third,
        fourth]

theorem decode_encode (text : List Char) :
    decode (text.flatMap String.utf8EncodeChar) = text := by
  induction text with
  | nil => exact decode_nil
  | cons c rest ih =>
      have sequence := sequence_utf8EncodeChar c
      rcases bytes : String.utf8EncodeChar c with _ | ⟨a, more⟩
      · exact absurd bytes String.utf8EncodeChar_ne_nil
      · rw [bytes] at sequence
        rw [List.flatMap_cons, bytes, List.cons_append, decode, decodeFirst_sequence sequence,
          List.drop_left, ih]

theorem encode_decode {bytes : List UInt8} (clean : replacement ∉ decode bytes) :
    (decode bytes).flatMap String.utf8EncodeChar = bytes := by
  fun_induction decode bytes with
  | case1 => rfl
  | case2 a rest ih =>
      obtain replaced | ⟨more, sequence, split⟩ := decodeFirst_cases a rest
      · exact absurd replaced.symm (List.ne_of_not_mem_cons clean)
      · rw [List.flatMap_cons, ih (List.not_mem_of_not_mem_cons clean),
          utf8EncodeChar_of_sequence sequence, List.cons_append, ← split]

end FaultRelay.Text
