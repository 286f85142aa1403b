import Mathlib.Tactic.SplitIfs
import TapeMachine.Text.Character

/-! Characters as bytes. A character of several bytes is told by its first byte, and the bytes behind
it stand in a range of their own. So a character is read as such whatever follows it, its code lies
beyond ASCII, and the code is written as the same bytes again. -/

namespace TapeMachine.Text

/-- The bytes of one character. -/
inductive IsCharacter : Text → Prop where
  | one {a : UInt8} (ha : a < 0x80) : IsCharacter [a]
  | two {a b : UInt8} (ha : (0xC2 ≤ a && a ≤ 0xDF) = true) (hb : continues b = true) : IsCharacter [a, b]
  | three {a b c : UInt8} (ha : (0xE0 ≤ a && a ≤ 0xEF) = true) (hb : mayFollow a b = true)
      (hc : continues c = true) : IsCharacter [a, b, c]
  | four {a b c d : UInt8} (ha : (0xF0 ≤ a && a ≤ 0xF4) = true) (hb : mayFollow a b = true)
      (hc : continues c = true) (hd : continues d = true) : IsCharacter [a, b, c, d]

section

variable {lo hi a : UInt8}

theorem range_bounds (h : (lo ≤ a && a ≤ hi) = true) : lo.toNat ≤ a.toNat ∧ a.toNat ≤ hi.toNat := by
  simpa only [Bool.and_eq_true, decide_eq_true_eq, UInt8.le_iff_toNat_le] using h

theorem not_in_range (h : a.toNat < lo.toNat ∨ hi.toNat < a.toNat) : (lo ≤ a && a ≤ hi) = false := by
  simp only [Bool.and_eq_false_iff, decide_eq_false_iff_not, UInt8.le_iff_toNat_le]
  omega

theorem not_ascii_of_range (h : (lo ≤ a && a ≤ hi) = true) (hlo : 0x80 ≤ lo) : ¬a < 0x80 := by
  rw [Bool.and_eq_true, decide_eq_true_eq] at h
  exact UInt8.not_lt.2 (UInt8.le_trans hlo h.1)

/-- A byte of ASCII leads no character of several bytes. -/
theorem lead_of_ascii (h : a < 0x80) : (0xC2 ≤ a && a ≤ 0xDF) = false ∧
    (0xE0 ≤ a && a ≤ 0xEF) = false ∧ (0xF0 ≤ a && a ≤ 0xF4) = false := by
  have ha : a.toNat < 128 := UInt8.lt_iff_toNat_lt.1 h
  exact ⟨not_in_range (.inl (Nat.lt_trans ha (by decide))), not_in_range (.inl (Nat.lt_trans ha (by decide))),
    not_in_range (.inl (Nat.lt_trans ha (by decide)))⟩

theorem lead_of_three (h : (0xE0 ≤ a && a ≤ 0xEF) = true) : (0xC2 ≤ a && a ≤ 0xDF) = false :=
  not_in_range (.inr (Nat.lt_of_lt_of_le (by decide) (range_bounds h).1))

theorem lead_of_four (h : (0xF0 ≤ a && a ≤ 0xF4) = true) :
    (0xC2 ≤ a && a ≤ 0xDF) = false ∧ (0xE0 ≤ a && a ≤ 0xEF) = false :=
  ⟨not_in_range (.inr (Nat.lt_of_lt_of_le (by decide) (range_bounds h).1)),
    not_in_range (.inr (Nat.lt_of_lt_of_le (by decide) (range_bounds h).1))⟩

end

/-- A text starts with a character, or with a byte of none. -/
theorem character_cases (b : UInt8) (t : Text) :
    (∃ ch rest, IsCharacter ch ∧ b :: t = ch ++ rest) ∨ (¬b < 0x80 ∧ charWidth (b :: t) = 1) := by
  by_cases hascii : b < 0x80
  · exact .inl ⟨[b], t, .one hascii, rfl⟩
  · unfold charWidth
    dsimp only
    split_ifs with h2 h3 h4
    · match t with
      | [] => exact .inr ⟨hascii, rfl⟩
      | c :: t =>
          by_cases hc : continues c = true
          · exact .inl ⟨[b, c], t, .two h2 hc, rfl⟩
          · exact .inr ⟨hascii, if_neg hc⟩
    · match t with
      | [] => exact .inr ⟨hascii, rfl⟩
      | [_] => exact .inr ⟨hascii, rfl⟩
      | c :: d :: t =>
          by_cases hcd : (mayFollow b c && continues d) = true
          · rw [Bool.and_eq_true] at hcd
            exact .inl ⟨[b, c, d], t, .three h3 hcd.1 hcd.2, rfl⟩
          · exact .inr ⟨hascii, if_neg hcd⟩
    · match t with
      | [] => exact .inr ⟨hascii, rfl⟩
      | [_] => exact .inr ⟨hascii, rfl⟩
      | [_, _] => exact .inr ⟨hascii, rfl⟩
      | c :: d :: e :: t =>
          by_cases hcde : (mayFollow b c && continues d && continues e) = true
          · rw [Bool.and_eq_true, Bool.and_eq_true] at hcde
            exact .inl ⟨[b, c, d, e], t, .four h4 hcde.1.1 hcde.1.2 hcde.2, rfl⟩
          · exact .inr ⟨hascii, if_neg hcde⟩
    · exact .inr ⟨hascii, rfl⟩

theorem charsFrom_append (front t : Text) : charsFrom front.length (front ++ t) = charsFrom 0 t := by
  induction front with
  | nil => rfl
  | cons b front ih => exact ih

/-- A byte of no character has the code that replaces it. -/
theorem codes_of_lone {b : UInt8} {t : Text} (hb : ¬b < 0x80) (hwidth : charWidth (b :: t) = 1) :
    codes (b :: t) = replacement :: codes t := by
  rw [codes, chars, charsFrom, hwidth, List.take_succ_cons, List.take_zero, List.map_cons, codeOf,
    if_neg hb]
  rfl

/-- The second byte of a character continues it, within what its first byte allows. -/
theorem mayFollow_bounds {a b : UInt8} (h : mayFollow a b = true) :
    128 ≤ b.toNat ∧ b.toNat ≤ 191 ∧ (a.toNat = 224 → 160 ≤ b.toNat) ∧ (a.toNat = 237 → b.toNat ≤ 159) ∧
      (a.toNat = 240 → 144 ≤ b.toNat) ∧ (a.toNat = 244 → b.toNat ≤ 143) := by
  unfold mayFollow at h
  split_ifs at h with h1 h2 h3 h4
  · subst h1
    have hb := range_bounds h
    simp only [UInt8.reduceToNat] at hb ⊢
    omega
  · subst h2
    have hb := range_bounds h
    simp only [UInt8.reduceToNat] at hb ⊢
    omega
  · subst h3
    have hb := range_bounds h
    simp only [UInt8.reduceToNat] at hb ⊢
    omega
  · subst h4
    have hb := range_bounds h
    simp only [UInt8.reduceToNat] at hb ⊢
    omega
  · have hb := range_bounds h
    rw [← UInt8.toNat_inj] at h1 h2 h3 h4
    simp only [UInt8.reduceToNat] at hb h1 h2 h3 h4
    omega

theorem continues_of_mayFollow {a b : UInt8} (h : mayFollow a b = true) : continues b = true := by
  have hbounds := mayFollow_bounds h
  simp only [continues, Bool.and_eq_true, decide_eq_true_eq, UInt8.le_iff_toNat_le, UInt8.reduceToNat]
  omega

theorem toUInt8_eq {n : Nat} {b : UInt8} (h : n = b.toNat) : n.toUInt8 = b := by
  rw [h]
  exact UInt8.ofNat_toNat

namespace IsCharacter

variable {ch : Text}

theorem ne_nil (h : IsCharacter ch) : ch ≠ [] := by
  cases h <;> exact List.cons_ne_nil _ _

/-- A character takes its bytes, whatever follows them. -/
theorem charWidth_append (h : IsCharacter ch) (t : Text) : charWidth (ch ++ t) = ch.length := by
  cases h with
  | one ha =>
      obtain ⟨h2, h3, h4⟩ := lead_of_ascii ha
      simp [charWidth, h2, h3, h4]
  | two ha hb => simp [charWidth, ha, hb]
  | three ha hb hc => simp [charWidth, lead_of_three ha, ha, hb, hc]
  | four ha hb hc hd =>
      obtain ⟨h2, h3⟩ := lead_of_four ha
      simp [charWidth, h2, h3, ha, hb, hc, hd]

theorem codes_append (h : IsCharacter ch) (t : Text) : codes (ch ++ t) = codeOf ch :: codes t := by
  have hwidth := h.charWidth_append t
  obtain ⟨b, rest, rfl⟩ := List.exists_cons_of_ne_nil h.ne_nil
  rw [List.cons_append] at hwidth ⊢
  rw [codes, chars, charsFrom, hwidth, List.length_cons, List.take_succ_cons, List.take_left,
    Nat.add_sub_cancel, charsFrom_append]
  rfl

/-- A character of several bytes has a code beyond ASCII. -/
theorem code_ge (h : IsCharacter ch) (hlength : 2 ≤ ch.length) : 0x80 ≤ codeOf ch := by
  cases h with
  | one _ => exact absurd hlength (Nat.not_succ_le_self 1)
  | @two a b ha hb =>
      have ha := range_bounds ha
      simp only [UInt8.reduceToNat] at ha
      change 0x80 ≤ (a.toNat % 32) * 64 + b.toNat % 64
      omega
  | @three a b c ha hb hc =>
      have ha := range_bounds ha
      have hb := mayFollow_bounds hb
      simp only [UInt8.reduceToNat] at ha
      change 0x80 ≤ ((a.toNat % 16) * 64 + b.toNat % 64) * 64 + c.toNat % 64
      omega
  | @four a b c d ha hb hc hd =>
      have ha := range_bounds ha
      have hb := mayFollow_bounds hb
      simp only [UInt8.reduceToNat] at ha
      change 0x80 ≤ (((a.toNat % 8) * 64 + b.toNat % 64) * 64 + c.toNat % 64) * 64 + d.toNat % 64
      omega

theorem bytes_ge (h : IsCharacter ch) (hlength : 2 ≤ ch.length) :
    ∀ b ∈ ch, ¬b < 0x80 := by
  have hcontinues : ∀ b : UInt8, continues b = true → ¬b < 0x80 :=
    fun b hb => not_ascii_of_range hb (by decide)
  cases h with
  | one _ => exact absurd hlength (Nat.not_succ_le_self 1)
  | two ha hb =>
      rw [List.forall_mem_cons, List.forall_mem_singleton]
      exact ⟨not_ascii_of_range ha (by decide), hcontinues _ hb⟩
  | three ha hb hc =>
      rw [List.forall_mem_cons, List.forall_mem_cons, List.forall_mem_singleton]
      exact ⟨not_ascii_of_range ha (by decide), hcontinues _ (continues_of_mayFollow hb), hcontinues _ hc⟩
  | four ha hb hc hd =>
      rw [List.forall_mem_cons, List.forall_mem_cons, List.forall_mem_cons, List.forall_mem_singleton]
      exact ⟨not_ascii_of_range ha (by decide), hcontinues _ (continues_of_mayFollow hb), hcontinues _ hc,
        hcontinues _ hd⟩

/-- The bytes of a character are those of its code. -/
theorem encode_codeOf (h : IsCharacter ch) : encode (codeOf ch) = ch := by
  cases h with
  | @one a ha =>
      have hcode : a.toNat < 0x80 := UInt8.lt_iff_toNat_lt.1 ha
      rw [codeOf, if_pos ha, encode, if_pos hcode, toUInt8_eq rfl]
  | @two a b ha hb =>
      have ha := range_bounds ha
      have hb := range_bounds hb
      simp only [UInt8.reduceToNat] at ha hb
      change encode ((a.toNat % 32) * 64 + b.toNat % 64) = [a, b]
      rw [encode, if_neg (by omega), if_pos (by omega), toUInt8_eq (b := a) (by omega),
        toUInt8_eq (b := b) (by omega)]
  | @three a b c ha hb hc =>
      have ha := range_bounds ha
      have hb := mayFollow_bounds hb
      have hc := range_bounds hc
      simp only [UInt8.reduceToNat] at ha hc
      change encode (((a.toNat % 16) * 64 + b.toNat % 64) * 64 + c.toNat % 64) = [a, b, c]
      generalize hcode : ((a.toNat % 16) * 64 + b.toNat % 64) * 64 + c.toNat % 64 = code
      have hsurrogate : ¬((0xD800 ≤ code && code ≤ 0xDFFF) || 0x10FFFF < code) = true := by
        simp only [Bool.or_eq_true, Bool.and_eq_true, decide_eq_true_eq]
        omega
      rw [encode, if_neg (by omega), if_neg (by omega), if_neg hsurrogate, if_pos (by omega),
        toUInt8_eq (b := a) (by omega), toUInt8_eq (b := b) (by omega), toUInt8_eq (b := c) (by omega)]
  | @four a b c d ha hb hc hd =>
      have ha := range_bounds ha
      have hb := mayFollow_bounds hb
      have hc := range_bounds hc
      have hd := range_bounds hd
      simp only [UInt8.reduceToNat] at ha hc hd
      change encode ((((a.toNat % 8) * 64 + b.toNat % 64) * 64 + c.toNat % 64) * 64 + d.toNat % 64) =
        [a, b, c, d]
      generalize hcode : (((a.toNat % 8) * 64 + b.toNat % 64) * 64 + c.toNat % 64) * 64 + d.toNat % 64 =
        code
      have hsurrogate : ¬((0xD800 ≤ code && code ≤ 0xDFFF) || 0x10FFFF < code) = true := by
        simp only [Bool.or_eq_true, Bool.and_eq_true, decide_eq_true_eq]
        omega
      rw [encode, if_neg (by omega), if_neg (by omega), if_neg hsurrogate, if_neg (by omega),
        toUInt8_eq (b := a) (by omega), toUInt8_eq (b := b) (by omega), toUInt8_eq (b := c) (by omega),
        toUInt8_eq (b := d) (by omega)]

theorem repaired_append (h : IsCharacter ch) (t : Text) : repaired (ch ++ t) = ch ++ repaired t := by
  rw [repaired, h.codes_append, ofCodes, List.flatMap_cons, h.encode_codeOf]
  rfl

end IsCharacter

/-- What a text starts with is a byte of ASCII, or its code lies beyond. -/
theorem codeOf_char (a : UInt8) (rest : Text) :
    (charWidth (a :: rest) = 1 ∧ a < 0x80) ∨
      0x80 ≤ codeOf ((a :: rest).take (charWidth (a :: rest))) := by
  rcases character_cases a rest with ⟨ch, t, hch, heq⟩ | ⟨hascii, hwidth⟩
  · rw [heq, hch.charWidth_append, List.take_left]
    by_cases hlength : 2 ≤ ch.length
    · exact .inr (hch.code_ge hlength)
    · cases hch with
      | one ha =>
          cases heq
          exact .inl ⟨rfl, ha⟩
      | two _ _ => exact absurd (Nat.le_refl 2) hlength
      | three _ _ _ => exact absurd (Nat.le_add_left 2 1) hlength
      | four _ _ _ _ => exact absurd (Nat.le_add_left 2 2) hlength
  · right
    rw [hwidth, List.take_succ_cons, List.take_zero, codeOf, if_neg hascii]
    decide

/-- ASCII text has nothing to repair. -/
theorem repaired_append_of_ascii {x : Text} (h : x.all (fun b => b < 0x80) = true) (t : Text) :
    repaired (x ++ t) = x ++ repaired t := by
  induction x with
  | nil => rfl
  | cons b x ih =>
      rw [List.all_cons, Bool.and_eq_true, decide_eq_true_iff] at h
      have hfirst := (IsCharacter.one h.1).repaired_append (x ++ t)
      rw [ih h.2] at hfirst
      exact hfirst

end TapeMachine.Text
