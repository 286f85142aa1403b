import Mathlib.Algebra.Group.Nat.Defs
import Mathlib.Algebra.Ring.Int.Defs
import Mathlib.Tactic.SplitIfs
import TapeMachine.Text.Decimal
import TapeMachine.Text.Numeral

/-! Decimal numerals read back. A number written in decimal is a literal without base mark or
separators, and reading it gives the number again. Other spellings are read too, and all that can be
read are made of signs, digits, letters and underscores. -/

namespace TapeMachine.Text

/-- The byte of a decimal digit. -/
def digitByte (d : Nat) : UInt8 := d.digitChar.toUInt8

theorem isDigit_digitByte {d : Nat} : d < 10 → isDigit (digitByte d) = true := by
  revert d
  decide

theorem digitValue?_digitByte {d : Nat} : d < 10 → digitValue? (digitByte d) = some d := by
  revert d
  decide

theorem ofNat_of_lt {n : Nat} (h : n < 10) : ofNat n = [digitByte n] := by
  rw [ofNat, digits, Nat.toDigits_of_lt_base h]
  rfl

theorem ofNat_of_ge {n : Nat} (h : 10 ≤ n) : ofNat n = ofNat (n / 10) ++ [digitByte (n % 10)] := by
  rw [ofNat, digits, Nat.toDigits_of_base_le (by decide) h, List.map_append]
  rfl

theorem ofNat_ne_nil (n : Nat) : ofNat n ≠ [] := by
  rcases Nat.lt_or_ge n 10 with hlt | hge
  · rw [ofNat_of_lt hlt]
    exact List.cons_ne_nil _ _
  · rw [ofNat_of_ge hge]
    exact List.append_ne_nil_of_right_ne_nil _ (List.cons_ne_nil _ _)

theorem exists_digit_of_mem_digits {base : Nat} (hbase : 1 < base) {n : Nat} :
    ∀ b ∈ digits base n, ∃ d < base, b = digitByte d := by
  induction n using Nat.strongRecOn with
  | ind n ih =>
      intro b hb
      rw [digits] at hb
      rcases Nat.lt_or_ge n base with hlt | hge
      · rw [Nat.toDigits_of_lt_base hlt, List.map_singleton, List.mem_singleton] at hb
        exact ⟨n, hlt, hb⟩
      · rw [Nat.toDigits_of_base_le hbase hge, List.map_append, List.map_singleton, List.mem_append,
          List.mem_singleton] at hb
        rcases hb with hfront | hlast
        · exact ih (n / base) (Nat.div_lt_self (by omega) hbase) b hfront
        · exact ⟨n % base, Nat.mod_lt n (by omega), hlast⟩

theorem isDigit_of_mem_ofNat {n : Nat} : ∀ b ∈ ofNat n, isDigit b = true := by
  intro b hb
  obtain ⟨d, hd, rfl⟩ := exists_digit_of_mem_digits (by decide) b hb
  exact isDigit_digitByte hd

/-- A positive number is written without a leading zero. -/
theorem head?_ofNat_ne_zero {n : Nat} (h : 0 < n) : (ofNat n).head? ≠ some (byte '0') := by
  induction n using Nat.strongRecOn with
  | ind n ih =>
      rcases Nat.lt_or_ge n 10 with hlt | hge
      · have hdigit : ∀ d, d < 10 → 0 < d → digitByte d ≠ byte '0' := by decide
        rw [ofNat_of_lt hlt, List.head?_cons]
        exact fun heq => hdigit n hlt h (Option.some.inj heq)
      · rw [ofNat_of_ge hge, List.head?_append, Option.or_of_isSome (by simpa using ofNat_ne_nil (n / 10))]
        exact ih (n / 10) (by omega) (by omega)

theorem isDigit_of_head?_ofNat {n : Nat} {b : UInt8} (h : (ofNat n).head? = some b) :
    isDigit b = true :=
  isDigit_of_mem_ofNat b (List.mem_of_mem_head? h)

theorem not_mem_ofNat {b : UInt8} (h : isDigit b = false) (n : Nat) : b ∉ ofNat n := by
  intro hb
  rw [isDigit_of_mem_ofNat b hb] at h
  cases h

/-- Different numbers are written differently. -/
theorem ofNat_injective {n m : Nat} (h : ofNat n = ofNat m) : n = m := by
  have hdigit : ∀ c, c < 10 → ∀ d, d < 10 → digitByte c = digitByte d → c = d := by decide
  induction n using Nat.strongRecOn generalizing m with
  | ind n ih =>
      rcases Nat.lt_or_ge n 10 with hn | hn <;> rcases Nat.lt_or_ge m 10 with hm | hm
      · rw [ofNat_of_lt hn, ofNat_of_lt hm] at h
        exact hdigit n hn m hm (List.head_eq_of_cons_eq h)
      · rw [ofNat_of_lt hn, ofNat_of_ge hm, ← List.nil_append [digitByte n]] at h
        exact absurd (List.append_inj' h rfl).1.symm (ofNat_ne_nil _)
      · rw [ofNat_of_ge hn, ofNat_of_lt hm, ← List.nil_append [digitByte m]] at h
        exact absurd (List.append_inj' h rfl).1 (ofNat_ne_nil _)
      · rw [ofNat_of_ge hn, ofNat_of_ge hm] at h
        obtain ⟨hfront, hlast⟩ := List.append_inj' h rfl
        have hquot : n / 10 = m / 10 := ih (n / 10) (by omega) hfront
        have hrest : n % 10 = m % 10 :=
          hdigit _ (by omega) _ (by omega) (List.head_eq_of_cons_eq hlast)
        omega

/-! ### Reading -/

theorem readDigits_append (base : Nat) (separated : Bool) (acc : Nat) (t u : Text) :
    readDigits base separated acc (t ++ u)
      = (readDigits base separated acc t).bind fun n => readDigits base separated n u := by
  induction t generalizing acc with
  | nil => rfl
  | cons b t ih =>
      rw [List.cons_append, readDigits, readDigits]
      split
      · exact ih acc
      · split
        · rfl
        · split
          · rfl
          · split
            · rfl
            · exact ih _

theorem readDigits_digitByte {base acc d : Nat} (separated : Bool) (hd : d < 10) (hbase : d < base) :
    readDigits base separated acc [digitByte d] =
      if 2 ^ 64 ≤ acc * base + d then .error .outOfRange else .ok (acc * base + d) := by
  have hdigit : ∀ d < 10, digitByte d ≠ byte '_' := by decide
  have hmark : ¬((separated && decide (digitByte d = byte '_')) = true) := by
    rw [Bool.and_eq_true, decide_eq_true_iff]
    exact fun hboth => hdigit d hd hboth.2
  rw [readDigits, if_neg hmark, digitValue?_digitByte hd]
  simp only [if_neg (Nat.not_le.2 hbase)]
  rfl

/-- Reading the decimal digits of a number gives it back, as long as it fits 64 bits. -/
theorem readDigits_ofNat {n : Nat} (separated : Bool) (h : n < 2 ^ 64) :
    readDigits 10 separated 0 (ofNat n) = .ok n := by
  induction n using Nat.strongRecOn with
  | ind n ih =>
      rcases Nat.lt_or_ge n 10 with hlt | hge
      · rw [ofNat_of_lt hlt, readDigits_digitByte separated hlt hlt, if_neg (by omega)]
        exact congrArg Except.ok (by omega)
      · have hdigit : n % 10 < 10 := Nat.mod_lt _ (by decide)
        rw [ofNat_of_ge hge, readDigits_append, ih (n / 10) (by omega) (by omega)]
        change readDigits 10 separated (n / 10) [digitByte (n % 10)] = .ok n
        rw [readDigits_digitByte separated hdigit hdigit, if_neg (by omega)]
        exact congrArg Except.ok (by omega)

/-- The decimal digits of a number beyond 64 bits are too many. -/
theorem readDigits_ofNat_of_ge {n : Nat} (separated : Bool) (h : 2 ^ 64 ≤ n) :
    readDigits 10 separated 0 (ofNat n) = .error .outOfRange := by
  induction n using Nat.strongRecOn with
  | ind n ih =>
      have hdigit : n % 10 < 10 := Nat.mod_lt _ (by decide)
      rw [ofNat_of_ge (by omega), readDigits_append]
      rcases Nat.lt_or_ge (n / 10) (2 ^ 64) with hlt | hge
      · rw [readDigits_ofNat separated hlt]
        change readDigits 10 separated (n / 10) [digitByte (n % 10)] = _
        rw [readDigits_digitByte separated hdigit hdigit, if_pos (by omega)]
      · rw [ih (n / 10) (by omega) hge]
        rfl

theorem baseMark_ofNat {n : Nat} (h : 0 < n) : baseMark (ofNat n) = (10, ofNat n) := by
  have hhead := head?_ofNat_ne_zero h
  unfold baseMark
  split
  · rename_i heq
    exact absurd (congrArg List.head? heq) hhead
  · rename_i heq
    exact absurd (congrArg List.head? heq) hhead
  · rfl

theorem readUnsigned_ofNat {n : Nat} (h : n < 2 ^ 64) : readUnsigned (ofNat n) = .ok n := by
  have hempty : (ofNat n).isEmpty = false := by simpa using ofNat_ne_nil n
  have hmark : (ofNat n).contains (byte '_') = false := by
    simpa using not_mem_ofNat (b := byte '_') (by decide) n
  have hdigits : readDigits (baseMark (ofNat n)).1 true 0 (baseMark (ofNat n)).2 = .ok n := by
    rcases Nat.eq_zero_or_pos n with rfl | hpos
    · rfl
    · rw [baseMark_ofNat hpos]
      exact readDigits_ofNat true h
  rw [readUnsigned, hempty, if_neg Bool.false_ne_true, hdigits]
  simp only [hmark, Bool.false_and, if_neg Bool.false_ne_true]

theorem readUnsigned_ofNat_of_ge {n : Nat} (h : 2 ^ 64 ≤ n) : readUnsigned (ofNat n) = .error .outOfRange := by
  have hempty : (ofNat n).isEmpty = false := by simpa using ofNat_ne_nil n
  rw [readUnsigned, hempty, if_neg Bool.false_ne_true, baseMark_ofNat (by omega),
    readDigits_ofNat_of_ge true h]

theorem splitSign_ofNat (n : Nat) : splitSign (ofNat n) = (false, ofNat n) := by
  unfold splitSign
  split
  · rename_i heq
    exact absurd (isDigit_of_head?_ofNat (congrArg List.head? heq)) (by decide)
  · rename_i heq
    exact absurd (isDigit_of_head?_ofNat (congrArg List.head? heq)) (by decide)
  · rfl

/-- What holds of the minus sign and of every digit holds of the bytes of an integer. -/
theorem forall_mem_ofInt {p : UInt8 → Prop} (hsign : p (byte '-'))
    (hdigit : ∀ b, isDigit b = true → p b) (n : Int) : ∀ b ∈ ofInt n, p b := by
  have hnat : ∀ b ∈ ofNat n.natAbs, p b := fun b hb => hdigit b (isDigit_of_mem_ofNat b hb)
  rw [ofInt, signed]
  split_ifs
  · exact List.forall_mem_cons.2 ⟨hsign, hnat⟩
  · exact hnat

theorem ofInt_ne_nil (n : Int) : ofInt n ≠ [] := by
  rw [ofInt, signed]
  split_ifs
  · exact List.cons_ne_nil _ _
  · exact ofNat_ne_nil _

theorem ofInt_injective {n m : Int} (h : ofInt n = ofInt m) : n = m := by
  have hsign : ∀ k l : Nat, byte '-' :: ofNat k ≠ ofNat l := fun k l heq =>
    not_mem_ofNat (by decide) l (heq ▸ List.mem_cons_self)
  rw [ofInt, ofInt, signed, signed] at h
  split_ifs at h with hn hm hm
  · have habs := ofNat_injective (List.cons.inj h).2
    omega
  · exact absurd h (hsign _ _)
  · exact absurd h.symm (hsign _ _)
  · have habs := ofNat_injective h
    omega

theorem readSigned_ofInt {n : Int} (hlow : -2 ^ 63 ≤ n) (hhigh : n < 2 ^ 63) :
    readSigned (ofInt n) = .ok n := by
  rcases Int.lt_or_le n 0 with hneg | hnonneg
  · rw [ofInt, signed, if_pos hneg]
    have hsplit : splitSign (byte '-' :: ofNat n.natAbs) = (true, ofNat n.natAbs) := rfl
    rw [readSigned, hsplit, readUnsigned_ofNat (by omega)]
    simp only [signedRange, if_true]
    rw [if_neg (by omega)]
    exact congrArg Except.ok (by omega)
  · rw [ofInt, signed, if_neg (by omega), readSigned, splitSign_ofNat, readUnsigned_ofNat (by omega)]
    simp only [signedRange, if_neg Bool.false_ne_true]
    rw [if_neg (by omega)]
    exact congrArg Except.ok (by omega)

theorem readSigned_ofInt_of_out {n : Int} (h : n < -2 ^ 63 ∨ 2 ^ 63 ≤ n) :
    readSigned (ofInt n) = .error .outOfRange := by
  have hunsigned : readUnsigned (ofNat n.natAbs) = .error .outOfRange ∨
      readUnsigned (ofNat n.natAbs) = .ok n.natAbs := by
    rcases Nat.lt_or_ge n.natAbs (2 ^ 64) with hlt | hge
    · exact .inr (readUnsigned_ofNat hlt)
    · exact .inl (readUnsigned_ofNat_of_ge hge)
  rcases Int.lt_or_le n 0 with hneg | hnonneg
  · have hsplit : splitSign (byte '-' :: ofNat n.natAbs) = (true, ofNat n.natAbs) := rfl
    rw [ofInt, signed, if_pos hneg, readSigned, hsplit]
    rcases hunsigned with hread | hread
    · simp only [hread]
    · simp only [hread, signedRange, if_true]
      rw [if_pos (by omega)]
  · rw [ofInt, signed, if_neg (by omega), readSigned, splitSign_ofNat]
    rcases hunsigned with hread | hread
    · simp only [hread]
    · simp only [hread, signedRange, if_neg Bool.false_ne_true]
      rw [if_pos (by omega)]

/-- A numeral gives a word exactly if its number fits one. -/
theorem readWord32?_numeral (n : Int) : readWord32? (ofInt n) = word32? n := by
  rw [readWord32?]
  by_cases hrange : -2 ^ 63 ≤ n ∧ n < 2 ^ 63
  · rw [readSigned_ofInt hrange.1 hrange.2]
  · have hout : ¬((decide (-0x80000000 ≤ n) && decide (n < 0x100000000)) = true) := by
      rw [Bool.and_eq_true, decide_eq_true_iff, decide_eq_true_iff]
      omega
    rw [readSigned_ofInt_of_out (by omega), word32?, if_neg hout]

theorem word32?_toInt (v : BitVec 32) : word32? v.toInt = some v := by
  have hlow : -2 ^ 31 ≤ v.toInt := BitVec.le_toInt v
  have hhigh : v.toInt < 2 ^ 31 := BitVec.toInt_lt
  have hrange : (decide (-0x80000000 ≤ v.toInt) && decide (v.toInt < 0x100000000)) = true := by
    rw [Bool.and_eq_true, decide_eq_true_iff, decide_eq_true_iff]
    omega
  rw [word32?, if_pos hrange, BitVec.ofInt_toInt]

/-- Every 32-bit word written as a signed number is read back. -/
theorem readWord32?_ofInt (v : BitVec 32) : readWord32? (ofInt v.toInt) = some v := by
  rw [readWord32?_numeral, word32?_toInt]

/-- A byte that a literal may hold after its sign: a digit in some base, a base mark or an
underscore. -/
def inLiteral (b : UInt8) : Bool := (digitValue? b).isSome || b = byte '_'

theorem inLiteral_of_readDigits {base acc n : Nat} {separated : Bool} {t : Text}
    (h : readDigits base separated acc t = .ok n) : ∀ b ∈ t, inLiteral b = true := by
  induction t generalizing acc with
  | nil => exact fun b hb => nomatch hb
  | cons c t ih =>
      rw [readDigits] at h
      split at h
      · rename_i hmark
        rw [Bool.and_eq_true, decide_eq_true_iff] at hmark
        refine List.forall_mem_cons.2 ⟨?_, ih h⟩
        rw [hmark.2]
        rfl
      · split at h
        · cases h
        · rename_i d hd
          split_ifs at h
          refine List.forall_mem_cons.2 ⟨?_, ih h⟩
          rw [inLiteral, hd]
          rfl

/-- The bytes of a base mark are digits in some base. -/
theorem mem_baseMark {t : Text} {b : UInt8} (hb : b ∈ t) :
    b ∈ (baseMark t).2 ∨ inLiteral b = true := by
  unfold baseMark
  split
  · rename_i mark c body
    rcases List.mem_cons.1 hb with rfl | hb
    · exact Or.inr rfl
    · split_ifs with hbinary hoctal hhex
      · rcases List.mem_cons.1 hb with rfl | hb
        · rw [Bool.or_eq_true, decide_eq_true_iff, decide_eq_true_iff] at hbinary
          rcases hbinary with rfl | rfl <;> exact Or.inr rfl
        · exact Or.inl hb
      · rcases List.mem_cons.1 hb with rfl | hb
        · rw [Bool.or_eq_true, decide_eq_true_iff, decide_eq_true_iff] at hoctal
          rcases hoctal with rfl | rfl <;> exact Or.inr rfl
        · exact Or.inl hb
      · rcases List.mem_cons.1 hb with rfl | hb
        · rw [Bool.or_eq_true, decide_eq_true_iff, decide_eq_true_iff] at hhex
          rcases hhex with rfl | rfl <;> exact Or.inr rfl
        · exact Or.inl hb
      · exact Or.inl hb
  · rcases List.mem_cons.1 hb with rfl | hb
    · exact Or.inr rfl
    · exact Or.inl hb
  · exact Or.inl hb

theorem inLiteral_of_readUnsigned {t : Text} {n : Nat} (h : readUnsigned t = .ok n) :
    t ≠ [] ∧ ∀ b ∈ t, inLiteral b = true := by
  rw [readUnsigned] at h
  by_cases hempty : t.isEmpty = true
  · rw [if_pos hempty] at h
    cases h
  · rw [if_neg hempty] at h
    refine ⟨by simpa using hempty, fun b hb => ?_⟩
    cases hdigits : readDigits (baseMark t).1 true 0 (baseMark t).2 with
    | error e =>
        rw [hdigits] at h
        cases h
    | ok m =>
        rcases mem_baseMark hb with hbody | hmark
        · exact inLiteral_of_readDigits hdigits b hbody
        · exact hmark

theorem mem_splitSign {t : Text} {b : UInt8} (hb : b ∈ t) :
    b ∈ (splitSign t).2 ∨ b = byte '+' ∨ b = byte '-' := by
  unfold splitSign
  split
  · rcases List.mem_cons.1 hb with rfl | hb
    · exact Or.inr (Or.inl rfl)
    · exact Or.inl hb
  · rcases List.mem_cons.1 hb with rfl | hb
    · exact Or.inr (Or.inr rfl)
    · exact Or.inl hb
  · exact Or.inl hb

/-- A word that is read as a number holds signs and bytes of literals, and some of them. -/
theorem bytes_of_readWord32? {t : Text} {v : BitVec 32} (h : readWord32? t = some v) :
    t ≠ [] ∧ ∀ b ∈ t, inLiteral b = true ∨ b = byte '+' ∨ b = byte '-' := by
  rw [readWord32?, readSigned] at h
  cases hunsigned : readUnsigned (splitSign t).2 with
  | error e =>
      rw [hunsigned] at h
      cases h
  | ok n =>
      obtain ⟨hne, hbytes⟩ := inLiteral_of_readUnsigned hunsigned
      refine ⟨?_, fun b hb => (mem_splitSign hb).imp_left (hbytes b)⟩
      rintro rfl
      exact hne rfl

/-- A literal without a sign: it starts with a digit and is read as `n`. -/
def Unsigned (t : Text) (n : Int) : Prop := t.head?.any isDigit = true ∧ readSigned t = .ok n

theorem Unsigned.ne_nil {t : Text} {n : Int} (h : Unsigned t n) : t ≠ [] := by
  rintro rfl
  cases h.1

theorem isDigit_of_digitValue? {b : UInt8} {d : Nat} (h : digitValue? b = some d) (hd : d < 10) :
    isDigit b = true := by
  rw [digitValue?] at h
  split_ifs at h with hdigit
  · exact hdigit
  · cases h
    omega
  · cases h
    omega

theorem baseMark_of_ne {b : UInt8} (h : b ≠ 0x30) (t : Text) : baseMark (b :: t) = (10, b :: t) := by
  unfold baseMark
  split
  · rename_i heq
    exact absurd (List.head_eq_of_cons_eq heq) h
  · rename_i heq
    exact absurd (List.head_eq_of_cons_eq heq) h
  · rfl

/-- What is read without a sign starts with a digit: an underscore stands after a digit, and a letter
only after the mark of its base. -/
theorem head?_of_readUnsigned {t : Text} {n : Nat} (h : readUnsigned t = .ok n) :
    t.head?.any isDigit = true := by
  cases t with
  | nil => cases h
  | cons b t =>
      change isDigit b = true
      by_cases hzero : b = 0x30
      · rw [hzero]
        rfl
      · rw [readUnsigned, List.isEmpty_cons, if_neg Bool.false_ne_true, baseMark_of_ne hzero] at h
        dsimp only at h
        rw [readDigits] at h
        by_cases hmark : b = byte '_'
        · rw [hmark] at h
          split at h
          · cases h
          · rw [if_pos (by rfl)] at h
            cases h
        · rw [if_neg (by simp [hmark])] at h
          cases hd : digitValue? b with
          | none =>
              simp only [hd] at h
              cases h
          | some d =>
              by_cases hbase : 10 ≤ d
              · simp only [hd, if_pos hbase] at h
                cases h
              · exact isDigit_of_digitValue? hd (Nat.not_le.1 hbase)

theorem splitSign_of_head? {t : Text} (h : t.head?.any isDigit = true) :
    splitSign t = (false, t) := by
  unfold splitSign
  split
  · cases h
  · cases h
  · rfl

theorem splitSign_cases (t : Text) :
    (∃ u, t = byte '+' :: u ∧ splitSign t = (false, u)) ∨
      (∃ u, t = byte '-' :: u ∧ splitSign t = (true, u)) ∨ splitSign t = (false, t) := by
  unfold splitSign
  split
  · exact Or.inl ⟨_, rfl, rfl⟩
  · exact Or.inr (Or.inl ⟨_, rfl, rfl⟩)
  · exact Or.inr (Or.inr rfl)

theorem readSigned_eq_ok {t : Text} {n : Int} :
    readSigned t = .ok n ↔
      ∃ k, readUnsigned (splitSign t).2 = .ok k ∧ signedRange (splitSign t).1 k = .ok n := by
  rw [readSigned]
  cases readUnsigned (splitSign t).2 <;> simp

theorem signedRange_false {k : Nat} {n : Int} :
    signedRange false k = .ok n ↔ k < 2 ^ 63 ∧ n = k := by
  rw [signedRange, if_neg Bool.false_ne_true]
  split_ifs with hlarge
  · constructor
    · intro h
      cases h
    · omega
  · rw [Except.ok.injEq]
    omega

theorem signedRange_true {k : Nat} {n : Int} :
    signedRange true k = .ok n ↔ k ≤ 2 ^ 63 ∧ n = -k := by
  rw [signedRange, if_pos rfl]
  split_ifs with hlarge
  · constructor
    · intro h
      cases h
    · omega
  · rw [Except.ok.injEq]
    omega

theorem unsigned_iff {t : Text} {n : Int} :
    Unsigned t n ↔ ∃ k : Nat, readUnsigned t = .ok k ∧ k < 2 ^ 63 ∧ n = k := by
  constructor
  · rintro ⟨hhead, hread⟩
    obtain ⟨k, hk, hrange⟩ := readSigned_eq_ok.1 hread
    rw [splitSign_of_head? hhead] at hk hrange
    exact ⟨k, hk, signedRange_false.1 hrange⟩
  · rintro ⟨k, hk, hrange⟩
    have hhead := head?_of_readUnsigned hk
    refine ⟨hhead, readSigned_eq_ok.2 ⟨k, ?_, ?_⟩⟩
    · rwa [splitSign_of_head? hhead]
    · rw [splitSign_of_head? hhead]
      exact signedRange_false.2 hrange

/-- The numbers that 32 bits hold, signed or unsigned. -/
def Fits32 (n : Int) : Prop := -0x80000000 ≤ n ∧ n ≤ 0xffffffff

instance (n : Int) : Decidable (Fits32 n) := inferInstanceAs (Decidable (_ ∧ _))

/-- A literal with one sign or none, and its number. -/
inductive Signed : Text → Int → Prop where
  | bare {t : Text} {n : Int} : Unsigned t n → Signed t n
  | plus {t : Text} {n : Int} : Unsigned t n → Signed (byte '+' :: t) n
  | minus {t : Text} {n : Int} : Unsigned t n → Signed (byte '-' :: t) (-n)

theorem Signed.readSigned_eq {t : Text} {n : Int} (h : Signed t n) : readSigned t = .ok n := by
  cases h with
  | bare h => exact h.2
  | plus h =>
      obtain ⟨k, hk, hrange⟩ := unsigned_iff.1 h
      exact readSigned_eq_ok.2 ⟨k, hk, signedRange_false.2 hrange⟩
  | minus h =>
      obtain ⟨k, hk, hlt, rfl⟩ := unsigned_iff.1 h
      exact readSigned_eq_ok.2 ⟨k, hk, signedRange_true.2 ⟨Nat.le_of_lt hlt, rfl⟩⟩

theorem signed_of_readSigned {t : Text} {n : Int} (h : readSigned t = .ok n) (hfits : Fits32 n) :
    Signed t n := by
  obtain ⟨k, hk, hrange⟩ := readSigned_eq_ok.1 h
  rcases splitSign_cases t with ⟨u, rfl, hsplit⟩ | ⟨u, rfl, hsplit⟩ | hsplit
  · rw [hsplit] at hk hrange
    exact .plus (unsigned_iff.2 ⟨k, hk, signedRange_false.1 hrange⟩)
  · rw [hsplit] at hk hrange
    -- the one number with a minus sign that has no literal without it does not fit
    obtain ⟨-, rfl⟩ := signedRange_true.1 hrange
    have hlow := hfits.1
    exact .minus (unsigned_iff.2 ⟨k, hk, by omega, rfl⟩)
  · rw [hsplit] at hk hrange
    exact .bare (unsigned_iff.2 ⟨k, hk, signedRange_false.1 hrange⟩)

theorem word32?_eq_some {n : Int} {v : BitVec 32} :
    word32? n = some v ↔ Fits32 n ∧ v = BitVec.ofInt 32 n := by
  have hfits : (decide (-0x80000000 ≤ n) && decide (n < 0x100000000)) = true ↔ Fits32 n := by
    rw [Bool.and_eq_true, decide_eq_true_iff, decide_eq_true_iff, Fits32]
    omega
  rw [word32?]
  split_ifs with hrange
  · rw [Option.some.injEq, and_iff_right (hfits.1 hrange), eq_comm]
  · simp [mt hfits.2 hrange]

theorem word32?_eq_none {n : Int} : word32? n = none ↔ ¬Fits32 n := by
  rw [← Option.not_isSome_iff_eq_none, Option.isSome_iff_exists, not_iff_not]
  exact ⟨fun ⟨_, h⟩ => (word32?_eq_some.1 h).1, fun h => ⟨_, word32?_eq_some.2 ⟨h, rfl⟩⟩⟩

/-- A word is read as a number of 32 bits exactly if it is a literal with one sign or none whose
number fits. -/
theorem readWord32?_eq_some {t : Text} {v : BitVec 32} :
    readWord32? t = some v ↔ ∃ n, Signed t n ∧ Fits32 n ∧ v = BitVec.ofInt 32 n := by
  rw [readWord32?]
  constructor
  · intro h
    cases hread : readSigned t with
    | error e =>
        rw [hread] at h
        cases h
    | ok n =>
        rw [hread] at h
        obtain ⟨hfits, rfl⟩ := word32?_eq_some.1 h
        exact ⟨n, signed_of_readSigned hread hfits, hfits, rfl⟩
  · rintro ⟨n, hsigned, hword⟩
    rw [hsigned.readSigned_eq]
    exact word32?_eq_some.2 hword

end TapeMachine.Text
