import Mathlib.Algebra.Group.Nat.Defs
import Mathlib.Algebra.Ring.Int.Defs
import Mathlib.Data.Int.Bitwise
import TapeMachine.Proofs.InstructionRules

/-! Arithmetic on words as arithmetic on integers. A word stands for the integer it is the two's
complement of. `AluOp.Gives` says for every operation, in integers alone, which result it has: the
exact one reduced to 64 bits, or for a bitwise operation the one with the right bits. An operation
on words has a result exactly where that relation gives one, and it is the same. -/

namespace TapeMachine

/-- The integer of a word that differs from `n` by a multiple of `2 ^ 64`. -/
def wrap (n : Int) : Int := n.bmod (2 ^ 64)

/-- How far a shift by the integer `y` goes. -/
def shiftDistance (y : Int) : Nat := (y % 2 ^ 6).toNat

/-- The operation makes the integer `r` out of `x` and `y`. Bits are those of two's complement. -/
def AluOp.Gives (op : AluOp) (x y r : Int) : Prop :=
  match op with
  | .add => r = wrap (x + y)
  | .sub => r = wrap (x - y)
  | .mul => r = wrap (x * y)
  | .div => y ≠ 0 ∧ r = wrap (x.tdiv y)
  | .mod => y ≠ 0 ∧ x = x.tdiv y * y + r ∧ r.natAbs < y.natAbs ∧ (r = 0 ∨ r.sign = x.sign)
  | .lsh => r = wrap (x * 2 ^ shiftDistance y)
  | .rsh => r = wrap (x % 2 ^ 64 / 2 ^ shiftDistance y)
  | .arsh => r = x / 2 ^ shiftDistance y
  | .or => ∀ n < 64, r.testBit n = (x.testBit n || y.testBit n)
  | .and => ∀ n < 64, r.testBit n = (x.testBit n && y.testBit n)
  | .xor => ∀ n < 64, r.testBit n = (x.testBit n ^^ y.testBit n)
  | .mov => r = y

theorem toNat_eq_toInt_emod (a : Word) : (a.toNat : Int) = a.toInt % 2 ^ 64 := by
  have hcond := BitVec.toInt_eq_toNat_cond a
  have hlt := a.isLt
  split_ifs at hcond <;> omega

theorem toInt_eq_zero {b : Word} : b.toInt = 0 ↔ b = 0 := by
  rw [← BitVec.toInt_inj]
  rfl

theorem shiftCount_eq (b : Word) : shiftCount b = shiftDistance b.toInt := by
  have hnat := toNat_eq_toInt_emod b
  rw [shiftCount, shiftDistance]
  omega

theorem toInt_shiftLeft_eq_wrap (a : Word) (k : Nat) : (a <<< k).toInt = wrap (a.toInt * 2 ^ k) := by
  calc (a <<< k).toInt
      = ((a.toNat : Int) * 2 ^ k).bmod (2 ^ 64) := by
        rw [BitVec.toInt_shiftLeft, Nat.shiftLeft_eq]
        push_cast
        rfl
    _ = (a.toInt * 2 ^ k).bmod (2 ^ 64) := by
        rw [BitVec.toInt_eq_toNat_bmod, Int.bmod_mul_bmod]

theorem toInt_ushiftRight_eq_wrap (a : Word) (k : Nat) :
    (a >>> k).toInt = wrap (a.toInt % 2 ^ 64 / 2 ^ k) := by
  rw [BitVec.toInt_eq_toNat_bmod, BitVec.toNat_ushiftRight, Nat.shiftRight_eq_div_pow,
    ← toNat_eq_toInt_emod, wrap]
  push_cast
  rfl

/-- The bits of a word are the low bits of its integer. -/
theorem testBit_toInt (a : Word) {n : Nat} (hn : n < 64) : a.toInt.testBit n = a.getLsbD n := by
  have hlt := a.isLt
  rw [BitVec.toInt_eq_toNat_cond]
  split_ifs with hsmall
  · rfl
  · -- a negative integer has the complement of the bits of the number below its absolute value
    have hneg : (a.toNat : Int) - (2 ^ 64 : Nat) = Int.negSucc (2 ^ 64 - (a.toNat + 1)) := by
      rw [Int.negSucc_eq]
      omega
    rw [hneg, Int.testBit, Nat.testBit_two_pow_sub_succ hlt, decide_eq_true hn, Bool.true_and,
      Bool.not_not]
    rfl

/-- A word whose bits are made from those of two others is told by the bits of its integer. -/
theorem eq_iff_testBit_toInt {a b w : Word} {f : Bool → Bool → Bool}
    (hw : ∀ n, w.getLsbD n = f (a.getLsbD n) (b.getLsbD n)) (v : Word) :
    w = v ↔ ∀ n < 64, v.toInt.testBit n = f (a.toInt.testBit n) (b.toInt.testBit n) := by
  have hbits {n : Nat} (hn : n < 64) :
      f (a.toInt.testBit n) (b.toInt.testBit n) = w.getLsbD n := by
    rw [hw, testBit_toInt a hn, testBit_toInt b hn]
  constructor
  · rintro rfl n hn
    rw [hbits hn, testBit_toInt w hn]
  · intro h
    apply BitVec.eq_of_getLsbD_eq
    intro n hn
    rw [← hbits hn, ← h n hn, testBit_toInt v hn]

/-- The remainder of division toward zero is the only one that fits the quotient. -/
theorem eq_tmod_iff {x y r : Int} (hy : y ≠ 0) :
    r = x.tmod y ↔ x = x.tdiv y * y + r ∧ r.natAbs < y.natAbs ∧ (r = 0 ∨ r.sign = x.sign) := by
  constructor
  · rintro rfl
    refine ⟨(Int.tdiv_mul_add_tmod x y).symm, ?_, ?_⟩
    · rw [Int.natAbs_tmod]
      exact Nat.mod_lt _ (Int.natAbs_pos.2 hy)
    · rw [Int.sign_tmod]
      split_ifs with hdvd
      · exact Or.inl (Int.tmod_eq_zero_of_dvd hdvd)
      · exact Or.inr rfl
  · rintro ⟨hx, -, -⟩
    have hrest := Int.tdiv_mul_add_tmod x y
    omega

theorem AluOp.eval?_eq_some {op : AluOp} {a b v : Word} :
    op.eval? a b = some v ↔ op.Gives a.toInt b.toInt v.toInt := by
  have hword (w : Word) : some w = some v ↔ v.toInt = w.toInt := by
    rw [Option.some.injEq, ← BitVec.toInt_inj, eq_comm]
  cases op with
  | add => rw [eval?, hword, BitVec.toInt_add, Gives, wrap]
  | sub => rw [eval?, hword, BitVec.toInt_sub, Gives, wrap]
  | mul => rw [eval?, hword, BitVec.toInt_mul, Gives, wrap]
  | div =>
      rw [eval?, Gives, Ne, toInt_eq_zero]
      split_ifs with hb
      · simp [hb]
      · rw [hword, BitVec.toInt_sdiv, ← wrap, and_iff_right hb]
  | mod =>
      rw [eval?, Gives, Ne, toInt_eq_zero]
      split_ifs with hb
      · simp [hb]
      · rw [hword, BitVec.toInt_srem, eq_tmod_iff (mt toInt_eq_zero.1 hb), and_iff_right hb]
  | lsh => rw [eval?, hword, toInt_shiftLeft_eq_wrap, shiftCount_eq, Gives]
  | rsh => rw [eval?, hword, toInt_ushiftRight_eq_wrap, shiftCount_eq, Gives]
  | arsh =>
      rw [eval?, hword, BitVec.toInt_sshiftRight, Int.shiftRight_eq_div_pow, shiftCount_eq, Gives]
      push_cast
      rfl
  | or => rw [eval?, Option.some.injEq, eq_iff_testBit_toInt (fun _ => BitVec.getLsbD_or), Gives]
  | and => rw [eval?, Option.some.injEq, eq_iff_testBit_toInt (fun _ => BitVec.getLsbD_and), Gives]
  | xor => rw [eval?, Option.some.injEq, eq_iff_testBit_toInt (fun _ => BitVec.getLsbD_xor), Gives]
  | mov => rw [eval?, hword, Gives]

namespace Opcode

theorem compute_eq_ok {op : Opcode} {a b v : Word} :
    op.compute a b = .ok v ↔ ∃ f, op = .alu f ∧ f.Gives a.toInt b.toInt v.toInt := by
  cases op with
  | alu f => simp [compute_alu_eq_ok, AluOp.eval?_eq_some]
  | _ => simp [compute]

theorem ofCode_of_not_lt {number : Int} (h : ¬(0 ≤ number ∧ number < 36)) :
    ofCode number = .unassigned number := by
  rw [ofCode]
  split_ifs with hneg
  · rfl
  · apply List.getD_eq_default
    change 36 ≤ number.toNat
    omega

/-- The opcodes numbered 1 to 12 are those of arithmetic. -/
theorem exists_ofCode_eq_alu {number : Int} :
    (∃ f, ofCode number = .alu f) ↔ 1 ≤ number ∧ number ≤ 12 := by
  have hkind (op : Opcode) : (∃ f, op = .alu f) ↔ op.kind = .alu := by
    cases op <;> simp [kind]
  have hnumbered : ∀ n < 36, (ofCode (n : Nat)).kind = .alu ↔ 1 ≤ n ∧ n ≤ 12 := by decide
  rw [hkind]
  by_cases hrange : 0 ≤ number ∧ number < 36
  · obtain ⟨n, rfl⟩ := Int.eq_ofNat_of_zero_le hrange.1
    rw [hnumbered n (by omega)]
    omega
  · rw [ofCode_of_not_lt hrange]
    constructor
    · intro h
      cases h
    · intro h
      omega

theorem compute_eq_divisionByZero {op : Opcode} {a b : Word} :
    op.compute a b = .error .divisionByZero ↔
      (op = .alu .div ∨ op = .alu .mod) ∧ b.toInt = 0 := by
  cases op with
  | alu f => simp only [compute_alu_eq_error, toInt_eq_zero, alu.injEq, true_and]
  | _ => simp [compute]

theorem compute_eq_opcodeInvalid {op : Opcode} {a b : Word} :
    op.compute a b = .error .opcodeInvalid ↔ ¬∃ f, op = .alu f := by
  cases op with
  | alu f => simp [compute_alu_eq_error]
  | _ => simp [compute]

theorem exists_compute_eq_ok {op : Opcode} {a b : Word} :
    (∃ v, op.compute a b = .ok v) ↔
      (∃ f, op = .alu f) ∧ ¬((op = .alu .div ∨ op = .alu .mod) ∧ b.toInt = 0) := by
  rw [← compute_eq_divisionByZero]
  cases op with
  | alu f =>
      cases h : compute (.alu f) a b with
      | ok v => simp
      | error e => simp [(compute_alu_eq_error.1 h).1]
  | _ => simp [compute]

/-- The opcodes with the numbers 1 to 12, and no others, have results. A result is the one that the
integers of the two words give, and there is none exactly where zero is divided by. In particular
the least word divided by minus one is itself, with remainder zero. -/
theorem arithmetic_is_exact_modulo_words (number : Int) (a b : Word) :
    (∀ v, (ofCode number).compute a b = .ok v ↔
        ∃ f, ofCode number = .alu f ∧ f.Gives a.toInt b.toInt v.toInt) ∧
      ((∃ v, (ofCode number).compute a b = .ok v) ↔
        (1 ≤ number ∧ number ≤ 12) ∧
          ¬((ofCode number = .alu .div ∨ ofCode number = .alu .mod) ∧ b.toInt = 0)) ∧
      ((ofCode number).compute a b = .error .divisionByZero ↔
        (ofCode number = .alu .div ∨ ofCode number = .alu .mod) ∧ b.toInt = 0) ∧
      ((ofCode number).compute a b = .error .opcodeInvalid ↔ ¬(1 ≤ number ∧ number ≤ 12)) ∧
      (alu .div).compute (BitVec.intMin 64) (-1) = .ok (BitVec.intMin 64) ∧
      (alu .mod).compute (BitVec.intMin 64) (-1) = .ok 0 := by
  refine ⟨fun v => compute_eq_ok, ?_, compute_eq_divisionByZero, ?_, by decide, by decide⟩
  · rw [exists_compute_eq_ok, exists_ofCode_eq_alu]
  · rw [compute_eq_opcodeInvalid, exists_ofCode_eq_alu]

end Opcode

end TapeMachine
