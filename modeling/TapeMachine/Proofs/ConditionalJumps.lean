import TapeMachine.Proofs.Runs
import TapeMachine.Proofs.WordArithmetic

/-! Conditional jumps. The condition of a jump compares the integers of two words, as they are or
modulo `2 ^ 64`, or looks for a common bit; `Cond.Means` says so in integers alone. A jump is taken
exactly if its condition holds, and whether it is taken or not it changes nothing but the program
counter and the ticks. Each condition but the one on common bits has an opposite, and of the two
jumps on a condition and its opposite one is taken. -/

namespace TapeMachine

namespace Cond

/-- What the condition says about the integers of its operands. -/
def Means (c : Cond) (x y : Int) : Prop :=
  match c with
  | .eq => x % 2 ^ 64 = y % 2 ^ 64
  | .ne => x % 2 ^ 64 ≠ y % 2 ^ 64
  | .set => ∃ n < 64, x.testBit n = true ∧ y.testBit n = true
  | .gt => x % 2 ^ 64 > y % 2 ^ 64
  | .ge => x % 2 ^ 64 ≥ y % 2 ^ 64
  | .lt => x % 2 ^ 64 < y % 2 ^ 64
  | .le => x % 2 ^ 64 ≤ y % 2 ^ 64
  | .sgt => x > y
  | .sge => x ≥ y
  | .slt => x < y
  | .sle => x ≤ y

instance (c : Cond) (x y : Int) : Decidable (c.Means x y) :=
  match c with
  | .eq => inferInstanceAs (Decidable (_ = _))
  | .ne => inferInstanceAs (Decidable (_ ≠ _))
  | .set => inferInstanceAs (Decidable (∃ n < 64, x.testBit n = true ∧ y.testBit n = true))
  | .gt => inferInstanceAs (Decidable (_ > _))
  | .ge => inferInstanceAs (Decidable (_ ≥ _))
  | .lt => inferInstanceAs (Decidable (_ < _))
  | .le => inferInstanceAs (Decidable (_ ≤ _))
  | .sgt => inferInstanceAs (Decidable (_ > _))
  | .sge => inferInstanceAs (Decidable (_ ≥ _))
  | .slt => inferInstanceAs (Decidable (_ < _))
  | .sle => inferInstanceAs (Decidable (_ ≤ _))

/-- The condition that holds where the given one does not. -/
def opposite? : Cond → Option Cond
  | .eq => some .ne
  | .ne => some .eq
  | .set => none
  | .gt => some .le
  | .le => some .gt
  | .ge => some .lt
  | .lt => some .ge
  | .sgt => some .sle
  | .sle => some .sgt
  | .sge => some .slt
  | .slt => some .sge

/-- The comparison of signed words in place of unsigned ones. -/
def signed? : Cond → Option Cond
  | .gt => some .sgt
  | .ge => some .sge
  | .lt => some .slt
  | .le => some .sle
  | _ => none

theorem exists_common_bit (a b : Word) :
    (∃ n < 64, a.toInt.testBit n = true ∧ b.toInt.testBit n = true) ↔ a &&& b ≠ 0 := by
  constructor
  · rintro ⟨n, hn, ha, hb⟩ hzero
    rw [testBit_toInt a hn] at ha
    rw [testBit_toInt b hn] at hb
    have hbit := congrArg (BitVec.getLsbD · n) hzero
    simp [ha, hb] at hbit
  · intro hne
    by_contra hnone
    apply hne
    apply BitVec.eq_of_getLsbD_eq
    intro n hn
    rw [BitVec.getLsbD_and, ← testBit_toInt a hn, ← testBit_toInt b hn]
    change _ = (0#64).getLsbD n
    rw [BitVec.getLsbD_zero, ← Bool.not_eq_true, Bool.and_eq_true]
    exact fun hboth => hnone ⟨n, hn, hboth⟩

theorem holds_iff (c : Cond) (a b : Word) : c.holds a b = true ↔ c.Means a.toInt b.toInt := by
  have heq : a = b ↔ a.toInt % 2 ^ 64 = b.toInt % 2 ^ 64 := by
    rw [← toNat_eq_toInt_emod, ← toNat_eq_toInt_emod, Int.natCast_inj, BitVec.toNat_inj]
  cases c with
  | eq => rw [holds, Means, beq_iff_eq, heq]
  | ne => rw [holds, Means, bne_iff_ne, Ne, heq]
  | set => rw [holds, Means, bne_iff_ne, exists_common_bit]
  | gt =>
      rw [holds, Means, BitVec.ult_iff_toNat_lt, ← toNat_eq_toInt_emod, ← toNat_eq_toInt_emod]
      omega
  | ge =>
      rw [holds, Means, BitVec.ule_iff_toNat_le, ← toNat_eq_toInt_emod, ← toNat_eq_toInt_emod]
      omega
  | lt =>
      rw [holds, Means, BitVec.ult_iff_toNat_lt, ← toNat_eq_toInt_emod, ← toNat_eq_toInt_emod]
      omega
  | le =>
      rw [holds, Means, BitVec.ule_iff_toNat_le, ← toNat_eq_toInt_emod, ← toNat_eq_toInt_emod]
      omega
  | sgt => rw [holds, Means, BitVec.slt_iff_toInt_lt, gt_iff_lt]
  | sge => rw [holds, Means, BitVec.sle_iff_toInt_le, ge_iff_le]
  | slt => rw [holds, Means, BitVec.slt_iff_toInt_lt]
  | sle => rw [holds, Means, BitVec.sle_iff_toInt_le]

theorem means_opposite {c c' : Cond} (h : c.opposite? = some c') (x y : Int) :
    c'.Means x y ↔ ¬c.Means x y := by
  cases c with
  | set => cases h
  | eq =>
      cases h
      exact Iff.rfl
  | _ =>
      cases h
      simp only [Means]
      omega

/-- Where both integers are negative or neither is, the order of the words is that of the
integers. -/
theorem means_signed {c c' : Cond} (h : c.signed? = some c') (a b : Word)
    (hsign : a.toInt < 0 ↔ b.toInt < 0) : c'.Means a.toInt b.toInt ↔ c.Means a.toInt b.toInt := by
  have halow : -2 ^ 63 ≤ a.toInt := a.le_toInt
  have hahigh : a.toInt < 2 ^ 63 := a.toInt_lt
  have hblow : -2 ^ 63 ≤ b.toInt := b.le_toInt
  have hbhigh : b.toInt < 2 ^ 63 := b.toInt_lt
  cases c with
  | gt | ge | lt | le =>
      cases h
      simp only [Means]
      omega
  | _ => cases h

end Cond

namespace Machine

variable {m : Machine} {i : Instruction} {cond : Cond} {dst : Fin registerCount} {b d : Word}

/-- Executing the instruction here takes a jump. -/
def Jumps (m : Machine) (i : Instruction) : Prop :=
  ∃ displacement, m.effectOf i = .ok (.jump displacement)

/-- A conditional jump whose operands have values takes effect, by its offset or not at all. -/
theorem effectOf_conditional (hop : i.op = .jump cond) (hdst : i.dst.slot? = some dst)
    (hsrc : m.valueOf i.src = .ok b) (hoff : m.valueOf i.off = .ok d) :
    (cond.Means (m.registers.get dst).toInt b.toInt → m.effectOf i = .ok (.jump d)) ∧
      (¬cond.Means (m.registers.get dst).toInt b.toInt → m.effectOf i = .ok .next) := by
  rw [← Cond.holds_iff, Bool.not_eq_true]
  constructor
  · intro hholds
    exact effectOf_eq_ok.2 ⟨dst, hdst, .taken hop hsrc hoff hholds⟩
  · intro hholds
    exact effectOf_eq_ok.2 ⟨dst, hdst, .passed hop hsrc hoff hholds⟩

theorem jumps_iff (hop : i.op = .jump cond) (hdst : i.dst.slot? = some dst)
    (hsrc : m.valueOf i.src = .ok b) (hoff : m.valueOf i.off = .ok d) :
    m.Jumps i ↔ cond.Means (m.registers.get dst).toInt b.toInt := by
  obtain ⟨htaken, hpassed⟩ := effectOf_conditional hop hdst hsrc hoff
  constructor
  · rintro ⟨displacement, heffect⟩
    by_contra hfalse
    rw [hpassed hfalse] at heffect
    cases heffect
  · intro hmeans
    exact ⟨d, htaken hmeans⟩

/-- The machine after a conditional jump: the program counter and the ticks are new. -/
theorem execute_conditional (hop : i.op = .jump cond) (hdst : i.dst.slot? = some dst)
    (hsrc : m.valueOf i.src = .ok b) (hoff : m.valueOf i.off = .ok d) :
    ∃ pc : Word, (m.execute i).result = .ok false ∧
      (m.execute i).machine = { m with pc := pc, ticks := m.ticks + 1 } ∧
      (cond.Means (m.registers.get dst).toInt b.toInt →
        pc.toInt = wrap (m.pc.toInt + 1 + d.toInt)) ∧
      (¬cond.Means (m.registers.get dst).toInt b.toInt → pc.toInt = wrap (m.pc.toInt + 1)) := by
  have hone : (1 : Word).toInt = 1 := by decide
  obtain ⟨htaken, hpassed⟩ := effectOf_conditional hop hdst hsrc hoff
  by_cases hmeans : cond.Means (m.registers.get dst).toInt b.toInt
  · rw [execute_of_ok (htaken hmeans)]
    refine ⟨m.pc + d + 1, rfl, rfl, fun _ => ?_, fun hfalse => absurd hmeans hfalse⟩
    rw [BitVec.toInt_add, BitVec.toInt_add, hone, Int.bmod_add_bmod, wrap]
    congr 1
    omega
  · rw [execute_of_ok (hpassed hmeans)]
    refine ⟨m.pc + 1, rfl, rfl, fun htrue => absurd htrue hmeans, fun _ => ?_⟩
    rw [BitVec.toInt_add, hone, wrap]

/-- A conditional jump with a register to compare and with values for its operands succeeds, changes
the program counter and the ticks alone, and goes on by its offset exactly if the condition holds of
the integers. Of a condition and its opposite one is taken, and a comparison of unsigned words is
taken like that of signed ones where the two have the same sign. -/
theorem conditional_jumps_decide_and_land (m : Machine) (i : Instruction) (cond : Cond)
    (dst : Fin registerCount) (b d : Word) (hop : i.op = .jump cond)
    (hdst : i.dst.slot? = some dst) (hsrc : m.valueOf i.src = .ok b)
    (hoff : m.valueOf i.off = .ok d) :
    (∃ pc : Word, (m.execute i).result = .ok false ∧
        (m.execute i).machine = { m with pc := pc, ticks := m.ticks + 1 } ∧
        (cond.Means (m.registers.get dst).toInt b.toInt →
          pc.toInt = wrap (m.pc.toInt + 1 + d.toInt)) ∧
        (¬cond.Means (m.registers.get dst).toInt b.toInt → pc.toInt = wrap (m.pc.toInt + 1))) ∧
      (m.Jumps i ↔ cond.Means (m.registers.get dst).toInt b.toInt) ∧
      (∀ other, cond.opposite? = some other →
        (m.Jumps { i with op := .jump other } ↔ ¬m.Jumps i)) ∧
      ∀ other, cond.signed? = some other →
        ((m.registers.get dst).toInt < 0 ↔ b.toInt < 0) →
          (m.Jumps { i with op := .jump other } ↔ m.Jumps i) := by
  have hjumps := jumps_iff hop hdst hsrc hoff
  have hother (other : Cond) : m.Jumps { i with op := .jump other } ↔
      other.Means (m.registers.get dst).toInt b.toInt := jumps_iff rfl hdst hsrc hoff
  refine ⟨execute_conditional hop hdst hsrc hoff, hjumps, fun other hopposite => ?_,
    fun other hsigned hsign => ?_⟩
  · rw [hjumps, hother, Cond.means_opposite hopposite]
  · rw [hjumps, hother, Cond.means_signed hsigned _ _ hsign]

/-- Holds minus two in a register, at the place 7. -/
def atSeven : Machine :=
  { ofTape [] with
    registers := Vector.ofFn fun slot => if slot.1 = 1 then -2 else 0
    pc := 7 }

/-- Minus two is above five as an unsigned word and not as a signed one, so only the first jump goes
back; below minus one it is either way. -/
theorem atSeven_jumps_decide_and_land :
    (atSeven.execute (.jump .gt ⟨1⟩ (.ofImm 5) (.ofImm (-3)))).machine.pc.toInt = 5 ∧
      (atSeven.execute (.jump .sgt ⟨1⟩ (.ofImm 5) (.ofImm (-3)))).machine.pc.toInt = 8 ∧
      ¬atSeven.Jumps (.jump .le ⟨1⟩ (.ofImm 5) (.ofImm (-3))) ∧
      (atSeven.Jumps (.jump .slt ⟨1⟩ (.ofImm (-1)) (.ofImm (-3))) ↔
        atSeven.Jumps (.jump .lt ⟨1⟩ (.ofImm (-1)) (.ofImm (-3)))) := by
  have habove := conditional_jumps_decide_and_land atSeven
    (.jump .gt ⟨1⟩ (.ofImm 5) (.ofImm (-3))) .gt ⟨1, by decide⟩ 5 (-3) rfl rfl rfl rfl
  have hsigned := conditional_jumps_decide_and_land atSeven
    (.jump .sgt ⟨1⟩ (.ofImm 5) (.ofImm (-3))) .sgt ⟨1, by decide⟩ 5 (-3) rfl rfl rfl rfl
  have hbelow := conditional_jumps_decide_and_land atSeven
    (.jump .lt ⟨1⟩ (.ofImm (-1)) (.ofImm (-3))) .lt ⟨1, by decide⟩ (-1) (-3) rfl rfl rfl rfl
  have hgreater : Cond.gt.Means (-2) 5 := by decide
  refine ⟨?_, ?_, ?_, ?_⟩
  · obtain ⟨pc, -, hmachine, htaken, -⟩ := habove.1
    rw [hmachine]
    exact htaken hgreater
  · obtain ⟨pc, -, hmachine, -, hpassed⟩ := hsigned.1
    rw [hmachine]
    exact hpassed (by decide)
  · exact mt (habove.2.2.1 .le rfl).1 (not_not.2 (habove.2.1.2 hgreater))
  · exact hbelow.2.2.2 .slt rfl (by decide)

end Machine

end TapeMachine
