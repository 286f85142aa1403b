import Mathlib.Algebra.Ring.Int.Defs
import TapeMachine.Proofs.Execution

/-! The rules of the instructions. `Yields` has one rule for each way an instruction can take
effect, with the operands it reads and the conditions under which it does; an instruction has the
effects that the rules give it and no others. `Fails` likewise lists why an instruction can fail.
Proofs about what executing can do go by cases on the rules. -/

namespace TapeMachine

theorem Register.slot?_eq_some {r : Register} {slot : Fin registerCount} :
    r.slot? = some slot ↔ r.index = slot.1 := by
  constructor
  · intro h
    obtain ⟨hr, hslot⟩ := Option.dite_none_right_eq_some.1 h
    have hindex : r.index.toNat = slot.1 := congrArg Fin.val (Option.some.inj hslot)
    have hnonneg := hr.1
    omega
  · intro h
    have hlt := slot.2
    have hvalid : r.IsValid := ⟨by omega, by omega⟩
    rw [slot?, dif_pos hvalid, Option.some.injEq]
    exact Fin.ext (by simp [h])

theorem Register.isValid_iff {r : Register} : r.IsValid ↔ ∃ slot, r.slot? = some slot := by
  constructor
  · exact fun h => ⟨_, dif_pos h⟩
  · rintro ⟨slot, h⟩
    exact (Option.dite_none_right_eq_some.1 h).1

/-- An operation has no result exactly where it divides by zero. -/
theorem AluOp.eval?_eq_none {op : AluOp} {a b : Word} :
    op.eval? a b = none ↔ (op = .div ∨ op = .mod) ∧ b = 0 := by
  cases op with
  | div => simp [eval?]
  | mod => simp [eval?]
  | _ => simp [eval?]

theorem Opcode.compute_alu_eq_ok {op : AluOp} {a b value : Word} :
    (Opcode.alu op).compute a b = .ok value ↔ op.eval? a b = some value := by
  rw [compute]
  cases op.eval? a b <;> simp

theorem Opcode.compute_alu_eq_error {op : AluOp} {a b : Word} {f : Machine.Fault} :
    (Opcode.alu op).compute a b = .error f ↔
      f = .divisionByZero ∧ (op = .div ∨ op = .mod) ∧ b = 0 := by
  rw [compute, ← AluOp.eval?_eq_none]
  cases op.eval? a b <;> simp [eq_comm]

/-- The operand that a load or store takes its address from, with the width of the access. -/
def Instruction.address? (i : Instruction) : Option (Operand × Width) :=
  match i.op with
  | .load width => some (i.src, width)
  | .store width => some (i.addr, width)
  | _ => none

namespace Machine

/-- A word cut to the width of an access is its value modulo a power of two. -/
theorem toNat_setWidth_bits (a : Word) (width : Width) :
    ((a.setWidth width.bits).toNat : Int) = a.toInt % 2 ^ width.bits := by
  have hcond := BitVec.toInt_eq_toNat_cond a
  have hlt := a.isLt
  rw [BitVec.toNat_setWidth, hcond]
  cases width <;> simp only [Width.bits] <;> split_ifs <;> omega

/-- An operand addresses the cell that its value, cut to the width of the access, is the number
of. -/
theorem cellOf_eq_ok {m : Machine} {o : Operand} {width : Width} {cell : Fin memorySize} :
    m.cellOf o width = .ok cell ↔
      ∃ a, m.valueOf o = .ok a ∧ (cell.1 : Int) = a.toInt % 2 ^ width.bits := by
  rw [cellOf, except_bind_eq_ok]
  refine exists_congr fun a => and_congr_right fun _ => ?_
  rw [← toNat_setWidth_bits, Int.natCast_inj]
  dsimp only
  constructor
  · intro h
    split_ifs at h
    cases h
    rfl
  · intro h
    rw [dif_pos (h ▸ cell.2)]
    exact congrArg Except.ok (Fin.ext h.symm)

/-- The effects of an instruction whose destination is the register `dst`. -/
inductive Yields (m : Machine) (i : Instruction) (dst : Fin registerCount) : Effect → Prop
  | alu {op : AluOp} {b value : Word} : i.op = .alu op → m.valueOf i.src = .ok b →
      op.eval? (m.registers.get dst) b = some value → Yields m i dst (.write dst value)
  | neg : i.op = .neg → Yields m i dst (.write dst (-m.registers.get dst))
  | lddw {value : Word} : i.op = .lddw → m.valueOf i.src = .ok value →
      Yields m i dst (.write dst value)
  | load {width : Width} {cell : Fin memorySize} : i.op = .load width →
      m.cellOf i.src width = .ok cell → Yields m i dst (.write dst (m.memory.get cell))
  | store {width : Width} {cell : Fin memorySize} {value : Word} : i.op = .store width →
      m.cellOf i.addr width = .ok cell → m.valueOf i.src = .ok value →
      Yields m i dst (.store cell value)
  | ja {displacement : Word} : i.op = .ja → m.valueOf i.off = .ok displacement →
      Yields m i dst (.jump displacement)
  | taken {cond : Cond} {b displacement : Word} : i.op = .jump cond → m.valueOf i.src = .ok b →
      m.valueOf i.off = .ok displacement → cond.holds (m.registers.get dst) b = true →
      Yields m i dst (.jump displacement)
  | passed {cond : Cond} {b displacement : Word} : i.op = .jump cond → m.valueOf i.src = .ok b →
      m.valueOf i.off = .ok displacement → cond.holds (m.registers.get dst) b = false →
      Yields m i dst .next
  | stop : i.op = .stop → Yields m i dst .stop

variable {m : Machine} {i : Instruction} {e : Effect}

theorem Yields.effectOf_eq {dst : Fin registerCount} (hdst : i.dst.slot? = some dst)
    (h : m.Yields i dst e) : m.effectOf i = .ok e := by
  rw [effectOf, hdst]
  cases h with
  | alu hop hsrc hvalue =>
      simp only [hop, hsrc, bind, Except.bind, Opcode.compute_alu_eq_ok.2 hvalue]
      rfl
  | neg hop => simp only [hop, pure, Except.pure]
  | lddw hop hsrc =>
      simp only [hop, hsrc]
      rfl
  | load hop hcell =>
      simp only [hop, hcell]
      rfl
  | store hop hcell hsrc =>
      simp only [hop, hcell, hsrc]
      rfl
  | ja hop hoff =>
      simp only [hop, hoff]
      rfl
  | taken hop hsrc hoff hholds =>
      simp only [hop, hsrc, hoff, bind, Except.bind, hholds, if_true]
      rfl
  | passed hop hsrc hoff hholds =>
      simp only [hop, hsrc, hoff, bind, Except.bind, hholds, Bool.false_eq_true, if_false]
      rfl
  | stop hop =>
      simp only [hop]
      rfl

theorem yields_of_effectOf {dst : Fin registerCount} (hdst : i.dst.slot? = some dst)
    (h : m.effectOf i = .ok e) : m.Yields i dst e := by
  rw [effectOf, hdst] at h
  cases hop : i.op with
  | alu op =>
      simp only [hop] at h
      obtain ⟨b, hsrc, h⟩ := except_bind_eq_ok.1 h
      obtain ⟨value, hvalue, h⟩ := except_bind_eq_ok.1 h
      cases h
      exact .alu hop hsrc (Opcode.compute_alu_eq_ok.1 hvalue)
  | neg =>
      simp only [hop] at h
      cases h
      exact .neg hop
  | lddw =>
      simp only [hop] at h
      obtain ⟨value, hsrc, h⟩ := except_bind_eq_ok.1 h
      cases h
      exact .lddw hop hsrc
  | load width =>
      simp only [hop] at h
      obtain ⟨cell, hcell, h⟩ := except_bind_eq_ok.1 h
      cases h
      exact .load hop hcell
  | store width =>
      simp only [hop] at h
      obtain ⟨cell, hcell, h⟩ := except_bind_eq_ok.1 h
      obtain ⟨value, hsrc, h⟩ := except_bind_eq_ok.1 h
      cases h
      exact .store hop hcell hsrc
  | ja =>
      simp only [hop] at h
      obtain ⟨displacement, hoff, h⟩ := except_bind_eq_ok.1 h
      cases h
      exact .ja hop hoff
  | jump cond =>
      simp only [hop] at h
      obtain ⟨b, hsrc, h⟩ := except_bind_eq_ok.1 h
      obtain ⟨displacement, hoff, h⟩ := except_bind_eq_ok.1 h
      cases hholds : cond.holds (m.registers.get dst) b with
      | true =>
          rw [hholds] at h
          cases h
          exact .taken hop hsrc hoff hholds
      | false =>
          rw [hholds] at h
          cases h
          exact .passed hop hsrc hoff hholds
  | stop =>
      simp only [hop] at h
      cases h
      exact .stop hop
  | invalid =>
      simp only [hop] at h
      cases h
  | unassigned code =>
      simp only [hop] at h
      cases h

/-- An instruction takes effect exactly by one of the rules. -/
theorem effectOf_eq_ok :
    m.effectOf i = .ok e ↔ ∃ dst, i.dst.slot? = some dst ∧ m.Yields i dst e := by
  constructor
  · intro h
    cases hdst : i.dst.slot? with
    | none =>
        rw [effectOf, hdst] at h
        cases h
    | some dst => exact ⟨dst, rfl, yields_of_effectOf hdst h⟩
  · rintro ⟨dst, hdst, h⟩
    exact h.effectOf_eq hdst

theorem effectOf_eq_write {slot : Fin registerCount} {value : Word}
    (h : m.effectOf i = .ok (.write slot value)) : i.dst.slot? = some slot := by
  obtain ⟨dst, hdst, hyields⟩ := effectOf_eq_ok.1 h
  cases hyields <;> exact hdst

theorem effectOf_eq_store {cell : Fin memorySize} {value : Word}
    (h : m.effectOf i = .ok (.store cell value)) :
    ∃ width a, i.op = .store width ∧ m.valueOf i.addr = .ok a ∧
      (cell.1 : Int) = a.toInt % 2 ^ width.bits ∧ m.valueOf i.src = .ok value := by
  obtain ⟨dst, hdst, hyields⟩ := effectOf_eq_ok.1 h
  cases hyields with
  | store hop hcell hsrc =>
      obtain ⟨a, ha, hindex⟩ := cellOf_eq_ok.1 hcell
      exact ⟨_, a, hop, ha, hindex, hsrc⟩

/-! ### Failures -/

/-- Why an instruction can fail: its destination is no register, its opcode has no meaning, one of
its operands has no value, it divides by zero, or its address is past the memory. -/
inductive Fails (m : Machine) (i : Instruction) : Fault → Prop
  | dst : i.dst.slot? = none → Fails m i .registerRange
  | opcode : i.op.kind = .invalid → Fails m i .opcodeInvalid
  | operand {o : Operand} {f : Fault} : o ∈ i.operands → m.valueOf o = .error f → Fails m i f
  | divisor : i.op = .alu .div ∨ i.op = .alu .mod → m.valueOf i.src = .ok 0 →
      Fails m i .divisionByZero
  | address {o : Operand} {width : Width} {a : Word} : i.address? = some (o, width) →
      m.valueOf o = .ok a → memorySize ≤ (a.setWidth width.bits).toNat →
      Fails m i (.address (a.setWidth width.bits).toNat width)

variable {f : Fault}

theorem cellOf_eq_error {o : Operand} {width : Width} (h : m.cellOf o width = .error f) :
    m.valueOf o = .error f ∨
      ∃ a, m.valueOf o = .ok a ∧ memorySize ≤ (a.setWidth width.bits).toNat ∧
        f = .address (a.setWidth width.bits).toNat width := by
  rcases except_bind_eq_error.1 h with h | ⟨a, ha, h⟩
  · exact Or.inl h
  · dsimp only at h
    split_ifs at h with hlt
    · cases h
    · cases h
      exact Or.inr ⟨a, ha, Nat.le_of_not_lt hlt, rfl⟩

theorem fails_of_cellOf {o : Operand} {width : Width} (haddress : i.address? = some (o, width))
    (ho : o ∈ i.operands) (h : m.cellOf o width = .error f) : m.Fails i f := by
  rcases cellOf_eq_error h with h | ⟨a, ha, hlarge, rfl⟩
  · exact .operand ho h
  · exact .address haddress ha hlarge

theorem fails_of_effectOf (h : m.effectOf i = .error f) : m.Fails i f := by
  rw [effectOf] at h
  cases hdst : i.dst.slot? with
  | none =>
      rw [hdst] at h
      cases h
      exact .dst hdst
  | some dst =>
      simp only [hdst] at h
      cases hop : i.op with
      | alu op =>
          simp only [hop] at h
          rcases except_bind_eq_error.1 h with h | ⟨b, hb, h⟩
          · exact .operand (by simp [Instruction.operands, hop]) h
          · rcases except_bind_eq_error.1 h with h | ⟨value, -, h⟩
            · obtain ⟨rfl, hdivides, rfl⟩ := Opcode.compute_alu_eq_error.1 h
              exact .divisor (by simpa [hop] using hdivides) hb
            · cases h
      | neg =>
          simp only [hop] at h
          cases h
      | lddw =>
          simp only [hop] at h
          rcases except_bind_eq_error.1 h with h | ⟨value, -, h⟩
          · exact .operand (by simp [Instruction.operands, hop]) h
          · cases h
      | load width =>
          simp only [hop] at h
          rcases except_bind_eq_error.1 h with h | ⟨cell, -, h⟩
          · refine fails_of_cellOf ?_ ?_ h
            · simp [Instruction.address?, hop]
            · simp [Instruction.operands, hop]
          · cases h
      | store width =>
          simp only [hop] at h
          rcases except_bind_eq_error.1 h with h | ⟨cell, -, h⟩
          · refine fails_of_cellOf ?_ ?_ h
            · simp [Instruction.address?, hop]
            · simp [Instruction.operands, hop]
          · rcases except_bind_eq_error.1 h with h | ⟨value, -, h⟩
            · exact .operand (by simp [Instruction.operands, hop]) h
            · cases h
      | ja =>
          simp only [hop] at h
          rcases except_bind_eq_error.1 h with h | ⟨displacement, -, h⟩
          · exact .operand (by simp [Instruction.operands, hop]) h
          · cases h
      | jump cond =>
          simp only [hop] at h
          rcases except_bind_eq_error.1 h with h | ⟨b, -, h⟩
          · exact .operand (by simp [Instruction.operands, hop]) h
          · rcases except_bind_eq_error.1 h with h | ⟨displacement, -, h⟩
            · exact .operand (by simp [Instruction.operands, hop]) h
            · cases h
      | stop =>
          simp only [hop] at h
          cases h
      | invalid =>
          simp only [hop] at h
          cases h
          exact .opcode (by simp [hop, Opcode.kind])
      | unassigned code =>
          simp only [hop] at h
          cases h
          exact .opcode (by simp [hop, Opcode.kind])

/-! An instruction that is executed is on the tape or was given by hand, so none of its failures is
about the program counter. -/

theorem readReg_ne_pcRange (m : Machine) (r : Register) : m.readReg r ≠ .error .pcRange := by
  rw [readReg]
  cases r.slot? with
  | none => simp
  | some slot => simp

theorem valueOf_ne_pcRange (m : Machine) (o : Operand) : m.valueOf o ≠ .error .pcRange := by
  intro h
  rw [valueOf] at h
  cases hkind : o.kind with
  | imm =>
      rw [hkind] at h
      cases h
  | label =>
      rw [hkind] at h
      cases hget : m.labels.get? o.label with
      | none =>
          simp only [hget] at h
          cases h
      | some target =>
          simp only [hget] at h
          cases h
  | reg =>
      rw [hkind] at h
      exact m.readReg_ne_pcRange o.reg h
  | ind =>
      rw [hkind] at h
      rcases except_bind_eq_error.1 h with h | ⟨value, -, h⟩
      · exact m.readReg_ne_pcRange o.reg h
      · cases h
  | unassigned code =>
      rw [hkind] at h
      cases h

theorem effectOf_ne_pcRange (m : Machine) (i : Instruction) : m.effectOf i ≠ .error .pcRange := by
  intro h
  cases fails_of_effectOf h with
  | operand _ ho => exact m.valueOf_ne_pcRange _ ho

end Machine

end TapeMachine
