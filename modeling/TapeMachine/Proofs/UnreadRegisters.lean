import TapeMachine.Proofs.InstructionRules

/-! Registers that nothing reads. An instruction updates its destination in place and hands on only
what it reads of other operands; a conditional jump also reads its destination. A register that no
instruction of the tape reads in this way may be written any number of times, and its value stays
there: two machines that differ in it take the same steps, fail alike and differ in nothing else. -/

namespace TapeMachine

/-- The value of the operand depends on the register. -/
def Operand.Reads (o : Operand) (r : Register) : Prop :=
  (o.kind = .reg ∨ o.kind = .ind) ∧ o.reg = r

instance (o : Operand) (r : Register) : Decidable (o.Reads r) := inferInstanceAs (Decidable (_ ∧ _))

namespace Instruction

/-- The operands whose values decide what the instruction does beyond its destination. -/
def consulted (i : Instruction) : List Operand :=
  match i.op with
  | .alu _ => [i.src]
  | .neg => []
  | .lddw => [i.src]
  | .load _ => [i.src]
  | .store _ => [i.addr, i.src]
  | .ja => [i.off]
  | .jump _ => [.ofReg i.dst, i.src, i.off]
  | .stop => []
  | .invalid => []
  | .unassigned _ => []

def Consults (i : Instruction) (r : Register) : Prop := ∃ o ∈ i.consulted, o.Reads r

instance (i : Instruction) (r : Register) : Decidable (i.Consults r) :=
  inferInstanceAs (Decidable (∃ o ∈ i.consulted, o.Reads r))

/-- A conditional jump consults its destination. -/
theorem consults_dst {i : Instruction} {cond : Cond} (hop : i.op = .jump cond) :
    i.Consults i.dst :=
  ⟨.ofReg i.dst, by simp [consulted, hop], Or.inl rfl, rfl⟩

end Instruction

namespace Machine

/-- Two machines that may differ in the value of one register and do not differ otherwise. -/
structure DiffersOnlyIn (r : Register) (b a : Machine) : Prop where
  tape : b.tape = a.tape
  labels : b.labels = a.labels
  registers : ∀ other, other ≠ r → b.reg other = a.reg other
  memory : b.memory = a.memory
  pc : b.pc = a.pc
  ticks : b.ticks = a.ticks
  verbose : b.verbose = a.verbose

variable {r : Register} {a b : Machine}

/-- Setting a register changes nothing else. -/
theorem differsOnlyIn_of_setReg? {value : Word} (h : a.setReg? r value = some b) :
    b.DiffersOnlyIn r a := by
  obtain ⟨slot, hslot, rfl⟩ := Option.map_eq_some_iff.1 h
  refine ⟨rfl, rfl, fun other hother => ?_, rfl, rfl, rfl, rfl⟩
  rw [reg_set, if_neg]
  exact fun hsame => hother (Register.eq_of_slot?_eq hsame hslot)

/-- An operation on a source of the same value fails in both machines or writes its destination in
both: whether it divides by zero does not depend on what it updates. -/
theorem effectOf_alu {i : Instruction} {op : AluOp} {dst : Fin registerCount} (hop : i.op = .alu op)
    (hdst : i.dst.slot? = some dst) (hsrc : b.valueOf i.src = a.valueOf i.src) :
    b.effectOf i = a.effectOf i ∨
      ∃ v w, a.effectOf i = .ok (.write dst v) ∧ b.effectOf i = .ok (.write dst w) := by
  cases ha : a.valueOf i.src with
  | error f =>
      rw [ha] at hsrc
      refine Or.inl ?_
      simp only [effectOf, hdst, hop, ha, hsrc, bind, Except.bind]
  | ok c =>
      rw [ha] at hsrc
      cases hv : op.eval? (a.registers.get dst) c with
      | none =>
          have hw : op.eval? (b.registers.get dst) c = none :=
            AluOp.eval?_eq_none.2 (AluOp.eval?_eq_none.1 hv)
          refine Or.inl ?_
          simp only [effectOf, hdst, hop, ha, hsrc, bind, Except.bind, Opcode.compute, hv, hw]
      | some v =>
          cases hw : op.eval? (b.registers.get dst) c with
          | none =>
              rw [AluOp.eval?_eq_none.2 (AluOp.eval?_eq_none.1 hw)] at hv
              cases hv
          | some w =>
              exact Or.inr ⟨v, w, effectOf_eq_ok.2 ⟨dst, hdst, .alu hop ha hv⟩,
                effectOf_eq_ok.2 ⟨dst, hdst, .alu hop hsrc hw⟩⟩

namespace DiffersOnlyIn

theorem isDone (h : b.DiffersOnlyIn r a) : b.isDone = a.isDone := by
  rw [Machine.isDone, Machine.isDone, h.tape, h.pc]

theorem fetches (h : b.DiffersOnlyIn r a) {i : Instruction} (hi : a.Fetches i) : b.Fetches i where
  nonneg := h.pc ▸ hi.nonneg
  found := by rw [h.tape, h.pc, hi.found]

theorem tell (h : b.DiffersOnlyIn r a) (e : Event) : b.tell e = a.tell e := by
  rw [Machine.tell, Machine.tell, h.verbose]

theorem tellJump (h : b.DiffersOnlyIn r a) (e : Effect) : b.tellJump e = a.tellJump e := by
  cases e with
  | jump displacement => rw [Machine.tellJump, Machine.tellJump, h.tell, h.pc]
  | _ => rfl

theorem valueOf (h : b.DiffersOnlyIn r a) {o : Operand} (ho : ¬o.Reads r) :
    b.valueOf o = a.valueOf o := by
  have hread (hkind : o.kind = .reg ∨ o.kind = .ind) : b.readReg o.reg = a.readReg o.reg := by
    rw [readReg_eq, readReg_eq, h.registers o.reg fun heq => ho ⟨hkind, heq⟩]
  cases hkind : o.kind with
  | reg => simp only [Machine.valueOf, hkind, hread (Or.inl hkind)]
  | ind => simp only [Machine.valueOf, hkind, hread (Or.inr hkind)]
  | label => simp only [Machine.valueOf, hkind, h.labels, h.pc]
  | _ => simp only [Machine.valueOf, hkind]

/-- An instruction that does not consult the register takes the same effect in both machines, or it
writes the register in both. -/
theorem effectOf (h : b.DiffersOnlyIn r a) {i : Instruction} (hi : ¬i.Consults r) :
    b.effectOf i = a.effectOf i ∨
      ∃ slot v w, r.slot? = some slot ∧ a.effectOf i = .ok (.write slot v) ∧
        b.effectOf i = .ok (.write slot w) := by
  have hvalues : ∀ o ∈ i.consulted, b.valueOf o = a.valueOf o := fun o ho =>
    h.valueOf fun hr => hi ⟨o, ho, hr⟩
  cases hdst : i.dst.slot? with
  | none => exact Or.inl (by rw [Machine.effectOf, Machine.effectOf, hdst])
  | some dst =>
      have hget (hr : i.dst ≠ r) : b.registers.get dst = a.registers.get dst := by
        rw [← reg_of_slot? b hdst, ← reg_of_slot? a hdst, h.registers i.dst hr]
      cases hop : i.op with
      | alu op =>
          have hsrc : b.valueOf i.src = a.valueOf i.src :=
            hvalues i.src (by simp [Instruction.consulted, hop])
          by_cases hr : i.dst = r
          · rcases effectOf_alu hop hdst hsrc with heq | ⟨v, w, ha, hb⟩
            · exact Or.inl heq
            · exact Or.inr ⟨dst, v, w, hr ▸ hdst, ha, hb⟩
          · exact Or.inl (by simp only [Machine.effectOf, hdst, hop, hsrc, hget hr])
      | neg =>
          by_cases hr : i.dst = r
          · exact Or.inr ⟨dst, _, _, hr ▸ hdst, effectOf_eq_ok.2 ⟨dst, hdst, .neg hop⟩,
              effectOf_eq_ok.2 ⟨dst, hdst, .neg hop⟩⟩
          · exact Or.inl (by simp only [Machine.effectOf, hdst, hop, hget hr])
      | jump cond =>
          have hr : i.dst ≠ r := fun hr => hi (hr ▸ Instruction.consults_dst hop)
          simp only [Instruction.consulted, hop, List.forall_mem_cons] at hvalues
          exact Or.inl (by simp only [Machine.effectOf, hdst, hop, hvalues, hget hr])
      | _ =>
          -- The other opcodes do not read their destination at all.
          simp only [Instruction.consulted, hop, List.forall_mem_cons] at hvalues
          exact Or.inl (by simp only [Machine.effectOf, cellOf, hdst, hop, hvalues, h.memory])

theorem apply_write (h : b.DiffersOnlyIn r a) {slot : Fin registerCount} {v w : Word}
    (hvalue : w = v ∨ r.slot? = some slot) :
    (b.apply (.write slot w)).DiffersOnlyIn r (a.apply (.write slot v)) := by
  refine ⟨h.tape, h.labels, fun other hother => ?_, h.memory, ?_, ?_, h.verbose⟩
  · change reg { b with registers := b.registers.set slot.1 w slot.2 } other =
      reg { a with registers := a.registers.set slot.1 v slot.2 } other
    rw [reg_set, reg_set, h.registers other hother]
    by_cases hslot : other.slot? = some slot
    · rcases hvalue with rfl | hr
      · rfl
      · exact absurd (Register.eq_of_slot?_eq hslot hr) hother
    · rw [if_neg hslot, if_neg hslot]
  · exact congrArg (· + 1) h.pc
  · exact congrArg (· + 1) h.ticks

theorem apply (h : b.DiffersOnlyIn r a) (e : Effect) :
    (b.apply e).DiffersOnlyIn r (a.apply e) := by
  have hnext : b.pc + 1 = a.pc + 1 := congrArg (· + 1) h.pc
  have hticks : b.ticks + 1 = a.ticks + 1 := congrArg (· + 1) h.ticks
  cases e with
  | write slot value => exact h.apply_write (Or.inl rfl)
  | store cell value =>
      exact ⟨h.tape, h.labels, h.registers, by simp only [Machine.apply, h.memory], hnext, hticks,
        h.verbose⟩
  | jump displacement =>
      exact ⟨h.tape, h.labels, h.registers, h.memory, by simp only [Machine.apply, h.pc], hticks,
        h.verbose⟩
  | next => exact ⟨h.tape, h.labels, h.registers, h.memory, hnext, hticks, h.verbose⟩
  | stop => exact ⟨h.tape, h.labels, h.registers, h.memory, h.pc, hticks, h.verbose⟩

/-- Both machines take the same step, up to the value of the register. -/
theorem step (h : b.DiffersOnlyIn r a) (hunread : ∀ i ∈ a.tape, ¬i.Consults r) :
    b.step.machine.DiffersOnlyIn r a.step.machine ∧ b.step.result = a.step.result ∧
      b.step.events = a.step.events := by
  rcases a.step_cases with hdone | ⟨hdone, hneg⟩ | ⟨i, hi⟩
  · rw [step_of_isDone hdone, step_of_isDone (h.isDone.trans hdone)]
    exact ⟨h, rfl, rfl⟩
  · rw [step_of_neg hdone hneg, step_of_neg (h.isDone.trans hdone) (h.pc ▸ hneg), h.pc]
    exact ⟨h, rfl, rfl⟩
  · rw [hi.step_eq, (h.fetches hi).step_eq, h.pc]
    rcases h.effectOf (hunread i (Array.mem_of_getElem? hi.found)) with
      heffect | ⟨slot, v, w, hslot, ha, hb⟩
    · cases ha : a.effectOf i with
      | error f =>
          rw [execute_of_error ha, execute_of_error (heffect.trans ha), h.tell, h.pc]
          exact ⟨h, rfl, rfl⟩
      | ok e =>
          rw [execute_of_ok ha, execute_of_ok (heffect.trans ha), h.tell, h.tellJump, h.pc]
          exact ⟨h.apply e, rfl, rfl⟩
    · rw [execute_of_ok ha, execute_of_ok hb, h.tell, h.pc]
      exact ⟨h.apply_write (Or.inr hslot), rfl, rfl⟩

theorem after (h : b.DiffersOnlyIn r a) (hunread : ∀ i ∈ a.tape, ¬i.Consults r) (n : Nat) :
    (b.after n).DiffersOnlyIn r (a.after n) := by
  induction n with
  | zero => exact h
  | succ n ih =>
      rw [after_succ, after_succ]
      exact (ih.step (by rwa [after_tape])).1

end DiffersOnlyIn

/-- If no instruction of the tape consults a register, two machines that differ in its value only
still differ in nothing else after any number of steps, and the next step ends alike in both and
tells the same. -/
theorem unread_register_has_no_influence (r : Register) (a b : Machine) (h : b.DiffersOnlyIn r a)
    (hunread : ∀ i ∈ a.tape, ¬i.Consults r) (n : Nat) :
    (b.after n).DiffersOnlyIn r (a.after n) ∧
      (b.after n).step.result = (a.after n).step.result ∧
      (b.after n).step.events = (a.after n).step.events := by
  have hafter := h.after hunread n
  exact ⟨hafter, (hafter.step (by rwa [after_tape])).2⟩

/-- Updates a register in place three times, the last time by a remainder that can fail, and starts
over; only another register is read. -/
def scratchMachine : Machine :=
  ofTape [.alu .add ⟨2⟩ (.ofReg ⟨1⟩), .neg ⟨2⟩, .alu .mod ⟨2⟩ (.ofInd ⟨1⟩ 3), .ja (.ofImm (-4))]

theorem scratch_register_has_no_influence :
    (∀ i ∈ scratchMachine.tape, ¬i.Consults ⟨2⟩) ∧
      ∃ b, scratchMachine.setReg? ⟨2⟩ 7 = some b ∧ b.reg ⟨2⟩ = 7 ∧ scratchMachine.reg ⟨2⟩ = 0 ∧
        ∀ n : Nat, (b.after n).DiffersOnlyIn ⟨2⟩ (scratchMachine.after n) ∧
          (b.after n).step.result = (scratchMachine.after n).step.result ∧
          (b.after n).step.events = (scratchMachine.after n).step.events := by
  have hunread : ∀ i ∈ scratchMachine.tape, ¬i.Consults ⟨2⟩ := by decide
  refine ⟨hunread, _, rfl, by decide, by decide, fun n => ?_⟩
  exact unread_register_has_no_influence ⟨2⟩ scratchMachine _ (differsOnlyIn_of_setReg? rfl)
    hunread n

end Machine

end TapeMachine
