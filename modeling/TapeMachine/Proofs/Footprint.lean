import TapeMachine.Proofs.Runs

/-! What a run can write. An instruction writes one register, its destination, or one cell, the one
its address comes to, or nothing; it moves the program counter on by one, unless it jumps, and counts
one tick. So a register that is no destination on the tape keeps its value for ever, and a cell
changes only where some step of the run stores to it. -/

namespace TapeMachine

/-- The instruction computes a new value of the register. -/
def Instruction.Writes (i : Instruction) (r : Register) : Prop :=
  i.dst = r ∧ (i.op.kind = .alu ∨ i.op.kind = .neg ∨ i.op.kind = .lddw ∨ i.op.kind = .load)

instance (i : Instruction) (r : Register) : Decidable (i.Writes r) :=
  inferInstanceAs (Decidable (_ ∧ _))

namespace Machine

variable {m : Machine} {i : Instruction}

/-- The next step executes a store, and the address of it, cut to its width, is the cell. -/
def StoresTo (m : Machine) (cell : Fin memorySize) : Prop :=
  ∃ i width a, m.Fetches i ∧ i.op = .store width ∧ m.step.result = .ok false ∧
    m.valueOf i.addr = .ok a ∧ a.toInt % 2 ^ width.bits = cell.1

/-- A jump whose condition holds, if it has one. -/
def JumpHolds (m : Machine) (i : Instruction) : Prop :=
  i.op = .ja ∨
    ∃ cond b, i.op = .jump cond ∧ m.valueOf i.src = .ok b ∧ cond.holds (m.reg i.dst) b = true

/-- What executing an instruction other than a stop leads to: at most one register or one cell is
new, one more tick is counted, and the program counter goes on by one unless there is a jump. -/
structure Advances (m : Machine) (i : Instruction) (m' : Machine) : Prop where
  writesOne :
    (m'.memory = m.memory ∧
      ∃ slot, ∀ other, other ≠ slot → m'.registers.get other = m.registers.get other) ∨
    (m'.registers = m.registers ∧
      ∃ cell, ∀ other, other ≠ cell → m'.memory.get other = m.memory.get other)
  ticks : m'.ticks = m.ticks + 1
  pc : ¬m.JumpHolds i → m'.pc = m.pc + 1

/-- A step that changes the machine applies the effect of the instruction it is at. -/
theorem step_effect (m : Machine) :
    m.step.machine = m ∨
      ∃ i e, m.Fetches i ∧ m.effectOf i = .ok e ∧ m.step.machine = m.apply e ∧
        m.step.result = .ok (e == .stop) := by
  cases hresult : m.step.result with
  | error t => exact Or.inl (step_fails hresult).1
  | ok done =>
      cases done with
      | false =>
          obtain ⟨i, e, hi, heffect, hstop, hmachine⟩ := step_goes_on hresult
          exact Or.inr ⟨i, e, hi, heffect, hmachine, by simp [hstop]⟩
      | true =>
          rcases step_ends hresult with ⟨-, hmachine⟩ | ⟨i, hi, heffect, hmachine⟩
          · exact Or.inl hmachine
          · exact Or.inr ⟨i, .stop, hi, heffect, hmachine, rfl⟩

theorem writes_of_effectOf {slot : Fin registerCount} {value : Word}
    (h : m.effectOf i = .ok (.write slot value)) : i.Writes i.dst := by
  obtain ⟨dst, -, hyields⟩ := effectOf_eq_ok.1 h
  cases hyields <;> simp [Instruction.Writes, *, Opcode.kind]

/-- A step gives a new value only to a register that the instruction it is at writes. -/
theorem writes_of_step_reg_ne {r : Register} (h : m.step.machine.reg r ≠ m.reg r) :
    ∃ i, m.Fetches i ∧ i.Writes r := by
  rcases m.step_effect with hmachine | ⟨i, e, hi, heffect, hmachine, -⟩
  · rw [hmachine] at h
    exact absurd rfl h
  · rw [hmachine] at h
    cases e with
    | write slot value =>
        change reg { m with registers := m.registers.set slot.1 value slot.2 } r ≠ m.reg r at h
        rw [reg_set] at h
        split_ifs at h with hslot
        · obtain rfl := Register.eq_of_slot?_eq (effectOf_eq_write heffect) hslot
          exact ⟨i, hi, writes_of_effectOf heffect⟩
        · exact absurd rfl h
    | _ => exact absurd rfl h

/-- A step gives a new value only to a cell that it stores to. -/
theorem storesTo_of_step_ne {cell : Fin memorySize}
    (h : m.step.machine.memory.get cell ≠ m.memory.get cell) : m.StoresTo cell := by
  rcases m.step_effect with hmachine | ⟨i, e, hi, heffect, hmachine, hresult⟩
  · rw [hmachine] at h
    exact absurd rfl h
  · rw [hmachine] at h
    cases e with
    | store other value =>
        change (m.memory.set other.1 value other.2).get cell ≠ m.memory.get cell at h
        rw [vector_get_set] at h
        split_ifs at h with hcell
        · subst hcell
          obtain ⟨width, a, hop, ha, hindex, -⟩ := effectOf_eq_store heffect
          exact ⟨i, width, a, hi, hop, hresult, ha, hindex.symm⟩
        · exact absurd rfl h
    | _ => exact absurd rfl h

/-- A store to a byte address stays below 256. -/
theorem StoresTo.lt_of_byte {cell : Fin memorySize} (h : m.StoresTo cell)
    (hbytes : ∀ i ∈ m.tape, ∀ width, i.op = .store width → width = .b) : cell.1 < 256 := by
  obtain ⟨i, width, a, hi, hop, -, -, hcell⟩ := h
  obtain rfl : width = .b := hbytes i (Array.mem_of_getElem? hi.found) width hop
  simp only [Width.bits] at hcell
  omega

theorem jumpHolds_of_effectOf {displacement : Word}
    (h : m.effectOf i = .ok (.jump displacement)) : m.JumpHolds i := by
  obtain ⟨dst, hdst, hyields⟩ := effectOf_eq_ok.1 h
  cases hyields with
  | ja hop _ => exact Or.inl hop
  | taken hop hsrc _ hholds =>
      exact Or.inr ⟨_, _, hop, hsrc, by rw [reg_of_slot? m hdst, hholds]⟩

theorem apply_advances {e : Effect} (h : m.effectOf i = .ok e) (hstop : e ≠ .stop) :
    m.Advances i (m.apply e) := by
  refine ⟨?_, apply_ticks m e, fun hjump => ?_⟩
  · cases e with
    | write slot value =>
        refine Or.inl ⟨rfl, slot, fun other hother => ?_⟩
        change (m.registers.set slot.1 value slot.2).get other = m.registers.get other
        rw [vector_get_set, if_neg (Ne.symm hother)]
    | store cell value =>
        refine Or.inr ⟨rfl, cell, fun other hother => ?_⟩
        change (m.memory.set cell.1 value cell.2).get other = m.memory.get other
        rw [vector_get_set, if_neg (Ne.symm hother)]
    | _ => exact Or.inl ⟨rfl, ⟨0, by decide⟩, fun _ _ => rfl⟩
  · cases e with
    | jump displacement => exact absurd (jumpHolds_of_effectOf h) hjump
    | stop => exact absurd rfl hstop
    | _ => rfl

theorem Fetches.advances (hi : m.Fetches i) (hop : i.op ≠ .stop) {done : Bool}
    (h : m.step.result = .ok done) : m.Advances i m.step.machine := by
  rw [hi.step_eq] at h ⊢
  obtain ⟨e, heffect, hmachine, -⟩ := execute_of_result_ok (mapError_eq_ok h)
  rw [hmachine]
  refine apply_advances heffect ?_
  rintro rfl
  obtain ⟨dst, -, hyields⟩ := effectOf_eq_ok.1 heffect
  cases hyields with
  | stop hstop => exact hop hstop

theorem after_reg_of_unwritten {r : Register} (h : ∀ i ∈ m.tape, ¬i.Writes r) (n : Nat) :
    (m.after n).reg r = m.reg r := by
  induction n with
  | zero => rfl
  | succ n ih =>
      rw [after_succ, ← ih]
      by_contra hne
      obtain ⟨i, hi, hwrites⟩ := writes_of_step_reg_ne hne
      have hmem : i ∈ m.tape := by simpa using Array.mem_of_getElem? hi.found
      exact h i hmem hwrites

theorem storesTo_of_after_ne {cell : Fin memorySize} {n : Nat}
    (h : (m.after n).memory.get cell ≠ m.memory.get cell) : ∃ k < n, (m.after k).StoresTo cell := by
  induction n with
  | zero => exact absurd rfl h
  | succ n ih =>
      by_cases hbefore : (m.after n).memory.get cell = m.memory.get cell
      · rw [after_succ, ← hbefore] at h
        exact ⟨n, Nat.lt_succ_self n, storesTo_of_step_ne h⟩
      · obtain ⟨k, hk, hstores⟩ := ih hbefore
        exact ⟨k, Nat.lt_succ_of_lt hk, hstores⟩

/-- After any number of steps, tape and labels are as before, a register that no instruction of the
tape writes has its value, and a cell is new only if a step before stored to it; with stores of
bytes only, the cells from 256 on are never new. And each step that executes an instruction other
than a stop advances the machine. -/
theorem runs_write_where_they_store (m : Machine) (n : Nat) :
    (m.after n).tape = m.tape ∧ (m.after n).labels = m.labels ∧
      (∀ r, (∀ i ∈ m.tape, ¬i.Writes r) → (m.after n).reg r = m.reg r) ∧
      (∀ cell, (m.after n).memory.get cell ≠ m.memory.get cell →
        ∃ k < n, (m.after k).StoresTo cell) ∧
      ((∀ i ∈ m.tape, ∀ width, i.op = .store width → width = .b) →
        ∀ cell : Fin memorySize, 256 ≤ cell.1 →
          (m.after n).memory.get cell = m.memory.get cell) ∧
      ∀ i done, (m.after n).Fetches i → i.op ≠ .stop → (m.after n).step.result = .ok done →
        (m.after n).Advances i (m.after (n + 1)) := by
  refine ⟨m.after_tape n, m.after_labels n, fun r h => after_reg_of_unwritten h n,
    fun cell h => storesTo_of_after_ne h, fun hbytes cell hcell => ?_, fun i done hi hop h => ?_⟩
  · by_contra hne
    obtain ⟨k, -, hstores⟩ := storesTo_of_after_ne hne
    have hlt : cell.1 < 256 := hstores.lt_of_byte (by simpa using hbytes)
    omega
  · rw [after_succ]
    exact hi.advances hop h

/-- Adds to a register and stores a byte where it points to, again and again. -/
def strewing : Machine :=
  ofTape [.alu .add ⟨1⟩ (.ofImm 300), .store .b (.ofInd ⟨1⟩ 7) (.ofReg ⟨1⟩), .ja (.ofImm (-3))]

theorem strewing_writes_where_it_stores :
    (∀ n, (strewing.after n).reg ⟨2⟩ = strewing.reg ⟨2⟩) ∧
      (∀ n, ∀ cell : Fin memorySize, 256 ≤ cell.1 →
        (strewing.after n).memory.get cell = strewing.memory.get cell) ∧
      (∃ k < 2, (strewing.after k).StoresTo ⟨51, by decide⟩) ∧
      (strewing.after 1).Advances (.store .b (.ofInd ⟨1⟩ 7) (.ofReg ⟨1⟩)) (strewing.after 2) := by
  have hrun := runs_write_where_they_store strewing
  refine ⟨fun n => (hrun n).2.2.1 ⟨2⟩ (by decide), fun n => (hrun n).2.2.2.2.1 ?_, ?_, ?_⟩
  · intro i hi width hop
    simp only [strewing, ofTape, start, List.mem_toArray, List.mem_cons, List.not_mem_nil,
      or_false] at hi
    rcases hi with rfl | rfl | rfl
    · cases hop
    · cases hop
      rfl
    · cases hop
  · exact (hrun 2).2.2.2.1 ⟨51, by decide⟩ (by decide)
  · exact (hrun 1).2.2.2.2.2 _ false ⟨by decide, by decide⟩ (by decide) (by decide)

end Machine

end TapeMachine
