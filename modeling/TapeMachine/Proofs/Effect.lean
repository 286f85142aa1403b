import TapeMachine.Machine.Run

/-! The effect of an instruction. The handlers read and write a machine in turn, and nothing in their
text keeps an instruction that fails from having written before. Here it is shown that none does:
an instruction first decides on one effect, with reads that may fail, and then carries it out without
failing. Later proofs use this and never open a handler. -/

namespace TapeMachine

theorem except_bind_eq_ok {ε α β : Type} {x : Except ε α} {f : α → Except ε β} {b : β} :
    (x >>= f) = .ok b ↔ ∃ a, x = .ok a ∧ f a = .ok b := by
  cases x with
  | error e =>
      constructor
      · intro h
        cases h
      · rintro ⟨a, ha, _⟩
        cases ha
  | ok a =>
      constructor
      · exact fun h => ⟨a, rfl, h⟩
      · rintro ⟨a', ha, h⟩
        cases ha
        exact h

theorem except_bind_eq_error {ε α β : Type} {x : Except ε α} {f : α → Except ε β} {e : ε} :
    (x >>= f) = .error e ↔ x = .error e ∨ ∃ a, x = .ok a ∧ f a = .error e := by
  cases x with
  | error e' =>
      constructor
      · intro h
        cases h
        exact Or.inl rfl
      · rintro (h | ⟨a, ha, _⟩)
        · cases h
          rfl
        · cases ha
  | ok a =>
      constructor
      · exact fun h => Or.inr ⟨a, rfl, h⟩
      · rintro (h | ⟨a', ha, h⟩)
        · cases h
        · cases ha
          exact h

namespace Machine

inductive Effect where
  | write (slot : Fin registerCount) (value : Word)
  | store (cell : Fin memorySize) (value : Word)
  | jump (displacement : Word)
  | next
  | stop
  deriving DecidableEq

/-- The effect of an instruction at the program counter. Every instruction needs a valid
destination register, also those that leave it alone. -/
def effectOf (m : Machine) (i : Instruction) : Except Fault Effect :=
  match i.dst.slot? with
  | none => .error .registerRange
  | some dst =>
      match i.op with
      | .alu _ => do
          let b ← m.valueOf i.src
          return .write dst (← i.op.compute (m.registers.get dst) b)
      | .neg => return .write dst (-m.registers.get dst)
      | .lddw => return .write dst (← m.valueOf i.src)
      | .load width => return .write dst (m.memory.get (← m.cellOf i.src width))
      | .store width => do
          let cell ← m.cellOf i.addr width
          return .store cell (← m.valueOf i.src)
      | .ja => return .jump (← m.valueOf i.off)
      | .jump cond => do
          let b ← m.valueOf i.src
          let displacement ← m.valueOf i.off
          return if cond.holds (m.registers.get dst) b then .jump displacement else .next
      | .stop => return .stop
      | .invalid => throw .opcodeInvalid
      | .unassigned _ => throw .opcodeInvalid

/-- Carries out an effect. A stop counts as executed and leaves the program counter. -/
def apply (m : Machine) : Effect → Machine
  | .write slot value =>
      { m with
        registers := m.registers.set slot.1 value slot.2
        pc := m.pc + 1
        ticks := m.ticks + 1 }
  | .store cell value =>
      { m with
        memory := m.memory.set cell.1 value cell.2
        pc := m.pc + 1
        ticks := m.ticks + 1 }
  | .jump displacement =>
      { m with
        pc := m.pc + displacement + 1
        ticks := m.ticks + 1 }
  | .next =>
      { m with
        pc := m.pc + 1
        ticks := m.ticks + 1 }
  | .stop => { m with ticks := m.ticks + 1 }

/-- The record of a jump that is taken. -/
def tellJump (m : Machine) : Effect → List Event
  | .jump displacement => m.tell (.jump (m.pc + displacement + 1))
  | _ => []

namespace Handler

variable {α β : Type} {w w' : Work} {f : Fault}

theorem bind_ok {x : Handler α} {a : α} (h : x w = .ok a w') (next : α → Handler β) :
    (x >>= next) w = next a w' := by
  simp only [bind, EStateM.bind, h]

theorem bind_error {x : Handler α} (h : x w = .error f w') (next : α → Handler β) :
    (x >>= next) w = .error f w' := by
  simp only [bind, EStateM.bind, h]

theorem ask_ok {question : Machine → Except Fault α} {a : α} (h : question w.machine = .ok a) :
    ask question w = .ok a w := by
  rw [ask, h]

theorem ask_error {question : Machine → Except Fault α} (h : question w.machine = .error f) :
    ask question w = .error f w := by
  rw [ask, h]

/-- How a handler ends whose machine only decides on an effect and carries it out. -/
def settle (w : Work) : Except Fault Effect → EStateM.Result Fault Work Bool
  | .ok e => .ok (e == .stop) ⟨w.machine.apply e, w.events ++ w.machine.tellJump e⟩
  | .error f => .error f w

/-- A question that a handler asks before it writes is one that the effect depends on. -/
theorem ask_bind_eq_settle {question : Machine → Except Fault α} {next : α → Handler Bool}
    {effect : α → Except Fault Effect} (h : ∀ a, next a w = settle w (effect a)) :
    (ask question >>= next) w = settle w (question w.machine >>= effect) := by
  cases hask : question w.machine with
  | error f => exact bind_error (ask_error hask) next
  | ok a => exact (bind_ok (ask_ok hask) next).trans (h a)

theorem settle_silent (w : Work) (e : Effect) (h : w.machine.tellJump e = []) :
    settle w (.ok e) = .ok (e == .stop) ⟨w.machine.apply e, w.events⟩ := by
  rw [settle, h, List.append_nil]

theorem writeRegister_advance (slot : Fin registerCount) (value : Word) (w : Work) :
    (writeRegister slot value >>= fun _ => advance) w = settle w (.ok (.write slot value)) :=
  (settle_silent w (.write slot value) rfl).symm

theorem writeCell_advance (cell : Fin memorySize) (value : Word) (w : Work) :
    (writeCell cell value >>= fun _ => advance) w = settle w (.ok (.store cell value)) :=
  (settle_silent w (.store cell value) rfl).symm

theorem branch_advance (off : Operand) (taken : Bool) (w : Work) :
    (branch off taken >>= fun taken => tellJump taken >>= fun _ => advance) w =
      settle w (w.machine.valueOf off >>= fun displacement =>
        .ok (if taken then .jump displacement else .next)) := by
  simp only [branch, bind_assoc]
  refine ask_bind_eq_settle fun displacement => ?_
  cases taken with
  | true => rfl
  | false => exact (settle_silent w .next rfl).symm

/-- What an instruction asks, it asks before it writes. -/
theorem perform_eq_settle {i : Instruction} {dst : Fin registerCount}
    (hdst : i.dst.slot? = some dst) (w : Work) :
    perform i dst w = settle w (w.machine.effectOf i) := by
  simp only [perform, effectOf, hdst]
  cases hop : i.op with
  | alu op =>
      refine ask_bind_eq_settle fun b => ?_
      exact ask_bind_eq_settle fun value => writeRegister_advance dst value w
  | neg => exact writeRegister_advance dst _ w
  | lddw => exact ask_bind_eq_settle fun value => writeRegister_advance dst value w
  | load width =>
      simp only [load, bind_assoc]
      exact ask_bind_eq_settle fun cell => writeRegister_advance dst _ w
  | store width =>
      simp only [store, bind_assoc]
      refine ask_bind_eq_settle fun cell => ?_
      exact ask_bind_eq_settle fun value => writeCell_advance cell value w
  | ja => exact branch_advance i.off true w
  | jump cond =>
      simp only [jump, bind_assoc]
      refine ask_bind_eq_settle fun b => ?_
      exact branch_advance i.off _ w
  | stop => exact (settle_silent w .stop rfl).symm
  | invalid => rfl
  | unassigned code => rfl

end Handler

/-- The handlers working in place do what deciding on an effect and carrying it out does. -/
theorem execute_eq (m : Machine) (i : Instruction) :
    m.execute i =
      match m.effectOf i with
      | .error f => ⟨m, m.tell (.exec m.pc i), .error f⟩
      | .ok e => ⟨m.apply e, m.tell (.exec m.pc i) ++ m.tellJump e, .ok (e == .stop)⟩ := by
  have hhandled : Handler.execute i ⟨m, []⟩ =
      Handler.settle ⟨m, m.tell (.exec m.pc i)⟩ (m.effectOf i) := by
    cases hdst : i.dst.slot? with
    | none =>
        simp only [Handler.execute, effectOf, hdst]
        rfl
    | some dst =>
        rw [← Handler.perform_eq_settle hdst ⟨m, m.tell (.exec m.pc i)⟩]
        simp only [Handler.execute, hdst]
        rfl
  rw [execute, hhandled]
  cases m.effectOf i <;> rfl

theorem execute_of_error {m : Machine} {i : Instruction} {f : Fault}
    (h : m.effectOf i = .error f) : m.execute i = ⟨m, m.tell (.exec m.pc i), .error f⟩ := by
  rw [execute_eq, h]

theorem execute_of_ok {m : Machine} {i : Instruction} {e : Effect} (h : m.effectOf i = .ok e) :
    m.execute i =
      ⟨m.apply e, m.tell (.exec m.pc i) ++ m.tellJump e, .ok (e == .stop)⟩ := by
  rw [execute_eq, h]

end Machine

end TapeMachine
