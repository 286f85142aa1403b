import Mathlib.Algebra.Ring.Int.Defs
import Mathlib.Logic.Function.Iterate
import Mathlib.Tactic.SplitIfs
import TapeMachine.Proofs.Effect

/-! Step after step. What an execution can change of a machine is its snapshot; tape, labels and
verbosity stay. A machine that takes a step is past its tape, before it, or at an instruction, and
these three cases are all that later proofs need of the definition of a step. -/

namespace TapeMachine

theorem Register.eq_of_slot?_eq {r r' : Register} {slot : Fin registerCount}
    (h : r.slot? = some slot) (h' : r'.slot? = some slot) : r = r' := by
  obtain ⟨hr, hslot⟩ := Option.dite_none_right_eq_some.1 h
  obtain ⟨hr', hslot'⟩ := Option.dite_none_right_eq_some.1 h'
  have hindex : r.index.toNat = slot.1 := congrArg Fin.val (Option.some.inj hslot)
  have hindex' : r'.index.toNat = slot.1 := congrArg Fin.val (Option.some.inj hslot')
  have hnonneg := hr.1
  have hnonneg' := hr'.1
  have heq : r.index = r'.index := by omega
  cases r
  cases r'
  exact congrArg Register.mk heq

theorem vector_get_set {n : Nat} (v : Vector Word n) (i j : Fin n) (value : Word) :
    (v.set i.1 value i.2).get j = if i = j then value else v.get j := by
  change (v.set i.1 value i.2)[j.1] = if i = j then value else v[j.1]
  rw [Vector.getElem_set]
  simp only [Fin.ext_iff]

namespace Machine

/-- What an execution can change of a machine. -/
@[ext]
structure Snapshot where
  registers : Vector Word registerCount
  memory : Vector Word memorySize
  pc : Word
  ticks : Word

def snapshot (m : Machine) : Snapshot := ⟨m.registers, m.memory, m.pc, m.ticks⟩

/-- The machine with registers, memory, program counter and ticks of its own. -/
def resume (m : Machine) (s : Snapshot) : Machine :=
  { m with registers := s.registers, memory := s.memory, pc := s.pc, ticks := s.ticks }

/-- The machine after `n` steps. A step that fails or has nothing left to do counts like any
other. -/
def after (m : Machine) (n : Nat) : Machine := (fun m => m.step.machine)^[n] m

@[simp] theorem resume_tape (m : Machine) (s : Snapshot) : (m.resume s).tape = m.tape := rfl

@[simp] theorem resume_labels (m : Machine) (s : Snapshot) : (m.resume s).labels = m.labels := rfl

@[simp] theorem after_zero (m : Machine) : m.after 0 = m := rfl

theorem after_succ (m : Machine) (n : Nat) : m.after (n + 1) = (m.after n).step.machine :=
  Function.iterate_succ_apply' _ n m

theorem ofEntries_eq_ok {es : List Entry} (hok : (resolve es).error = none) :
    ofEntries es = .ok (start (resolve es).tape (resolve es).labels) := by
  simp only [ofEntries, hok]

theorem ofEntries_ok {es : List Entry} {m : Machine} (h : ofEntries es = .ok m) :
    (resolve es).error = none ∧ m = start (resolve es).tape (resolve es).labels := by
  cases herror : (resolve es).error with
  | none =>
      rw [ofEntries_eq_ok herror] at h
      cases h
      exact ⟨rfl, rfl⟩
  | some e =>
      simp only [ofEntries, herror] at h
      cases h

theorem reg_of_slot? (m : Machine) {r : Register} {slot : Fin registerCount}
    (h : r.slot? = some slot) : m.reg r = m.registers.get slot := by
  rw [reg, h]

theorem readReg_eq (m : Machine) (r : Register) :
    m.readReg r = if r.slot?.isSome then .ok (m.reg r) else .error .registerRange := by
  rw [readReg, reg]
  cases r.slot? <;> rfl

theorem reg_set (m : Machine) (slot : Fin registerCount) (value : Word) (r : Register) :
    reg { m with registers := m.registers.set slot.1 value slot.2 } r =
      if r.slot? = some slot then value else m.reg r := by
  rw [reg, reg]
  cases hslot : r.slot? with
  | none => rfl
  | some other => simp only [vector_get_set, Option.some.injEq, eq_comm]

/-- The program counter is on the tape, at the instruction `i`. -/
structure Fetches (m : Machine) (i : Instruction) : Prop where
  nonneg : 0 ≤ m.pc.toInt
  found : m.tape[m.pc.toNat]? = some i

theorem Fetches.lt_size {m : Machine} {i : Instruction} (h : m.Fetches i) :
    m.pc.toNat < m.tape.size := (Array.getElem?_eq_some_iff.1 h.found).1

theorem toInt_eq_toNat_of_nonneg {w : Word} (h : 0 ≤ w.toInt) : w.toInt = w.toNat := by
  have hcond := BitVec.toInt_eq_toNat_cond w
  have hlt := w.isLt
  split_ifs at hcond <;> omega

theorem Fetches.toInt_eq {m : Machine} {i : Instruction} (h : m.Fetches i) :
    m.pc.toInt = m.pc.toNat := toInt_eq_toNat_of_nonneg h.nonneg

theorem step_cases (m : Machine) :
    m.isDone = true ∨ (m.isDone = false ∧ m.pc.toInt < 0) ∨ ∃ i, m.Fetches i := by
  cases hdone : m.isDone with
  | true => exact Or.inl rfl
  | false =>
      by_cases hneg : m.pc.toInt < 0
      · exact Or.inr (Or.inl ⟨rfl, hneg⟩)
      · have hnonneg : 0 ≤ m.pc.toInt := Int.not_lt.1 hneg
        have hlt : m.pc.toNat < m.tape.size := by
          rw [isDone, decide_eq_false_iff_not, toInt_eq_toNat_of_nonneg hnonneg] at hdone
          omega
        exact Or.inr (Or.inr ⟨m.tape[m.pc.toNat], hnonneg, Array.getElem?_eq_getElem hlt⟩)

theorem step_of_isDone {m : Machine} (h : m.isDone = true) : m.step = ⟨m, [], .ok true⟩ := by
  rw [step, if_pos h]

theorem step_of_neg {m : Machine} (h : m.isDone = false) (hneg : m.pc.toInt < 0) :
    m.step = ⟨m, [], .error ⟨m.pc, {}, .pcRange⟩⟩ := by
  rw [step, h, if_neg Bool.false_ne_true, if_pos hneg]

theorem Fetches.isDone_eq {m : Machine} {i : Instruction} (h : m.Fetches i) :
    m.isDone = false := by
  rw [isDone, decide_eq_false_iff_not, h.toInt_eq]
  have := h.lt_size
  omega

theorem Fetches.step_eq {m : Machine} {i : Instruction} (h : m.Fetches i) :
    m.step = ⟨(m.execute i).machine, (m.execute i).events,
      (m.execute i).result.mapError fun f => ⟨m.pc, i, f⟩⟩ := by
  have hget : m.tape.getD m.pc.toNat {} = i := by
    rw [Array.getD_eq_getD_getElem?, h.found, Option.getD_some]
  rw [step, h.isDone_eq, if_neg Bool.false_ne_true, if_neg (Int.not_lt.2 h.nonneg), hget]

theorem apply_tape (m : Machine) (e : Effect) : (m.apply e).tape = m.tape := by
  cases e <;> rfl

theorem apply_labels (m : Machine) (e : Effect) : (m.apply e).labels = m.labels := by
  cases e <;> rfl

theorem execute_machine (m : Machine) (i : Instruction) :
    (m.execute i).machine = m ∨ ∃ e, (m.execute i).machine = m.apply e := by
  cases heffect : m.effectOf i with
  | error f => exact Or.inl (by rw [execute_of_error heffect])
  | ok e => exact Or.inr ⟨e, by rw [execute_of_ok heffect]⟩

/-- A step leaves the machine alone or applies one effect to it. -/
theorem step_machine (m : Machine) : m.step.machine = m ∨ ∃ e, m.step.machine = m.apply e := by
  rcases m.step_cases with hdone | ⟨hdone, hneg⟩ | ⟨i, hi⟩
  · exact Or.inl (by rw [step_of_isDone hdone])
  · exact Or.inl (by rw [step_of_neg hdone hneg])
  · rw [hi.step_eq]
    exact m.execute_machine i

theorem step_tape (m : Machine) : m.step.machine.tape = m.tape := by
  rcases m.step_machine with h | ⟨e, h⟩
  · rw [h]
  · rw [h, apply_tape]

theorem step_labels (m : Machine) : m.step.machine.labels = m.labels := by
  rcases m.step_machine with h | ⟨e, h⟩
  · rw [h]
  · rw [h, apply_labels]

@[simp] theorem after_tape (m : Machine) (n : Nat) : (m.after n).tape = m.tape := by
  induction n with
  | zero => rfl
  | succ n ih => rw [after_succ, step_tape, ih]

@[simp] theorem after_labels (m : Machine) (n : Nat) : (m.after n).labels = m.labels := by
  induction n with
  | zero => rfl
  | succ n ih => rw [after_succ, step_labels, ih]

/-- The snapshot an effect leaves depends only on the snapshot it starts from. -/
theorem snapshot_apply_congr {m f : Machine} (h : f.snapshot = m.snapshot) (e : Effect) :
    (f.apply e).snapshot = (m.apply e).snapshot := by
  obtain ⟨hregisters, hmemory, hpc, hticks⟩ := Snapshot.mk.injEq .. ▸ h
  cases e <;> simp only [apply, snapshot, hregisters, hmemory, hpc, hticks]

end Machine

end TapeMachine
