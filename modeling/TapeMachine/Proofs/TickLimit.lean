import Mathlib.Algebra.Ring.Int.Defs
import TapeMachine.Emulator.Basic
import TapeMachine.Proofs.Runs

/-! The limit on ticks. An emulator steps its machine as the machine steps itself, and only gives
the line to a failure. With a limit its run is the run of the machine cut where the limit is
reached: what finishes by then or fails before then ends alike, and every other run is cut in the
state it has when it has taken as many ticks as the limit allows. -/

namespace TapeMachine

namespace Machine

/-- Two machines in the same state, whether or not they tell what they do. -/
structure SameState (a b : Machine) : Prop where
  tape : a.tape = b.tape
  labels : a.labels = b.labels
  snapshot : a.snapshot = b.snapshot

theorem SameState.refl (m : Machine) : m.SameState m := ⟨rfl, rfl, rfl⟩

theorem SameState.trans {a b c : Machine} (h : a.SameState b) (h' : b.SameState c) :
    a.SameState c :=
  ⟨h.tape.trans h'.tape, h.labels.trans h'.labels, h.snapshot.trans h'.snapshot⟩

theorem sameState_verbose (m : Machine) (v : Bool) : SameState { m with verbose := v } m :=
  ⟨rfl, rfl, rfl⟩

theorem SameState.eq_verbose {a b : Machine} (h : a.SameState b) :
    a = { b with verbose := a.verbose } := by
  obtain ⟨htape, hlabels, hsnapshot⟩ := h
  obtain ⟨tape, labels, registers, memory, pc, ticks, verbose⟩ := a
  cases htape
  cases hlabels
  cases hsnapshot
  rfl

/-- What a machine tells does not influence what it does. -/
theorem step_verbose (m : Machine) (v : Bool) :
    (step { m with verbose := v }).machine = { m.step.machine with verbose := v } ∧
      (step { m with verbose := v }).result = m.step.result := by
  rcases m.step_cases with hdone | ⟨hdone, hneg⟩ | ⟨i, hi⟩
  · rw [step_of_isDone hdone, step_of_isDone (m := { m with verbose := v }) hdone]
    exact ⟨rfl, rfl⟩
  · rw [step_of_neg hdone hneg, step_of_neg (m := { m with verbose := v }) hdone hneg]
    exact ⟨rfl, rfl⟩
  · have hi' : Fetches { m with verbose := v } i := ⟨hi.nonneg, hi.found⟩
    rw [hi.step_eq, hi'.step_eq]
    cases heffect : m.effectOf i with
    | error f =>
        have heffect' : effectOf { m with verbose := v } i = .error f := heffect
        rw [execute_of_error heffect, execute_of_error heffect']
        exact ⟨rfl, rfl⟩
    | ok e =>
        have heffect' : effectOf { m with verbose := v } i = .ok e := heffect
        rw [execute_of_ok heffect, execute_of_ok heffect']
        cases e <;> exact ⟨rfl, rfl⟩

theorem SameState.step {a b : Machine} (h : a.SameState b) :
    a.step.machine.SameState b.step.machine ∧ a.step.result = b.step.result := by
  obtain ⟨hmachine, hresult⟩ := step_verbose b a.verbose
  rw [← h.eq_verbose] at hmachine hresult
  rw [hmachine]
  exact ⟨sameState_verbose _ _, hresult⟩

theorem SameState.ticks {a b : Machine} (h : a.SameState b) : a.ticks = b.ticks :=
  congrArg Snapshot.ticks h.snapshot

theorem SameState.pc {a b : Machine} (h : a.SameState b) : a.pc = b.pc :=
  congrArg Snapshot.pc h.snapshot

theorem SameState.isDone {a b : Machine} (h : a.SameState b) : a.isDone = b.isDone := by
  rw [Machine.isDone, Machine.isDone, h.tape, h.pc]

/-- Past the tape nothing is executed, a stop is, and what fails is not. -/
theorem EndsAfter.executedIn_cases {m : Machine} {k : Nat} (h : m.EndsAfter k) :
    ((m.outcomeAt k).ending = .finished ∧ (m.after k).isDone = true ∧
        m.executedIn (k + 1) = k) ∨
      ((m.outcomeAt k).ending = .finished ∧ (m.after k).isDone = false ∧
        m.executedIn (k + 1) = k + 1) ∨
      ∃ t, (m.outcomeAt k).ending = .failed t ∧ (m.after k).isDone = false ∧
        m.executedIn (k + 1) = k := by
  rw [outcomeAt_ending, executedIn_succ, h.continues.executedIn_eq]
  cases hresult : (m.after k).step.result with
  | error t =>
      obtain ⟨hmachine, -⟩ := step_fails hresult
      have hdone : (m.after k).isDone = false := by
        by_contra hdone
        rw [step_of_isDone (Bool.not_eq_false _ ▸ hdone)] at hresult
        cases hresult
      exact Or.inr (Or.inr ⟨t, rfl, hdone, by rw [executed_of_unchanged hmachine, Nat.add_zero]⟩)
  | ok done =>
      cases done with
      | false => exact absurd hresult h.ends
      | true =>
          rcases step_ends hresult with ⟨hdone, hmachine⟩ | ⟨i, hi, -, hmachine⟩
          · exact Or.inl ⟨rfl, hdone, by rw [executed_of_unchanged hmachine, Nat.add_zero]⟩
          · exact Or.inr (Or.inl ⟨rfl, hi.isDone_eq, by rw [executed_of_apply hmachine]⟩)

/-- An ending with its error put in other terms. -/
def Ending.map {ε δ : Type} (g : ε → δ) : Ending ε → Ending δ
  | .finished => .finished
  | .failed e => .failed (g e)
  | .outOfFuel => .outOfFuel

end Machine

namespace Emulator

open Machine

/-- The error of the emulator for a trap of its machine. -/
def located (p : Program) (t : Trap) : RuntimeError := ⟨p.lineAt t.pc.toInt, .trap t⟩

/-- `e'` is the emulator `e` with a machine in the state of `m`. -/
structure ShowsState (e' e : Emulator) (m : Machine) : Prop where
  rest : e' = { e with machine := e'.machine }
  machine : e'.machine.SameState m

theorem ShowsState.refl (e : Emulator) : e.ShowsState e e.machine := ⟨rfl, .refl _⟩

variable {e e' : Emulator} {m : Machine}

theorem ShowsState.program (h : e'.ShowsState e m) : e'.program = e.program := by rw [h.rest]

theorem ShowsState.line (h : e'.ShowsState e m) : e'.line = e.program.lineAt m.pc.toInt := by
  rw [Emulator.line, h.program, h.machine.pc]

theorem ShowsState.overLimit (h : e'.ShowsState e m) :
    e'.overLimit = overLimit { e with machine := m } := by
  rw [h.rest]
  simp only [Emulator.overLimit, h.machine.ticks, h.machine.isDone]

theorem tick_emulator (e : Emulator) : e.tick.emulator =
    { e with machine := (Machine.step { e.machine with verbose := e.verbose }).machine } := rfl

theorem tick_result (e : Emulator) : e.tick.result =
    (Machine.step { e.machine with verbose := e.verbose }).result.mapError
      fun t => ⟨e.program.lineAt e.machine.pc.toInt, .trap t⟩ := rfl

/-- A tick steps the machine, and names the line of a failure. -/
theorem ShowsState.tick (h : e'.ShowsState e m) :
    e'.tick.emulator.ShowsState e m.step.machine ∧
      e'.tick.result = m.step.result.mapError (located e.program) := by
  have hstate := (sameState_verbose e'.machine e'.verbose).trans h.machine
  obtain ⟨hmachine, hresult⟩ := hstate.step
  constructor
  · rw [tick_emulator]
    refine ⟨?_, hmachine⟩
    rw [h.rest]
  · rw [tick_result, hresult, h.program, h.machine.pc]
    cases hm : m.step.result with
    | ok done => simp only [Except.mapError]
    | error t =>
        obtain ⟨-, hpc, -⟩ := step_fails hm
        simp only [Except.mapError, located, hpc]

/-- Ticks that go on below the limit can be taken off the front of a run. -/
theorem runFrom_add {k : Nat} (h : e.machine.Continues k)
    (hunder : ∀ j < k, overLimit { e with machine := e.machine.after j } = false) (fuel : Nat)
    (log : Array Event) :
    ∃ e' log', e'.ShowsState e (e.machine.after k) ∧
      runFrom (k + fuel) log e = runFrom fuel log' e' := by
  induction k generalizing fuel with
  | zero => exact ⟨e, log, .refl e, by rw [Nat.zero_add]⟩
  | succ k ih =>
      obtain ⟨hbefore, hlast⟩ := continues_succ.1 h
      obtain ⟨e', log', hshows, hrun⟩ := ih hbefore (fun j hj => hunder j (by omega)) (fuel + 1)
      obtain ⟨hemulator, hresult⟩ := hshows.tick
      rw [hlast] at hresult
      refine ⟨e'.tick.emulator, log' ++ e'.tick.events.map Event.machine, ?_, ?_⟩
      · rw [after_succ]
        exact hemulator
      · rw [show k + 1 + fuel = k + (fuel + 1) by omega, hrun, runFrom,
          hshows.overLimit.trans (hunder k (Nat.lt_succ_self k))]
        simp only [hresult, Except.mapError, Bool.false_eq_true, if_false]

end Emulator

end TapeMachine
