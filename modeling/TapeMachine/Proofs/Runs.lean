import TapeMachine.Proofs.InstructionRules

/-! Whole runs. A step is told apart by its result: it goes on, it ends the program, or it fails;
and only a step that goes on is followed by another. A run therefore takes some number of steps that
go on and then one that does not, whatever fuel it is given beyond that. A run that fails stops in
the state before the failing instruction, and a run that ends stays where it ended. -/

namespace TapeMachine.Machine

variable {m : Machine}

theorem apply_ticks (m : Machine) (e : Effect) : (m.apply e).ticks = m.ticks + 1 := by
  cases e <;> rfl

/-- An instruction that fails leaves the machine as it is. -/
theorem execute_of_result_error {i : Instruction} {f : Fault}
    (h : (m.execute i).result = .error f) :
    m.effectOf i = .error f ∧ (m.execute i).machine = m := by
  cases heffect : m.effectOf i with
  | ok e =>
      rw [execute_of_ok heffect] at h
      cases h
  | error fault =>
      rw [execute_of_error heffect] at h ⊢
      cases h
      exact ⟨rfl, rfl⟩

theorem execute_of_result_ok {i : Instruction} {done : Bool}
    (h : (m.execute i).result = .ok done) :
    ∃ e, m.effectOf i = .ok e ∧ (m.execute i).machine = m.apply e ∧ done = (e == .stop) := by
  cases heffect : m.effectOf i with
  | ok e =>
      rw [execute_of_ok heffect] at h ⊢
      cases h
      exact ⟨e, rfl, rfl, rfl⟩
  | error fault =>
      rw [execute_of_error heffect] at h
      cases h

theorem mapError_eq_ok {ε δ α : Type} {g : ε → δ} {r : Except ε α} {a : α}
    (h : r.mapError g = .ok a) : r = .ok a := by
  cases r with
  | ok b =>
      cases h
      rfl
  | error e => cases h

/-- A step goes on by executing an instruction other than a stop. -/
theorem step_goes_on (h : m.step.result = .ok false) :
    ∃ i e, m.Fetches i ∧ m.effectOf i = .ok e ∧ e ≠ .stop ∧ m.step.machine = m.apply e := by
  rcases m.step_cases with hdone | ⟨hdone, hneg⟩ | ⟨i, hi⟩
  · rw [step_of_isDone hdone] at h
    cases h
  · rw [step_of_neg hdone hneg] at h
    cases h
  · rw [hi.step_eq] at h ⊢
    obtain ⟨e, heffect, hmachine, hstop⟩ := execute_of_result_ok (mapError_eq_ok h)
    exact ⟨i, e, hi, heffect, by simpa using hstop.symm, hmachine⟩

/-- A step ends the program past the tape, where it does nothing, or at a stop. -/
theorem step_ends (h : m.step.result = .ok true) :
    (m.isDone = true ∧ m.step.machine = m) ∨
      ∃ i, m.Fetches i ∧ m.effectOf i = .ok .stop ∧ m.step.machine = m.apply .stop := by
  rcases m.step_cases with hdone | ⟨hdone, hneg⟩ | ⟨i, hi⟩
  · exact Or.inl ⟨hdone, by rw [step_of_isDone hdone]⟩
  · rw [step_of_neg hdone hneg] at h
    cases h
  · rw [hi.step_eq] at h ⊢
    obtain ⟨e, heffect, hmachine, hstop⟩ := execute_of_result_ok (mapError_eq_ok h)
    obtain rfl : e = .stop := by simpa using hstop.symm
    exact Or.inr ⟨i, hi, heffect, hmachine⟩

/-- A step fails before the tape or at the instruction its trap names, and changes nothing. -/
theorem step_fails {t : Trap} (h : m.step.result = .error t) :
    m.step.machine = m ∧ t.pc = m.pc ∧
      ((m.pc.toInt < 0 ∧ t.fault = .pcRange) ∨
        (m.Fetches t.insn ∧ m.effectOf t.insn = .error t.fault)) := by
  rcases m.step_cases with hdone | ⟨hdone, hneg⟩ | ⟨i, hi⟩
  · rw [step_of_isDone hdone] at h
    cases h
  · rw [step_of_neg hdone hneg] at h ⊢
    cases h
    exact ⟨rfl, rfl, Or.inl ⟨hneg, rfl⟩⟩
  · rw [hi.step_eq] at h ⊢
    cases hresult : (m.execute i).result with
    | ok done =>
        rw [hresult] at h
        cases h
    | error f =>
        obtain ⟨heffect, hmachine⟩ := execute_of_result_error hresult
        rw [hresult] at h
        cases h
        exact ⟨hmachine, rfl, Or.inr ⟨hi, heffect⟩⟩

/-- The first `k` steps go on. -/
def Continues (m : Machine) (k : Nat) : Prop := ∀ j < k, (m.after j).step.result = .ok false

/-- `k` steps go on, and the one after them does not. -/
structure EndsAfter (m : Machine) (k : Nat) : Prop where
  continues : m.Continues k
  ends : (m.after k).step.result ≠ .ok false

theorem continues_zero (m : Machine) : m.Continues 0 := fun j hj => absurd hj (Nat.not_lt_zero j)

theorem continues_succ {k : Nat} :
    m.Continues (k + 1) ↔ m.Continues k ∧ (m.after k).step.result = .ok false := by
  constructor
  · intro h
    exact ⟨fun j hj => h j (by omega), h k (by omega)⟩
  · rintro ⟨hbefore, hlast⟩ j hj
    rcases Nat.lt_succ_iff_lt_or_eq.mp hj with hlt | rfl
    · exact hbefore j hlt
    · exact hlast

/-- How many instructions a step executes: none past the tape, before it, or where it fails. -/
def executed (m : Machine) : Nat := if m.step.machine.ticks = m.ticks then 0 else 1

/-- How many instructions the first `k` steps execute. -/
def executedIn (m : Machine) : Nat → Nat
  | 0 => 0
  | k + 1 => m.executedIn k + (m.after k).executed

theorem executedIn_succ (m : Machine) (k : Nat) :
    m.executedIn (k + 1) = m.executedIn k + (m.after k).executed := rfl

theorem executed_of_unchanged (h : m.step.machine = m) : m.executed = 0 := by
  rw [executed, h, if_pos rfl]

theorem executed_of_apply {e : Effect} (h : m.step.machine = m.apply e) : m.executed = 1 := by
  have hne : m.ticks + 1 ≠ m.ticks := by bv_omega
  rw [executed, h, apply_ticks, if_neg hne]

/-- The machine counts what it executes, in a word. -/
theorem step_ticks (m : Machine) :
    m.step.machine.ticks = m.ticks + BitVec.ofNat 64 m.executed := by
  rcases m.step_machine with h | ⟨e, h⟩
  · rw [executed_of_unchanged h, h, BitVec.add_zero]
  · rw [executed_of_apply h, h, apply_ticks]
    rfl

theorem after_ticks (m : Machine) (k : Nat) :
    (m.after k).ticks = m.ticks + BitVec.ofNat 64 (m.executedIn k) := by
  induction k with
  | zero => exact (BitVec.add_zero _).symm
  | succ k ih => rw [after_succ, step_ticks, ih, executedIn_succ, BitVec.ofNat_add, BitVec.add_assoc]

/-- Steps that go on execute one instruction each. -/
theorem Continues.executedIn_eq {k : Nat} (h : m.Continues k) : m.executedIn k = k := by
  induction k with
  | zero => rfl
  | succ k ih =>
      obtain ⟨hbefore, hlast⟩ := continues_succ.1 h
      obtain ⟨i, e, -, -, -, hmachine⟩ := step_goes_on hlast
      rw [executedIn_succ, ih hbefore, executed_of_apply hmachine]

theorem Continues.ticks {k : Nat} (h : m.Continues k) :
    (m.after k).ticks = m.ticks + BitVec.ofNat 64 k := by
  rw [after_ticks, h.executedIn_eq]

theorem EndsAfter.unique {j k : Nat} (hj : m.EndsAfter j) (hk : m.EndsAfter k) : j = k := by
  rcases Nat.lt_trichotomy j k with hlt | heq | hgt
  · exact absurd (hk.continues j hlt) hj.ends
  · exact heq
  · exact absurd (hj.continues k hgt) hk.ends

/-- Within any number of steps a run goes on throughout or ends. -/
theorem continues_or_endsAfter (m : Machine) (k : Nat) :
    m.Continues k ∨ ∃ j < k, m.EndsAfter j := by
  induction k with
  | zero => exact Or.inl m.continues_zero
  | succ k ih =>
      rcases ih with hbefore | ⟨j, hj, hends⟩
      · by_cases hlast : (m.after k).step.result = .ok false
        · exact Or.inl (continues_succ.2 ⟨hbefore, hlast⟩)
        · exact Or.inr ⟨k, Nat.lt_succ_self k, hbefore, hlast⟩
      · exact Or.inr ⟨j, by omega, hends⟩

/-- How the last step of a run ends it. -/
def Ending.ofResult {ε : Type} : Except ε Bool → Ending ε
  | .ok _ => .finished
  | .error e => .failed e

/-- The records of the first `k` steps. -/
def eventsOf (m : Machine) (k : Nat) : List Event :=
  (List.range k).flatMap fun j => (m.after j).step.events

/-- The outcome of a run that ends after `k` steps. -/
def outcomeAt (m : Machine) (k : Nat) : Outcome Trap :=
  let o : Outcome Trap :=
    ⟨(m.after k).step.machine, m.eventsOf (k + 1), .ofResult (m.after k).step.result⟩
  { o with events := o.events ++ tellComplete o }

/-- The run of a machine comes to an end, with this outcome. -/
def RunsTo (m : Machine) (o : Outcome Trap) : Prop :=
  o.ending ≠ .outOfFuel ∧ ∃ fuel, m.run fuel = o

@[simp] theorem outcomeAt_machine (m : Machine) (k : Nat) :
    (m.outcomeAt k).machine = (m.after k).step.machine := rfl

@[simp] theorem outcomeAt_ending (m : Machine) (k : Nat) :
    (m.outcomeAt k).ending = .ofResult (m.after k).step.result := rfl

/-- The run of a machine comes to an end, with this outcome, and executes `n` instructions. The count
that the machine keeps is `n` only up to a word. -/
def RunsIn (m : Machine) (n : Nat) (o : Outcome Trap) : Prop :=
  ∃ k, m.EndsAfter k ∧ m.executedIn (k + 1) = n ∧ o = m.outcomeAt k

theorem Ending.ofResult_ne_outOfFuel {ε : Type} (r : Except ε Bool) :
    Ending.ofResult r ≠ .outOfFuel := by
  cases r <;> simp [Ending.ofResult]

theorem Ending.ofResult_eq_failed {ε : Type} {r : Except ε Bool} {e : ε}
    (h : Ending.ofResult r = .failed e) : r = .error e := by
  cases r with
  | ok done => cases h
  | error err =>
      cases h
      rfl

theorem eventsOf_succ (m : Machine) (k : Nat) :
    m.eventsOf (k + 1) = m.eventsOf k ++ (m.after k).step.events := by
  rw [eventsOf, eventsOf, List.range_succ, List.flatMap_append, List.flatMap_singleton]

/-- Steps that go on can be taken off the front of a run. -/
theorem Continues.runFrom_add {k : Nat} (h : m.Continues k) (fuel : Nat) (log : Array Event) :
    runFrom (k + fuel) log m = runFrom fuel (log ++ m.eventsOf k) (m.after k) := by
  induction k generalizing fuel with
  | zero => simp [eventsOf]
  | succ k ih =>
      obtain ⟨hbefore, hlast⟩ := continues_succ.1 h
      have hlog : log ++ m.eventsOf k ++ (m.after k).step.events = log ++ m.eventsOf (k + 1) := by
        apply Array.toList_inj.1
        simp [eventsOf_succ]
      rw [show k + 1 + fuel = k + (fuel + 1) by omega, ih hbefore, runFrom]
      simp only [hlast]
      rw [after_succ, hlog]

/-- A run that is cut off stands after as many steps as it had fuel. -/
theorem Continues.run_eq {fuel : Nat} (h : m.Continues fuel) :
    m.run fuel = ⟨m.after fuel, m.eventsOf fuel, .outOfFuel⟩ := by
  have hrun := h.runFrom_add 0 #[]
  rw [Nat.add_zero, runFrom] at hrun
  rw [run, hrun]
  simp [tellComplete]

/-- A run that ends has the same outcome with any fuel beyond the steps it takes. -/
theorem EndsAfter.run_eq {k fuel : Nat} (h : m.EndsAfter k) (hfuel : k < fuel) :
    m.run fuel = m.outcomeAt k := by
  obtain ⟨rest, rfl⟩ : ∃ rest, fuel = k + (rest + 1) := ⟨fuel - k - 1, by omega⟩
  have hrun := h.continues.runFrom_add (rest + 1) #[]
  rw [runFrom] at hrun
  rw [run, hrun, outcomeAt, eventsOf_succ]
  cases hresult : (m.after k).step.result with
  | error t => simp [Ending.ofResult]
  | ok done =>
      cases done with
      | true => simp [Ending.ofResult]
      | false => exact absurd hresult h.ends

theorem runsTo_iff {o : Outcome Trap} :
    m.RunsTo o ↔ ∃ k, m.EndsAfter k ∧ o = m.outcomeAt k := by
  constructor
  · rintro ⟨hending, fuel, rfl⟩
    rcases m.continues_or_endsAfter fuel with hcontinues | ⟨k, hk, hends⟩
    · rw [hcontinues.run_eq] at hending
      exact absurd rfl hending
    · exact ⟨k, hends, hends.run_eq hk⟩
  · rintro ⟨k, hends, rfl⟩
    exact ⟨Ending.ofResult_ne_outOfFuel _, k + 1, hends.run_eq (Nat.lt_succ_self k)⟩

/-- A run has one outcome. -/
theorem RunsTo.unique {o o' : Outcome Trap} (h : m.RunsTo o) (h' : m.RunsTo o') : o = o' := by
  obtain ⟨k, hk, rfl⟩ := runsTo_iff.1 h
  obtain ⟨k', hk', rfl⟩ := runsTo_iff.1 h'
  rw [hk.unique hk']

theorem RunsIn.unique {n n' : Nat} {o o' : Outcome Trap} (h : m.RunsIn n o)
    (h' : m.RunsIn n' o') : n = n' ∧ o = o' := by
  obtain ⟨k, hk, rfl, rfl⟩ := h
  obtain ⟨k', hk', rfl, rfl⟩ := h'
  rw [hk.unique hk']
  exact ⟨rfl, rfl⟩

theorem RunsIn.ticks {n : Nat} {o : Outcome Trap} (h : m.RunsIn n o) :
    o.machine.ticks = m.ticks + BitVec.ofNat 64 n := by
  obtain ⟨k, -, rfl, rfl⟩ := h
  rw [outcomeAt_machine, ← after_succ, after_ticks]

/-! ### Where runs stop -/

/-- A machine whose next step does not go on runs for that step only. -/
theorem runsTo_of_step (h : m.step.result ≠ .ok false) :
    ∃ o, m.RunsTo o ∧ o.machine = m.step.machine ∧ o.ending = .ofResult m.step.result :=
  ⟨m.outcomeAt 0, runsTo_iff.2 ⟨0, ⟨m.continues_zero, h⟩, rfl⟩, rfl, rfl⟩

/-- A stop ends the program again wherever the machine stays at it. -/
theorem step_apply_stop {i : Instruction} (hi : m.Fetches i) (h : m.effectOf i = .ok .stop) :
    (m.apply .stop).Fetches i ∧ i.op = .stop ∧
      (m.apply .stop).step.result = .ok true ∧
      (m.apply .stop).step.machine = { m.apply .stop with ticks := m.ticks + 1 + 1 } := by
  obtain ⟨dst, hdst, hyields⟩ := effectOf_eq_ok.1 h
  have hop : i.op = .stop := by
    cases hyields with
    | stop hop => exact hop
  have hfetches : (m.apply .stop).Fetches i := ⟨hi.nonneg, hi.found⟩
  have heffect : (m.apply .stop).effectOf i = .ok .stop :=
    effectOf_eq_ok.2 ⟨dst, hdst, .stop hop⟩
  refine ⟨hfetches, hop, ?_, ?_⟩
  · rw [hfetches.step_eq, execute_of_ok heffect]
    rfl
  · rw [hfetches.step_eq, execute_of_ok heffect]
    rfl

/-- `f` is where a run from `m` failed with the trap `t`: the trap names the place and the
instruction there, only steps that go on lead to `f`, and running on from `f` fails in the same way
and changes nothing. -/
structure FailsAt (m f : Machine) (t : Trap) : Prop where
  pc : t.pc = f.pc
  insn : t.fault ≠ .pcRange → f.Fetches t.insn
  reached : ∃ k, m.Continues k ∧ f = m.after k ∧ f.ticks = m.ticks + BitVec.ofNat 64 k
  again : ∃ o, f.RunsTo o ∧ o.machine = f ∧ o.ending = .failed t

/-- `f` is where a run finished: past the tape or at a stop, and running on from `f` finishes at
once and changes at most the ticks. -/
structure RestsAt (f : Machine) : Prop where
  place : (f.tape.size : Int) ≤ f.pc.toInt ∨ ∃ i, f.Fetches i ∧ i.op = .stop
  again : ∃ o, f.RunsTo o ∧ o.machine = { f with ticks := o.machine.ticks } ∧ o.ending = .finished

theorem EndsAfter.failsAt {k : Nat} {t : Trap} (h : m.EndsAfter k)
    (ht : (m.after k).step.result = .error t) : m.FailsAt (m.after k).step.machine t := by
  obtain ⟨hmachine, hpc, hplace⟩ := step_fails ht
  obtain ⟨o, ho, hfinal, hending⟩ := runsTo_of_step h.ends
  rw [hmachine]
  refine ⟨hpc, ?_, ⟨k, h.continues, rfl, h.continues.ticks⟩, o, ho, hfinal.trans hmachine, ?_⟩
  · intro hfault
    rcases hplace with ⟨-, hrange⟩ | ⟨hfetches, -⟩
    · exact absurd hrange hfault
    · exact hfetches
  · rw [hending, ht, Ending.ofResult]

theorem step_restsAt (h : m.step.result = .ok true) : m.step.machine.RestsAt := by
  rcases step_ends h with ⟨hdone, hmachine⟩ | ⟨i, hi, heffect, hmachine⟩
  · obtain ⟨o, ho, hfinal, hending⟩ := runsTo_of_step (m := m) (by simp [h])
    rw [hmachine] at hfinal ⊢
    refine ⟨Or.inl (of_decide_eq_true hdone), o, ho, ?_, ?_⟩
    · rw [hfinal]
    · rw [hending, h, Ending.ofResult]
  · obtain ⟨hfetches, hop, hresult, hstep⟩ := step_apply_stop hi heffect
    obtain ⟨o, ho, hfinal, hending⟩ := runsTo_of_step (m := m.apply .stop) (by simp [hresult])
    rw [hmachine]
    refine ⟨Or.inr ⟨i, hfetches, hop⟩, o, ho, ?_, ?_⟩
    · rw [hfinal, hstep]
    · rw [hending, hresult, Ending.ofResult]

/-- An instruction that fails changes nothing. A run that fails stops in the state that the steps
before the failing one lead to and is stuck there, and a run that finishes stays where it is. -/
theorem runs_stop_where_they_fail (m : Machine) :
    (∀ i f, (m.execute i).result = .error f → (m.execute i).machine = m) ∧
      ∀ o, m.RunsTo o →
        (∀ t, o.ending = .failed t → m.FailsAt o.machine t) ∧
          (o.ending = .finished → o.machine.RestsAt) := by
  refine ⟨fun i f h => (execute_of_result_error h).2, fun o ho => ?_⟩
  obtain ⟨k, hk, rfl⟩ := runsTo_iff.1 ho
  refine ⟨fun t ht => hk.failsAt (Ending.ofResult_eq_failed ht), fun hfinished => ?_⟩
  cases hresult : (m.after k).step.result with
  | error t =>
      rw [outcomeAt_ending, hresult] at hfinished
      cases hfinished
  | ok done =>
      cases done with
      | true => exact step_restsAt hresult
      | false => exact absurd hresult hk.ends

/-- Divides by a register that is zero, after one step. -/
def dividing : Machine := ofTape [.alu .mov ⟨1⟩ (.ofImm 5), .alu .div ⟨1⟩ (.ofReg ⟨0⟩)]

/-- Stops after one step. -/
def stopping : Machine := ofTape [.alu .mov ⟨1⟩ (.ofImm 5), .stop]

theorem dividing_and_stopping_runs :
    ((dividing.execute (.alu .div ⟨1⟩ (.ofReg ⟨0⟩))).result = .error .divisionByZero ∧
        (dividing.execute (.alu .div ⟨1⟩ (.ofReg ⟨0⟩))).machine = dividing) ∧
      (dividing.RunsTo (dividing.run 2) ∧
        dividing.FailsAt (dividing.run 2).machine
          ⟨1, .alu .div ⟨1⟩ (.ofReg ⟨0⟩), .divisionByZero⟩) ∧
      stopping.RunsTo (stopping.run 2) ∧ (stopping.run 2).machine.RestsAt := by
  have hdividing : dividing.RunsTo (dividing.run 2) := ⟨by decide, 2, rfl⟩
  have hstopping : stopping.RunsTo (stopping.run 2) := ⟨by decide, 2, rfl⟩
  refine ⟨⟨rfl, ?_⟩, ⟨hdividing, ?_⟩, hstopping, ?_⟩
  · exact (runs_stop_where_they_fail dividing).1 _ .divisionByZero rfl
  · exact ((runs_stop_where_they_fail dividing).2 _ hdividing).1 _ (by decide)
  · exact ((runs_stop_where_they_fail stopping).2 _ hstopping).2 (by decide)

end TapeMachine.Machine
