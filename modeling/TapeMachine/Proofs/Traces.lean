import TapeMachine.Proofs.TickLimit

/-! What a verbose machine tells. Every step on the tape dispatches the instruction there, and tells
so before it executes it; a jump that is taken is told after it. So the records of a run are those of
its dispatches, one after the other, and each dispatch is where the one before it leads. A silent
machine tells nothing and runs in the same way. -/

namespace TapeMachine.Machine

variable {m : Machine}

/-- An instruction that is dispatched: its place, and where it leads if it is a jump that is taken. -/
structure Dispatch where
  pc : Word
  insn : Instruction
  target : Option Word

/-- What is told of a dispatch. -/
def Dispatch.records (d : Dispatch) : List Event := .exec d.pc d.insn :: d.target.toList.map .jump

/-- The place after a dispatch. -/
def Dispatch.next (d : Dispatch) : Word := d.target.getD (d.pc + 1)

/-- The instruction is a jump, on a condition that holds or on none, and leads to `target`. -/
def JumpsTo (m : Machine) (i : Instruction) (target : Word) : Prop :=
  ∃ dst displacement, i.dst.slot? = some dst ∧ m.valueOf i.off = .ok displacement ∧
    target = m.pc + displacement + 1 ∧
    (i.op = .ja ∨ ∃ cond b, i.op = .jump cond ∧ m.valueOf i.src = .ok b ∧
      cond.holds (m.registers.get dst) b = true)

/-- The dispatch is that of the instruction at the program counter. -/
structure Dispatches (m : Machine) (d : Dispatch) : Prop where
  pc : d.pc = m.pc
  insn : m.Fetches d.insn
  target : ∀ t, d.target = some t ↔ m.JumpsTo d.insn t

theorem jumpsTo_iff {i : Instruction} {target : Word} :
    m.JumpsTo i target ↔
      ∃ displacement, m.effectOf i = .ok (.jump displacement) ∧
        target = m.pc + displacement + 1 := by
  constructor
  · rintro ⟨dst, displacement, hdst, hoff, htarget, hja | ⟨cond, b, hop, hsrc, hholds⟩⟩
    · exact ⟨displacement, effectOf_eq_ok.2 ⟨dst, hdst, .ja hja hoff⟩, htarget⟩
    · exact ⟨displacement, effectOf_eq_ok.2 ⟨dst, hdst, .taken hop hsrc hoff hholds⟩, htarget⟩
  · rintro ⟨displacement, heffect, htarget⟩
    obtain ⟨dst, hdst, hyields⟩ := effectOf_eq_ok.1 heffect
    cases hyields with
    | ja hop hoff => exact ⟨dst, displacement, hdst, hoff, htarget, Or.inl hop⟩
    | taken hop hsrc hoff hholds =>
        exact ⟨dst, displacement, hdst, hoff, htarget, Or.inr ⟨_, _, hop, hsrc, hholds⟩⟩

theorem Dispatches.unique {d d' : Dispatch} (h : m.Dispatches d) (h' : m.Dispatches d') :
    d = d' := by
  obtain ⟨pc, insn, target⟩ := d
  obtain ⟨pc', insn', target'⟩ := d'
  obtain rfl : insn = insn' := Option.some.inj (h.insn.found.symm.trans h'.insn.found)
  obtain rfl : target = target' := Option.ext fun t => (h.target t).trans (h'.target t).symm
  exact congrArg (Dispatch.mk · insn target) (h.pc.trans h'.pc.symm)

/-- Where an effect leads if it is a jump. -/
def jumpTarget? (m : Machine) : Effect → Option Word
  | .jump displacement => some (m.pc + displacement + 1)
  | _ => none

theorem jumpTarget?_eq_some {e : Effect} {target : Word} :
    m.jumpTarget? e = some target ↔
      ∃ displacement, e = .jump displacement ∧ target = m.pc + displacement + 1 := by
  cases e <;> simp [jumpTarget?, eq_comm]

/-- Whatever an instruction does, a dispatch goes on to its target or to the next place. -/
theorem apply_pc {e : Effect} (h : e ≠ .stop) :
    (m.apply e).pc = (m.jumpTarget? e).getD (m.pc + 1) := by
  cases e with
  | stop => exact absurd rfl h
  | _ => rfl

/-- The dispatch of an instruction that takes effect. -/
theorem dispatches_of_ok {i : Instruction} {e : Effect} (hi : m.Fetches i)
    (h : m.effectOf i = .ok e) : m.Dispatches ⟨m.pc, i, m.jumpTarget? e⟩ := by
  refine ⟨rfl, hi, fun t => ?_⟩
  rw [jumpsTo_iff, h, jumpTarget?_eq_some]
  simp only [Except.ok.injEq]

/-- The dispatch of an instruction that fails. -/
theorem dispatches_of_error {i : Instruction} {f : Fault} (hi : m.Fetches i)
    (h : m.effectOf i = .error f) : m.Dispatches ⟨m.pc, i, none⟩ := by
  refine ⟨rfl, hi, fun t => ?_⟩
  simp [jumpsTo_iff, h]

theorem tellJump_of_verbose (h : m.verbose = true) (e : Effect) :
    m.tellJump e = (m.jumpTarget? e).toList.map .jump := by
  cases e with
  | jump displacement => simp [tellJump, jumpTarget?, tell, h]
  | _ => rfl

/-- A step on the tape tells its dispatch. -/
theorem Fetches.step_events {i : Instruction} (hi : m.Fetches i) (hv : m.verbose = true) :
    ∃ d, m.Dispatches d ∧ m.step.events = d.records := by
  rw [hi.step_eq]
  cases heffect : m.effectOf i with
  | error f =>
      refine ⟨_, dispatches_of_error hi heffect, ?_⟩
      rw [execute_of_error heffect, tell, if_pos hv]
      rfl
  | ok e =>
      refine ⟨_, dispatches_of_ok hi heffect, ?_⟩
      rw [execute_of_ok heffect, tell, if_pos hv, tellJump_of_verbose hv]
      rfl

/-- A step off the tape tells nothing. -/
theorem step_events_off_tape (h : ∀ i, ¬m.Fetches i) : m.step.events = [] := by
  rcases m.step_cases with hdone | ⟨hdone, hneg⟩ | ⟨i, hi⟩
  · rw [step_of_isDone hdone]
  · rw [step_of_neg hdone hneg]
  · exact absurd hi (h i)

theorem step_events_of_silent (h : m.verbose = false) : m.step.events = [] := by
  have htell : ∀ e, m.tell e = [] := fun e => by rw [tell, h, if_neg Bool.false_ne_true]
  have htellJump : ∀ e, m.tellJump e = [] := fun e => by
    cases e with
    | jump displacement => exact htell _
    | _ => rfl
  rcases m.step_cases with hdone | ⟨hdone, hneg⟩ | ⟨i, hi⟩
  · rw [step_of_isDone hdone]
  · rw [step_of_neg hdone hneg]
  · rw [hi.step_eq]
    cases heffect : m.effectOf i with
    | error f => rw [execute_of_error heffect, htell]
    | ok e => rw [execute_of_ok heffect, htell, htellJump, List.append_nil]

/-- A step that goes on leads to where its dispatch goes. -/
theorem Dispatches.step_pc {d : Dispatch} (h : m.Dispatches d) (hstep : m.step.result = .ok false) :
    m.step.machine.pc = d.next := by
  obtain ⟨i, e, hi, heffect, hne, hmachine⟩ := step_goes_on hstep
  rw [h.unique (dispatches_of_ok hi heffect), hmachine, apply_pc hne]
  rfl

theorem step_machine_verbose (m : Machine) : m.step.machine.verbose = m.verbose := by
  rcases m.step_machine with h | ⟨e, h⟩
  · rw [h]
  · rw [h]
    cases e <;> rfl

@[simp] theorem after_verbose (m : Machine) (n : Nat) : (m.after n).verbose = m.verbose := by
  induction n with
  | zero => rfl
  | succ n ih => rw [after_succ, step_machine_verbose, ih]

/-- The dispatches are those of the first `k` steps, in order. -/
def DispatchedIn (m : Machine) (k : Nat) (ds : List Dispatch) : Prop :=
  ∀ j d, ds[j]? = some d ↔ j < k ∧ (m.after j).Dispatches d

theorem DispatchedIn.concat {ds : List Dispatch} (h : m.DispatchedIn ds.length ds) {d : Dispatch}
    (hd : (m.after ds.length).Dispatches d) : m.DispatchedIn (ds.length + 1) (ds ++ [d]) := by
  intro j d'
  rcases Nat.lt_trichotomy j ds.length with hlt | rfl | hgt
  · rw [List.getElem?_append_left hlt, h, and_congr_left]
    exact fun _ => ⟨fun _ => by omega, fun _ => hlt⟩
  · rw [List.getElem?_concat_length, Option.some.injEq]
    constructor
    · rintro rfl
      exact ⟨by omega, hd⟩
    · exact fun hd' => hd.unique hd'.2
  · rw [List.getElem?_eq_none (by rw [List.length_append, List.length_singleton]; omega)]
    simp only [reduceCtorEq, false_iff, not_and]
    intro hj
    omega

/-- A step off the tape dispatches nothing. -/
theorem DispatchedIn.off_tape {k : Nat} {ds : List Dispatch} (h : m.DispatchedIn k ds)
    (hoff : ∀ i, ¬(m.after k).Fetches i) : m.DispatchedIn (k + 1) ds := by
  intro j d
  rw [h]
  refine and_congr_left fun hd => ⟨fun hj => by omega, fun hj => ?_⟩
  rcases Nat.lt_succ_iff_lt_or_eq.mp hj with hlt | rfl
  · exact hlt
  · exact absurd hd.insn (hoff _)

/-- Steps that go on dispatch one instruction each. -/
theorem Continues.dispatches {k : Nat} (h : m.Continues k) (hv : m.verbose = true) :
    ∃ ds, ds.length = k ∧ m.DispatchedIn k ds ∧ m.eventsOf k = ds.flatMap Dispatch.records := by
  induction k with
  | zero => exact ⟨[], rfl, fun j d => by simp, rfl⟩
  | succ k ih =>
      obtain ⟨hbefore, hlast⟩ := continues_succ.1 h
      obtain ⟨ds, rfl, hds, hevents⟩ := ih hbefore
      obtain ⟨i, e, hi, -⟩ := step_goes_on hlast
      obtain ⟨d, hd, hstep⟩ := hi.step_events (by rw [after_verbose, hv])
      refine ⟨ds ++ [d], List.length_append, hds.concat hd, ?_⟩
      rw [eventsOf_succ, hevents, hstep, List.flatMap_append, List.flatMap_singleton]

/-- Each dispatch is where the one before it leads. -/
theorem DispatchedIn.pc_succ {k : Nat} {ds : List Dispatch} (h : m.EndsAfter k)
    (hds : m.DispatchedIn (k + 1) ds) {j : Nat} {d d' : Dispatch} (hd : ds[j]? = some d)
    (hd' : ds[j + 1]? = some d') : d'.pc = d.next := by
  obtain ⟨-, hdispatch⟩ := (hds j d).1 hd
  obtain ⟨hj, hdispatch'⟩ := (hds (j + 1) d').1 hd'
  rw [hdispatch'.pc, after_succ]
  exact hdispatch.step_pc (h.continues j (by omega))

/-- How many dispatches there are beyond what is executed: one, if the last of them failed. -/
def Ending.unticked : Ending Trap → Nat
  | .failed t => if t.fault = .pcRange then 0 else 1
  | _ => 0

/-- The last step executes its dispatch, or it is the one that failed. -/
theorem Fetches.executed_add_unticked {i : Instruction} (hi : m.Fetches i) :
    m.executed + (Ending.ofResult m.step.result).unticked = 1 := by
  cases heffect : m.effectOf i with
  | error f =>
      have hfault : f ≠ .pcRange := fun hf => m.effectOf_ne_pcRange i (hf ▸ heffect)
      have hstep : m.step = ⟨m, m.tell (.exec m.pc i), .error ⟨m.pc, i, f⟩⟩ := by
        rw [hi.step_eq, execute_of_error heffect]
        rfl
      rw [executed_of_unchanged (by rw [hstep]), hstep]
      simp [Ending.ofResult, Ending.unticked, hfault]
  | ok e =>
      have hmachine : m.step.machine = m.apply e := by rw [hi.step_eq, execute_of_ok heffect]
      rw [executed_of_apply hmachine, hi.step_eq, execute_of_ok heffect]
      rfl

theorem executed_add_unticked_off_tape (h : ∀ i, ¬m.Fetches i) :
    m.executed + (Ending.ofResult m.step.result).unticked = 0 := by
  rcases m.step_cases with hdone | ⟨hdone, hneg⟩ | ⟨i, hi⟩
  · rw [executed_of_unchanged (by rw [step_of_isDone hdone]), step_of_isDone hdone]
    rfl
  · rw [executed_of_unchanged (by rw [step_of_neg hdone hneg]), step_of_neg hdone hneg]
    rfl
  · exact absurd hi (h i)

/-- The dispatches of a run that ends, and how many they are. -/
theorem EndsAfter.dispatches {k : Nat} (h : m.EndsAfter k) (hv : m.verbose = true) :
    ∃ ds, m.DispatchedIn (k + 1) ds ∧ m.eventsOf (k + 1) = ds.flatMap Dispatch.records ∧
      ds.length = m.executedIn (k + 1) + (m.outcomeAt k).ending.unticked := by
  obtain ⟨ds, rfl, hds, hevents⟩ := h.continues.dispatches hv
  rw [executedIn_succ, h.continues.executedIn_eq, Nat.add_assoc, outcomeAt_ending, eventsOf_succ,
    hevents]
  by_cases hfetches : ∃ i, (m.after ds.length).Fetches i
  · obtain ⟨i, hi⟩ := hfetches
    obtain ⟨d, hd, hstep⟩ := hi.step_events (by rw [after_verbose, hv])
    refine ⟨ds ++ [d], hds.concat hd, ?_, ?_⟩
    · rw [hstep, List.flatMap_append, List.flatMap_singleton]
    · rw [hi.executed_add_unticked, List.length_append, List.length_singleton]
  · have hoff : ∀ i, ¬(m.after ds.length).Fetches i := not_exists.1 hfetches
    refine ⟨ds, hds.off_tape hoff, ?_, ?_⟩
    · rw [step_events_off_tape hoff, List.append_nil]
    · rw [executed_add_unticked_off_tape hoff, Nat.add_zero]

/-! ### Verbose and silent runs -/

theorem after_with_verbose (m : Machine) (v : Bool) (n : Nat) :
    after { m with verbose := v } n = { m.after n with verbose := v } := by
  induction n with
  | zero => rfl
  | succ n ih => rw [after_succ, after_succ, ih, (step_verbose (m.after n) v).1]

theorem EndsAfter.with_verbose {k : Nat} (h : m.EndsAfter k) (v : Bool) :
    EndsAfter { m with verbose := v } k := by
  refine ⟨fun j hj => ?_, ?_⟩
  · rw [after_with_verbose, (step_verbose _ v).2]
    exact h.continues j hj
  · rw [after_with_verbose, (step_verbose _ v).2]
    exact h.ends

theorem eventsOf_of_silent (h : m.verbose = false) (k : Nat) : m.eventsOf k = [] := by
  rw [eventsOf, List.flatMap_eq_nil_iff]
  exact fun j _ => step_events_of_silent (by rw [after_verbose, h])

/-- A run that ends closes with a record of its end, if the machine tells what it does. -/
theorem outcomeAt_events (m : Machine) (k : Nat) :
    (m.outcomeAt k).events = m.eventsOf (k + 1) ++
      (m.after k).step.machine.tell (.complete (m.outcomeAt k).machine.pc
        (m.outcomeAt k).machine.ticks (m.outcomeAt k).ending.error?) := by
  rw [outcomeAt, tellComplete]
  cases (m.after k).step.result <;> rfl

/-- A silent machine comes to the same end and tells nothing. -/
theorem outcomeAt_silent (m : Machine) (k : Nat) :
    outcomeAt { m with verbose := false } k =
      ⟨{ (m.outcomeAt k).machine with verbose := false }, [], (m.outcomeAt k).ending⟩ := by
  have hafter := after_with_verbose m false k
  obtain ⟨hmachine, hresult⟩ := step_verbose (m.after k) false
  have hevents : (outcomeAt { m with verbose := false } k).events = [] := by
    rw [outcomeAt_events, eventsOf_of_silent rfl, hafter, hmachine]
    rfl
  have hfinal : (outcomeAt { m with verbose := false } k).machine =
      { (m.outcomeAt k).machine with verbose := false } := by
    rw [outcomeAt_machine, hafter, hmachine, outcomeAt_machine]
  have hending : (outcomeAt { m with verbose := false } k).ending = (m.outcomeAt k).ending := by
    rw [outcomeAt_ending, hafter, hresult, outcomeAt_ending]
  rw [← hevents, ← hfinal, ← hending]

/-- A record of a dispatch, as opposed to one of a jump or of an end. -/
def Event.isExec : Event → Bool
  | .exec _ _ => true
  | _ => false

theorem countP_records (ds : List Dispatch) :
    (ds.flatMap Dispatch.records).countP Event.isExec = ds.length := by
  induction ds with
  | nil => rfl
  | cons d ds ih =>
      have hone : d.records.countP Event.isExec = 1 := by
        obtain ⟨pc, insn, target⟩ := d
        cases target <;> rfl
      rw [List.flatMap_cons, List.countP_append, hone, ih, List.length_cons, Nat.add_comm]

/-- What is told of a run: the records of its dispatches and one of its end. The dispatches are those
of all its steps, each is where the one before it leads, and their records are as many as the ticks
of the run, and one more if an instruction failed. -/
structure Tells (m : Machine) (o : Outcome Trap) (ds : List Dispatch) : Prop where
  events : o.events = ds.flatMap Dispatch.records ++
    [.complete o.machine.pc o.machine.ticks o.ending.error?]
  dispatched : ∃ k, m.EndsAfter k ∧ m.DispatchedIn (k + 1) ds
  next : ∀ j d d', ds[j]? = some d → ds[j + 1]? = some d' → d'.pc = d.next
  count : ∃ n, m.RunsIn n o ∧ o.machine.ticks = m.ticks + BitVec.ofNat 64 n ∧
    o.events.countP Event.isExec = n + o.ending.unticked

/-- A verbose machine tells the whole of a run that ends, and a silent one nothing; apart from that
both run alike. -/
theorem verbose_runs_tell_all {o : Outcome Trap} (hv : m.verbose = true) (h : m.RunsTo o) :
    (∃ ds, m.Tells o ds) ∧
      RunsTo { m with verbose := false } ⟨{ o.machine with verbose := false }, [], o.ending⟩ := by
  obtain ⟨k, hk, rfl⟩ := runsTo_iff.1 h
  obtain ⟨ds, hds, hevents, hcount⟩ := hk.dispatches hv
  have hend : (m.outcomeAt k).events = ds.flatMap Dispatch.records ++
      [.complete (m.outcomeAt k).machine.pc (m.outcomeAt k).machine.ticks
        (m.outcomeAt k).ending.error?] := by
    rw [outcomeAt_events, hevents, tell, step_machine_verbose, after_verbose, if_pos hv]
  have hruns : m.RunsIn (m.executedIn (k + 1)) (m.outcomeAt k) := ⟨k, hk, rfl, rfl⟩
  refine ⟨⟨ds, hend, ⟨k, hk, hds⟩, fun j d d' => hds.pc_succ hk, _, hruns, hruns.ticks, ?_⟩, ?_⟩
  · rw [hend, List.countP_append, countP_records]
    exact hcount
  · exact runsTo_iff.2 ⟨k, hk.with_verbose false, (outcomeAt_silent m k).symm⟩

/-- Jumps over one instruction, and then to a place before the tape. -/
def straying : Machine :=
  { ofTape [.alu .add ⟨0⟩ (.ofImm 1), .jump .eq ⟨0⟩ (.ofImm 1) (.ofImm 1), .stop,
      .ja (.ofImm (-9))] with
    verbose := true }

/-- Divides by zero after a jump that is not taken. -/
def passing : Machine :=
  { ofTape [.jump .ne ⟨0⟩ (.ofImm 0) (.ofImm 5), .alu .div ⟨0⟩ (.ofImm 0)] with verbose := true }

theorem straying_and_passing_tell_all :
    (straying.run 4).events =
        [.exec 0 (.alu .add ⟨0⟩ (.ofImm 1)), .exec 1 (.jump .eq ⟨0⟩ (.ofImm 1) (.ofImm 1)), .jump 3,
          .exec 3 (.ja (.ofImm (-9))), .jump (-5),
          .complete (-5) 3 (some ⟨-5, {}, .pcRange⟩)] ∧
      (∃ ds, straying.Tells (straying.run 4) ds) ∧
      (passing.run 2).events =
        [.exec 0 (.jump .ne ⟨0⟩ (.ofImm 0) (.ofImm 5)), .exec 1 (.alu .div ⟨0⟩ (.ofImm 0)),
          .complete 1 1 (some ⟨1, .alu .div ⟨0⟩ (.ofImm 0), .divisionByZero⟩)] ∧
      ∃ ds, passing.Tells (passing.run 2) ds := by
  have hstraying : straying.RunsTo (straying.run 4) := ⟨by decide, 4, rfl⟩
  have hpassing : passing.RunsTo (passing.run 2) := ⟨by decide, 2, rfl⟩
  exact ⟨by decide, (verbose_runs_tell_all rfl hstraying).1, by decide,
    (verbose_runs_tell_all rfl hpassing).1⟩

end TapeMachine.Machine
