import Mathlib.Algebra.Group.Nat.Defs
import TapeMachine.Proofs.JumpTargets
import TapeMachine.Proofs.LabelElimination

/-! Labelled code can be placed anywhere. A label is worth the distance from where it is read, so
instructions put before a program move its labels and its program counter by the same amount, and
every operand keeps its value. Behind them the program runs as it does alone, for as long as it does
not jump before its own first instruction. -/

namespace TapeMachine

namespace Resolution

theorem bindLabels_insns (count : Nat) (table : Bindings Nat) (lead : List Instruction)
    (es : List Entry) :
    bindLabels count table (lead.map .insn ++ es) = bindLabels (count + lead.length) table es := by
  induction lead generalizing count with
  | nil => rfl
  | cons i lead ih =>
      rw [List.map_cons, List.cons_append, bindLabels, ih, List.length_cons]
      congr 1
      omega

/-- Labels counted from `k` on are bound `k` places further. -/
theorem bindLabels_add (k count : Nat) (table : Bindings Nat) (es : List Entry) :
    bindLabels (count + k) (table.map (· + k)) es =
      ((bindLabels count table es).1.map (· + k), (bindLabels count table es).2) := by
  induction es generalizing count table with
  | nil => rfl
  | cons e es ih =>
      cases e with
      | insn i =>
          rw [bindLabels, bindLabels, ← ih]
          congr 1
          omega
      | label name =>
          rw [bindLabels, bindLabels, Bindings.contains_map]
          by_cases hempty : name.isEmpty
          · rw [if_pos hempty, if_pos hempty]
          · cases hbound : table.contains name with
            | true => simp only [hempty, if_true, if_false, Bool.false_eq_true]
            | false =>
                simp only [hempty, if_false, Bool.false_eq_true]
                rw [← Bindings.map_insert, ih]

theorem stripLabels_map (f : Nat → Nat) (table : Bindings Nat) (es : List Entry) :
    stripLabels (table.map f) es = stripLabels table es := by
  have hmissing (i : Instruction) : missing? (table.map f) i = missing? table i := by
    simp only [missing?, Bindings.contains_map]
  induction es with
  | nil => rfl
  | cons e es ih =>
      cases e with
      | label name => exact ih
      | insn i => rw [stripLabels, stripLabels, hmissing, ih]

theorem stripLabels_insns (table : Bindings Nat) {lead : List Instruction}
    (hlead : ∀ i ∈ lead, i.labelRefs = []) (es : List Entry) :
    stripLabels table (lead.map .insn ++ es) =
      (lead ++ (stripLabels table es).1, (stripLabels table es).2) := by
  induction lead with
  | nil => rfl
  | cons i lead ih =>
      rw [List.forall_mem_cons] at hlead
      have hmissing : missing? table i = none := by
        rw [missing?, hlead.1, List.find?_nil]
      rw [List.map_cons, List.cons_append, stripLabels, hmissing, ih hlead.2]
      rfl

end Resolution

open Resolution

/-- Instructions without labels before a program that resolves move its labels. -/
theorem resolve_insns_append {es : List Entry} (hok : (resolve es).error = none)
    {lead : List Instruction} (hlead : ∀ i ∈ lead, i.labelRefs = []) :
    resolve (lead.map .insn ++ es) =
      { labels := (resolve es).labels.map (· + lead.length)
        tape := lead ++ (resolve es).tape
        error := none } := by
  obtain ⟨hbind, hstrip, htape⟩ := resolve_ok hok
  have hmoved : bindLabels 0 {} (lead.map .insn ++ es) =
      ((resolve es).labels.map (· + lead.length), none) := by
    have hadd := bindLabels_add lead.length 0 {} es
    rw [hbind] at hadd
    rw [bindLabels_insns]
    exact hadd
  have hrest : (stripLabels (resolve es).labels es).1 = (resolve es).tape :=
    (congrArg Resolution.tape (resolve_of_bindLabels hbind)).symm
  rw [resolve_of_bindLabels hmoved, stripLabels_insns _ hlead, stripLabels_map, hstrip, hrest]

namespace Machine

/-! ### Machines apart -/

/-- `b` is `k` places further on its tape than `a`, with the same registers, memory and ticks. -/
structure StandsAhead (k : Nat) (b a : Machine) : Prop where
  registers : b.registers = a.registers
  memory : b.memory = a.memory
  ticks : b.ticks = a.ticks
  pc : b.pc.toInt = a.pc.toInt + k

/-- `b` has the code of `a` behind `k` instructions of its own, and that code jumps by numbers and
to labels only. -/
structure Carries (k : Nat) (b a : Machine) : Prop where
  size : b.tape.size = a.tape.size + k
  found : ∀ j, b.tape[j + k]? = a.tape[j]?
  labels : b.labels = a.labels.map (· + k)
  short : a.tape.size + k < 2 ^ 31
  targets : ∀ name target, a.labels.get? name = some target → target ≤ a.tape.size
  jumps : ∀ i ∈ a.tape, i.op.kind = .jump → i.off.kind = .imm ∨ i.off.kind = .label

/-- A trap as it shows `k` places further. -/
def Trap.moved (k : Nat) (t : Trap) : Trap := { t with pc := t.pc + BitVec.ofNat 64 k }

/-- Through `n` steps `b` stays `k` places further than `a`, and every step ends alike in both. -/
structure RunsAhead (k n : Nat) (b a : Machine) : Prop where
  stands : ∀ j ≤ n, (b.after j).StandsAhead k (a.after j)
  results : ∀ j < n,
    (b.after j).step.result = (a.after j).step.result.mapError (Trap.moved k)

variable {k : Nat} {a b : Machine}

/-- The distance of the program counters, as they are stored. -/
theorem StandsAhead.pc_eq (h : b.StandsAhead k a) : b.pc = a.pc + BitVec.ofNat 64 k := by
  apply BitVec.eq_of_toInt_eq
  rw [BitVec.toInt_add, BitVec.toInt_ofNat', Int.add_bmod_bmod, ← h.pc, BitVec.toInt_bmod_cancel]

theorem StandsAhead.toNat_pc (h : b.StandsAhead k a) (hnonneg : 0 ≤ a.pc.toInt) :
    b.pc.toNat = a.pc.toNat + k := by
  have hpc := h.pc
  have ha := toInt_eq_toNat_of_nonneg hnonneg
  have hb : b.pc.toInt = b.pc.toNat := toInt_eq_toNat_of_nonneg (by omega)
  omega

namespace Carries

theorem isDone (hcode : b.Carries k a) (h : b.StandsAhead k a) : b.isDone = a.isDone := by
  have hsize := hcode.size
  have hpc := h.pc
  rw [Machine.isDone, Machine.isDone, decide_eq_decide]
  omega

theorem fetches (hcode : b.Carries k a) (h : b.StandsAhead k a) {i : Instruction}
    (hi : a.Fetches i) : b.Fetches i where
  nonneg := by
    have hpc := h.pc
    have hnonneg := hi.nonneg
    omega
  found := by rw [h.toNat_pc hi.nonneg, hcode.found, hi.found]

theorem valueOf (hcode : b.Carries k a) (h : b.StandsAhead k a) (o : Operand) :
    b.valueOf o = a.valueOf o := by
  have hread : b.readReg o.reg = a.readReg o.reg := by
    rw [readReg, readReg, h.registers]
  cases hkind : o.kind with
  | label =>
      simp only [Machine.valueOf, hkind, hcode.labels, Bindings.get?_map, h.pc_eq]
      cases a.labels.get? o.label with
      | none => rfl
      | some target =>
          -- The label and the program counter are both `k` places further.
          have hdistance : BitVec.ofNat 64 (target + k) - (a.pc + BitVec.ofNat 64 k) - 1 =
              BitVec.ofNat 64 target - a.pc - 1 := by
            rw [BitVec.ofNat_add]
            bv_omega
          simp only [Option.map_some, hdistance]
  | _ => simp only [Machine.valueOf, hkind, hread]

theorem effectOf (hcode : b.Carries k a) (h : b.StandsAhead k a) (i : Instruction) :
    b.effectOf i = a.effectOf i := by
  simp only [Machine.effectOf, Machine.cellOf, hcode.valueOf h, h.registers, h.memory]

/-- The displacement of a jump fits 32 bits. -/
theorem displacement (hcode : b.Carries k a) {i : Instruction} {displacement : Word}
    (hi : a.Fetches i) (heffect : a.effectOf i = .ok (.jump displacement)) :
    ∃ w : BitVec 32, displacement = w.signExtend 64 := by
  obtain ⟨hjump, hvalue⟩ := effectOf_jump heffect
  rcases hcode.jumps i (Array.mem_of_getElem? hi.found) hjump with hkind | hkind
  · exact ⟨_, valueOf_imm hkind hvalue⟩
  · obtain ⟨target, htarget, hdistance⟩ := valueOf_label hkind hvalue
    have hle := hcode.targets _ _ htarget
    have hshort := hcode.short
    have hlt := hi.lt_size
    refine ⟨BitVec.ofInt 32 (target - a.pc.toNat - 1), ?_⟩
    rw [displacement_signExtend (by omega) (by omega), hdistance]

theorem apply (hcode : b.Carries k a) (h : b.StandsAhead k a) {i : Instruction} {e : Effect}
    (hi : a.Fetches i) (heffect : a.effectOf i = .ok e) :
    (b.apply e).StandsAhead k (a.apply e) := by
  have hshort := hcode.short
  have hsize := hcode.size
  have hpc := h.pc
  have hi' := hcode.fetches h hi
  have hnext : (b.pc + 1).toInt = (a.pc + 1).toInt + k := by
    rw [hi.succ_toInt (by omega), hi'.succ_toInt (by omega)]
    omega
  have hticks : b.ticks + 1 = a.ticks + 1 := by rw [h.ticks]
  cases e with
  | write slot value => exact ⟨by simp only [Machine.apply, h.registers], h.memory, hticks, hnext⟩
  | store cell value => exact ⟨h.registers, by simp only [Machine.apply, h.memory], hticks, hnext⟩
  | next => exact ⟨h.registers, h.memory, hticks, hnext⟩
  | stop => exact ⟨h.registers, h.memory, hticks, hpc⟩
  | jump displacement =>
      obtain ⟨w, rfl⟩ := hcode.displacement hi heffect
      have hland : (b.pc + w.signExtend 64 + 1).toInt = (a.pc + w.signExtend 64 + 1).toInt + k := by
        rw [hi.jump_toInt (by omega), hi'.jump_toInt (by omega)]
        omega
      exact ⟨h.registers, h.memory, hticks, hland⟩

/-- From a place that is not before the tape both machines take the same step. -/
theorem step (hcode : b.Carries k a) (h : b.StandsAhead k a) (hnonneg : 0 ≤ a.pc.toInt) :
    b.step.machine.StandsAhead k a.step.machine ∧
      b.step.result = a.step.result.mapError (Trap.moved k) := by
  rcases a.step_cases with hdone | ⟨-, hneg⟩ | ⟨i, hi⟩
  · rw [step_of_isDone hdone, step_of_isDone ((hcode.isDone h).trans hdone)]
    exact ⟨h, rfl⟩
  · exact absurd hnonneg (Int.not_le.2 hneg)
  · rw [hi.step_eq, (hcode.fetches h hi).step_eq, h.pc_eq]
    have heffect := hcode.effectOf h i
    cases ha : a.effectOf i with
    | error f =>
        rw [execute_of_error ha, execute_of_error (heffect.trans ha)]
        exact ⟨h, rfl⟩
    | ok e =>
        rw [execute_of_ok ha, execute_of_ok (heffect.trans ha)]
        exact ⟨hcode.apply h hi ha, rfl⟩

theorem after (hcode : b.Carries k a) (n : Nat) : (b.after n).Carries k (a.after n) := by
  obtain ⟨size, found, labels, short, targets, jumps⟩ := hcode
  constructor <;> simpa only [after_tape, after_labels]

theorem standsAhead_after (hcode : b.Carries k a) (h : b.StandsAhead k a) {n : Nat}
    (hnonneg : ∀ j < n, 0 ≤ (a.after j).pc.toInt) :
    (b.after n).StandsAhead k (a.after n) := by
  induction n with
  | zero => exact h
  | succ n ih =>
      have hbefore := ih fun j hj => hnonneg j (by omega)
      rw [after_succ, after_succ]
      exact ((hcode.after n).step hbefore (hnonneg n (by omega))).1

theorem runsAhead (hcode : b.Carries k a) (h : b.StandsAhead k a) {n : Nat}
    (hnonneg : ∀ j < n, 0 ≤ (a.after j).pc.toInt) : b.RunsAhead k n a := by
  have hstands : ∀ j ≤ n, (b.after j).StandsAhead k (a.after j) := fun j hj =>
    hcode.standsAhead_after h fun i hi => hnonneg i (by omega)
  exact ⟨hstands, fun j hj => ((hcode.after j).step (hstands j (by omega)) (hnonneg j hj)).2⟩

end Carries

theorem standsAhead_resume (hk : k < 2 ^ 63) (registers : Vector Word registerCount)
    (memory : Vector Word memorySize) (ticks : Word) :
    (b.resume ⟨registers, memory, BitVec.ofNat 64 k, ticks⟩).StandsAhead k
      (a.resume ⟨registers, memory, 0, ticks⟩) := by
  refine ⟨rfl, rfl, rfl, ?_⟩
  change (BitVec.ofNat 64 k).toInt = (0 : Word).toInt + k
  rw [ofNat_toInt hk]
  simp

/-- Behind instructions without labels a program is carried as it is. -/
theorem carries_of_resolve {es : List Entry} (hok : (resolve es).error = none)
    (hjumps : ∀ i, .insn i ∈ es → i.op.kind = .jump → i.off.kind = .imm ∨ i.off.kind = .label)
    {lead : List Instruction} (hlead : ∀ i ∈ lead, i.labelRefs = [])
    (hshort : lead.length + es.length < 2 ^ 31) :
    (start (resolve (lead.map .insn ++ es)).tape (resolve (lead.map .insn ++ es)).labels).Carries
      lead.length (start (resolve es).tape (resolve es).labels) := by
  have htape := (resolve_ok hok).2.2
  have hlength : (resolve es).tape.length ≤ es.length := by
    rw [htape]
    exact List.length_filterMap_le _ _
  rw [resolve_insns_append hok hlead]
  refine ⟨?_, fun j => ?_, rfl, ?_, fun name target htarget => ?_, fun i hi => hjumps i ?_⟩
  · simp [start, Nat.add_comm]
  · simp [start, List.getElem?_append_right]
  · simp only [start, List.size_toArray]
    omega
  · simpa [start] using resolve_target_le hok htarget
  · have hmem : i ∈ (resolve es).tape := by simpa [start] using hi
    rw [htape] at hmem
    exact Entry.mem_instructions.1 hmem

theorem Carries.resume (h : b.Carries k a) (s s' : Snapshot) :
    (b.resume s').Carries k (a.resume s) :=
  ⟨h.size, h.found, h.labels, h.short, h.targets, h.jumps⟩

/-- A program that resolves and jumps by numbers and to labels only runs behind any instructions
without labels as it does at the start of the tape, from the same registers, memory and ticks, for
as long as its program counter is not before its first instruction. -/
theorem labelled_code_runs_at_any_place (es : List Entry) (hok : (resolve es).error = none)
    (hjumps : ∀ i, .insn i ∈ es → i.op.kind = .jump → i.off.kind = .imm ∨ i.off.kind = .label)
    (lead : List Instruction) (hlead : ∀ i ∈ lead, i.labelRefs = [])
    (hshort : lead.length + es.length < 2 ^ 31) (registers : Vector Word registerCount)
    (memory : Vector Word memorySize) (ticks : Word) :
    ∃ a b, ofEntries es = .ok a ∧ ofEntries (lead.map .insn ++ es) = .ok b ∧
      ∀ n : Nat, (∀ j < n, 0 ≤ ((a.resume ⟨registers, memory, 0, ticks⟩).after j).pc.toInt) →
        (b.resume ⟨registers, memory, BitVec.ofNat 64 lead.length, ticks⟩).RunsAhead lead.length n
          (a.resume ⟨registers, memory, 0, ticks⟩) := by
  have hmoved : (resolve (lead.map .insn ++ es)).error = none := by
    rw [resolve_insns_append hok hlead]
  refine ⟨_, _, ofEntries_eq_ok hok, ofEntries_eq_ok hmoved, fun n hnonneg => ?_⟩
  have hcode := carries_of_resolve hok hjumps hlead hshort
  exact (hcode.resume _ _).runsAhead
    (standsAhead_resume (by omega) registers memory ticks) hnonneg

/-- Counts a register down, with a label as the value that is taken off, as the address that the
count goes to, and as the place to go back to. -/
def countdownEntries : List Entry :=
  [.label (text "top"),
    .insn (.alu .add ⟨1⟩ (.ofLabel (text "top"))),
    .insn (.store .dw (.ofLabel (text "end")) (.ofReg ⟨1⟩)),
    .insn (.jump .ne ⟨1⟩ (.ofImm 0) (.ofLabel (text "top"))),
    .label (text "end")]

/-- Instructions to put before the countdown; the second would divide by zero. -/
def countdownLead : List Instruction := [.stop, .alu .div ⟨1⟩ (.ofImm 0), .ja (.ofImm (-1))]

/-- The countdown is to start from five. -/
def countdownRegisters : Vector Word registerCount := (Vector.replicate registerCount 0).set 1 5

theorem countdown_runs_at_any_place :
    (∀ i ∈ countdownLead, i.labelRefs = []) ∧
      ∃ a b, ofEntries countdownEntries = .ok a ∧
        ofEntries (countdownLead.map .insn ++ countdownEntries) = .ok b ∧
        ∀ n : Nat,
          (b.resume ⟨countdownRegisters, Vector.replicate memorySize 0, 3, 0⟩).RunsAhead 3 n
            (a.resume ⟨countdownRegisters, Vector.replicate memorySize 0, 0, 0⟩) := by
  have hjumps : ∀ i, .insn i ∈ countdownEntries → i.op.kind = .jump → i.off.kind = .label := by
    intro i hi hop
    simp only [countdownEntries, List.mem_cons, Entry.insn.injEq, reduceCtorEq, List.not_mem_nil,
      or_false, false_or] at hi
    rcases hi with rfl | rfl | rfl
    · cases hop
    · cases hop
    · rfl
  have hlead : ∀ i ∈ countdownLead, i.labelRefs = [] := by decide
  obtain ⟨a, b, ha, hb, hruns⟩ := labelled_code_runs_at_any_place countdownEntries (by decide)
    (fun i hi hop => Or.inr (hjumps i hi hop)) countdownLead hlead (by decide) countdownRegisters
    (Vector.replicate memorySize 0) 0
  refine ⟨hlead, a, b, ha, hb, fun n => hruns n fun j _ => ?_⟩
  have hfits : a.tape.size < 2 ^ 63 := by
    rw [(ofEntries_ok ha).2]
    decide
  obtain ⟨fits, targets, jumps⟩ := jumpsToLabels_of_entries ha hfits hjumps
  have hformed : JumpsToLabels
      (a.resume ⟨countdownRegisters, Vector.replicate memorySize 0, 0, 0⟩) :=
    ⟨fits, targets, jumps⟩
  have hstart : 0 ≤ (0 : Word).toInt := by decide
  exact (hformed.onTape_after ⟨hstart, Int.natCast_nonneg _⟩ j).1

end Machine

end TapeMachine
