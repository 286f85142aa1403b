import Mathlib.Algebra.Group.Nat.Defs
import TapeMachine.Proofs.Resolve
import TapeMachine.Proofs.Runs

/-! Where jumps lead. A label operand is worth the displacement from where it is read, so a jump by
it arrives at the place of the label wherever it starts. A program that only jumps to labels
therefore never leaves its tape but at the end. -/

namespace TapeMachine.Machine

variable {m : Machine}

/-- A jump that is taken goes by the value of its offset. -/
theorem effectOf_jump {i : Instruction} {displacement : Word}
    (h : m.effectOf i = .ok (.jump displacement)) :
    i.op.kind = .jump ∧ m.valueOf i.off = .ok displacement := by
  obtain ⟨dst, -, hyields⟩ := effectOf_eq_ok.1 h
  cases hyields with
  | ja hop hoff => exact ⟨by rw [hop]; rfl, hoff⟩
  | taken hop _ hoff _ => exact ⟨by rw [hop]; rfl, hoff⟩

theorem valueOf_label {o : Operand} {value : Word} (hkind : o.kind = .label)
    (h : m.valueOf o = .ok value) :
    ∃ target, m.labels.get? o.label = some target ∧ value = BitVec.ofNat 64 target - m.pc - 1 := by
  rw [valueOf, hkind] at h
  cases htarget : m.labels.get? o.label with
  | none =>
      simp only [htarget] at h
      cases h
  | some target =>
      simp only [htarget] at h
      cases h
      exact ⟨target, rfl, rfl⟩

theorem valueOf_imm {o : Operand} {value : Word} (hkind : o.kind = .imm)
    (h : m.valueOf o = .ok value) : value = o.imm.signExtend 64 := by
  rw [valueOf, hkind] at h
  cases h
  rfl

/-- A jump to a label arrives at the place of the label. -/
theorem apply_jump_pc {i : Instruction} {displacement : Word}
    (hkind : i.off.kind = .label) (h : m.effectOf i = .ok (.jump displacement)) :
    ∃ target, m.labels.get? i.off.label = some target ∧
      (m.apply (.jump displacement)).pc = BitVec.ofNat 64 target := by
  obtain ⟨target, htarget, rfl⟩ := valueOf_label hkind (effectOf_jump h).2
  refine ⟨target, htarget, ?_⟩
  change m.pc + (BitVec.ofNat 64 target - m.pc - 1) + 1 = BitVec.ofNat 64 target
  bv_omega

/-- The program counter is at an instruction or at the end of the tape. -/
def OnTape (m : Machine) : Prop := 0 ≤ m.pc.toInt ∧ m.pc.toInt ≤ m.tape.size

/-- Places on the tape fit a word, labels are bound to places on it, and jumps go to labels only. -/
structure JumpsToLabels (m : Machine) : Prop where
  fits : m.tape.size < 2 ^ 63
  targets : ∀ name target, m.labels.get? name = some target → target ≤ m.tape.size
  jumps : ∀ i ∈ m.tape, i.op.kind = .jump → i.off.kind = .label

theorem ofNat_toInt {k : Nat} (h : k < 2 ^ 63) : (BitVec.ofNat 64 k).toInt = k := by
  rw [BitVec.toInt_ofNat', Int.bmod_eq_of_le] <;> omega

theorem Fetches.succ_toInt {i : Instruction} (hi : m.Fetches i) (hfits : m.tape.size < 2 ^ 63) :
    (m.pc + 1).toInt = m.pc.toInt + 1 := by
  have hlt := hi.lt_size
  have hpc := hi.toInt_eq
  have hone : (1 : Word).toInt = 1 := by decide
  rw [BitVec.toInt_add, hone, Int.bmod_eq_of_le] <;> omega

/-- On a short tape a jump by a number of 32 bits does not wrap around. -/
theorem Fetches.jump_toInt {i : Instruction} (hi : m.Fetches i) (hshort : m.tape.size < 2 ^ 31)
    (w : BitVec 32) : (m.pc + w.signExtend 64 + 1).toInt = m.pc.toInt + w.toInt + 1 := by
  have hlt := hi.lt_size
  have hpc := hi.toInt_eq
  have hback := w.le_toInt
  have hahead := w.toInt_lt
  have hone : (1 : Word).toInt = 1 := by decide
  have hwide : (w.signExtend 64).toInt = w.toInt := BitVec.toInt_signExtend_of_le (by decide)
  have hland : (m.pc + w.signExtend 64).toInt = m.pc.toInt + w.toInt := by
    rw [BitVec.toInt_add, hwide, Int.bmod_eq_of_le] <;> omega
  rw [BitVec.toInt_add, hland, hone, Int.bmod_eq_of_le] <;> omega

theorem Fetches.onTape_succ {i : Instruction} (hi : m.Fetches i) (hfits : m.tape.size < 2 ^ 63) :
    0 ≤ (m.pc + 1).toInt ∧ (m.pc + 1).toInt ≤ m.tape.size := by
  have hlt := hi.lt_size
  have hpc := hi.toInt_eq
  rw [hi.succ_toInt hfits]
  omega

theorem JumpsToLabels.onTape_apply (h : m.JumpsToLabels) {i : Instruction} {e : Effect}
    (hi : m.Fetches i) (heffect : m.effectOf i = .ok e) (hon : m.OnTape) : (m.apply e).OnTape := by
  rw [OnTape, apply_tape]
  cases e with
  | stop => exact hon
  | jump displacement =>
      have hkind : i.off.kind = .label :=
        h.jumps i (Array.mem_of_getElem? hi.found) (effectOf_jump heffect).1
      obtain ⟨target, htarget, hpc⟩ := apply_jump_pc hkind heffect
      have hle := h.targets _ _ htarget
      have hfits := h.fits
      rw [hpc, ofNat_toInt (by omega)]
      omega
  | write slot value => exact hi.onTape_succ h.fits
  | store cell value => exact hi.onTape_succ h.fits
  | next => exact hi.onTape_succ h.fits

/-- A step of a program that jumps to labels only stays on the tape. -/
theorem JumpsToLabels.onTape_step (h : m.JumpsToLabels) (hon : m.OnTape) :
    m.step.machine.OnTape := by
  cases hresult : m.step.result with
  | error t =>
      rw [(step_fails hresult).1]
      exact hon
  | ok done =>
      cases done with
      | false =>
          obtain ⟨i, e, hi, heffect, -, hmachine⟩ := step_goes_on hresult
          rw [hmachine]
          exact h.onTape_apply hi heffect hon
      | true =>
          rcases step_ends hresult with ⟨-, hmachine⟩ | ⟨i, hi, heffect, hmachine⟩
          · rw [hmachine]
            exact hon
          · rw [hmachine]
            exact h.onTape_apply hi heffect hon

theorem JumpsToLabels.after (h : m.JumpsToLabels) (n : Nat) : (m.after n).JumpsToLabels := by
  refine ⟨?_, ?_, ?_⟩
  · rw [after_tape]
    exact h.fits
  · rw [after_tape, after_labels]
    exact h.targets
  · rw [after_tape]
    exact h.jumps

theorem JumpsToLabels.onTape_after (h : m.JumpsToLabels) (hon : m.OnTape) (n : Nat) :
    (m.after n).OnTape := by
  induction n with
  | zero => exact hon
  | succ n ih =>
      rw [after_succ]
      exact (h.after n).onTape_step ih

/-- On the tape no step finds the program counter out of range. -/
theorem OnTape.step_ne_pcRange (hon : m.OnTape) {t : Trap} (h : m.step.result = .error t) :
    t.fault ≠ .pcRange := by
  obtain ⟨-, -, hplace⟩ := step_fails h
  rcases hplace with ⟨hneg, -⟩ | ⟨-, heffect⟩
  · exact absurd hon.1 (Int.not_le.2 hneg)
  · intro hfault
    rw [hfault] at heffect
    exact m.effectOf_ne_pcRange _ heffect

/-- The instruction at the program counter is a jump, and it is taken. -/
def TakesJump (m : Machine) (i : Instruction) : Prop :=
  m.Fetches i ∧ ∃ displacement, m.effectOf i = .ok (.jump displacement)

theorem jumpsToLabels_of_entries {es : List Entry} (h : ofEntries es = .ok m)
    (hfits : m.tape.size < 2 ^ 63)
    (hjumps : ∀ i, .insn i ∈ es → i.op.kind = .jump → i.off.kind = .label) : m.JumpsToLabels := by
  obtain ⟨hok, rfl⟩ := ofEntries_ok h
  refine ⟨hfits, fun name target htarget => ?_, fun i hi => hjumps i ?_⟩
  · simpa [start] using resolve_target_le hok htarget
  · have htape : i ∈ (resolve es).tape := by simpa [start] using hi
    rw [(resolve_ok hok).2.2] at htape
    exact Entry.mem_instructions.1 htape

/-- A taken jump to a label arrives behind the instructions that precede its declaration. -/
theorem TakesJump.arrives {es : List Entry} {r : Machine} {i : Instruction}
    (h : ofEntries es = .ok m) (hfits : m.tape.size < 2 ^ 63) (hlabels : r.labels = m.labels)
    (hkind : i.off.kind = .label) (hi : r.TakesJump i) :
    ∃ before after, es = before ++ .label i.off.label :: after ∧
      r.step.machine.pc.toInt = (Entry.instructions before).length := by
  obtain ⟨hok, rfl⟩ := ofEntries_ok h
  obtain ⟨hfetches, displacement, heffect⟩ := hi
  obtain ⟨target, htarget, hpc⟩ := apply_jump_pc hkind heffect
  rw [hlabels] at htarget
  have hle : target ≤ (start (resolve es).tape (resolve es).labels).tape.size := by
    simpa [start] using resolve_target_le hok htarget
  obtain ⟨before, after, hes, hplace⟩ := (resolve_get?_eq_some hok).1 htarget
  refine ⟨before, after, hes, ?_⟩
  rw [hfetches.step_eq, execute_of_ok heffect, hpc, ofNat_toInt (by omega), hplace]

/-- In a program that resolves and whose places fit a word, every taken jump to a label arrives
behind the instructions that precede the declaration of the label. If all jumps of the program go to
labels, then from any state with the program counter on the tape no number of steps leads off the
tape. -/
theorem label_jumps_stay_on_tape (es : List Entry) (m : Machine) (hm : ofEntries es = .ok m)
    (hfits : m.tape.size < 2 ^ 63) :
    ((∀ i, .insn i ∈ es → i.op.kind = .jump → i.off.kind = .label) →
      ∀ s : Snapshot, 0 ≤ s.pc.toInt → s.pc.toInt ≤ m.tape.size → ∀ n : Nat,
        0 ≤ ((m.resume s).after n).pc.toInt ∧ ((m.resume s).after n).pc.toInt ≤ m.tape.size ∧
          ∀ t, ((m.resume s).after n).step.result = .error t → t.fault ≠ .pcRange) ∧
      ∀ (s : Snapshot) (n : Nat) (i : Instruction), i.off.kind = .label →
        ((m.resume s).after n).TakesJump i →
          ∃ before after, es = before ++ .label i.off.label :: after ∧
            ((m.resume s).after (n + 1)).pc.toInt = (Entry.instructions before).length := by
  constructor
  · intro hjumps s hlow hhigh n
    have hformed : (m.resume s).JumpsToLabels := by
      obtain ⟨fits, targets, jumps⟩ := jumpsToLabels_of_entries hm hfits hjumps
      exact ⟨fits, targets, jumps⟩
    have hon := hformed.onTape_after ⟨hlow, hhigh⟩ n
    have hend := hon.2
    rw [after_tape] at hend
    exact ⟨hon.1, hend, fun t => hon.step_ne_pcRange⟩
  · intro s n i hkind hi
    rw [after_succ]
    exact hi.arrives hm hfits (by rw [after_labels, resume_labels]) hkind

/-- A loop from the second instruction to a label at the start, left by a jump to the end. -/
def loopEntries : List Entry :=
  [.label (text "top"),
    .insn (.jump .eq ⟨0⟩ (.ofImm 1) (.ofLabel (text "end"))),
    .insn (.ja (.ofLabel (text "top"))),
    .label (text "end")]

def loopMachine : Machine := start (resolve loopEntries).tape (resolve loopEntries).labels

/-- At the jump back to the start. -/
def atLoopEnd : Snapshot := { loopMachine.snapshot with pc := 1 }

theorem loopMachine_stays_on_tape :
    ofEntries loopEntries = .ok loopMachine ∧
      (∀ n : Nat, 0 ≤ ((loopMachine.resume atLoopEnd).after n).pc.toInt ∧
        ((loopMachine.resume atLoopEnd).after n).pc.toInt ≤ loopMachine.tape.size ∧
          ∀ t, ((loopMachine.resume atLoopEnd).after n).step.result = .error t →
            t.fault ≠ .pcRange) ∧
      (loopMachine.resume atLoopEnd).TakesJump (.ja (.ofLabel (text "top"))) ∧
      ∃ before after, loopEntries = before ++ .label (text "top") :: after ∧
        ((loopMachine.resume atLoopEnd).after 1).pc.toInt = (Entry.instructions before).length := by
  have hm : ofEntries loopEntries = .ok loopMachine := ofEntries_eq_ok (by decide)
  have hstay := label_jumps_stay_on_tape loopEntries loopMachine hm (by decide)
  have hjumps : ∀ i, .insn i ∈ loopEntries → i.op.kind = .jump → i.off.kind = .label := by
    intro i hi _
    simp only [loopEntries, List.mem_cons, Entry.insn.injEq, reduceCtorEq, List.not_mem_nil,
      or_false, false_or] at hi
    rcases hi with rfl | rfl
    · rfl
    · rfl
  have htakes : (loopMachine.resume atLoopEnd).TakesJump (.ja (.ofLabel (text "top"))) :=
    ⟨⟨by decide, by decide⟩, -2, rfl⟩
  exact ⟨hm, hstay.1 hjumps atLoopEnd (by decide) (by decide), htakes,
    hstay.2 atLoopEnd 0 _ rfl htakes⟩

end TapeMachine.Machine
