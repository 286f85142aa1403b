import TapeMachine.Expression.Eval
import TapeMachine.Proofs.CanonicalForm
import TapeMachine.Proofs.InstructionRules
import TapeMachine.Proofs.LabelBinding

/-! Which faults an assembled program can have. Its instructions are canonical and all its labels
are bound, so every operand has a value at every step of every run; what is left to go wrong is a
division by zero, an address past the memory, or a jump before the tape. -/

namespace TapeMachine

namespace Machine

/-- The faults that executing an instruction of an assembled program may have: division by zero at
a division or remainder, and a bad address at a load or store that is not of a byte. -/
def Fault.PermittedAt (i : Instruction) : Fault → Prop
  | divisionByZero => i.op = .alu .div ∨ i.op = .alu .mod
  | address _ width => width ≠ .b ∧ (i.op = .load width ∨ i.op = .store width)
  | _ => False

/-- Every instruction on the tape is canonical and refers to bound labels only. -/
def WellFormed (m : Machine) : Prop :=
  ∀ i ∈ m.tape, i.Canonical ∧ ∀ name ∈ i.labelRefs, m.labels.contains name = true

theorem valueOf_of_canonical {m : Machine} {o : Operand} (ho : o.Canonical)
    (hbound : o.kind = .label → m.labels.contains o.label = true) :
    ∃ value, m.valueOf o = .ok value := by
  cases ho with
  | imm value => exact ⟨_, rfl⟩
  | label name =>
      obtain ⟨target, htarget⟩ := Option.isSome_iff_exists.1 (hbound rfl)
      have hget : m.labels.get? name = some target := htarget
      refine ⟨BitVec.ofNat 64 target - m.pc - 1, ?_⟩
      simp only [valueOf, Operand.ofLabel, hget]
  | reg hr =>
      obtain ⟨slot, hslot⟩ := Register.isValid_iff.1 hr
      refine ⟨m.registers.get slot, ?_⟩
      simp only [valueOf, Operand.ofReg, readReg, hslot]
  | ind hr offset =>
      obtain ⟨slot, hslot⟩ := Register.isValid_iff.1 hr
      refine ⟨m.registers.get slot + offset.signExtend 64, ?_⟩
      simp only [valueOf, Operand.ofInd, readReg, hslot]
      rfl

/-- A byte is never past the memory. -/
theorem ne_byte_of_memorySize_le {width : Width} {a : Word}
    (h : memorySize ≤ (a.setWidth width.bits).toNat) : width ≠ .b := by
  rintro rfl
  have hbyte := (a.setWidth Width.b.bits).isLt
  rw [memorySize] at h
  simp only [Width.bits] at hbyte h
  omega

/-- Of the reasons to fail, a bad register or opcode and an operand without a value do not apply. -/
theorem effectOf_error {m : Machine} {i : Instruction} {f : Fault} (hi : i.Canonical)
    (hvalues : ∀ o ∈ i.operands, ∃ value, m.valueOf o = .ok value)
    (h : m.effectOf i = .error f) : f.PermittedAt i := by
  cases fails_of_effectOf h with
  | dst hdst =>
      obtain ⟨slot, hslot⟩ := Register.isValid_iff.1 hi.dst_isValid
      rw [hdst] at hslot
      cases hslot
  | opcode hop => cases hi <;> cases hop
  | operand ho herror =>
      obtain ⟨value, hvalue⟩ := hvalues _ ho
      rw [herror] at hvalue
      cases hvalue
  | divisor hdivides _ => exact hdivides
  | address haddress _ hlarge =>
      refine ⟨ne_byte_of_memorySize_le hlarge, ?_⟩
      unfold Instruction.address? at haddress
      split at haddress
      · rename_i hop
        cases haddress
        exact Or.inl hop
      · rename_i hop
        cases haddress
        exact Or.inr hop
      · cases haddress

theorem WellFormed.resume {m : Machine} (h : m.WellFormed) (s : Snapshot) :
    (m.resume s).WellFormed := h

theorem WellFormed.after {m : Machine} (h : m.WellFormed) (n : Nat) : (m.after n).WellFormed := by
  intro i hi
  rw [after_tape] at hi
  rw [after_labels]
  exact h i hi

/-- A step of a well-formed machine fails before the tape or with a permitted fault of the
instruction it is at. -/
theorem WellFormed.step_error {m : Machine} (h : m.WellFormed) {t : Trap}
    (ht : m.step.result = .error t) :
    (t.fault = .pcRange ∧ t.pc.toInt < 0) ∨
      (m.tape[t.pc.toNat]? = some t.insn ∧ t.fault.PermittedAt t.insn) := by
  rcases m.step_cases with hdone | ⟨hdone, hneg⟩ | ⟨i, hi⟩
  · rw [step_of_isDone hdone] at ht
    cases ht
  · rw [step_of_neg hdone hneg] at ht
    cases ht
    exact Or.inl ⟨rfl, hneg⟩
  · rw [hi.step_eq] at ht
    obtain ⟨hcanonical, hbound⟩ := h i (Array.mem_of_getElem? hi.found)
    have hvalues : ∀ o ∈ i.operands, ∃ value, m.valueOf o = .ok value := fun o ho =>
      valueOf_of_canonical (hcanonical.operands o ho) fun hkind =>
        hbound o.label (Instruction.mem_labelRefs ho hkind)
    cases heffect : m.effectOf i with
    | ok e =>
        rw [execute_of_ok heffect] at ht
        cases ht
    | error fault =>
        rw [execute_of_error heffect] at ht
        cases ht
        exact Or.inr ⟨hi.found, effectOf_error hcanonical hvalues heffect⟩

end Machine

namespace Assembler

open Machine

/-- The machine of an accepted source is well-formed. -/
theorem ofEntries_of_accepted {depth : Nat} {a : Assembler} {source : Text} {p : Program}
    (h : (parse depth a source).verdict = .accepted p) :
    ∃ m, ofEntries p.entries = .ok m ∧ m.WellFormed := by
  obtain ⟨hstatements, hmissing⟩ := parse_accepted h
  have hentries : p.entries = (parse depth a source).state.entries := by
    rw [Program.entries, hstatements, State.entries]
  have hok : (resolve p.entries).error = none := by
    rw [hentries, (parse_coherent depth a source).resolve_error, hmissing]
    rfl
  refine ⟨_, ofEntries_eq_ok hok, ?_⟩
  intro i hi
  have htape : i ∈ (resolve p.entries).tape := by simpa [start] using hi
  refine ⟨?_, fun name => resolve_labelRefs hok htape⟩
  rw [(resolve_ok hok).2.2, hentries] at htape
  exact parse_canonical depth a source i htape

/-- An accepted source makes a machine, and wherever a run of it from any state fails, the program
counter is before the tape, or the fault is a division by zero at a division or remainder, or a bad
address at a load or store that is not of a byte. -/
theorem accepted_run_faults (depth : Nat) (a : Assembler) (source : Text) (p : Program)
    (h : (parse depth a source).verdict = .accepted p) :
    ∃ m, ofEntries p.entries = .ok m ∧
      ∀ (s : Snapshot) (n : Nat) (t : Trap), ((m.resume s).after n).step.result = .error t →
        (t.fault = .pcRange ∧ t.pc.toInt < 0) ∨
          (m.tape[t.pc.toNat]? = some t.insn ∧ t.fault.PermittedAt t.insn) := by
  obtain ⟨m, hm, hformed⟩ := ofEntries_of_accepted h
  refine ⟨m, hm, fun s n t ht => ?_⟩
  have hfault := ((hformed.resume s).after n).step_error ht
  rwa [after_tape] at hfault

/-- A source whose runs can fail in all permitted ways: at the remainder, at the load, and before
the tape, where the conditional jump leads. -/
def riskySource : Text := text "mod r1 r2\nldxh r3 [r4-1]\nretry: jeq r3 0 -4\nja retry\n"

theorem riskySource_run_faults :
    ∃ p, (parse 0 (fresh Expression.interpret) riskySource).verdict = .accepted p ∧
      ∃ m, ofEntries p.entries = .ok m ∧
        ∀ (s : Snapshot) (n : Nat) (t : Trap), ((m.resume s).after n).step.result = .error t →
          (t.fault = .pcRange ∧ t.pc.toInt < 0) ∨
            (m.tape[t.pc.toNat]? = some t.insn ∧ t.fault.PermittedAt t.insn) :=
  ⟨⟨(parse 0 (fresh Expression.interpret) riskySource).state.statements.toList⟩, by decide,
    accepted_run_faults 0 (fresh Expression.interpret) riskySource _ (by decide)⟩

end Assembler

end TapeMachine
