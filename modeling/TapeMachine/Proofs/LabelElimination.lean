import Mathlib.Algebra.Group.Nat.Defs
import TapeMachine.Proofs.Execution
import TapeMachine.Proofs.Resolve

/-! Programs without labels. A label is worth the displacement from the instruction that uses it,
so on a tape of less than `2 ^ 31` instructions every label can be written as a number instead. The
machine with labels and the machine with numbers then run in lockstep from any state. -/

namespace TapeMachine

/-- An operand of the instruction at place `i`, with a declared label replaced by the displacement
it stands for there. -/
def Operand.displaced (labels : Bindings Nat) (i : Nat) (o : Operand) : Operand :=
  match o.kind, labels.get? o.label with
  | .label, some target => .ofImm (BitVec.ofInt 32 (target - i - 1))
  | _, _ => o

/-- The instruction at place `i` with its declared labels replaced. -/
def Instruction.displaced (labels : Bindings Nat) (i : Nat) (insn : Instruction) : Instruction :=
  { insn with
    src := insn.src.displaced labels i
    addr := insn.addr.displaced labels i
    off := insn.off.displaced labels i }

/-- A tape with the declared labels of every instruction replaced. -/
def flatTape (labels : Bindings Nat) (tape : List Instruction) : List Instruction :=
  tape.mapIdx (Instruction.displaced labels)

namespace Operand

theorem displaced_of_kind_ne (labels : Bindings Nat) (i : Nat) {o : Operand}
    (hkind : o.kind ≠ .label) : o.displaced labels i = o := by
  rw [displaced]
  split
  · exact absurd ‹_› hkind
  · rfl

theorem displaced_of_bound {labels : Bindings Nat} {o : Operand} {target : Nat} (i : Nat)
    (hkind : o.kind = .label) (hbound : labels.get? o.label = some target) :
    o.displaced labels i = .ofImm (BitVec.ofInt 32 (target - i - 1)) := by
  rw [displaced, hkind, hbound]

theorem displaced_of_unbound {labels : Bindings Nat} {o : Operand} (i : Nat)
    (hbound : labels.get? o.label = none) : o.displaced labels i = o := by
  rw [displaced, hbound]
  split
  · cases ‹none = some _›
  · rfl

end Operand

namespace Machine

/-- A displacement on a short tape survives being cut to 32 bits. -/
theorem displacement_signExtend {target : Nat} {pc : Word} (htarget : target < 2 ^ 31)
    (hpc : pc.toNat < 2 ^ 31) :
    (BitVec.ofInt 32 (target - pc.toNat - 1)).signExtend 64 = BitVec.ofNat 64 target - pc - 1 := by
  apply BitVec.eq_of_toInt_eq
  have hcut : (BitVec.ofInt 32 (target - pc.toNat - 1)).toInt = target - pc.toNat - 1 := by
    rw [BitVec.toInt_ofInt, Int.bmod_eq_of_le] <;> omega
  have hfrom : pc.toInt = pc.toNat :=
    BitVec.toInt_eq_toNat_of_lt (by omega)
  have hto : (BitVec.ofNat 64 target).toInt = target := by
    rw [BitVec.toInt_ofNat', Int.bmod_eq_of_le] <;> omega
  have hone : (1 : Word).toInt = 1 := by decide
  have hback : (BitVec.ofNat 64 target - pc).toInt = target - pc.toNat := by
    rw [BitVec.toInt_sub, hto, hfrom, Int.bmod_eq_of_le] <;> omega
  rw [BitVec.toInt_signExtend_of_le (by decide), hcut, BitVec.toInt_sub, hback, hone,
    Int.bmod_eq_of_le] <;> omega

/-- `f` is the machine `m` with numbers in place of labels. -/
structure Flattens (f m : Machine) : Prop where
  tape : f.tape = m.tape.mapIdx (Instruction.displaced m.labels)
  labels : f.labels = {}
  snapshot : f.snapshot = m.snapshot
  short : m.tape.size < 2 ^ 31
  targets : ∀ name target, m.labels.get? name = some target → target ≤ m.tape.size

namespace Flattens

variable {f m : Machine}

theorem registers (h : f.Flattens m) : f.registers = m.registers :=
  congrArg Snapshot.registers h.snapshot

theorem memory (h : f.Flattens m) : f.memory = m.memory := congrArg Snapshot.memory h.snapshot

theorem pc (h : f.Flattens m) : f.pc = m.pc := congrArg Snapshot.pc h.snapshot

theorem size (h : f.Flattens m) : f.tape.size = m.tape.size := by
  rw [h.tape, Array.size_mapIdx]

theorem isDone (h : f.Flattens m) : f.isDone = m.isDone := by
  rw [Machine.isDone, Machine.isDone, h.size, h.pc]

theorem fetches (h : f.Flattens m) {i : Instruction} (hi : m.Fetches i) :
    f.Fetches (i.displaced m.labels m.pc.toNat) where
  nonneg := h.pc ▸ hi.nonneg
  found := by rw [h.pc, h.tape, Array.getElem?_mapIdx, hi.found, Option.map_some]

theorem readReg (h : f.Flattens m) (r : Register) : f.readReg r = m.readReg r := by
  rw [Machine.readReg, Machine.readReg, h.registers]

theorem valueOf (h : f.Flattens m) (hpc : m.pc.toNat < m.tape.size) (o : Operand) :
    f.valueOf (o.displaced m.labels m.pc.toNat) = m.valueOf o := by
  cases hkind : o.kind with
  | label =>
      cases hbound : m.labels.get? o.label with
      | some target =>
          have htarget := h.targets _ _ hbound
          have hshort := h.short
          rw [Operand.displaced_of_bound _ hkind hbound]
          simp only [Machine.valueOf, hkind, hbound, Operand.ofImm]
          rw [displacement_signExtend (by omega) (by omega)]
      | none =>
          rw [Operand.displaced_of_unbound _ hbound]
          simp only [Machine.valueOf, hkind, hbound, h.labels, Bindings.get?_empty]
  | _ =>
      rw [Operand.displaced_of_kind_ne _ _ (by rw [hkind]; exact Operand.Kind.noConfusion)]
      simp only [Machine.valueOf, hkind, h.readReg]

theorem cellOf (h : f.Flattens m) (hpc : m.pc.toNat < m.tape.size) (o : Operand) (width : Width) :
    f.cellOf (o.displaced m.labels m.pc.toNat) width = m.cellOf o width := by
  rw [Machine.cellOf, Machine.cellOf, h.valueOf hpc]

theorem effectOf (h : f.Flattens m) (hpc : m.pc.toNat < m.tape.size) (i : Instruction) :
    f.effectOf (i.displaced m.labels m.pc.toNat) = m.effectOf i := by
  simp only [Machine.effectOf, Instruction.displaced, h.valueOf hpc, h.cellOf hpc, h.registers,
    h.memory]

/-- Both machines take the same step, and where it fails the trap differs in the replaced labels
of the instruction only. -/
theorem step (h : f.Flattens m) :
    f.step.machine.Flattens m.step.machine ∧
      f.step.result = m.step.result.mapError fun t =>
        { t with insn := t.insn.displaced m.labels t.pc.toNat } := by
  rcases m.step_cases with hdone | ⟨hdone, hneg⟩ | ⟨i, hi⟩
  · rw [step_of_isDone hdone, step_of_isDone (h.isDone.trans hdone)]
    exact ⟨h, rfl⟩
  · rw [step_of_neg hdone hneg, step_of_neg (h.isDone.trans hdone) (h.pc ▸ hneg), h.pc]
    exact ⟨h, rfl⟩
  · rw [hi.step_eq, (h.fetches hi).step_eq, h.pc]
    have heffect := h.effectOf hi.lt_size i
    cases hm : m.effectOf i with
    | error fault =>
        rw [execute_of_error hm, execute_of_error (heffect.trans hm)]
        exact ⟨h, rfl⟩
    | ok e =>
        rw [execute_of_ok hm, execute_of_ok (heffect.trans hm)]
        refine ⟨⟨?_, ?_, snapshot_apply_congr h.snapshot e, ?_, ?_⟩, rfl⟩
        · simp only [apply_tape, apply_labels, h.tape]
        · rw [apply_labels, h.labels]
        · rw [apply_tape]
          exact h.short
        · rw [apply_tape, apply_labels]
          exact h.targets

theorem after (h : f.Flattens m) (n : Nat) : (f.after n).Flattens (m.after n) := by
  induction n with
  | zero => exact h
  | succ n ih =>
      rw [after_succ, after_succ]
      exact ih.step.1

end Flattens

/-- Two machines that agree in everything an execution can change, and in what the next step does;
a trap of the first names the instruction of the second with its labels replaced. -/
structure AgreesUpTo (labels : Bindings Nat) (flat labelled : Machine) : Prop where
  snapshot : flat.snapshot = labelled.snapshot
  isDone : flat.isDone = labelled.isDone
  result : flat.step.result = labelled.step.result.mapError fun t =>
    { t with insn := t.insn.displaced labels t.pc.toNat }

/-- A program that resolves, started in any state, and its tape with every label replaced by a
displacement agree after any number of steps; if one fails at the next step, both fail with the same
fault at the same place. -/
theorem labels_run_as_displacements (es : List Entry) (hok : (resolve es).error = none)
    (hshort : (resolve es).tape.length < 2 ^ 31) (s : Snapshot) :
    ∃ m, ofEntries es = .ok m ∧
      ∀ n : Nat, AgreesUpTo (resolve es).labels
        (((ofTape (flatTape (resolve es).labels (resolve es).tape)).resume s).after n)
        ((m.resume s).after n) := by
  refine ⟨_, ofEntries_eq_ok hok, fun n => ?_⟩
  have hstart :
      ((ofTape (flatTape (resolve es).labels (resolve es).tape)).resume s).Flattens
        ((start (resolve es).tape (resolve es).labels).resume s) := by
    refine ⟨?_, rfl, rfl, hshort, fun name target => resolve_target_le hok⟩
    exact List.mapIdx_toArray.symm
  have hrun := hstart.after n
  refine ⟨hrun.snapshot, hrun.isDone, ?_⟩
  have hresult := hrun.step.2
  rw [after_labels] at hresult
  exact hresult

/-- Labels as the source of a move, the address of a store, and both operands of a jump, before and
behind the instructions that use them. -/
def crossReferences : List Entry :=
  [.label (text "top"),
    .insn (.alu .mov ⟨1⟩ (.ofLabel (text "end"))),
    .insn (.store .h (.ofLabel (text "top")) (.ofReg ⟨1⟩)),
    .insn (.jump .ne ⟨1⟩ (.ofLabel (text "end")) (.ofLabel (text "top"))),
    .label (text "end")]

theorem crossReferences_run_as_displacements :
    (resolve crossReferences).error = none ∧ (resolve crossReferences).tape.length < 2 ^ 31 ∧
      flatTape (resolve crossReferences).labels (resolve crossReferences).tape =
        [.alu .mov ⟨1⟩ (.ofImm 2), .store .h (.ofImm (-2)) (.ofReg ⟨1⟩),
          .jump .ne ⟨1⟩ (.ofImm 0) (.ofImm (-3))] ∧
      ∃ m, ofEntries crossReferences = .ok m ∧
        ∀ n : Nat, AgreesUpTo (resolve crossReferences).labels
          (((ofTape (flatTape (resolve crossReferences).labels
            (resolve crossReferences).tape)).resume (ofTape []).snapshot).after n)
          ((m.resume (ofTape []).snapshot).after n) :=
  ⟨by decide, by decide, by decide,
    labels_run_as_displacements crossReferences (by decide) (by decide) (ofTape []).snapshot⟩

end Machine

end TapeMachine
