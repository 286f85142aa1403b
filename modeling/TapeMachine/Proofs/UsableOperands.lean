import TapeMachine.Proofs.Resolve
import TapeMachine.Proofs.Runs

/-! When an instruction succeeds. An instruction lists the operands it uses, and executing it is a
case analysis of its own. The two agree: an instruction succeeds exactly if its destination is a
register, its opcode has a meaning, every operand that it lists can be used, it does not divide by
zero, and its address is in the memory. What it does not list has no influence, so a program whose
labels resolve never misses one. -/

namespace TapeMachine.Machine

variable {m : Machine} {i : Instruction}

/-- An operand that can be used: a number, a label of the table, or a register of the bank, with an
offset or without. -/
def Usable (m : Machine) (o : Operand) : Prop :=
  o.kind = .imm ∨ (o.kind = .label ∧ m.labels.contains o.label = true) ∨
    ((o.kind = .reg ∨ o.kind = .ind) ∧ o.reg.IsValid)

instance (m : Machine) (o : Operand) : Decidable (m.Usable o) := inferInstanceAs (Decidable (_ ∨ _))

theorem readReg_eq_ok {r : Register} {value : Word} :
    m.readReg r = .ok value ↔
      ∃ slot : Fin registerCount, r.index = slot.1 ∧ value = m.registers.get slot := by
  simp only [← Register.slot?_eq_some, readReg]
  cases r.slot? with
  | none => simp
  | some slot => simp [eq_comm]

theorem readReg_isOk_iff {r : Register} : (∃ value, m.readReg r = .ok value) ↔ r.IsValid := by
  rw [Register.isValid_iff, readReg]
  cases r.slot? with
  | none => simp
  | some slot => simp

/-- The operands that can be used are those that have a value. -/
theorem valueOf_isOk_iff {o : Operand} : (∃ value, m.valueOf o = .ok value) ↔ m.Usable o := by
  rw [valueOf, Usable]
  cases o.kind with
  | imm => simp
  | label =>
      rw [Bindings.contains]
      cases m.labels.get? o.label with
      | none => simp
      | some target => simp
  | reg => simp [readReg_isOk_iff]
  | ind =>
      simp only [reduceCtorEq, false_and, false_or, or_true, true_and, ← m.readReg_isOk_iff]
      constructor
      · rintro ⟨value, h⟩
        obtain ⟨base, hbase, _⟩ := except_bind_eq_ok.1 h
        exact ⟨base, hbase⟩
      · rintro ⟨base, hbase⟩
        exact ⟨_, except_bind_eq_ok.2 ⟨base, hbase, rfl⟩⟩
  | unassigned code => simp

theorem Usable.of_ok {o : Operand} {value : Word} (h : m.valueOf o = .ok value) : m.Usable o :=
  valueOf_isOk_iff.1 ⟨value, h⟩

theorem usable_ofReg {r : Register} : m.Usable (.ofReg r) ↔ r.IsValid := by
  simp [Usable, Operand.ofReg]

/-- A label is missing only if it is not in the table. -/
theorem valueOf_labelMissing {o : Operand} {name : Text}
    (h : m.valueOf o = .error (.labelMissing name)) :
    o.kind = .label ∧ o.label = name ∧ m.labels.contains name = false := by
  rw [valueOf] at h
  cases hkind : o.kind with
  | label =>
      cases hget : m.labels.get? o.label with
      | none =>
          simp only [hkind, hget] at h
          cases h
          exact ⟨rfl, rfl, by rw [Bindings.contains, hget, Option.isSome_none]⟩
      | some target =>
          simp only [hkind, hget] at h
          cases h
  | ind =>
      rw [hkind] at h
      rcases except_bind_eq_error.1 h with h | ⟨base, -, h⟩
      · rw [readReg_eq] at h
        split_ifs at h
        cases h
      · cases h
  | reg =>
      rw [hkind] at h
      dsimp only at h
      rw [readReg_eq] at h
      split_ifs at h
      cases h
  | imm =>
      rw [hkind] at h
      cases h
  | unassigned code =>
      rw [hkind] at h
      cases h

/-- What an instruction needs to be executed. -/
structure Admits (m : Machine) (i : Instruction) : Prop where
  dst : i.dst.IsValid
  op : i.op.kind ≠ .invalid
  operands : ∀ o ∈ i.operands, m.Usable o
  divisor : i.op = .alu .div ∨ i.op = .alu .mod → ∀ b, m.valueOf i.src = .ok b → b ≠ 0
  address : ∀ o width, i.address? = some (o, width) → ∀ a, m.valueOf o = .ok a →
    a.toInt % 2 ^ width.bits < memorySize

theorem lt_memorySize_of_cellOf {o : Operand} {width : Width} {cell : Fin memorySize} {a : Word}
    (h : m.cellOf o width = .ok cell) (ha : m.valueOf o = .ok a) :
    a.toInt % 2 ^ width.bits < memorySize := by
  obtain ⟨b, hb, hcell⟩ := cellOf_eq_ok.1 h
  obtain rfl : a = b := Except.ok.inj (ha.symm.trans hb)
  rw [← hcell]
  exact_mod_cast cell.2

theorem Usable.of_cellOf {o : Operand} {width : Width} {cell : Fin memorySize}
    (h : m.cellOf o width = .ok cell) : m.Usable o := by
  obtain ⟨a, ha, _⟩ := cellOf_eq_ok.1 h
  exact .of_ok ha

/-- Whatever takes effect has values for all its operands. -/
theorem Yields.usable {dst : Fin registerCount} {e : Effect} (hdst : i.dst.slot? = some dst)
    (h : m.Yields i dst e) : ∀ o ∈ i.operands, m.Usable o := by
  have hreg : m.Usable (.ofReg i.dst) := usable_ofReg.2 (Register.isValid_iff.2 ⟨dst, hdst⟩)
  cases h with
  | alu hop hsrc _ => simpa [Instruction.operands, hop, hreg] using Usable.of_ok hsrc
  | neg hop => simpa [Instruction.operands, hop] using hreg
  | lddw hop hsrc => simpa [Instruction.operands, hop, hreg] using Usable.of_ok hsrc
  | load hop hcell => simpa [Instruction.operands, hop, hreg] using Usable.of_cellOf hcell
  | store hop hcell hsrc =>
      simpa [Instruction.operands, hop, Usable.of_cellOf hcell] using Usable.of_ok hsrc
  | ja hop hoff => simpa [Instruction.operands, hop] using Usable.of_ok hoff
  | taken hop hsrc hoff _ =>
      simpa [Instruction.operands, hop, hreg, Usable.of_ok hsrc] using Usable.of_ok hoff
  | passed hop hsrc hoff _ =>
      simpa [Instruction.operands, hop, hreg, Usable.of_ok hsrc] using Usable.of_ok hoff
  | stop hop => simp [Instruction.operands, hop]

theorem Yields.divisor_ne_zero {dst : Fin registerCount} {e : Effect} (h : m.Yields i dst e)
    (hdivides : i.op = .alu .div ∨ i.op = .alu .mod) {b : Word} (hb : m.valueOf i.src = .ok b) :
    b ≠ 0 := by
  cases h with
  | @alu op c value hop hsrc hvalue =>
      rintro rfl
      obtain rfl : c = 0 := Except.ok.inj (hsrc.symm.trans hb)
      rw [AluOp.eval?_eq_none.2 ⟨by simpa [hop] using hdivides, rfl⟩] at hvalue
      cases hvalue
  | _ => simp_all

theorem Yields.address_lt {dst : Fin registerCount} {e : Effect} (h : m.Yields i dst e)
    {o : Operand} {width : Width} (haddress : i.address? = some (o, width)) {a : Word}
    (ha : m.valueOf o = .ok a) : a.toInt % 2 ^ width.bits < memorySize := by
  rw [Instruction.address?] at haddress
  cases h with
  | load hop hcell =>
      simp only [hop] at haddress
      cases haddress
      exact lt_memorySize_of_cellOf hcell ha
  | store hop hcell _ =>
      simp only [hop] at haddress
      cases haddress
      exact lt_memorySize_of_cellOf hcell ha
  | _ => simp_all

theorem Yields.admits {dst : Fin registerCount} {e : Effect} (hdst : i.dst.slot? = some dst)
    (h : m.Yields i dst e) : m.Admits i where
  dst := Register.isValid_iff.2 ⟨dst, hdst⟩
  op := by cases h <;> simp [*, Opcode.kind]
  operands := h.usable hdst
  divisor hdivides _ hb := h.divisor_ne_zero hdivides hb
  address _ _ haddress _ ha := h.address_lt haddress ha

/-- No reason to fail is left to an instruction that is admitted. -/
theorem Admits.not_fails (h : m.Admits i) (f : Fault) : ¬m.Fails i f := by
  intro hfails
  cases hfails with
  | dst hdst =>
      obtain ⟨slot, hslot⟩ := Register.isValid_iff.1 h.dst
      rw [hdst] at hslot
      cases hslot
  | opcode hop => exact h.op hop
  | operand ho herror =>
      obtain ⟨value, hvalue⟩ := valueOf_isOk_iff.2 (h.operands _ ho)
      rw [herror] at hvalue
      cases hvalue
  | divisor hdivides hzero => exact h.divisor hdivides 0 hzero rfl
  | address haddress ha hlarge =>
      have hsmall := h.address _ _ haddress _ ha
      rw [← toNat_setWidth_bits] at hsmall
      omega

theorem effectOf_isOk_iff : (∃ e, m.effectOf i = .ok e) ↔ m.Admits i := by
  constructor
  · rintro ⟨e, h⟩
    obtain ⟨dst, hdst, hyields⟩ := effectOf_eq_ok.1 h
    exact hyields.admits hdst
  · intro h
    cases heffect : m.effectOf i with
    | ok e => exact ⟨e, rfl⟩
    | error f => exact absurd (fails_of_effectOf heffect) (h.not_fails f)

theorem execute_isOk_iff : (∃ done, (m.execute i).result = .ok done) ↔ m.Admits i := by
  rw [← effectOf_isOk_iff]
  constructor
  · rintro ⟨done, h⟩
    obtain ⟨e, he, _⟩ := execute_of_result_ok h
    exact ⟨e, he⟩
  · rintro ⟨e, he⟩
    exact ⟨_, by rw [execute_of_ok he]⟩

/-- An instruction does what its opcode and the operands it lists say. Of a destination that is not
among them, only whether it is a register counts. -/
theorem effectOf_congr_operands {j : Instruction} (hop : j.op = i.op)
    (hvalid : j.dst.IsValid ↔ i.dst.IsValid) (hoperands : j.operands = i.operands) :
    m.effectOf j = m.effectOf i := by
  cases hi : i.dst.slot? with
  | none =>
      have hj : j.dst.slot? = none := by
        simpa [Register.isValid_iff, hi, Option.eq_none_iff_forall_ne_some] using hvalid
      rw [effectOf, effectOf, hi, hj]
  | some dst =>
      obtain ⟨dst', hj⟩ := Register.isValid_iff.1 (hvalid.2 (Register.isValid_iff.2 ⟨dst, hi⟩))
      have hsame (h : Operand.ofReg j.dst = Operand.ofReg i.dst) : dst' = dst := by
        have hdst : j.dst = i.dst := congrArg Operand.reg h
        rw [hdst, hi] at hj
        exact (Option.some.inj hj).symm
      simp only [Instruction.operands, hop] at hoperands
      -- Lists that are equal are so place by place, and the destination is in the list wherever
      -- its value is read.
      cases hcase : i.op with
      | _ =>
          simp only [hcase, List.cons.injEq, and_true] at hoperands
          simp_all [effectOf]

theorem execute_congr_operands {j : Instruction} (hop : j.op = i.op)
    (hvalid : j.dst.IsValid ↔ i.dst.IsValid) (hoperands : j.operands = i.operands) :
    (m.execute j).machine = (m.execute i).machine ∧
      (m.execute j).result = (m.execute i).result := by
  have heffect : m.effectOf j = m.effectOf i := effectOf_congr_operands hop hvalid hoperands
  cases hi : m.effectOf i with
  | error f =>
      rw [execute_of_error hi, execute_of_error (heffect.trans hi)]
      exact ⟨rfl, rfl⟩
  | ok e =>
      rw [execute_of_ok hi, execute_of_ok (heffect.trans hi)]
      exact ⟨rfl, rfl⟩

/-- A machine whose program resolves finds every label its instructions refer to, in every state. -/
theorem step_ne_labelMissing {es : List Entry} (hm : ofEntries es = .ok m) {r : Machine}
    (htape : r.tape = m.tape) (hlabels : r.labels = m.labels) {t : Trap}
    (ht : r.step.result = .error t) (name : Text) : t.fault ≠ .labelMissing name := by
  intro hfault
  obtain ⟨-, -, ⟨-, hrange⟩ | ⟨hfetches, heffect⟩⟩ := step_fails ht
  · rw [hfault] at hrange
    cases hrange
  · obtain ⟨hok, rfl⟩ := ofEntries_ok hm
    have hmem : t.insn ∈ (resolve es).tape := by
      simpa [htape, start] using Array.mem_of_getElem? hfetches.found
    rw [hfault] at heffect
    cases fails_of_effectOf heffect with
    | operand ho hvalue =>
        obtain ⟨hkind, rfl, hmissing⟩ := valueOf_labelMissing hvalue
        have hbound := resolve_labelRefs hok hmem (Instruction.mem_labelRefs ho hkind)
        rw [hlabels] at hmissing
        exact Bool.false_ne_true (hmissing.symm.trans hbound)

/-- Every place that an instruction reads or writes is the one it names, a register of the bank or a
cell of the memory. -/
structure KeepsToPlaces (m : Machine) (i : Instruction) : Prop where
  read : ∀ o ∈ i.operands, o.kind = .reg ∨ o.kind = .ind → ∀ value, m.valueOf o = .ok value →
    ∃ slot : Fin registerCount, o.reg.index = slot.1 ∧
      value = m.registers.get slot + if o.kind = .ind then o.imm.signExtend 64 else 0
  written : ∀ slot value, m.effectOf i = .ok (.write slot value) → i.dst.index = slot.1
  loaded : ∀ width, i.op = .load width → ∀ slot value, m.effectOf i = .ok (.write slot value) →
    ∃ a, ∃ cell : Fin memorySize, m.valueOf i.src = .ok a ∧
      (cell.1 : Int) = a.toInt % 2 ^ width.bits ∧ value = m.memory.get cell
  stored : ∀ cell value, m.effectOf i = .ok (.store cell value) →
    ∃ width a, i.op = .store width ∧ m.valueOf i.addr = .ok a ∧
      (cell.1 : Int) = a.toInt % 2 ^ width.bits ∧ m.valueOf i.src = .ok value

theorem valueOf_of_register {o : Operand} {value : Word} (hkind : o.kind = .reg ∨ o.kind = .ind)
    (h : m.valueOf o = .ok value) :
    ∃ slot : Fin registerCount, o.reg.index = slot.1 ∧
      value = m.registers.get slot + if o.kind = .ind then o.imm.signExtend 64 else 0 := by
  rw [valueOf] at h
  rcases hkind with hkind | hkind
  · simp only [hkind] at h
    obtain ⟨slot, hslot, rfl⟩ := readReg_eq_ok.1 h
    exact ⟨slot, hslot, by simp [hkind]⟩
  · simp only [hkind] at h
    obtain ⟨base, hbase, h⟩ := except_bind_eq_ok.1 h
    obtain ⟨slot, hslot, rfl⟩ := readReg_eq_ok.1 hbase
    cases h
    exact ⟨slot, hslot, by simp [hkind]⟩

theorem keepsToPlaces (m : Machine) (i : Instruction) : m.KeepsToPlaces i where
  read _ _ hkind _ h := valueOf_of_register hkind h
  written _ _ h := Register.slot?_eq_some.1 (effectOf_eq_write h)
  loaded width hop slot value h := by
    obtain ⟨dst, hdst, hyields⟩ := effectOf_eq_ok.1 h
    cases hyields with
    | load hload hcell =>
        obtain rfl : width = _ := by simpa [hop] using hload
        obtain ⟨a, ha, hindex⟩ := cellOf_eq_ok.1 hcell
        exact ⟨a, _, ha, hindex, rfl⟩
    | _ => simp_all
  stored _ _ h := effectOf_eq_store h

/-! ### Execution -/

/-- Executing an instruction succeeds exactly if it is admitted: its destination, its opcode, all
operands it lists, a divisor and an address are usable. What it does depends on nothing but the
opcode and the listed operands; a jump needs its source and offset also where it is not taken; only
the places it names are read and written; and a machine whose program resolves never misses a
label. -/
theorem execution_needs_listed_operands (m : Machine) (i : Instruction) :
    ((∃ done, (m.execute i).result = .ok done) ↔ m.Admits i) ∧
      (∀ j : Instruction, j.op = i.op → (j.dst.IsValid ↔ i.dst.IsValid) →
        j.operands = i.operands →
          (m.execute j).machine = (m.execute i).machine ∧
            (m.execute j).result = (m.execute i).result) ∧
      (∀ cond, i.op = .jump cond → ¬m.Usable i.src ∨ ¬m.Usable i.off →
        ∃ f, (m.execute i).result = .error f) ∧
      m.KeepsToPlaces i ∧
      ∀ es, ofEntries es = .ok m → ∀ (s : Snapshot) (n : Nat) (t : Trap),
        ((m.resume s).after n).step.result = .error t → ∀ name, t.fault ≠ .labelMissing name := by
  refine ⟨execute_isOk_iff, fun j hop hvalid hoperands => ?_, fun cond hop hunusable => ?_,
    m.keepsToPlaces i, fun es hm s n t ht name => ?_⟩
  · exact execute_congr_operands hop hvalid hoperands
  · cases hresult : (m.execute i).result with
    | error f => exact ⟨f, rfl⟩
    | ok done =>
        have hadmits : m.Admits i := execute_isOk_iff.1 ⟨done, hresult⟩
        have hsrc := hadmits.operands i.src (by simp [Instruction.operands, hop])
        have hoff := hadmits.operands i.off (by simp [Instruction.operands, hop])
        rcases hunusable with h | h
        · exact absurd hsrc h
        · exact absurd hoff h
  · exact step_ne_labelMissing hm (by simp) (by simp) ht name

/-- Stores to the byte address before the one in a register. -/
def storeBehind : Instruction := .store .b (.ofInd ⟨2⟩ (-1)) (.ofLabel (text "top"))

def guardedEntries : List Entry :=
  [.label (text "top"), .insn (.jump .eq ⟨1⟩ (.ofImm 1) (.ofLabel (text "top"))), .insn storeBehind]

/-- Jumps back while a register is one, and then stores. With the register that it stores behind at
zero, the address is -1, and the cell 255. -/
def guarded : Machine := start (resolve guardedEntries).tape (resolve guardedEntries).labels

theorem guarded_needs_listed_operands :
    guarded.Admits storeBehind ∧ (∃ done, (guarded.execute storeBehind).result = .ok done) ∧
      (guarded.execute { storeBehind with dst := ⟨7⟩, off := .ofReg ⟨99⟩ }).machine =
        (guarded.execute storeBehind).machine ∧
      (∃ f, (guarded.execute (.jump .eq ⟨1⟩ (.ofImm 1) (.ofLabel (text "out")))).result = .error f) ∧
      ∀ (s : Snapshot) (n : Nat) (t : Trap), ((guarded.resume s).after n).step.result = .error t →
        ∀ name, t.fault ≠ .labelMissing name := by
  have hadmits : guarded.Admits storeBehind := by
    refine ⟨by decide, by decide, by decide, fun h => absurd h (by decide), ?_⟩
    intro o width haddress a ha
    cases haddress
    cases ha
    decide
  have hstore := execution_needs_listed_operands guarded storeBehind
  have hjump := execution_needs_listed_operands guarded
    (.jump .eq ⟨1⟩ (.ofImm 1) (.ofLabel (text "out")))
  refine ⟨hadmits, hstore.1.2 hadmits, (hstore.2.1 _ rfl (by decide) rfl).1, ?_, ?_⟩
  · exact hjump.2.2.1 .eq rfl (Or.inr (by decide))
  · exact hstore.2.2.2.2 guardedEntries (ofEntries_eq_ok (by decide))

end TapeMachine.Machine
