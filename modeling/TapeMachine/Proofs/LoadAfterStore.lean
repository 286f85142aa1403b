import TapeMachine.Proofs.Runs
import TapeMachine.Proofs.WordArithmetic

/-! Loads after stores. An access cuts its address to the bits of its width, so two accesses can
meet in one cell though their addresses differ. After a store, a load that comes to the cell of the
store reads the whole word stored there, whatever the two widths are; a load that comes to another
cell reads what was there before; and one that comes past the memory fails. -/

namespace TapeMachine

/-- The number that an address comes to in an access of the width. -/
def Width.cut (width : Width) (a : Word) : Nat := (a.toInt % 2 ^ width.bits).toNat

theorem Width.toNat_setWidth (width : Width) (a : Word) :
    (a.setWidth width.bits).toNat = width.cut a := by
  rw [cut, ← Machine.toNat_setWidth_bits, Int.toNat_natCast]

/-- The byte addresses are all in the memory. -/
theorem Width.cut_byte_lt (a : Word) : Width.b.cut a < memorySize := by
  have hlt : a.toInt % 2 ^ 8 < 2 ^ 8 := Int.emod_lt_of_pos _ (by decide)
  simp only [cut, bits, memorySize]
  omega

namespace Machine

variable {m : Machine} {i : Instruction} {width : Width}

theorem cellOf_of_lt {o : Operand} {a : Word} (ha : m.valueOf o = .ok a) {cell : Fin memorySize}
    (hcell : cell.1 = width.cut a) : m.cellOf o width = .ok cell := by
  refine cellOf_eq_ok.2 ⟨a, ha, ?_⟩
  rw [hcell, ← width.toNat_setWidth, toNat_setWidth_bits]

theorem cellOf_of_ge {o : Operand} {a : Word} (ha : m.valueOf o = .ok a)
    (hlarge : memorySize ≤ width.cut a) :
    m.cellOf o width = .error (.address (width.cut a) width) := by
  have hnot : ¬(a.setWidth width.bits).toNat < memorySize := by
    rw [width.toNat_setWidth]
    omega
  rw [cellOf, ha]
  change (if h : (a.setWidth width.bits).toNat < memorySize then _ else _) = _
  rw [dif_neg hnot, width.toNat_setWidth]
  rfl

/-- An address made of a register and an offset is their sum, reduced to a word. -/
theorem valueOf_ind {o : Operand} {slot : Fin registerCount} (hkind : o.kind = .ind)
    (hslot : o.reg.slot? = some slot) :
    ∃ a, m.valueOf o = .ok a ∧ a.toInt = wrap ((m.registers.get slot).toInt + o.imm.toInt) := by
  refine ⟨m.registers.get slot + o.imm.signExtend 64, ?_, ?_⟩
  · rw [valueOf, hkind]
    simp only [readReg, hslot]
    rfl
  · rw [BitVec.toInt_add, BitVec.toInt_signExtend_of_le (by decide), wrap]

/-- A store that succeeds writes the value of its source to the cell of its address. -/
theorem execute_store (hop : i.op = .store width) {done : Bool}
    (hok : (m.execute i).result = .ok done) :
    ∃ (cell : Fin memorySize) (a value : Word), m.valueOf i.addr = .ok a ∧
      m.valueOf i.src = .ok value ∧ cell.1 = width.cut a ∧
      (m.execute i).machine = m.apply (.store cell value) := by
  obtain ⟨e, heffect, hmachine, -⟩ := execute_of_result_ok hok
  obtain ⟨dst, -, hyields⟩ := effectOf_eq_ok.1 heffect
  cases hyields with
  | @store width' cell value hop' hcell hsrc =>
      obtain rfl : width = width' := by simpa using hop.symm.trans hop'
      obtain ⟨a, ha, hindex⟩ := cellOf_eq_ok.1 hcell
      refine ⟨cell, a, value, ha, hsrc, ?_, hmachine⟩
      rw [Width.cut, ← hindex, Int.toNat_natCast]
  | _ => simp_all

/-- A load from a cell of the memory writes its whole content to the destination. -/
theorem execute_load_of_lt (hop : i.op = .load width) {dst : Fin registerCount}
    (hdst : i.dst.slot? = some dst) {a : Word} (ha : m.valueOf i.src = .ok a)
    {cell : Fin memorySize} (hcell : cell.1 = width.cut a) :
    (m.execute i).result = .ok false ∧
      (m.execute i).machine = m.apply (.write dst (m.memory.get cell)) := by
  have heffect : m.effectOf i = .ok (.write dst (m.memory.get cell)) :=
    effectOf_eq_ok.2 ⟨dst, hdst, .load hop (cellOf_of_lt ha hcell)⟩
  rw [execute_of_ok heffect]
  exact ⟨rfl, rfl⟩

theorem execute_load_of_ge (hop : i.op = .load width) {dst : Fin registerCount}
    (hdst : i.dst.slot? = some dst) {a : Word} (ha : m.valueOf i.src = .ok a)
    (hlarge : memorySize ≤ width.cut a) :
    (m.execute i).result = .error (.address (width.cut a) width) := by
  have heffect : m.effectOf i = .error (.address (width.cut a) width) := by
    rw [effectOf, hdst]
    simp only [hop, cellOf_of_ge ha hlarge]
    rfl
  rw [execute_of_error heffect]

theorem execute_load_fails_iff (hop : i.op = .load width) {dst : Fin registerCount}
    (hdst : i.dst.slot? = some dst) {a : Word} (ha : m.valueOf i.src = .ok a) :
    (m.execute i).result = .error (.address (width.cut a) width) ↔
      memorySize ≤ width.cut a := by
  constructor
  · intro hfails
    by_contra hsmall
    let cell : Fin memorySize := ⟨width.cut a, Nat.not_le.1 hsmall⟩
    have hcell : cell.1 = width.cut a := rfl
    rw [(execute_load_of_lt hop hdst ha hcell).1] at hfails
    cases hfails
  · exact execute_load_of_ge hop hdst ha

/-- A store that succeeds writes the value of its source to one cell, the one its address comes to.
Every load that is executed next fails exactly if its address comes past the memory, which no byte
address does; else it reads the value from that cell, and from any other cell the content before the
store. The address of the load is the value that its operand has after the store; with a register and
an offset, that is their sum modulo `2 ^ 64`. -/
theorem loads_read_over_stores (m : Machine) (store : Instruction) (width : Width) (done : Bool)
    (hop : store.op = .store width) (hok : (m.execute store).result = .ok done) :
    ∃ (cell : Fin memorySize) (a value : Word),
      m.valueOf store.addr = .ok a ∧ m.valueOf store.src = .ok value ∧ cell.1 = width.cut a ∧
      (m.execute store).machine.memory = m.memory.set cell.1 value cell.2 ∧
      (∀ (load : Instruction) (width' : Width) (dst : Fin registerCount) (b : Word),
        load.op = .load width' → load.dst.slot? = some dst →
        (m.execute store).machine.valueOf load.src = .ok b →
          let loaded := (m.execute store).machine.execute load
          (loaded.result = .error (.address (width'.cut b) width') ↔
            memorySize ≤ width'.cut b) ∧
          (width' = .b → width'.cut b < memorySize) ∧
          ∀ index : Fin memorySize, index.1 = width'.cut b →
            loaded.result = .ok false ∧
            loaded.machine.registers.get dst =
              if index = cell then value else m.memory.get index) ∧
      ∀ (r : Machine) (o : Operand) (slot : Fin registerCount), o.kind = .ind →
        o.reg.slot? = some slot →
          ∃ b, r.valueOf o = .ok b ∧
            b.toInt = wrap ((r.registers.get slot).toInt + o.imm.toInt) := by
  obtain ⟨cell, a, value, ha, hvalue, hcell, hmachine⟩ := execute_store hop hok
  have hmemory : (m.execute store).machine.memory = m.memory.set cell.1 value cell.2 := by
    rw [hmachine]
    rfl
  refine ⟨cell, a, value, ha, hvalue, hcell, hmemory, ?_, fun r o slot => valueOf_ind⟩
  intro load width' dst b hload hdst hb
  refine ⟨execute_load_fails_iff hload hdst hb, ?_, fun index hindex => ?_⟩
  · rintro rfl
    exact Width.cut_byte_lt b
  · obtain ⟨hresult, hloaded⟩ := execute_load_of_lt hload hdst hb hindex
    refine ⟨hresult, ?_⟩
    rw [hloaded]
    change (Vector.set _ dst.1 _ dst.2).get dst = _
    rw [vector_get_set, if_pos rfl, hmemory, vector_get_set]
    simp only [eq_comm]

/-- A register below zero, to take addresses from, and one to store. -/
def belowZero : Machine :=
  { ofTape [] with
    registers := Vector.ofFn fun slot => if slot.1 = 1 then -5 else if slot.1 = 2 then -2 else 0 }

/-- A byte access at -12, which comes to the cell 244. -/
def storeBelowZero : Instruction := .store .b (.ofInd ⟨1⟩ (-7)) (.ofReg ⟨2⟩)

/-- The word stored through a byte address is read through a longer one that comes to the same cell,
the address of the store itself is past the memory for a longer access, and the next cell has not
changed. -/
theorem belowZero_loads_read_over_store :
    (belowZero.execute storeBelowZero).result = .ok false ∧
      ((belowZero.execute storeBelowZero).machine.execute
        (.load .dw ⟨3⟩ (.ofImm 244))).machine.registers.get ⟨3, by decide⟩ = -2 ∧
      ((belowZero.execute storeBelowZero).machine.execute
        (.load .h ⟨3⟩ (.ofInd ⟨1⟩ (-7)))).result = .error (.address 65524 .h) ∧
      ((belowZero.execute storeBelowZero).machine.execute
        (.load .w ⟨3⟩ (.ofImm 245))).machine.registers.get ⟨3, by decide⟩ = 0 := by
  have hok : (belowZero.execute storeBelowZero).result = .ok false := by decide
  obtain ⟨cell, a, value, ha, hvalue, hcell, -, hloads, -⟩ :=
    loads_read_over_stores belowZero storeBelowZero .b false rfl hok
  obtain rfl : -12 = a := Except.ok.inj ha
  obtain rfl : -2 = value := Except.ok.inj hvalue
  obtain rfl : cell = ⟨244, by decide⟩ := Fin.ext hcell
  refine ⟨hok, ?_, ?_, ?_⟩
  · exact ((hloads _ .dw _ 244 rfl rfl rfl).2.2 ⟨244, by decide⟩ rfl).2
  · exact (hloads _ .h ⟨3, by decide⟩ (-12) rfl rfl rfl).1.2 (by decide)
  · exact ((hloads _ .w _ 245 rfl rfl rfl).2.2 ⟨245, by decide⟩ rfl).2.trans (by decide)

end Machine

end TapeMachine
