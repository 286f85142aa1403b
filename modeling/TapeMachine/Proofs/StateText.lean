import Mathlib.Data.List.Basic
import TapeMachine.Proofs.CanonicalForm
import TapeMachine.Proofs.InstructionRules
import TapeMachine.Proofs.Numerals
import TapeMachine.Proofs.TextParts

/-! The state of a machine as text. The text is made of lines: one for the program counter, one for
each register, and one for each cell that is not zero, with the address of the cell in brackets. No
field runs into the next, so each line tells the number it was written from, and a cell without a line
is zero. Two machines have the same text exactly if program counter, registers and memory agree. -/

namespace TapeMachine

namespace Text

theorem forall_mem_padLeft {p : UInt8 → Prop} {fill : UInt8} {t : Text} (width : Nat)
    (hfill : p fill) (ht : ∀ b ∈ t, p b) : ∀ b ∈ padLeft width fill t, p b :=
  List.forall_mem_append.2 ⟨fun _ hb => List.eq_of_mem_replicate hb ▸ hfill, ht⟩

/-- A word in hexadecimal is made of digits and letters. -/
theorem forall_mem_hex16 (w : BitVec 64) : ∀ b ∈ hex16 w, (isDigit b || isLetter b) = true := by
  have hdigit : ∀ d < 16, (upper [digitByte d]).all (fun b => isDigit b || isLetter b) = true := by
    decide
  refine forall_mem_padLeft 16 rfl (List.forall_mem_map.2 fun b hb => ?_)
  obtain ⟨d, hd, rfl⟩ := exists_digit_of_mem_digits (by decide) b hb
  exact List.all_eq_true.1 (hdigit d hd) _ List.mem_cons_self

theorem dropWhile_zero_padLeft (width n : Nat) :
    (padLeft width (byte '0') (ofNat n)).dropWhile (· = byte '0') =
      if n = 0 then [] else ofNat n := by
  have hfill : ∀ b ∈ List.replicate (width - (ofNat n).length) (byte '0'),
      decide (b = byte '0') = true := fun b hb => decide_eq_true (List.eq_of_mem_replicate hb)
  rw [padLeft, List.dropWhile_append_of_pos hfill]
  split_ifs with hn
  · rw [hn]
    rfl
  · obtain ⟨b, rest, heq⟩ := List.exists_cons_of_ne_nil (ofNat_ne_nil n)
    have hhead := head?_ofNat_ne_zero (Nat.pos_of_ne_zero hn)
    rw [heq, List.head?_cons] at hhead
    rw [heq, List.dropWhile_cons_of_neg]
    simpa using hhead

/-- Numbers with zeros in front are told apart, whatever the width. -/
theorem padLeft_ofNat_injective {width n k : Nat}
    (h : padLeft width (byte '0') (ofNat n) = padLeft width (byte '0') (ofNat k)) : n = k := by
  have hrest := congrArg (List.dropWhile (· = byte '0')) h
  rw [dropWhile_zero_padLeft, dropWhile_zero_padLeft] at hrest
  split_ifs at hrest with hn hk hk
  · rw [hn, hk]
  · exact absurd hrest.symm (ofNat_ne_nil k)
  · exact absurd hrest (ofNat_ne_nil n)
  · exact ofNat_injective hrest

end Text

namespace Machine

open Text

variable {m m' : Machine}

/-- What a line says of a word. -/
def wordLine (w : Word) : Text := hex16 w ++ byte ' ' :: byte '(' :: (ofInt w.toInt ++ [byte ')'])

/-- The address of a cell in brackets. -/
def cellMark (cell : Nat) : Text := byte '[' :: (padLeft 4 (byte '0') (ofNat cell) ++ [byte ']'])

def pcLine (m : Machine) : Text := fieldText (text "pc") (ofInt m.pc.toInt)

def registerLine (m : Machine) (r : Register) : Text := fieldText r.name (wordLine (m.reg r))

def cellLine (x : Nat × Word) : Text := cellMark x.1 ++ byte ':' :: byte ' ' :: wordLine x.2

/-- The lines of the text of a machine. -/
def stateLines (m : Machine) : List Text :=
  m.pcLine :: (Register.bank.map m.registerLine ++ m.usedCells.map cellLine)

theorem wordText_eq (w : Word) : wordText w = wordLine w ++ [10] := by
  have hclose : text ")\n" = [byte ')', 10] := by decide
  have hopen : text " (" = [byte ' ', byte '('] := by decide
  rw [wordText, wordLine, hopen, hclose]
  simp only [List.append_assoc, List.cons_append, List.nil_append]

theorem fieldText_append (name value rest : Text) :
    fieldText name (value ++ rest) = fieldText name value ++ rest :=
  (List.append_assoc ..).symm

theorem toText_eq_unlines (m : Machine) : m.toText = Assembler.Source.unlines m.stateLines := by
  have hpc : fieldText (text "pc") (ofInt m.pc.toInt ++ text "\n") = m.pcLine ++ [10] :=
    fieldText_append ..
  have hregister : ∀ r, fieldText r.name (wordText (m.reg r)) = m.registerLine r ++ [10] := by
    intro r
    rw [wordText_eq, fieldText_append, registerLine]
  have hcell : (fun x : Nat × Word => text "[" ++ padLeft 4 (byte '0') (ofNat x.1) ++ text "]: " ++
      wordText x.2) = fun x => cellLine x ++ [10] := by
    have hbetween : text "]: " = [byte ']', byte ':', byte ' '] := by decide
    funext x
    rw [wordText_eq, cellLine, cellMark, hbetween]
    simp only [List.append_assoc, List.cons_append, List.nil_append]
    rfl
  rw [toText, hpc, funext hregister, hcell, Assembler.Source.unlines, stateLines, List.flatMap_cons,
    List.flatMap_append, List.flatMap_map, List.flatMap_map, List.append_assoc]

/-- A byte that belongs to a field, as opposed to the bracket that opens a cell and the line feed
that ends a line. -/
def isFieldByte (b : UInt8) : Bool := b ≠ 10 && b ≠ byte '['

def IsField (t : Text) : Prop := ∀ b ∈ t, isFieldByte b = true

theorem IsField.append {t u : Text} (ht : IsField t) (hu : IsField u) : IsField (t ++ u) :=
  List.forall_mem_append.2 ⟨ht, hu⟩

theorem IsField.not_mem {t : Text} (h : IsField t) {b : UInt8} (hb : isFieldByte b = false) :
    b ∉ t := not_mem_of_forall h hb

theorem isFieldByte_of_alphanumeric {b : UInt8} (h : (isDigit b || isLetter b) = true) :
    isFieldByte b = true := by
  rw [isFieldByte, Bool.and_eq_true, decide_eq_true_iff, decide_eq_true_iff]
  constructor <;> rintro rfl <;> exact absurd h (by decide)

theorem isFieldByte_of_isDigit {b : UInt8} (h : isDigit b = true) : isFieldByte b = true :=
  isFieldByte_of_alphanumeric (by rw [h, Bool.true_or])

theorem isField_ofInt (n : Int) : IsField (ofInt n) :=
  forall_mem_ofInt (p := (isFieldByte · = true)) rfl (fun _ => isFieldByte_of_isDigit) n

theorem isField_wordLine (w : Word) : IsField (wordLine w) := by
  have hhex : IsField (hex16 w) := fun b hb => isFieldByte_of_alphanumeric (forall_mem_hex16 w b hb)
  have hclose : IsField [byte ')'] := List.all_eq_true.1 (by decide)
  refine hhex.append (List.forall_mem_cons.2 ⟨rfl, List.forall_mem_cons.2 ⟨rfl, ?_⟩⟩)
  exact (isField_ofInt _).append hclose

theorem isField_fieldText {name value : Text} (hname : IsField name) (hvalue : IsField value) :
    IsField (fieldText name value) := by
  have hcolon : IsField (text ": ") := List.all_eq_true.1 (by decide)
  exact (IsField.append (forall_mem_padLeft 5 rfl hname) hcolon).append hvalue

theorem isField_pcLine (m : Machine) : IsField m.pcLine :=
  isField_fieldText (List.all_eq_true.1 (by decide)) (isField_ofInt _)

theorem isField_registerLine (m : Machine) {r : Register} (hr : r ∈ Register.bank) :
    IsField (m.registerLine r) := by
  have hnames : ∀ r ∈ Register.bank, r.name.all isFieldByte = true := by decide
  exact isField_fieldText (List.all_eq_true.1 (hnames r hr)) (isField_wordLine _)

/-- What stands in the line of a cell behind the bracket that opens it. -/
def cellRest (x : Nat × Word) : Text :=
  padLeft 4 (byte '0') (ofNat x.1) ++ byte ']' :: byte ':' :: byte ' ' :: wordLine x.2

theorem cellLine_eq_cons (x : Nat × Word) : cellLine x = byte '[' :: cellRest x := by
  rw [cellLine, cellMark, cellRest, List.cons_append, List.append_assoc]
  rfl

theorem isField_cellRest (x : Nat × Word) : IsField (cellRest x) := by
  have haddress : IsField (padLeft 4 (byte '0') (ofNat x.1)) :=
    forall_mem_padLeft 4 rfl fun b hb => isFieldByte_of_isDigit (isDigit_of_mem_ofNat b hb)
  have hbetween : IsField [byte ']', byte ':', byte ' '] := List.all_eq_true.1 (by decide)
  exact haddress.append (IsField.append hbetween (isField_wordLine x.2))

theorem lineFeed_not_mem_cellLine (x : Nat × Word) : 10 ∉ cellLine x := by
  rw [cellLine_eq_cons, List.mem_cons, not_or]
  exact ⟨by decide, (isField_cellRest x).not_mem rfl⟩

theorem lineFeed_not_mem_stateLines (m : Machine) : ∀ line ∈ m.stateLines, 10 ∉ line := by
  refine List.forall_mem_cons.2 ⟨(isField_pcLine m).not_mem rfl, List.forall_mem_append.2 ⟨?_, ?_⟩⟩
  · exact List.forall_mem_map.2 fun r hr => (isField_registerLine m hr).not_mem rfl
  · exact List.forall_mem_map.2 fun x _ => lineFeed_not_mem_cellLine x

theorem rawLines_toText (m : Machine) : Assembler.Source.rawLines m.toText = m.stateLines := by
  rw [toText_eq_unlines, Assembler.Source.rawLines_unlines m.lineFeed_not_mem_stateLines]

theorem wordLine_injective {w v : Word} (h : wordLine w = wordLine v) : w = v := by
  -- The hexadecimal digits end at the first blank, and the decimal number behind them is the word.
  have hspace : ∀ u : Word, byte ' ' ∉ hex16 u := fun u =>
    not_mem_of_forall (forall_mem_hex16 u) (by decide)
  obtain ⟨-, hrest⟩ := append_cons_inj (hspace w) (hspace v) h
  have hdecimal := List.append_cancel_right (List.cons.inj hrest).2
  exact BitVec.eq_of_toInt_eq (ofInt_injective hdecimal)

theorem fieldText_injective {name value value' : Text}
    (h : fieldText name value = fieldText name value') : value = value' :=
  List.append_cancel_left h

/-- The address of a cell ends at the bracket that closes it. -/
theorem address_inj {c d : Nat} {t u : Text}
    (h : padLeft 4 (byte '0') (ofNat c) ++ byte ']' :: t =
      padLeft 4 (byte '0') (ofNat d) ++ byte ']' :: u) : c = d ∧ t = u := by
  have hbracket : ∀ n : Nat, byte ']' ∉ padLeft 4 (byte '0') (ofNat n) := fun n =>
    not_mem_of_forall (forall_mem_padLeft 4 (by decide) isDigit_of_mem_ofNat) (by decide)
  obtain ⟨haddress, hrest⟩ := append_cons_inj (hbracket c) (hbracket d) h
  exact ⟨padLeft_ofNat_injective haddress, hrest⟩

theorem cellLine_injective : Function.Injective cellLine := by
  intro x y h
  rw [cellLine_eq_cons, cellLine_eq_cons] at h
  obtain ⟨haddress, hrest⟩ := address_inj (List.cons.inj h).2
  have hword := wordLine_injective (List.cons.inj (List.cons.inj hrest).2).2
  exact Prod.ext haddress hword

/-- A line with the mark of a cell is the line of this cell. -/
theorem eq_of_cellMark_infix {cell : Nat} {x : Nat × Word} (h : cellMark cell <:+: cellLine x) :
    cell = x.1 := by
  rw [cellLine_eq_cons, List.infix_cons_iff] at h
  -- The only bracket that opens is at the start of the line, so the mark can stand only there.
  rcases h with ⟨back, hback⟩ | hrest
  · rw [cellMark, List.cons_append, List.append_assoc] at hback
    exact (address_inj (List.cons.inj hback).2).1
  · exact absurd (hrest.subset List.mem_cons_self) ((isField_cellRest x).not_mem rfl)

theorem registers_eq (h : ∀ r ∈ Register.bank, m.reg r = m'.reg r) : m.registers = m'.registers := by
  refine Vector.ext fun i hi => ?_
  have hslot : Register.slot? ⟨i⟩ = some ⟨i, hi⟩ := Register.slot?_eq_some.2 rfl
  have hreg := h ⟨i⟩ (Register.mem_bank.2 (Register.isValid_iff.2 ⟨_, hslot⟩))
  rw [reg_of_slot? m hslot, reg_of_slot? m' hslot] at hreg
  exact hreg

theorem mem_usedCells {cell : Fin memorySize} {w : Word} :
    (cell.1, w) ∈ m.usedCells ↔ m.memory.get cell = w ∧ w ≠ 0 := by
  have hget : m.memory.toList[cell.1]? = some (m.memory.get cell) := by
    rw [List.getElem?_eq_getElem (by simp), Vector.getElem_toList]
    rfl
  rw [usedCells, List.mem_map]
  constructor
  · rintro ⟨⟨v, n⟩, hmem, heq⟩
    cases heq
    obtain ⟨hmem, hne⟩ := List.mem_filter.1 hmem
    rw [List.mem_zipIdx_iff_getElem?, hget] at hmem
    exact ⟨Option.some.inj hmem, of_decide_eq_true hne⟩
  · rintro ⟨rfl, hne⟩
    refine ⟨(m.memory.get cell, cell.1), List.mem_filter.2 ⟨?_, decide_eq_true hne⟩, rfl⟩
    rw [List.mem_zipIdx_iff_getElem?, hget]

theorem get_eq_of_usedCells (h : m.usedCells = m'.usedCells) {cell : Fin memorySize}
    (hne : m.memory.get cell ≠ 0) : m'.memory.get cell = m.memory.get cell := by
  have hmem := mem_usedCells.2 ⟨rfl, hne⟩
  rw [h] at hmem
  exact (mem_usedCells.1 hmem).1

/-- The cells that are not zero tell the others too. -/
theorem memory_eq (h : m.usedCells = m'.usedCells) : m.memory = m'.memory := by
  -- Where either machine has a cell in use the other has it too, so what neither lists is zero in both.
  refine Vector.ext fun i hi => ?_
  change m.memory.get ⟨i, hi⟩ = m'.memory.get ⟨i, hi⟩
  by_cases hne : m.memory.get ⟨i, hi⟩ = 0
  · by_cases hne' : m'.memory.get ⟨i, hi⟩ = 0
    · rw [hne, hne']
    · exact get_eq_of_usedCells h.symm hne'
  · exact (get_eq_of_usedCells h hne).symm

theorem stateLines_congr (hpc : m.pc = m'.pc) (hregisters : m.registers = m'.registers)
    (hmemory : m.memory = m'.memory) : m.stateLines = m'.stateLines := by
  have hlines : m.registerLine = m'.registerLine := by
    funext r
    rw [registerLine, registerLine, reg, reg, hregisters]
  rw [stateLines, stateLines, pcLine, pcLine, usedCells, usedCells, hpc, hlines, hmemory]

/-- The lines tell program counter, registers and memory. -/
theorem eq_of_stateLines_eq (h : m.stateLines = m'.stateLines) :
    m.pc = m'.pc ∧ m.registers = m'.registers ∧ m.memory = m'.memory := by
  obtain ⟨hpc, hrest⟩ := List.cons.inj h
  obtain ⟨hregisters, hcells⟩ := List.append_inj hrest (by rw [List.length_map, List.length_map])
  refine ⟨?_, registers_eq fun r hr => ?_, memory_eq ?_⟩
  · exact BitVec.eq_of_toInt_eq (ofInt_injective (fieldText_injective hpc))
  · exact wordLine_injective (fieldText_injective (List.map_inj_left.1 hregisters r hr))
  · exact List.map_injective_iff.2 cellLine_injective hcells

/-- Only the line of a cell has a mark, and it has the mark of this cell. -/
theorem mem_usedCells_of_cellMark_infix {cell : Nat} {line : Text} (hline : line ∈ m.stateLines)
    (h : cellMark cell <:+: line) : ∃ w, (cell, w) ∈ m.usedCells := by
  have hopen : byte '[' ∈ line := h.subset List.mem_cons_self
  rw [stateLines, List.mem_cons, List.mem_append, List.mem_map, List.mem_map] at hline
  rcases hline with rfl | ⟨r, hr, rfl⟩ | ⟨x, hx, rfl⟩
  · exact absurd hopen ((isField_pcLine m).not_mem rfl)
  · exact absurd hopen ((isField_registerLine m hr).not_mem rfl)
  · exact ⟨x.2, eq_of_cellMark_infix h ▸ hx⟩

/-- The mark of a cell stands in the text exactly if the cell is not zero. -/
theorem cellMark_infix_toText {cell : Fin memorySize} :
    cellMark cell.1 <:+: m.toText ↔ m.memory.get cell ≠ 0 := by
  constructor
  · intro h
    have hfeed : 10 ∉ cellMark cell.1 := fun hmem =>
      lineFeed_not_mem_cellLine (cell.1, 0) (List.mem_append_left _ hmem)
    rw [toText_eq_unlines] at h
    obtain ⟨line, hline, hmark⟩ :=
      Assembler.Source.exists_infix_of_infix_unlines (List.cons_ne_nil _ _) hfeed h
    obtain ⟨w, hw⟩ := mem_usedCells_of_cellMark_infix hline hmark
    obtain ⟨rfl, hne⟩ := mem_usedCells.1 hw
    exact hne
  · intro hne
    have hline : cellLine (cell.1, m.memory.get cell) ∈ Assembler.Source.rawLines m.toText := by
      rw [rawLines_toText]
      refine List.mem_cons_of_mem _ (List.mem_append_right _ (List.mem_map_of_mem ?_))
      exact mem_usedCells.2 ⟨rfl, hne⟩
    have hmark : cellMark cell.1 <+: cellLine (cell.1, m.memory.get cell) := List.prefix_append _ _
    exact hmark.isInfix.trans (Assembler.Source.infix_of_mem_rawLines hline)

/-- Two machines have the same text exactly if program counter, registers and memory agree, though
the text leaves out the cells that are zero. -/
theorem state_text_is_faithful (m m' : Machine) :
    (m.toText = m'.toText ↔
      m.pc = m'.pc ∧ m.registers = m'.registers ∧ m.memory = m'.memory) ∧
      ∀ cell : Fin memorySize, cellMark cell.1 <:+: m.toText ↔ m.memory.get cell ≠ 0 := by
  refine ⟨⟨fun h => ?_, fun ⟨hpc, hregisters, hmemory⟩ => ?_⟩, fun cell => cellMark_infix_toText⟩
  · refine eq_of_stateLines_eq ?_
    rw [← rawLines_toText, h, rawLines_toText]
  · rw [toText_eq_unlines, toText_eq_unlines, stateLines_congr hpc hregisters hmemory]

end Machine

end TapeMachine
