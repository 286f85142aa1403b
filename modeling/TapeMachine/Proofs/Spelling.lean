import TapeMachine.Proofs.CanonicalForm
import TapeMachine.Proofs.Numerals
import TapeMachine.Proofs.PlainText

/-! Instructions in words. The name of a register, the mnemonic of an opcode, and an operand as it
is written stand for what they were written from, so the words of a canonical instruction give it
back. Only a label that looks like a register does not. Operands have other spellings too, and every
one of them is a plain word. -/

namespace TapeMachine

open Text

namespace Register

theorem ofName?_name {r : Register} (hr : r.IsValid) : ofName? r.name = some r := by
  have hall : ∀ r ∈ bank, ofName? r.name = some r := by decide
  exact hall r (mem_bank.2 hr)

theorem head?_name {r : Register} (hr : r.IsValid) : r.name.head? = some (byte 'r') := by
  have hall : ∀ r ∈ bank, r.name.head? = some (byte 'r') := by decide
  exact hall r (mem_bank.2 hr)

theorem isLabelName_name {r : Register} (hr : r.IsValid) :
    Assembler.isLabelName r.name = true := by
  have hall : ∀ r ∈ bank, Assembler.isLabelName r.name = true := by decide
  exact hall r (mem_bank.2 hr)

theorem ofName?_eq_none {word : Text} (h : ∀ r : Register, r.IsValid → word ≠ r.name) :
    ofName? word = none := by
  refine List.find?_eq_none.2 fun r hr hname => ?_
  exact h r (mem_bank.1 hr) (of_decide_eq_true hname).symm

theorem name_of_ofName? {word : Text} {r : Register} (h : ofName? word = some r) :
    r.name = word := by
  simpa using List.find?_some h

theorem ofName?_of_head? {word : Text} (h : word.head? ≠ some (byte 'r')) :
    ofName? word = none := by
  refine ofName?_eq_none fun r hr heq => h ?_
  rw [heq, head?_name hr]

end Register

theorem Opcode.mem_numbered_tail {op : Opcode} (hvalid : op ≠ .invalid)
    (hassigned : ∀ code, op ≠ .unassigned code) : op ∈ numbered.tail := by
  cases op with
  | invalid => exact absurd rfl hvalid
  | alu f => cases f <;> decide
  | load width => cases width <;> decide
  | store width => cases width <;> decide
  | jump cond => cases cond <;> decide
  | unassigned code => exact absurd rfl (hassigned code)
  | _ => decide

theorem Instruction.Canonical.op_mem {i : Instruction} (h : i.Canonical) :
    i.op ∈ Opcode.numbered.tail := by
  cases h <;> exact Opcode.mem_numbered_tail Opcode.noConfusion fun _ => Opcode.noConfusion

theorem Opcode.ofMnemonic?_name {op : Opcode} : op ∈ numbered.tail → ofMnemonic? op.name = some op := by
  revert op
  decide

theorem Instruction.length_operands (i : Instruction) : i.operands.length = i.op.arity := by
  rw [Instruction.operands]
  cases i.op <;> rfl

/-- The first byte of a number is its sign or a digit. -/
theorem Text.ofInt_eq_cons (n : Int) :
    ∃ b rest, ofInt n = b :: rest ∧ (Assembler.isSign b || isDigit b) = true := by
  rw [ofInt, signed]
  split
  · exact ⟨byte '-', _, rfl, rfl⟩
  · obtain ⟨b, rest, heq⟩ := List.exists_cons_of_ne_nil (ofNat_ne_nil n.natAbs)
    refine ⟨b, rest, heq, ?_⟩
    rw [isDigit_of_head?_ofNat (congrArg List.head? heq), Bool.or_true]

theorem Operand.toText_ofInd (r : Register) (v : BitVec 32) :
    (ofInd r v).toText = byte '[' :: (r.name ++ offsetText v.toInt ++ [byte ']']) := rfl

namespace Assembler

theorem not_isSign_of_continuesLabel :
    ∀ b : UInt8, continuesLabel b = true → isSign b = false := forall_byte (by decide +kernel)

theorem isLabelName_bytes {name : Text} (h : isLabelName name = true) :
    ∀ b ∈ name, continuesLabel b = true := by
  cases name with
  | nil => cases h
  | cons b rest =>
      rw [isLabelName, Bool.and_eq_true, List.all_eq_true] at h
      refine List.forall_mem_cons.2 ⟨?_, h.2⟩
      rw [continuesLabel, h.1, Bool.true_or, Bool.true_or]

theorem bracketed?_of_head? {word : Text} (h : word.head? ≠ some (byte '[')) :
    bracketed? word = none := by
  rw [bracketed?, if_neg]
  rw [Bool.and_eq_true, decide_eq_true_iff]
  exact fun hboth => h hboth.1

theorem bracketed?_eq_some {word inner : Text} :
    bracketed? word = some inner ↔ word = byte '[' :: (inner ++ [byte ']']) := by
  rw [bracketed?]
  constructor
  · intro h
    split_ifs at h with hends
    rw [Bool.and_eq_true, decide_eq_true_iff, decide_eq_true_iff] at hends
    obtain ⟨hhead, hlast⟩ := hends
    cases h
    cases word with
    | nil => cases hhead
    | cons c rest =>
        cases hhead
        have hne : rest ≠ [] := by
          rintro rfl
          cases hlast
        rw [List.getLast?_cons_of_ne_nil hne, List.getLast?_eq_some_getLast hne] at hlast
        rw [List.tail_cons, ← Option.some.inj hlast, List.dropLast_append_getLast hne]
  · rintro rfl
    rw [← List.cons_append, List.getLast?_concat, List.tail_append_of_ne_nil (by simp)]
    simp

/-- A numeral is an immediate operand if its number fits 32 bits, and no operand otherwise. -/
theorem operandOf_numeral (n : Int) :
    operandOf (ofInt n) =
      match word32? n with
      | some v => .ok (.ofImm v)
      | none => .error (.rejected [] (.notNumber (ofInt n))) := by
  have hbyte : ∀ b : UInt8, (isSign b || isDigit b) = true → b ≠ byte 'r' ∧ b ≠ byte '[' :=
    forall_byte (by decide +kernel)
  obtain ⟨b, rest, heq, hb⟩ := ofInt_eq_cons n
  have hread := readWord32?_numeral n
  rw [heq] at hread ⊢
  have hreg : Register.ofName? (b :: rest) = none :=
    Register.ofName?_of_head? fun hhead => (hbyte b hb).1 (Option.some.inj hhead)
  have hbracket : bracketed? (b :: rest) = none :=
    bracketed?_of_head? fun hhead => (hbyte b hb).2 (Option.some.inj hhead)
  cases hword : word32? n with
  | none => simp only [operandOf, hreg, hbracket, hb, if_true, hread, hword]
  | some v => simp only [operandOf, hreg, hbracket, hb, if_true, hread, hword]

theorem operandOf_ofInt (v : BitVec 32) : operandOf (ofInt v.toInt) = .ok (.ofImm v) := by
  rw [operandOf_numeral, word32?_toInt]

theorem operandOf_label {name : Text} (hname : isLabelName name = true)
    (hreg : ∀ r : Register, r.IsValid → name ≠ r.name) :
    operandOf name = .ok (.ofLabel name) := by
  have hbyte : ∀ b : UInt8, startsLabel b = true →
      b ≠ byte '[' ∧ ¬((isSign b || isDigit b) = true) := forall_byte (by decide +kernel)
  unfold operandOf
  rw [Register.ofName?_eq_none hreg]
  cases name with
  | nil => cases hname
  | cons b rest =>
      have hb := hbyte b (Bool.and_eq_true _ _ ▸ hname).1
      have hbracket : bracketed? (b :: rest) = none :=
        bracketed?_of_head? fun hhead => hb.1 (Option.some.inj hhead)
      rw [hbracket]
      simp only [if_neg hb.2, hname, if_true]

theorem operandOf_name {r : Register} (hr : r.IsValid) : operandOf r.name = .ok (.ofReg r) := by
  unfold operandOf
  rw [Register.ofName?_name hr]

/-- An offset is written as nothing, or from its sign on. -/
theorem head?_offsetText {n : Int} {b : UInt8} (h : (Operand.offsetText n).head? = some b) :
    isSign b = true := by
  rw [Operand.offsetText] at h
  split_ifs at h with hpos hneg
  · cases h
    rfl
  · rw [ofInt, signed, if_pos hneg] at h
    cases h
    rfl
  · cases h

theorem offset?_plus {t : Text} (h : t ≠ []) : offset? (byte '+' :: t) = readWord32? t := by
  rw [offset?, List.head?_cons, if_pos rfl, List.tail_cons, if_neg (by simpa using h)]

theorem offset?_of_head? {t : Text} (h : t ≠ []) (hhead : t.head? ≠ some (byte '+')) :
    offset? t = readWord32? t := by
  rw [offset?, if_neg hhead, if_neg (by simpa using h)]

theorem offset?_offsetText (v : BitVec 32) : offset? (Operand.offsetText v.toInt) = some v := by
  have hne := ofInt_ne_nil v.toInt
  rw [Operand.offsetText]
  split_ifs with hpos hneg
  · rw [offset?_plus hne, readWord32?_ofInt]
  · have hminus : (ofInt v.toInt).head? ≠ some (byte '+') := by
      rw [ofInt, signed, if_pos hneg, List.head?_cons]
      decide
    rw [offset?_of_head? hne hminus, readWord32?_ofInt]
  · have hzero : v = 0 := by
      rw [← BitVec.toInt_inj]
      have htoInt : (0 : BitVec 32).toInt = 0 := rfl
      omega
    rw [hzero]
    rfl

/-- The name of a register ends at the first sign. -/
theorem span_name_append {r : Register} (hr : r.IsValid) {tail : Text}
    (htail : ∀ b, tail.head? = some b → isSign b = true) :
    (r.name ++ tail).takeWhile (!isSign ·) = r.name ∧
      (r.name ++ tail).dropWhile (!isSign ·) = tail := by
  have hname : ∀ b ∈ r.name, (!isSign b) = true := by
    intro b hb
    rw [not_isSign_of_continuesLabel b (isLabelName_bytes (Register.isLabelName_name hr) b hb)]
    rfl
  rw [List.takeWhile_append_of_pos hname, List.dropWhile_append_of_pos hname]
  cases tail with
  | nil => exact ⟨List.append_nil _, rfl⟩
  | cons b rest =>
      have hb : isSign b = true := htail b rfl
      rw [List.takeWhile_cons_of_neg (by simp [hb]), List.dropWhile_cons_of_neg (by simp [hb])]
      exact ⟨List.append_nil _, rfl⟩

theorem indirect?_append {r : Register} (hr : r.IsValid) {tail : Text}
    (htail : ∀ b, tail.head? = some b → isSign b = true) :
    indirect? (r.name ++ tail) = (offset? tail).map (Operand.ofInd r) := by
  obtain ⟨hfront, hback⟩ := span_name_append hr htail
  rw [indirect?, hfront, hback, Register.ofName?_name hr]
  cases offset? tail <;> rfl

theorem indirect?_toText {r : Register} (hr : r.IsValid) (v : BitVec 32) :
    indirect? (r.name ++ Operand.offsetText v.toInt) = some (.ofInd r v) := by
  rw [indirect?_append hr fun b => head?_offsetText, offset?_offsetText v]
  rfl

theorem operandOf_ind {r : Register} (hr : r.IsValid) (v : BitVec 32) :
    operandOf (Operand.ofInd r v).toText = .ok (.ofInd r v) := by
  have hreg : Register.ofName? (Operand.ofInd r v).toText = none := by
    have hhead : some (byte '[') ≠ some (byte 'r') := by decide
    rw [Operand.toText_ofInd]
    exact Register.ofName?_of_head? hhead
  have hbracket : bracketed? (Operand.ofInd r v).toText
      = some (r.name ++ Operand.offsetText v.toInt) :=
    bracketed?_eq_some.2 (Operand.toText_ofInd r v)
  unfold operandOf
  rw [hreg, hbracket]
  simp only [indirect?_toText hr v]

/-- A canonical operand as it is written denotes itself, unless it is a label that could be taken
for something else. -/
theorem operandOf_toText {o : Operand} (h : o.Canonical)
    (hlabel : o.kind = .label →
      isLabelName o.label = true ∧ ∀ r : Register, r.IsValid → o.label ≠ r.name) :
    operandOf o.toText = .ok o := by
  cases h with
  | imm v => exact operandOf_ofInt v
  | label name => exact operandOf_label (hlabel rfl).1 (hlabel rfl).2
  | reg hr => exact operandOf_name hr
  | ind hr v => exact operandOf_ind hr v

/-! ### Instructions -/

/-- A canonical instruction is read back from its mnemonic and operands, if its labels can be told
from registers. -/
theorem instructionOf_toText {i : Instruction} (h : i.Canonical)
    (hlabels : ∀ name ∈ i.labelRefs,
      isLabelName name = true ∧ ∀ r : Register, r.IsValid → name ≠ r.name) :
    instructionOf i.op.name (i.operands.map Operand.toText) = .ok i := by
  have hoperands : (i.operands.map Operand.toText).mapM operandOf = .ok i.operands := by
    rw [except_mapM_eq_ok, List.forall₂_map_left_iff, List.forall₂_same]
    intro o ho
    exact operandOf_toText (h.operands o ho) fun hkind =>
      hlabels o.label (Instruction.mem_labelRefs ho hkind)
  rw [instructionOf, Opcode.ofMnemonic?_name h.op_mem]
  simp only [List.length_map, Instruction.length_operands, Nat.lt_irrefl, if_false, hoperands]
  change reject (build i.op i.operands) = _
  rw [build_operands h, reject]

theorem isPlain_of_continuesLabel : ∀ b : UInt8, continuesLabel b = true → isPlain b = true :=
  forall_byte (by decide +kernel)

theorem isPlainWord_of_isLabelName {name : Text} (h : isLabelName name = true) :
    IsPlainWord name where
  ne_nil := ne_nil_of_isLabelName h
  plain b hb := isPlain_of_continuesLabel b (isLabelName_bytes h b hb)

theorem isPlain_of_literal {b : UInt8} (h : inLiteral b = true ∨ b = byte '+' ∨ b = byte '-') :
    isPlain b = true := by
  have hall : ∀ b : UInt8, inLiteral b = true → isPlain b = true := forall_byte (by decide +kernel)
  rcases h with hliteral | rfl | rfl
  · exact hall b hliteral
  · rfl
  · rfl

theorem isPlainWord_of_readWord32? {word : Text} {v : BitVec 32} (h : readWord32? word = some v) :
    IsPlainWord word where
  ne_nil := (bytes_of_readWord32? h).1
  plain b hb := isPlain_of_literal ((bytes_of_readWord32? h).2 b hb)

theorem isPlain_of_offset? {t : Text} {v : BitVec 32} (h : offset? t = some v) :
    ∀ b ∈ t, isPlain b = true := by
  have hbody : ∀ body : Text, (if body.isEmpty then some 0 else readWord32? body) = some v →
      ∀ b ∈ body, isPlain b = true := by
    intro body hbody b hb
    rw [if_neg (by simpa using List.ne_nil_of_mem hb)] at hbody
    exact (isPlainWord_of_readWord32? hbody).plain b hb
  cases t with
  | nil => exact fun b hb => nomatch hb
  | cons c t =>
      rw [offset?, List.head?_cons, List.tail_cons] at h
      by_cases hplus : c = byte '+'
      · rw [if_pos (congrArg some hplus)] at h
        exact List.forall_mem_cons.2 ⟨by rw [hplus]; rfl, hbody t h⟩
      · rw [if_neg (fun heq => hplus (Option.some.inj heq))] at h
        exact hbody (c :: t) h

theorem isPlain_of_indirect? {t : Text} {o : Operand} (h : indirect? t = some o) :
    ∀ b ∈ t, isPlain b = true := by
  obtain ⟨r, hr, hrest⟩ := Option.bind_eq_some_iff.1 h
  obtain ⟨v, hv, _⟩ := Option.bind_eq_some_iff.1 hrest
  intro b hb
  rw [← List.takeWhile_append_dropWhile (p := (!isSign ·)) (l := t), List.mem_append] at hb
  rcases hb with hname | hoffset
  · rw [← Register.name_of_ofName? hr] at hname
    exact (isPlainWord_of_isLabelName
      (Register.isLabelName_name (Register.isValid_of_ofName? hr))).plain b hname
  · exact isPlain_of_offset? hv b hoffset

theorem mem_of_bracketed? {word inner : Text} (h : bracketed? word = some inner) {b : UInt8}
    (hb : b ∈ word) : b = byte '[' ∨ b ∈ inner ∨ b = byte ']' := by
  rw [bracketed?_eq_some.1 h, List.mem_cons, List.mem_append, List.mem_singleton] at hb
  exact hb

/-- Every spelling of an operand is a plain word. -/
theorem isPlainWord_of_operandOf {word : Text} {o : Operand} (h : operandOf word = .ok o) :
    IsPlainWord word := by
  unfold operandOf at h
  split at h
  · rename_i r hr
    rw [← Register.name_of_ofName? hr]
    exact isPlainWord_of_isLabelName (Register.isLabelName_name (Register.isValid_of_ofName? hr))
  · split at h
    · rename_i inner hinner
      split at h
      · rename_i hind
        refine ⟨?_, fun b hb => ?_⟩
        · rintro rfl
          cases hinner
        · rcases mem_of_bracketed? hinner hb with rfl | hmem | rfl
          · rfl
          · exact isPlain_of_indirect? hind b hmem
          · rfl
      · cases h
    · split at h
      · cases h
      · split_ifs at h with hnumber hlabel
        · split at h
          · exact isPlainWord_of_readWord32? ‹_›
          · cases h
        · exact isPlainWord_of_isLabelName hlabel

end Assembler

end TapeMachine
