import TapeMachine.Expression.Eval
import TapeMachine.Proofs.SpelledLines

/-! Listings. Labels and canonical instructions written one a line make a source, and assembling
this source gives them back: every line spells the entry it was written from. -/

namespace TapeMachine

open Text

namespace Entry

/-- An entry as a line of assembler. -/
def toLine : Entry → Text
  | label name => name ++ text ":"
  | insn i => i.toText

/-- Entries as a source, one a line. -/
def listing (es : List Entry) : Text := es.flatMap fun e => e.toLine ++ text "\n"

/-- Entries that a listing tells apart: canonical instructions and distinct labels, where every
reference is to a declared label that is taken neither for a register nor for the line number, and
no line is too long. -/
structure Listable (es : List Entry) : Prop where
  canonical : ∀ i, .insn i ∈ es → i.Canonical
  named : ∀ name, .label name ∈ es → Assembler.isLabelName name = true
  distinct : (es.filterMap label?).Nodup
  declared : ∀ i, .insn i ∈ es → ∀ name ∈ i.labelRefs, .label name ∈ es
  noRegister : ∀ i, .insn i ∈ es → ∀ name ∈ i.labelRefs, ∀ r : Register, r.IsValid → name ≠ r.name
  noLineNumber : ∀ i, .insn i ∈ es → ∀ name ∈ i.labelRefs, name ≠ Assembler.lineEquate
  short : ∀ e ∈ es, e.toLine.length < Assembler.Source.lineLimit

theorem listable_iff {es : List Entry} :
    Listable es ↔
      (∀ i ∈ instructions es, i.Canonical ∧ ∀ name ∈ i.labelRefs, name ∈ es.filterMap label? ∧
        (∀ r ∈ Register.bank, name ≠ r.name) ∧ name ≠ Assembler.lineEquate) ∧
      (∀ name ∈ es.filterMap label?, Assembler.isLabelName name = true) ∧
      (es.filterMap label?).Nodup ∧ ∀ e ∈ es, e.toLine.length < Assembler.Source.lineLimit := by
  simp only [mem_filterMap_label?, mem_instructions, Register.mem_bank]
  constructor
  · intro h
    refine ⟨fun i hi => ⟨h.canonical i hi, fun name hname => ?_⟩, h.named, h.distinct, h.short⟩
    exact ⟨h.declared i hi name hname, h.noRegister i hi name hname, h.noLineNumber i hi name hname⟩
  · rintro ⟨hinsn, hnamed, hdistinct, hshort⟩
    exact {
      canonical := fun i hi => (hinsn i hi).1
      named := hnamed
      distinct := hdistinct
      declared := fun i hi name hname => ((hinsn i hi).2 name hname).1
      noRegister := fun i hi name hname => ((hinsn i hi).2 name hname).2.1
      noLineNumber := fun i hi name hname => ((hinsn i hi).2 name hname).2.2
      short := hshort }

instance (es : List Entry) : Decidable (Listable es) := decidable_of_iff _ listable_iff.symm

/-- The words of the line of an entry. -/
def words : Entry → List Text
  | label name => [name ++ text ":"]
  | insn i => i.op.name :: i.operands.map Operand.toText

theorem toLine_eq_unwords (e : Entry) : e.toLine = unwords e.words := by
  cases e with
  | label name => rw [words, unwords_singleton, toLine]
  | insn i => rfl

theorem listing_eq_unlines (es : List Entry) :
    listing es = Assembler.Source.unlines (es.map toLine) := by
  rw [listing, Assembler.Source.unlines, List.flatMap_map]
  rfl

end Entry

namespace Assembler

theorem toText_ne_lineEquate {o : Operand} (h : o.Canonical)
    (hlabel : o.kind = .label → o.label ≠ lineEquate) : o.toText ≠ lineEquate := by
  have hhead : lineEquate.head? = some (byte 'L') := rfl
  intro heq
  rw [← heq] at hhead
  cases h with
  | imm v =>
      have hbyte : ∀ b : UInt8, (isSign b || isDigit b) = true → b ≠ byte 'L' :=
        forall_byte (by decide +kernel)
      obtain ⟨b, rest, hcons, hb⟩ := ofInt_eq_cons v.toInt
      change (ofInt v.toInt).head? = _ at hhead
      rw [hcons] at hhead
      exact hbyte b hb (Option.some.inj hhead)
  | label name => exact hlabel rfl heq
  | reg hr => exact absurd ((Register.head?_name hr).symm.trans hhead) (by decide)
  | ind hr v =>
      rw [Operand.toText_ofInd, List.head?_cons] at hhead
      exact absurd hhead (by decide)

end Assembler

namespace Entry.Listable

open Assembler

variable {es : List Entry}

theorem reference_named (h : Listable es) {i : Instruction} (hi : .insn i ∈ es) {name : Text}
    (hname : name ∈ i.labelRefs) : isLabelName name = true :=
  h.named name (h.declared i hi name hname)

/-- The words of a listed entry spell this entry. -/
theorem spells (h : Listable es) {e : Entry} (he : e ∈ es) : Spells e.words e := by
  cases e with
  | label name => exact .label (h.named name he)
  | insn i =>
      refine .insn (instructionOf_toText (h.canonical i he) fun name hname => ?_)
      exact ⟨h.reference_named he hname, h.noRegister i he name hname⟩

theorem words_ne_lineEquate (h : Listable es) {e : Entry} (he : e ∈ es) :
    ∀ w ∈ e.words, w ≠ lineEquate := by
  cases e with
  | label name => exact List.forall_mem_singleton.2 (declaration_ne (by decide))
  | insn i =>
      obtain ⟨_, hline, _⟩ := mnemonic_plain (h.canonical i he).op_mem
      refine List.forall_mem_cons.2 ⟨hline, List.forall_mem_map.2 fun o ho => ?_⟩
      exact toText_ne_lineEquate ((h.canonical i he).operands o ho) fun hkind =>
        h.noLineNumber i he _ (Instruction.mem_labelRefs ho hkind)

theorem spelled (h : Listable es) : Spelled (es.map fun e => (e.words, e)) := by
  have hentries : (es.map fun e => (e.words, e)).map Prod.snd = es := by
    rw [List.map_map]
    exact List.map_id' es
  refine ⟨?_, ?_, by rw [hentries]; exact h.distinct, by rw [hentries]; exact h.declared, ?_⟩ <;>
    refine List.forall_mem_map.2 fun e he => ?_
  · exact h.spells he
  · exact h.words_ne_lineEquate he
  · exact toLine_eq_unwords e ▸ h.short e he

end Entry.Listable

namespace Assembler

/-- Assembling the listing of entries gives these entries back. -/
theorem parse_listing (interpret : Expression.Interpreter) (depth : Nat) (es : List Entry)
    (h : Entry.Listable es) :
    ∃ p, (parse depth (fresh interpret) (Entry.listing es)).verdict = .accepted p ∧ p.entries = es := by
  have hsource : wordsText ((es.map fun e => (e.words, e)).map Prod.fst) = Entry.listing es := by
    rw [wordsText, List.map_map, List.map_map, Entry.listing_eq_unlines]
    exact congrArg _ (List.map_congr_left fun e _ => (Entry.toLine_eq_unwords e).symm)
  obtain ⟨p, hverdict, hentries⟩ := h.spelled.parse_accepted depth
  rw [hsource] at hverdict
  refine ⟨p, hverdict, hentries.trans ?_⟩
  rw [List.map_map]
  exact List.map_id' es

/-- Labels named like a mnemonic, a register, a directive and the line number, and operands of
every kind with the numbers at both ends of their range. -/
def mixedEntries : List Entry :=
  [.label (text "add"), .label (text "r1"), .label (text "LINENO"), .label (text "macro.1"),
    .insn (.alu .add ⟨0⟩ (.ofLabel (text "macro.1"))),
    .insn (.lddw ⟨10⟩ (.ofImm (-2147483648))),
    .insn (.load .dw ⟨1⟩ (.ofInd ⟨2⟩ (-2147483648))),
    .insn (.load .b ⟨1⟩ (.ofInd ⟨10⟩ 2147483647)),
    .insn (.store .h (.ofInd ⟨3⟩ 0) (.ofReg ⟨4⟩)),
    .insn (.jump .sle ⟨5⟩ (.ofImm 0) (.ofLabel (text "add"))),
    .insn (.neg ⟨6⟩),
    .insn (.ja (.ofLabel (text "_end"))),
    .insn .stop,
    .label (text "_end")]

theorem parse_listing_mixedEntries :
    Entry.Listable mixedEntries ∧
      ∃ p, (parse 0 (fresh Expression.interpret) (Entry.listing mixedEntries)).verdict = .accepted p ∧
        p.entries = mixedEntries :=
  ⟨by decide, parse_listing Expression.interpret 0 mixedEntries (by decide)⟩

end Assembler

end TapeMachine
