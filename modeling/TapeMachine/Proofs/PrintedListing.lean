import TapeMachine.Expression.Eval
import TapeMachine.Proofs.EntryBlocks
import TapeMachine.Proofs.LabelBinding
import TapeMachine.Proofs.SpelledLines
import TapeMachine.Proofs.Tables
import TapeMachine.Report

/-! What the printed listing of an accepted program tells. Every instruction has a row, in tape
order, with its place, the labels bound to it, its words and its line, and the words of an
instruction denote it. The labels of the rows and of the footer are all the labels there are. The
footer is in upper case, so two programs with the same listing may differ in the case of the labels
at the end of the tape, and in nothing else. -/

namespace TapeMachine

open Text

namespace Assembler

/-- However an instruction was written, its own words denote it. -/
theorem instructionOf_own_words {mnemonic : Text} {args : List Text} {i : Instruction}
    (h : instructionOf mnemonic args = .ok i) :
    instructionOf i.op.name (i.operands.map Operand.toText) = .ok i := by
  obtain ⟨hcanonical, hwords⟩ := instructionOf_operands h
  refine instructionOf_toText hcanonical fun name hname => ?_
  obtain ⟨o, ho, rfl⟩ := List.mem_map.1 hname
  obtain ⟨hmem, hkind⟩ := List.mem_filter.1 ho
  obtain ⟨word, hword⟩ := hwords o hmem
  obtain ⟨heq, hlabel, hnone⟩ := (operandOf_ok hword).2 (of_decide_eq_true hkind)
  rw [heq]
  refine ⟨hlabel, ?_⟩
  rintro r hr rfl
  rw [Register.ofName?_name hr] at hnone
  cases hnone

end Assembler

/-- A label with a proper name, or an instruction that its own words denote. -/
def Entry.ReadsBack : Entry → Prop
  | label name => Assembler.isLabelName name = true
  | insn i => Assembler.instructionOf i.op.name (i.operands.map Operand.toText) = .ok i

/-- Every entry that assembling makes is read back. -/
theorem Assembler.parse_readsBack (depth : Nat) (a : Assembler) (source : Text) :
    ∀ e ∈ (parse depth a source).state.entries, e.ReadsBack := by
  refine (parse_edits depth a source).invariant
    (I := fun s => ∀ e ∈ s.entries, e.ReadsBack) ?_ (fun e he => nomatch he)
  intro s s' hedit h
  cases hedit with
  | declare n word name _ hname =>
      change ∀ e ∈ (s.push n [word] (.label name)).entries, e.ReadsBack
      rw [State.entries_push]
      exact List.forall_mem_append.2 ⟨h, List.forall_mem_singleton.2 hname⟩
  | emit n mnemonic args i hi =>
      change ∀ e ∈ (s.push n (mnemonic :: args) (.insn i)).entries, e.ReadsBack
      rw [State.entries_push]
      exact List.forall_mem_append.2 ⟨h, List.forall_mem_singleton.2 (instructionOf_own_words hi)⟩
  | _ => exact h

namespace Table

theorem shown_unwords {ws : List Text} (h : ∀ w ∈ ws, Shown w) : Shown (unwords ws) := by
  intro b hb
  obtain rfl | ⟨w, hw, hmem⟩ := mem_unwords hb
  · rfl
  · exact h w hw b hmem

theorem shown_of_isLabelName {name : Text} (h : Assembler.isLabelName name = true) : Shown name := by
  have hall : ∀ b : UInt8, Assembler.continuesLabel b = true → isShown b = true :=
    forall_byte (by decide +kernel)
  exact fun b hb => hall b (Assembler.isLabelName_bytes h b hb)

theorem shown_ofInt (n : Int) : Shown (ofInt n) := by
  have hall : ∀ b : UInt8, isDigit b = true → isShown b = true := forall_byte (by decide +kernel)
  exact forall_mem_ofInt (p := (isShown · = true)) rfl hall n

theorem shown_offsetText (n : Int) : Shown (Operand.offsetText n) := by
  rw [Operand.offsetText]
  split_ifs
  · exact List.forall_mem_cons.2 ⟨rfl, shown_ofInt n⟩
  · exact shown_ofInt n
  · exact fun b hb => by cases hb

theorem shown_toText {o : Operand} (h : o.Canonical)
    (hlabel : o.kind = .label → Assembler.isLabelName o.label = true) : Shown o.toText := by
  cases h with
  | imm v => exact shown_ofInt _
  | label name => exact shown_of_isLabelName (hlabel rfl)
  | reg hr => exact shown_of_isLabelName (Register.isLabelName_name hr)
  | ind hr v =>
      rw [Operand.toText_ofInd]
      refine List.forall_mem_cons.2 ⟨rfl, List.forall_mem_append.2 ⟨?_, ?_⟩⟩
      · exact List.forall_mem_append.2
          ⟨shown_of_isLabelName (Register.isLabelName_name hr), shown_offsetText _⟩
      · exact List.forall_mem_singleton.2 rfl

theorem words_ofInt (n : Int) : words (ofInt n) = [ofInt n] := by
  have hall : ∀ b : UInt8, isDigit b = true → isGraphic b = true := forall_byte (by decide +kernel)
  have hword : IsWord (ofInt n) :=
    ⟨ofInt_ne_nil n, forall_mem_ofInt (p := (isGraphic · = true)) rfl hall n⟩
  have hwords := words_unwords (List.forall_mem_singleton.2 hword.unbroken)
  rwa [unwords_singleton] at hwords

theorem words_unwords_plain {ws : List Text} (h : ∀ w ∈ ws, Assembler.IsPlainWord w) :
    words (unwords ws) = ws := words_unwords fun w hw => (h w hw).isWord.unbroken

theorem upper_unwords (ws : List Text) : upper (unwords ws) = unwords (ws.map upper) := by
  induction ws with
  | nil => rfl
  | cons w ws ih =>
      cases ws with
      | nil => rw [List.map_singleton, unwords_singleton, unwords_singleton]
      | cons v ws =>
          rw [unwords_cons_cons, List.map_cons, List.map_cons, unwords_cons_cons, ← List.map_cons,
            ← ih, upper, List.map_append, List.map_cons]
          rfl

theorem isPlainWord_upper {name : Text} (h : Assembler.isLabelName name = true) :
    Assembler.IsPlainWord (upper name) where
  ne_nil hnil := Assembler.ne_nil_of_isLabelName h (List.map_eq_nil_iff.1 hnil)
  plain := by
    have hall : ∀ b : UInt8, Assembler.continuesLabel b = true →
        Assembler.isPlain (if byte 'a' ≤ b && b ≤ byte 'z' then b - 32 else b) = true :=
      forall_byte (by decide +kernel)
    exact List.forall_mem_map.2 fun b hb => hall b (Assembler.isLabelName_bytes h b hb)

end Table

namespace Program

open Entry

/-- The labels that are bound to a place of the tape, in source order. -/
def labelsAt (p : Program) (k : Nat) : List Text :=
  ((resolve p.entries).labels.entries.filter (·.2 = k)).map Prod.fst

/-- A program whose statements stand where they should, whose labels resolve and whose entries are
read back. -/
structure Printable (p : Program) : Prop where
  placed : Statement.Placed 0 p.statements
  resolves : (resolve p.entries).error = none
  readsBack : ∀ e ∈ p.entries, e.ReadsBack

/-- Accepted programs are printable. -/
theorem printable_of_accepted {depth : Nat} {a : Assembler} {source : Text} {p : Program}
    (h : (Assembler.parse depth a source).verdict = .accepted p) : p.Printable := by
  obtain ⟨hstatements, hmissing⟩ := Assembler.parse_accepted h
  have hcoherent := Assembler.parse_coherent depth a source
  have hentries : p.entries = (Assembler.parse depth a source).state.entries :=
    congrArg (List.map Statement.entry) hstatements
  refine ⟨?_, ?_, ?_⟩
  · rw [hstatements]
    exact hcoherent.placed
  · rw [hentries, hcoherent.resolve_error, hmissing]
    rfl
  · rw [hentries]
    exact Assembler.parse_readsBack depth a source

/-- The row of the instruction at a place, with the labels and the line that belong there. -/
def listingRow (at_ : Nat → List Text) (line : Int → Int) (x : Instruction × Nat) :
    List Table.Cell :=
  [.number (ofInt x.2), .words (unwords (at_ x.2)), .words x.1.toText, .number (ofInt (line x.2))]

theorem listingRows_label (pending : List Text) (line pc : Int) (words : List Text) (name : Text)
    (sts : List Statement) :
    listingRows pending (⟨line, pc, words, .label name⟩ :: sts) =
      listingRows (pending ++ [name]) sts := rfl

theorem listingRows_insn (pending : List Text) (line pc : Int) (words : List Text) (i : Instruction)
    (sts : List Statement) :
    listingRows pending (⟨line, pc, words, .insn i⟩ :: sts) =
      ([.number (ofInt pc), .words (unwords pending), .words i.toText, .number (ofInt line)] ::
        (listingRows [] sts).1, (listingRows [] sts).2) := rfl

/-- The rows of a listing, with some labels before the first statement. -/
theorem listingRows_eq {count : Nat} {sts : List Statement} (h : Statement.Placed count sts)
    (pending : List Text) :
    listingRows pending sts =
      (((Entry.instructions (sts.map Statement.entry)).zipIdx count).map
          (listingRow (Entry.labelsAt count (pending.map label ++ sts.map Statement.entry))
            (lineAt ⟨sts⟩)),
        Entry.labelsAt count (pending.map label ++ sts.map Statement.entry)
          (count + (Entry.instructions (sts.map Statement.entry)).length)) := by
  induction sts generalizing count pending with
  | nil =>
      rw [listingRows, List.map_nil, List.append_nil, instructions_nil, List.zipIdx_nil, List.map_nil,
        List.length_nil, Nat.add_zero, labelsAt_map_label, if_pos rfl]
  | cons st sts ih =>
      obtain ⟨line, pc, words, entry⟩ := st
      cases entry with
      | label name =>
          have hbelow := ih (Statement.placed_label.1 h).2 (pending ++ [name])
          rw [List.map_append, List.append_assoc] at hbelow
          rw [listingRows_label, hbelow]
          rfl
      | insn i =>
          obtain ⟨hpc, hrest⟩ := Statement.placed_insn.1 h
          have hbelow := ih hrest []
          rw [List.map_nil, List.nil_append] at hbelow
          rw [listingRows_insn, hbelow, List.map_cons, instructions_insn, List.zipIdx_cons,
            List.map_cons, List.length_cons, listingRow, labelsAt_block, if_pos rfl, labelsAt_block,
            if_neg (by omega), hpc, ← Nat.add_assoc, Nat.add_right_comm]
          have hline : lineAt ⟨⟨line, count, words, .insn i⟩ :: sts⟩ count = line := by
            rw [lineAt, Statement.statementAt?_insn, if_pos rfl]
          have hrows : ∀ x ∈ (Entry.instructions (sts.map Statement.entry)).zipIdx (count + 1),
              listingRow (Entry.labelsAt (count + 1) (sts.map Statement.entry)) (lineAt ⟨sts⟩) x =
                listingRow
                  (Entry.labelsAt count (pending.map label ++ insn i :: sts.map Statement.entry))
                  (lineAt ⟨⟨line, count, words, .insn i⟩ :: sts⟩) x := by
            intro x hx
            have hle := List.le_snd_of_mem_zipIdx hx
            rw [listingRow, listingRow, labelsAt_block, if_neg (by omega), lineAt, lineAt,
              Statement.statementAt?_insn, if_neg (by omega)]
          rw [hline, List.map_congr_left hrows]

/-- The labels at the end of the tape. -/
def endLabels (p : Program) : List Text := p.labelsAt (resolve p.entries).tape.length

namespace Printable

variable {p q : Program}

theorem tape_eq (h : p.Printable) : (resolve p.entries).tape = Entry.instructions p.entries :=
  (resolve_ok h.resolves).2.2

theorem labelsAt_eq (h : p.Printable) : p.labelsAt = Entry.labelsAt 0 p.entries := by
  funext k
  rw [Program.labelsAt, (resolve_labels_entries h.resolves).1, Entry.labelsAt]

/-- The listing as a table of the tape. -/
theorem listing_eq (h : p.Printable) : p.listing =
    { header := [text "Pc", text "Labels", text "Instruction", text "Line"]
      rows := (resolve p.entries).tape.zipIdx.map (listingRow p.labelsAt p.lineAt)
      footer := if p.endLabels.isEmpty then none else some [[], unwords p.endLabels, [], []] } := by
  have hrows := listingRows_eq h.placed []
  rw [List.map_nil, List.nil_append, Nat.zero_add, ← entries, ← h.tape_eq, ← h.labelsAt_eq] at hrows
  rw [listing, hrows]
  rfl

theorem labelsAt_named (h : p.Printable) (k : Nat) :
    ∀ name ∈ p.labelsAt k, Assembler.isLabelName name = true := by
  intro name hname
  rw [h.labelsAt_eq, Entry.labelsAt] at hname
  obtain ⟨x, hx, rfl⟩ := List.mem_map.1 hname
  obtain ⟨before, after, hentries, -⟩ := mem_places.1 (List.mem_filter.1 hx).1
  exact h.readsBack (label x.1) (by rw [hentries]; simp)

theorem reads (h : p.Printable) {i : Instruction} (hi : i ∈ (resolve p.entries).tape) :
    Assembler.instructionOf i.op.name (i.operands.map Operand.toText) = .ok i :=
  h.readsBack (insn i) (mem_instructions.1 (h.tape_eq ▸ hi))

theorem words_plain (h : p.Printable) {i : Instruction} (hi : i ∈ (resolve p.entries).tape) :
    ∀ w ∈ i.op.name :: i.operands.map Operand.toText, Assembler.IsPlainWord w :=
  (Assembler.Spells.insn (h.reads hi)).plain

theorem words_shown (h : p.Printable) {i : Instruction} (hi : i ∈ (resolve p.entries).tape) :
    ∀ w ∈ i.op.name :: i.operands.map Operand.toText, Table.Shown w := by
  have hcanonical := Assembler.instructionOf_canonical (h.reads hi)
  refine List.forall_mem_cons.2 ⟨?_, List.forall_mem_map.2 fun o ho => ?_⟩
  · have hnames : ∀ op ∈ Opcode.numbered.tail, Assembler.isLabelName op.name = true := by decide
    exact Table.shown_of_isLabelName (hnames i.op hcanonical.op_mem)
  · refine Table.shown_toText (hcanonical.operands o ho) fun hkind => ?_
    have hbound := resolve_labelRefs h.resolves hi (Instruction.mem_labelRefs ho hkind)
    rw [Bindings.contains_iff_mem_names, Bindings.names, (resolve_labels_entries h.resolves).1,
      map_fst_places, mem_filterMap_label?] at hbound
    exact h.readsBack (label o.label) hbound

theorem listing_plain (h : p.Printable) : p.listing.Plain := by
  have hlabels : ∀ k, Table.Shown (unwords (p.labelsAt k)) := fun k =>
    Table.shown_unwords fun name hname => Table.shown_of_isLabelName (h.labelsAt_named k name hname)
  have hempty : Table.Shown [] := fun b hb => by cases hb
  have hheader : ([text "Pc", text "Labels", text "Instruction", text "Line"].all
      Assembler.isLabelName) = true := by decide
  rw [h.listing_eq]
  refine ⟨rfl, List.cons_ne_nil _ _, fun x hx => ?_, List.forall_mem_map.2 fun x hx => ⟨rfl, ?_⟩, ?_⟩
  · exact Table.shown_of_isLabelName (List.all_eq_true.1 hheader x hx)
  · have hwords := h.words_shown (List.fst_mem_of_mem_zipIdx hx)
    refine List.forall_mem_cons.2
      ⟨Table.shown_ofInt x.2, List.forall_mem_cons.2 ⟨hlabels x.2, List.forall_mem_cons.2 ⟨?_, ?_⟩⟩⟩
    · exact Table.shown_unwords hwords
    · exact List.forall_mem_singleton.2 (Table.shown_ofInt (p.lineAt x.2))
  · intro f hf
    dsimp only at hf ⊢
    split_ifs at hf
    · cases hf
    · cases hf
      refine ⟨rfl, List.forall_mem_cons.2 ⟨hempty, List.forall_mem_cons.2 ⟨hlabels _, ?_⟩⟩⟩
      exact List.forall_mem_cons.2 ⟨hempty, List.forall_mem_singleton.2 hempty⟩

end Printable

/-! ### Reading listings -/

/-- What is read from a text is what there is to tell of a program: a row for each instruction of the
tape, with its place, the labels bound to it, its words and its line, and the labels at the end in a
footer, in upper case. The labels of all places are the labels of the program, each once. -/
structure ShownBy (p : Program) (t : Text) : Prop where
  rows : Table.readRows t = (resolve p.entries).tape.zipIdx.map fun x =>
    [[ofInt x.2], p.labelsAt x.2, x.1.op.name :: x.1.operands.map Operand.toText,
      [ofInt (p.lineAt x.2)]]
  footer : Table.readFooter t =
    if p.endLabels.isEmpty then [] else [[[], p.endLabels.map upper, [], []]]
  labels : (List.range ((resolve p.entries).tape.length + 1)).flatMap p.labelsAt = p.labels
  distinct : p.labels.Nodup

namespace Printable

variable {p q : Program} {write : Table → Text}

theorem words_unwords_labelsAt (h : p.Printable) (k : Nat) :
    words (unwords (p.labelsAt k)) = p.labelsAt k :=
  Table.words_unwords_plain fun name hname =>
    Assembler.isPlainWord_of_isLabelName (h.labelsAt_named k name hname)

/-- The listing of a program shows the program. -/
theorem shownBy_listing (hwrite : Table.Legible write) (h : p.Printable) :
    p.ShownBy (write p.listing) where
  rows := by
    rw [hwrite.rows h.listing_plain, h.listing_eq, List.map_map]
    refine List.map_congr_left fun x hx => ?_
    have hwords := h.words_plain (List.fst_mem_of_mem_zipIdx hx)
    change [words (ofInt x.2), words (unwords (p.labelsAt x.2)), words x.1.toText,
      words (ofInt (p.lineAt x.2))] = _
    rw [Table.words_ofInt, h.words_unwords_labelsAt, Instruction.toText,
      Table.words_unwords_plain hwords, Table.words_ofInt]
  footer := by
    have hupper : words (upper (unwords p.endLabels)) = p.endLabels.map upper := by
      rw [Table.upper_unwords]
      exact Table.words_unwords_plain (List.forall_mem_map.2 fun name hname =>
        Table.isPlainWord_upper (h.labelsAt_named _ name hname))
    rw [hwrite.footer h.listing_plain, h.listing_eq]
    dsimp only
    split_ifs
    · rfl
    · change [[words [], words (upper (unwords p.endLabels)), words [], words []]] = _
      rw [hupper]
      rfl
  labels := by
    rw [h.tape_eq, h.labelsAt_eq, List.range_eq_range']
    exact flatMap_labelsAt 0 p.entries
  distinct := by
    obtain ⟨hentries, hnodup⟩ := resolve_labels_entries h.resolves
    rw [Bindings.names, hentries, map_fst_places] at hnodup
    exact hnodup

/-- Programs agree on the tape and on its labels and lines, but for the case of the labels at the
end. -/
structure Agrees (p q : Program) : Prop where
  tape : (resolve p.entries).tape = (resolve q.entries).tape
  labels : ∀ k < (resolve p.entries).tape.length, p.labelsAt k = q.labelsAt k
  lines : ∀ k < (resolve p.entries).tape.length, p.lineAt k = q.lineAt k
  ends : p.endLabels.map upper = q.endLabels.map upper

theorem agrees_of_write_eq (hwrite : Table.Legible write) (hp : p.Printable) (hq : q.Printable)
    (h : write p.listing = write q.listing) : Agrees p q := by
  have hshown := hq.shownBy_listing hwrite
  have hrows := (hp.shownBy_listing hwrite).rows
  have hfooter := (hp.shownBy_listing hwrite).footer
  rw [h, hshown.rows] at hrows
  rw [h, hshown.footer] at hfooter
  have hlength : (resolve q.entries).tape.length = (resolve p.entries).tape.length := by
    simpa using congrArg List.length hrows
  have hrow : ∀ k < (resolve p.entries).tape.length,
      (resolve p.entries).tape[k]? = (resolve q.entries).tape[k]? ∧
        p.labelsAt k = q.labelsAt k ∧ p.lineAt k = q.lineAt k := by
    intro k hk
    have hcells := congrArg (·[k]?) hrows
    have hi := List.getElem?_eq_getElem hk
    have hj := List.getElem?_eq_getElem (hlength ▸ hk : k < (resolve q.entries).tape.length)
    simp only [List.getElem?_map, List.getElem?_zipIdx, hi, hj, Option.map_some, Option.some_inj,
      List.cons.injEq, Nat.zero_add] at hcells
    obtain ⟨-, hlabels, ⟨hop, hoperands⟩, ⟨hline, -⟩, -⟩ := hcells
    have hread := hp.reads (List.getElem_mem hk)
    rw [← hop, ← hoperands, hq.reads (List.getElem_mem _)] at hread
    rw [hi, hj, Except.ok.inj hread]
    exact ⟨rfl, hlabels.symm, (ofInt_injective hline).symm⟩
  refine ⟨List.ext_getElem? fun k => ?_, fun k hk => (hrow k hk).2.1, fun k hk => (hrow k hk).2.2, ?_⟩
  · rcases Nat.lt_or_ge k (resolve p.entries).tape.length with hk | hk
    · exact (hrow k hk).1
    · rw [List.getElem?_eq_none hk, List.getElem?_eq_none (hlength ▸ hk)]
  · split_ifs at hfooter with hempty hempty' hempty'
    · rw [List.isEmpty_iff.1 hempty, List.isEmpty_iff.1 hempty']
    · simpa using hfooter.symm

theorem isEmpty_eq_of_map_upper {names names' : List Text}
    (h : names.map upper = names'.map upper) : names.isEmpty = names'.isEmpty := by
  have hlength := congrArg List.length h
  rw [List.length_map, List.length_map] at hlength
  cases names <;> cases names' <;> simp_all

theorem write_eq_of_agrees (hwrite : Table.Legible write) (hp : p.Printable) (hq : q.Printable)
    (h : Agrees p q) : write p.listing = write q.listing := by
  refine hwrite.congr hp.listing_plain hq.listing_plain ?_ ?_ ?_
  · rw [hp.listing_eq, hq.listing_eq]
  · rw [hp.listing_eq, hq.listing_eq]
    dsimp only
    rw [← h.tape]
    refine List.map_congr_left fun x hx => ?_
    have hlt : x.2 < (resolve p.entries).tape.length := by
      simpa using List.snd_lt_add_of_mem_zipIdx hx
    rw [listingRow, listingRow, h.labels x.2 hlt, h.lines x.2 hlt]
  · rw [hp.listing_eq, hq.listing_eq]
    dsimp only
    rw [isEmpty_eq_of_map_upper h.ends]
    split_ifs
    · rfl
    · simp only [Option.map_some, List.map_cons, Table.upper_unwords, h.ends]

theorem entries_eq (h : p.Printable) : p.entries =
    (resolve p.entries).tape.zipIdx.flatMap (fun x => (p.labelsAt x.2).map label ++ [insn x.1]) ++
      p.endLabels.map label := by
  have hweave := weave_labelsAt 0 p.entries
  rw [← h.tape_eq, ← h.labelsAt_eq, weave, Nat.zero_add] at hweave
  exact hweave.symm

theorem tape_append (h : p.Printable) {body : List Entry} {names : List Text}
    (hentries : p.entries = body ++ names.map label) :
    (resolve p.entries).tape = Entry.instructions body := by
  rw [h.tape_eq, hentries, instructions_append, instructions_map_label, List.append_nil]

theorem labelsAt_append (h : p.Printable) {body : List Entry} {names : List Text}
    (hentries : p.entries = body ++ names.map label) (k : Nat) :
    p.labelsAt k =
      Entry.labelsAt 0 body k ++ if k = (Entry.instructions body).length then names else [] := by
  rw [h.labelsAt_eq, hentries, labelsAt_append_map_label, Nat.zero_add]

theorem endLabels_append (h : p.Printable) {body : List Entry} {names : List Text}
    (hentries : p.entries = body ++ names.map label) :
    p.endLabels = Entry.labelsAt 0 body (Entry.instructions body).length ++ names := by
  rw [endLabels, h.labelsAt_append hentries, h.tape_append hentries, if_pos rfl]

end Printable

/-- Entries that are the same but for the case of labels at the end. -/
def AlikeButEndCase (es fs : List Entry) : Prop :=
  ∃ (body : List Entry) (names names' : List Text), es = body ++ names.map label ∧
    fs = body ++ names'.map label ∧ names.map upper = names'.map upper

namespace Printable

variable {p q : Program}

theorem agrees_iff (hp : p.Printable) (hq : q.Printable) :
    Agrees p q ↔ AlikeButEndCase p.entries q.entries ∧
      ∀ k < (resolve p.entries).tape.length, p.lineAt k = q.lineAt k := by
  constructor
  · intro h
    refine ⟨⟨_, _, _, hp.entries_eq, ?_, h.ends⟩, h.lines⟩
    rw [List.flatMap_congr fun x hx => ?_]
    · rw [h.tape]
      exact hq.entries_eq
    · have hlt : x.2 < (resolve p.entries).tape.length := by
        simpa using List.snd_lt_add_of_mem_zipIdx hx
      rw [h.labels x.2 hlt]
  · rintro ⟨⟨body, names, names', hes, hfs, hupper⟩, hlines⟩
    refine ⟨?_, fun k hk => ?_, hlines, ?_⟩
    · rw [hp.tape_append hes, hq.tape_append hfs]
    · rw [hp.tape_append hes] at hk
      rw [hp.labelsAt_append hes, hq.labelsAt_append hfs, if_neg (by omega), if_neg (by omega)]
    · rw [hp.endLabels_append hes, hq.endLabels_append hfs, List.map_append, List.map_append, hupper]

theorem write_eq_iff {write : Table → Text} (hwrite : Table.Legible write) (hp : p.Printable)
    (hq : q.Printable) :
    write p.listing = write q.listing ↔ AlikeButEndCase p.entries q.entries ∧
      ∀ k < (resolve p.entries).tape.length, p.lineAt k = q.lineAt k :=
  ⟨fun h => (agrees_iff hp hq).1 (agrees_of_write_eq hwrite hp hq h),
    fun h => write_eq_of_agrees hwrite hp hq ((agrees_iff hp hq).2 h)⟩

theorem entries_eq_iff (hp : p.Printable) (hq : q.Printable)
    (h : AlikeButEndCase p.entries q.entries) :
    p.entries = q.entries ↔ p.endLabels = q.endLabels := by
  constructor
  · intro heq
    rw [endLabels, endLabels, Program.labelsAt, Program.labelsAt, heq]
  · intro hends
    obtain ⟨body, names, names', hes, hfs, -⟩ := h
    rw [hp.endLabels_append hes, hq.endLabels_append hfs] at hends
    rw [hes, hfs, List.append_cancel_left hends]

end Printable

/-- The listing of an accepted program shows its instructions with their labels and lines.
Two programs have the same listing exactly if they agree on lines and on entries, but for the case of
labels at the end of the tape, and then the entries are the same if these labels are. -/
theorem equal_listings_differ_in_end_case {write : Table → Text} (hwrite : Table.Legible write)
    {depth depth' : Nat} {a a' : Assembler} {source source' : Text} {p q : Program}
    (hp : (Assembler.parse depth a source).verdict = .accepted p)
    (hq : (Assembler.parse depth' a' source').verdict = .accepted q) :
    p.ShownBy (write p.listing) ∧
      (write p.listing = write q.listing ↔ AlikeButEndCase p.entries q.entries ∧
        ∀ k < (resolve p.entries).tape.length, p.lineAt k = q.lineAt k) ∧
      (write p.listing = write q.listing →
        (p.entries = q.entries ↔ p.endLabels = q.endLabels)) := by
  have hp := printable_of_accepted hp
  have hq := printable_of_accepted hq
  refine ⟨hp.shownBy_listing hwrite, hp.write_eq_iff hwrite hq, fun h => ?_⟩
  exact hp.entries_eq_iff hq ((hp.write_eq_iff hwrite hq).1 h).1

/-- A loop with two labels, and a label behind it. -/
def loopSource (name : Text) : Text := text "top:\nagain:\nja again\n" ++ name ++ text ":\n"

def loopProgram (name : Text) : Program :=
  ⟨[⟨1, 0, [text "top:"], .label (text "top")⟩, ⟨2, 0, [text "again:"], .label (text "again")⟩,
    ⟨3, 0, [text "ja", text "again"], .insn (.ja (.ofLabel (text "again")))⟩,
    ⟨4, 1, [name ++ text ":"], .label name⟩]⟩

theorem loops_listed_alike :
    (Assembler.parse 0 (.fresh Expression.interpret) (loopSource (text "end"))).verdict =
        .accepted (loopProgram (text "end")) ∧
      (Assembler.parse 0 (.fresh Expression.interpret) (loopSource (text "End"))).verdict =
        .accepted (loopProgram (text "End")) ∧
      (loopProgram (text "end")).ShownBy (loopProgram (text "end")).listing.render ∧
      (loopProgram (text "end")).listing.render = (loopProgram (text "End")).listing.render ∧
      (loopProgram (text "end")).entries ≠ (loopProgram (text "End")).entries := by
  have hend : (Assembler.parse 0 (.fresh Expression.interpret) (loopSource (text "end"))).verdict =
      .accepted (loopProgram (text "end")) := by decide
  have hEnd : (Assembler.parse 0 (.fresh Expression.interpret) (loopSource (text "End"))).verdict =
      .accepted (loopProgram (text "End")) := by decide
  obtain ⟨hshown, hiff, -⟩ := equal_listings_differ_in_end_case Table.legible_render hend hEnd
  refine ⟨hend, hEnd, hshown, hiff.2 ⟨⟨(loopProgram []).entries.dropLast, [text "end"],
    [text "End"], by decide, by decide, by decide⟩, by decide⟩, by decide⟩

/-- Labels at the end of the tape that differ in case only are shown alike. -/
theorem end_and_END_listed_alike :
    ∃ p q, (Assembler.parse 0 (.fresh Expression.interpret) (text "stop\nend:\n")).verdict = .accepted p ∧
      (Assembler.parse 0 (.fresh Expression.interpret) (text "stop\nEND:\n")).verdict = .accepted q ∧
      p.listing.render = q.listing.render ∧ p.entries ≠ q.entries :=
  ⟨⟨[⟨1, 0, [text "stop"], .insn .stop⟩, ⟨2, 1, [text "end:"], .label (text "end")⟩]⟩,
    ⟨[⟨1, 0, [text "stop"], .insn .stop⟩, ⟨2, 1, [text "END:"], .label (text "END")⟩]⟩,
    by decide, by decide, by decide +kernel, by decide⟩

end Program

end TapeMachine
