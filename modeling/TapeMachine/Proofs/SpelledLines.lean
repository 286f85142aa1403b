import TapeMachine.Proofs.LabelBinding
import TapeMachine.Proofs.Spelling

/-! Lines that stand for themselves. On a state without macros and without equates other than the
line number, words that declare a label or denote an instruction make a line that adds this entry and
does nothing else. A source of such lines, where no word is the line number and every reference is
to one of the labels, is therefore accepted, and its program is the entries that its lines spell. -/

namespace TapeMachine.Assembler

open Text

variable {interpret : Expression.Interpreter}

/-- A state outside macro definitions, with no macro and no equate but the line number. -/
structure State.Bare (s : State) : Prop where
  outside : s.defining = none
  noMacros : s.macros = {}
  noEquates : ∀ w, w ≠ lineEquate → s.equates.get? w = none

namespace State.Bare

variable {s : State}

theorem atLine (h : s.Bare) (n : Nat) : (s.atLine n).Bare where
  outside := h.outside
  noMacros := h.noMacros
  noEquates w hw := by
    rw [State.atLine, Bindings.get?_insert_of_ne _ _ hw]
    exact h.noEquates w hw

theorem declare (h : s.Bare) (n : Nat) (word name : Text) : (s.declare n word name).Bare :=
  ⟨h.outside, h.noMacros, h.noEquates⟩

theorem emit (h : s.Bare) (n : Nat) (words : List Text) (i : Instruction) :
    (s.emit n words i).Bare :=
  ⟨h.outside, h.noMacros, h.noEquates⟩

theorem map_substitute (h : s.Bare) {ws : List Text} (hws : ∀ w ∈ ws, w ≠ lineEquate) :
    ws.map (substitute s.equates) = ws := by
  refine (List.map_congr_left fun w hw => ?_).trans (List.map_id' ws)
  rw [substitute, h.noEquates w (hws w hw), Option.getD_none]

end State.Bare

/-- A line without quotes and dollar signs is read as its words. -/
theorem readWords_plain {line : Text} (hquote : quote ∉ line) (hdollar : byte '$' ∉ line) (s : State) :
    readWords interpret line s = .ok (words line) s := by
  rw [readWords_run, replaceConstants_eq_self _ hquote hdollar]
  simp only [List.append_nil]

theorem readWords_unwords {ws : List Text} (h : ∀ w ∈ ws, IsPlainWord w) (s : State) :
    readWords interpret (unwords ws) s = .ok ws s := by
  rw [readWords_plain (not_mem_unwords h (by decide) (by decide))
    (not_mem_unwords h (by decide) (by decide)), words_unwords fun w hw => (h w hw).isWord.unbroken]

/-- The words that make a line something else than labels and an instruction. -/
def directives : List Text := [text ".equ", text ".macro", text ".endm"]

theorem assembleLine_eq_assembleWith (depth : Nat) :
    ∃ expand, assembleLine interpret depth = assembleWith interpret expand := by
  cases depth with
  | zero => exact ⟨_, rfl⟩
  | succ depth => exact ⟨_, rfl⟩

/-- On a bare state, a line of plain words declares the labels in front and adds what follows. -/
theorem State.Bare.sourceLine_run {s : State} (h : s.Bare) (depth n : Nat) {w : Text}
    {ws : List Text} (hplain : ∀ v ∈ w :: ws, IsPlainWord v) (hline : ∀ v ∈ w :: ws, v ≠ lineEquate)
    (hdirective : w ∉ directives) :
    ∃ expand, sourceLine interpret depth n (unwords (w :: ws)) s =
      match declareLabels n (w :: ws) (s.atLine n) with
      | .ok [] s' => .ok () s'
      | .ok (name :: args) s' => assembleWords expand n name args s'
      | .error e s' => .error e s' := by
  simp only [directives, List.mem_cons, List.not_mem_nil, or_false, not_or] at hdirective
  obtain ⟨hequ, hopen, hclose⟩ := hdirective
  have hhead : (words (unwords (w :: ws))).head? = some w := by
    rw [words_unwords fun v hv => (hplain v hv).isWord.unbroken, List.head?_cons]
  obtain ⟨expand, hexpand⟩ := assembleLine_eq_assembleWith depth
  refine ⟨expand, ?_⟩
  have hassembles : s.Assembles (unwords (w :: ws)) := by
    refine ⟨h.outside, ?_, ?_⟩
    · rwa [hhead, Ne, Option.some_inj]
    · rwa [hhead, Ne, Option.some_inj]
  rw [Assembler.sourceLine_run, if_pos hassembles, hexpand]
  simp only [assembleWith, bind_run, setLine_run, readWords_unwords hplain, if_neg hequ, get_run,
    (h.atLine n).map_substitute hline]
  rcases declareLabels n (w :: ws) (s.atLine n) with ⟨_ | ⟨name, args⟩, s'⟩ | ⟨e, s'⟩ <;> rfl

theorem isPlainWord_declaration {name : Text} (h : isLabelName name = true) :
    IsPlainWord (name ++ text ":") where
  ne_nil := List.append_ne_nil_of_left_ne_nil (ne_nil_of_isLabelName h) _
  plain := List.forall_mem_append.2
    ⟨(isPlainWord_of_isLabelName h).plain, List.forall_mem_singleton.2 (by decide)⟩

theorem declaredName?_declaration (name : Text) : declaredName? (name ++ text ":") = some name := by
  have hcolon : text ":" = [byte ':'] := rfl
  rw [hcolon, declaredName?, List.getLast?_concat, if_pos rfl, List.dropLast_concat]

/-- A word that declares no label differs from every declaration. -/
theorem declaration_ne {name w : Text} (h : declaredName? w = none) : name ++ text ":" ≠ w := by
  rintro rfl
  rw [declaredName?_declaration] at h
  cases h

theorem mnemonic_plain {op : Opcode} (h : op ∈ Opcode.numbered.tail) :
    IsPlainWord op.name ∧ op.name ≠ lineEquate ∧ op.name ∉ directives ∧
      declaredName? op.name = none := by
  have hall : ∀ op ∈ Opcode.numbered.tail, isLabelName op.name = true ∧ op.name ≠ lineEquate ∧
      op.name ∉ directives ∧ declaredName? op.name = none := by decide
  obtain ⟨hname, hrest⟩ := hall op h
  exact ⟨isPlainWord_of_isLabelName hname, hrest⟩

/-- The words of a line that declares a label or denotes an instruction. -/
inductive Spells : List Text → Entry → Prop where
  | label {name : Text} (hname : isLabelName name = true) : Spells [name ++ text ":"] (.label name)
  | insn {mnemonic : Text} {args : List Text} {i : Instruction}
      (hi : instructionOf mnemonic args = .ok i) : Spells (mnemonic :: args) (.insn i)

/-- The first word of an instruction is the mnemonic of an opcode. -/
theorem mnemonic_of_instructionOf {mnemonic : Text} {args : List Text} {i : Instruction}
    (h : instructionOf mnemonic args = .ok i) : ∃ op ∈ Opcode.numbered.tail, op.name = mnemonic := by
  obtain ⟨op, _, hop, _⟩ := instructionOf_ok h
  exact ⟨op, List.mem_of_find?_eq_some hop, by simpa using List.find?_some hop⟩

/-- Whatever spells an entry is made of plain words. -/
theorem Spells.plain {ws : List Text} {e : Entry} (h : Spells ws e) : ∀ w ∈ ws, IsPlainWord w := by
  cases h with
  | label hname => exact List.forall_mem_singleton.2 (isPlainWord_declaration hname)
  | insn hi =>
      obtain ⟨op, hop, rfl⟩ := mnemonic_of_instructionOf hi
      obtain ⟨_, os, _, hpairs, _⟩ := instructionOf_ok hi
      refine List.forall_mem_cons.2 ⟨(mnemonic_plain hop).1, fun w hw => ?_⟩
      obtain ⟨k, hk, rfl⟩ := List.getElem_of_mem hw
      exact isPlainWord_of_operandOf (hpairs.get hk (hpairs.length_eq ▸ hk))

namespace State.Bare

variable {s : State}

theorem label_line (h : s.Bare) (depth n : Nat) {name : Text} (hname : isLabelName name = true)
    (hfresh : s.labels.contains name = false) :
    sourceLine interpret depth n (unwords [name ++ text ":"]) s
      = .ok () ((s.atLine n).declare n (name ++ text ":") name) := by
  have hdirective : name ++ text ":" ∉ directives := by
    have hall : ∀ w ∈ directives, declaredName? w = none := by decide
    exact fun hmem => declaration_ne (hall _ hmem) rfl
  obtain ⟨expand, hrun⟩ := h.sourceLine_run depth n
    (List.forall_mem_singleton.2 (isPlainWord_declaration hname))
    (List.forall_mem_singleton.2 (declaration_ne (by decide))) hdirective
  have hlabels : (s.atLine n).labels.contains name = false := hfresh
  rw [hrun, declareLabels, declaredName?_declaration]
  simp only [bind_run, declareLabel_run, hname, hlabels, if_true, Bool.false_eq_true, if_false]
  rfl

theorem instruction_line (h : s.Bare) (depth n : Nat) {mnemonic : Text} {args : List Text}
    {i : Instruction} (hi : instructionOf mnemonic args = .ok i)
    (hline : ∀ w ∈ mnemonic :: args, w ≠ lineEquate) :
    sourceLine interpret depth n (unwords (mnemonic :: args)) s
      = .ok () ((s.atLine n).emit n (mnemonic :: args) i) := by
  obtain ⟨op, hop, rfl⟩ := mnemonic_of_instructionOf hi
  obtain ⟨_, _, hdirective, hdeclares⟩ := mnemonic_plain hop
  obtain ⟨expand, hrun⟩ := h.sourceLine_run depth n (Spells.insn hi).plain hline hdirective
  have hmacros : (s.atLine n).macros.get? op.name = none := by
    rw [(h.atLine n).noMacros, Bindings.get?_empty]
  rw [hrun, declareLabels, hdeclares]
  simp only [pure_run, assembleWords_run, hmacros, addInstruction_run, hi]

/-- A line that spells an entry adds this entry. -/
theorem spelled_line (h : s.Bare) (hcoherent : s.Coherent) (interpret : Expression.Interpreter)
    (depth n : Nat) {ws : List Text} {e : Entry} (hspells : Spells ws e) (hline : ∀ w ∈ ws, w ≠ lineEquate)
    (hfresh : ∀ name, e = .label name → name ∉ s.entries.filterMap Entry.label?) :
    ∃ s', sourceLine interpret depth n (unwords ws) s = .ok () s' ∧ s'.Bare ∧ s'.Coherent ∧
      s'.entries = s.entries ++ [e] := by
  have hcoherent' : (s.atLine n).Coherent := ⟨hcoherent.placed, hcoherent.count, hcoherent.bound⟩
  cases hspells with
  | @label name hname =>
      have hnew : s.labels.contains name = false := by
        rw [Bool.eq_false_iff, Ne, Bindings.contains_iff_mem_names, hcoherent.labels_names]
        exact hfresh name rfl
      refine ⟨_, h.label_line depth n hname hnew, (h.atLine n).declare n _ name,
        hcoherent'.declare n _ hname hnew, ?_⟩
      exact State.entries_push (s.atLine n) n [name ++ text ":"] (.label name)
  | @insn mnemonic args i hi =>
      refine ⟨_, h.instruction_line depth n hi hline, (h.atLine n).emit n _ i, hcoherent'.emit n _ i, ?_⟩
      exact State.entries_push (s.atLine n) n (mnemonic :: args) (.insn i)

end State.Bare

/-- Lines that spell entries with distinct labels and references to these labels only. No word is
the line number, and no line is too long. -/
structure Spelled (ls : List (List Text × Entry)) : Prop where
  spells : ∀ l ∈ ls, Spells l.1 l.2
  noLineNumber : ∀ l ∈ ls, ∀ w ∈ l.1, w ≠ lineEquate
  distinct : ((ls.map Prod.snd).filterMap Entry.label?).Nodup
  declared : ∀ i, .insn i ∈ ls.map Prod.snd → ∀ name ∈ i.labelRefs, .label name ∈ ls.map Prod.snd
  short : ∀ l ∈ ls, (unwords l.1).length < Source.lineLimit

/-- The source that lines of words make. -/
def wordsText (ls : List (List Text)) : Text := Source.unlines (ls.map unwords)

namespace Spelled

variable {ls : List (List Text × Entry)}

theorem lines_wordsText (h : Spelled ls) :
    Source.lines (wordsText (ls.map Prod.fst)) = ⟨(ls.map Prod.fst).map unwords, false⟩ := by
  rw [List.map_map]
  rw [wordsText, List.map_map]
  refine Source.lines_unlines ?_ ?_ ?_ <;> refine List.forall_mem_map.2 fun l hl => ?_
  · exact decide_eq_true (h.short l hl)
  · exact not_mem_unwords (h.spells l hl).plain (by decide) (by decide)
  · exact not_mem_unwords (h.spells l hl).plain (by decide) (by decide)

/-- The lines add the entries they spell. The induction is on the lines still to come; `done` are
the lines before, whose entries are there already. -/
theorem sourceLines_run (done : List (List Text × Entry)) (h : Spelled (done ++ ls)) (depth : Nat)
    (pos : Position) {s : State} (hbare : s.Bare) (hcoherent : s.Coherent)
    (hentries : s.entries = done.map Prod.snd) :
    ∃ pos' s', sourceLines interpret depth pos ((ls.map Prod.fst).map unwords) s = (pos', none, s') ∧
      s'.defining = none ∧ s'.entries = (done ++ ls).map Prod.snd := by
  induction ls generalizing done pos s with
  | nil => exact ⟨pos, s, rfl, hbare.outside, by rw [hentries, List.append_nil]⟩
  | cons l ls ih =>
      have hl : l ∈ done ++ l :: ls := List.mem_append_right _ List.mem_cons_self
      have hfresh : ∀ name, l.2 = .label name → name ∉ s.entries.filterMap Entry.label? := by
        intro name hname hmem
        have hdistinct := h.distinct
        rw [List.map_append, List.map_cons, List.filterMap_append, List.nodup_append] at hdistinct
        rw [hentries] at hmem
        refine hdistinct.2.2 name hmem name ?_ rfl
        rw [hname]
        exact List.mem_cons_self
      obtain ⟨s', hrun, hbare', hcoherent', hadded⟩ := hbare.spelled_line hcoherent interpret depth
        (pos.number + 1) (h.spells l hl) (h.noLineNumber l hl) hfresh
      have hsplit : done ++ l :: ls = (done ++ [l]) ++ ls := by
        rw [List.append_assoc, List.singleton_append]
      have hentries' : s'.entries = (done ++ [l]).map Prod.snd := by
        rw [hadded, hentries, List.map_append, List.map_singleton]
      obtain ⟨pos', s'', hrest, hdone⟩ := ih _ (hsplit ▸ h) ⟨pos.number + 1, unwords l.1⟩ hbare'
        hcoherent' hentries'
      refine ⟨pos', s'', ?_, hsplit ▸ hdone⟩
      rw [List.map_cons, List.map_cons, sourceLines, Source.strip_unwords (h.spells l hl).plain]
      simp only [hrun, hrest]

end Spelled

theorem bare_start : State.Bare { equates := startEquates (fresh interpret) } where
  outside := rfl
  noMacros := rfl
  noEquates w hw := by
    change (Bindings.empty.insert lineEquate (text "0")).get? w = none
    rw [Bindings.get?_insert_of_ne _ _ hw]
    rfl

/-- No label is missing exactly if the entries declare all that they refer to. -/
theorem State.Coherent.missingLabel?_eq_none {s : State} (h : s.Coherent) :
    missingLabel? s = none ↔
      ∀ i, .insn i ∈ s.entries → ∀ name ∈ i.labelRefs, .label name ∈ s.entries := by
  have hbound : ∀ name, s.labels.contains name = true ↔ .label name ∈ s.entries := by
    intro name
    rw [Bindings.contains_iff_mem_names, h.labels_names, Entry.mem_filterMap_label?]
  rw [← Option.map_eq_none_iff, missingLabel?_map_snd, List.findSome?_eq_none_iff]
  simp only [Entry.mem_instructions, Resolution.missing?_eq_none, hbound]

/-- A source is accepted if all of its lines are taken in, outside macro definitions at the end, and
declare all that they refer to. -/
theorem accepted_of_sourceLines {depth : Nat} {a : Assembler} {source : Text} {ls : List Text}
    {pos : Position} {s : State} (hlines : Source.lines source = ⟨ls, false⟩)
    (hrun : sourceLines a.interpret depth {} ls { equates := a.startEquates } = (pos, none, s))
    (hdefining : s.defining = none)
    (hdeclared : ∀ i, .insn i ∈ s.entries → ∀ name ∈ i.labelRefs, .label name ∈ s.entries) :
    ∃ p, (parse depth a source).verdict = .accepted p ∧ p.entries = s.entries := by
  have hstate : (parse depth a source).state = s := by rw [parse_state, hlines, hrun]
  have hreads : ReadsAll depth a source := by
    refine ⟨by rw [hlines], by rw [hlines, hrun], ?_⟩
    rw [hstate, hdefining]
  have hmissing : missingLabel? (parse depth a source).state = none := by
    refine (parse_coherent depth a _).missingLabel?_eq_none.2 ?_
    rw [hstate]
    exact hdeclared
  refine ⟨⟨s.statements.toList⟩, ?_, rfl⟩
  rw [hreads.verdict, hmissing, hstate]

/-- A source of lines that spell entries is accepted, and gives these entries. -/
theorem Spelled.parse_accepted {ls : List (List Text × Entry)} (h : Spelled ls) (depth : Nat) :
    ∃ p, (parse depth (fresh interpret) (wordsText (ls.map Prod.fst))).verdict = .accepted p ∧
      p.entries = ls.map Prod.snd := by
  obtain ⟨pos, s, hrun, hdefining, hentries⟩ :=
    Spelled.sourceLines_run [] h depth {} bare_start ⟨trivial, rfl, rfl⟩ rfl
  rw [List.nil_append] at hentries
  rw [← hentries]
  refine accepted_of_sourceLines h.lines_wordsText hrun hdefining ?_
  rw [hentries]
  exact h.declared

end TapeMachine.Assembler
