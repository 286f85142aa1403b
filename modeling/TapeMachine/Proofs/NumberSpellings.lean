import Mathlib.Data.Nat.Digits.Defs
import TapeMachine.Proofs.EquateScope
import TapeMachine.Proofs.Inlining
import TapeMachine.Proofs.SimpleExpressions

/-! The spellings of a number. An instruction is given a number as a numeral, as an expression, by a
name that is equated with it, or by an expression of this name. Each of the four is read in its own
way, and each has its own checks of 32 and 64 bits, but all of them come to the same: the number is
taken as a word if it fits 32 bits, signed or unsigned, and the source is rejected otherwise. Only a
name that makes a line too long to be read is an obstacle of its own. -/

namespace TapeMachine.Assembler

open Text

variable {interpret : Expression.Interpreter} {L : LetterSet} {reserved : Text → Bool}

/-- The line that moves an operand into the first register. -/
def moveLine (operand : Text) : Text := unwords [text "mov", text "r0", operand]

/-- The line that equates a name with a value. -/
def equateLine (name value : Text) : Text := unwords [text ".equ", name, value]

/-- An expression as a word of a line. -/
def expressionWord (t : Text) : Text := text "$(" ++ t ++ text ")"

/-- How an instruction is given a number. -/
inductive NumberSpelling where
  | numeral
  | expression
  | equate
  | equateExpression
  deriving DecidableEq

namespace NumberSpelling

/-- The lines that come before the move. -/
def leading (x : Text) (v : Int) : NumberSpelling → List Text
  | numeral | expression => []
  | equate | equateExpression => [equateLine x (ofInt v)]

/-- The operand that stands for the number. -/
def operand (x : Text) (v : Int) : NumberSpelling → Text
  | numeral => ofInt v
  | expression => expressionWord (ofInt v)
  | equate => x
  | equateExpression => expressionWord x

/-- The lines that move a number into a register, where `x` is the name it may be equated with. -/
def lines (x : Text) (v : Int) (sp : NumberSpelling) : List Text :=
  sp.leading x v ++ [moveLine (sp.operand x v)]

/-- No line with the name in it is too long to be read. -/
def Readable (x : Text) (v : Int) : NumberSpelling → Prop
  | numeral | expression => True
  | sp => ∀ line ∈ sp.lines x v, Source.fits line = true

end NumberSpelling

/-- A name that means nothing yet: it is a name in the language of expressions and none of its words,
no mnemonic, no register and not the line number. -/
structure IsFreeName (L : LetterSet) (reserved : Text → Bool) (x : Text) : Prop where
  name : isName L x = true
  notReserved : reserved x = false
  notResult : x ≠ Expression.resultName
  notLine : x ≠ lineEquate
  notMnemonic : Opcode.ofMnemonic? x = none
  notRegister : Register.ofName? x = none

/-- The instruction that moves a number into the first register. -/
def moveNumber (v : Int) : Instruction := .alu .mov ⟨0⟩ (.ofImm (BitVec.ofInt 32 v))

/-- A byte that starts a comment or a constant of one character, or ends a line. -/
def isSeparator (b : UInt8) : Bool := b = byte ';' || b = quote || b = 10 || b = 13

/-- A word that stays one word wherever it stands in a line. -/
structure IsClean (w : Text) : Prop where
  unbroken : Unbroken w
  inside : ∀ b ∈ w, isSeparator b = false

theorem isClean_of_isPlainWord {w : Text} (h : IsPlainWord w) : IsClean w where
  unbroken := h.isWord.unbroken
  inside b hb := by
    have hplain : ∀ b : UInt8, isPlain b = true → isSeparator b = false := forall_byte (by decide +kernel)
    exact hplain b (h.plain b hb)

theorem isClean_of_isName {x : Text} (h : isName L x = true) : IsClean x where
  unbroken := unbroken_of_isName h
  inside b hb := by
    have hname : ∀ b : UInt8, isNameByte b = true ∨ ¬b < 0x80 → isSeparator b = false :=
      forall_byte (by decide +kernel)
    exact hname b ((isNameTail_of_isName h).bytes b hb)

theorem isClean_of_graphic {w : Text}
    (h : (!w.isEmpty && w.all fun b => isGraphic b && !isSeparator b) = true) : IsClean w := by
  rw [Bool.and_eq_true, Bool.not_eq_true', List.isEmpty_eq_false_iff, List.all_eq_true] at h
  have hbytes : ∀ b ∈ w, isGraphic b = true ∧ isSeparator b = false := fun b hb => by
    have hboth := h.2 b hb
    rwa [Bool.and_eq_true, Bool.not_eq_true'] at hboth
  exact ⟨IsWord.unbroken ⟨h.1, fun b hb => (hbytes b hb).1⟩, fun b hb => (hbytes b hb).2⟩

theorem IsClean.append {w v : Text} (hw : IsClean w) (hv : IsClean v) : IsClean (w ++ v) where
  unbroken := hw.unbroken.append hv.unbroken
  inside := List.forall_mem_append.2 ⟨hw.inside, hv.inside⟩

theorem IsClean.expression {t : Text} (h : IsClean t) : IsClean (expressionWord t) :=
  ((isClean_of_graphic (by decide)).append h).append (isClean_of_graphic (by decide))

section

variable {ws : List Text}

theorem not_mem_line (h : ∀ w ∈ ws, IsClean w) {b : UInt8} (hb : isSeparator b = true) :
    b ∉ unwords ws := by
  intro hmem
  rcases mem_unwords hmem with rfl | ⟨w, hw, hbw⟩
  · cases hb
  · rw [(h w hw).inside b hbw] at hb
    cases hb

theorem strip_line (h : ∀ w ∈ ws, IsClean w) : Source.strip (unwords ws) = unwords ws :=
  Source.strip_eq_self (fun w hw => (h w hw).unbroken) (not_mem_line h (by decide))

theorem words_line (h : ∀ w ∈ ws, IsClean w) : words (unwords ws) = ws :=
  words_unwords fun w hw => (h w hw).unbroken

end

theorem clean_move {operand : Text} (h : IsClean operand) :
    ∀ w ∈ [text "mov", text "r0", operand], IsClean w := by
  rw [List.forall_mem_cons, List.forall_mem_cons, List.forall_mem_singleton]
  exact ⟨isClean_of_graphic (by decide), isClean_of_graphic (by decide), h⟩

theorem moveLine_eq (operand : Text) : moveLine operand = text "mov r0 " ++ operand := by
  rw [moveLine, unwords_cons_cons, unwords_cons_cons, unwords_singleton]
  rfl

theorem equateLine_eq (x value : Text) : equateLine x value = text ".equ " ++ x ++ byte ' ' :: value := by
  rw [equateLine, unwords_cons_cons, unwords_cons_cons, unwords_singleton]
  rfl

theorem clean_equate {x value : Text} (hx : IsClean x) (hvalue : IsClean value) :
    ∀ w ∈ [text ".equ", x, value], IsClean w := by
  rw [List.forall_mem_cons, List.forall_mem_cons, List.forall_mem_singleton]
  exact ⟨isClean_of_graphic (by decide), hx, hvalue⟩

theorem instructionOf_move (v : Int) :
    instructionOf (text "mov") [text "r0", ofInt v] =
      if Fits32 v then .ok (moveNumber v) else .error (.rejected [] (.notNumber (ofInt v))) := by
  have hmnemonic : Opcode.ofMnemonic? (text "mov") = some (.alu .mov) := rfl
  have hregister : operandOf (text "r0") = .ok (.ofReg ⟨0⟩) := rfl
  have hnumeral := operandOf_numeral v
  cases hword : word32? v with
  | none =>
      rw [hword] at hnumeral
      rw [instructionOf, hmnemonic, if_neg (word32?_eq_none.1 hword)]
      simp only [List.mapM_cons, hregister, hnumeral]
      rfl
  | some w =>
      obtain ⟨hfits, rfl⟩ := word32?_eq_some.1 hword
      rw [hword] at hnumeral
      rw [instructionOf, hmnemonic, if_pos hfits]
      simp only [List.mapM_cons, List.mapM_nil, hregister, hnumeral]
      rfl

theorem ofInt_ne_lineEquate (v : Int) : ofInt v ≠ lineEquate := by
  intro heq
  obtain ⟨b, rest, hcons, hb⟩ := ofInt_eq_cons v
  have hhead : some b = lineEquate.head? := by rw [← heq, hcons, List.head?_cons]
  cases hhead
  cases hb

/-- A state before the first statement: outside macro definitions, without macros, and with no equate
for the words of a move. -/
structure State.Ready (s : State) : Prop where
  outside : s.defining = none
  noMacros : s.macros = {}
  empty : s.statements = #[]
  noMnemonic : s.equates.get? (text "mov") = none
  noRegister : s.equates.get? (text "r0") = none
  noNumeral : ∀ v, s.equates.get? (ofInt v) = none

/-- A number is moved if it fits, and rejected otherwise. -/
def Moved (v : Int) (r : EStateM.Result Failure State Unit) : Prop :=
  match r with
  | .ok _ s => Fits32 v ∧ s.defining = none ∧ s.entries = [.insn (moveNumber v)]
  | .error e _ => ¬Fits32 v ∧ ∃ c, e = .rejected [] c

/-- The word of a number that fits is moved as the number is. -/
theorem moved_of_toInt {v : Int} {r : EStateM.Result Failure State Unit} (hfits : Fits32 v)
    (h : Moved (BitVec.ofInt 32 v).toInt r) : Moved v r := by
  cases r with
  | ok _ s =>
      obtain ⟨-, hdefining, hentries⟩ := h
      rw [moveNumber, BitVec.ofInt_toInt] at hentries
      exact ⟨hfits, hdefining, hentries⟩
  | error e s =>
      refine absurd ?_ h.1
      have hlow : -2 ^ 31 ≤ (BitVec.ofInt 32 v).toInt := BitVec.le_toInt _
      have hhigh : (BitVec.ofInt 32 v).toInt < 2 ^ 31 := BitVec.toInt_lt
      exact ⟨by omega, by omega⟩

namespace State.Ready

variable {s : State}

theorem atLine (h : s.Ready) (n : Nat) : (s.atLine n).Ready where
  outside := h.outside
  noMacros := h.noMacros
  empty := h.empty
  noMnemonic := (s.get?_atLine n (by decide)).trans h.noMnemonic
  noRegister := (s.get?_atLine n (by decide)).trans h.noRegister
  noNumeral v := (s.get?_atLine n (ofInt_ne_lineEquate v)).trans (h.noNumeral v)

theorem reading (interpret : Expression.Interpreter) (h : s.Ready) (n : Nat) (line : Text) :
    (s.reading interpret n line).Ready :=
  ⟨h.outside, h.noMacros, h.empty, (h.atLine n).noMnemonic, (h.atLine n).noRegister, (h.atLine n).noNumeral⟩

theorem substitute_numeral (h : s.Ready) (v : Int) : substitute s.equates (ofInt v) = ofInt v := by
  rw [substitute, h.noNumeral, Option.getD_none]

/-- What the words of a move come to once their equates are replaced. -/
theorem moved_words (h : s.Ready) (expand : Text → Macro → List Text → Asm Unit) (n : Nat) (v : Int) :
    Moved v (assembleReplaced expand n [text "mov", text "r0", ofInt v] s) := by
  have hlabels : declareLabels n [text "mov", text "r0", ofInt v] s =
      .ok [text "mov", text "r0", ofInt v] s := rfl
  have hmacro : s.macros.get? (text "mov") = none := by
    rw [h.noMacros]
    rfl
  rw [assembleReplaced_run, hlabels]
  dsimp only
  rw [assembleWords_run, hmacro]
  dsimp only
  rw [addInstruction_run, instructionOf_move]
  by_cases hfits : Fits32 v
  · rw [if_pos hfits]
    refine ⟨hfits, h.outside, ?_⟩
    change (s.push n _ (.insn (moveNumber v))).entries = _
    rw [State.entries_push, State.entries, h.empty]
    rfl
  · rw [if_neg hfits]
    exact ⟨hfits, _, rfl⟩

/-- A line of words that open and close no macro is assembled as it stands. -/
theorem sourceLine_eq (interpret : Expression.Interpreter) (h : s.Ready) (depth n : Nat) {w : Text}
    {ws : List Text} (hclean : ∀ v ∈ w :: ws, IsClean v) (hopen : w ≠ text ".macro")
    (hclose : w ≠ text ".endm") :
    ∃ expand, sourceLine interpret depth n (unwords (w :: ws)) s =
      assembleWith interpret expand n (unwords (w :: ws)) s := by
  obtain ⟨expand, hexpand⟩ := assembleLine_eq_assembleWith depth
  have hassembles : s.Assembles (unwords (w :: ws)) := by
    rw [State.Assembles, words_line hclean, List.head?_cons]
    exact ⟨h.outside, fun heq => hopen (Option.some.inj heq), fun heq => hclose (Option.some.inj heq)⟩
  exact ⟨expand, by rw [sourceLine_run, if_pos hassembles, hexpand]⟩

/-- The words of a move other than its operand stand for themselves. -/
theorem map_substitute (h : s.Ready) (operand : Text) :
    [text "mov", text "r0", operand].map (substitute s.equates) =
      [text "mov", text "r0", substitute s.equates operand] := by
  rw [List.map_cons, List.map_cons, List.map_singleton, substitute, substitute, h.noMnemonic, h.noRegister]
  rfl

/-- A line that reads as a move of a word that stands for a numeral. -/
theorem moved_reading (h : s.Ready) (expand : Text → Macro → List Text → Asm Unit) (n : Nat) (line : Text)
    {operand : Text} {v : Int} (hclean : IsClean operand)
    (hreplaced : (replaceConstants interpret (s.atLine n).equates line).text = .ok (moveLine operand))
    (hoperand : substitute (s.atLine n).equates operand = ofInt v) :
    Moved v (assembleWith interpret expand n line s) := by
  have hequ : text "mov" ≠ text ".equ" := by decide
  rw [assembleWith_reading, hreplaced]
  dsimp only
  rw [moveLine, words_line (clean_move hclean)]
  dsimp only
  rw [if_neg hequ, (h.atLine n).map_substitute, hoperand]
  exact (h.reading interpret n line).moved_words expand n v

/-- A move of a word that holds no expression. -/
theorem moved_operand (h : s.Ready) (depth n : Nat) {operand : Text} {v : Int} (hclean : IsClean operand)
    (hdollar : byte '$' ∉ operand) (hoperand : substitute (s.atLine n).equates operand = ofInt v) :
    Moved v (sourceLine interpret depth n (moveLine operand) s) := by
  obtain ⟨expand, hline⟩ := h.sourceLine_eq interpret depth n (clean_move hclean) (by decide) (by decide)
  have hquote : quote ∉ moveLine operand := not_mem_line (clean_move hclean) (by decide)
  have hplain : byte '$' ∉ moveLine operand := by
    rw [moveLine_eq, List.mem_append, not_or]
    exact ⟨by decide, hdollar⟩
  rw [moveLine, hline]
  refine h.moved_reading expand n _ hclean ?_ hoperand
  exact congrArg Expansion.text (replaceConstants_eq_self _ hquote hplain)

end State.Ready

theorem segmentsFrom_of_length_le {t : Text} {skip : Nat} (h : t.length ≤ skip) :
    segmentsFrom skip t = [] := by
  induction t generalizing skip with
  | nil => rw [segmentsFrom]
  | cons b t ih =>
      cases skip with
      | zero => cases h
      | succ skip => exact ih (Nat.le_of_succ_le_succ h)

theorem segmentsFrom_expressionWord {t : Text} (h : byte '$' ∉ t) :
    segmentsFrom 0 (expressionWord t) = [.expression t] := by
  have hcons : expressionWord t = 0x24 :: 0x28 :: (t ++ [byte ')']) := rfl
  have hbefore : before (byte '$') (t ++ [byte ')']) = t ++ [byte ')'] := by
    refine List.takeWhile_eq_self_iff.2 fun b hb => decide_eq_true fun hstop => ?_
    rcases List.mem_append.1 hb with hb | hb
    · exact h (hstop ▸ hb)
    · rw [List.mem_singleton.1 hb] at hstop
      cases hstop
  have hat : expressionAt? (0x24 :: 0x28 :: (t ++ [byte ')'])) = some t := by
    rw [expressionAt?, hbefore, List.reverse_append]
    change some t.reverse.reverse = _
    rw [List.reverse_reverse]
  rw [hcons, segmentsFrom, hat]
  dsimp only
  rw [segmentsFrom_of_length_le (by rw [List.length_cons, List.length_append]; rfl)]

theorem replaceConstants_expressionWord (interpret : Expression.Interpreter) (equates : Bindings Text)
    {t : Text} (hclean : IsClean t) (hdollar : byte '$' ∉ t) :
    (replaceConstants interpret equates (moveLine (expressionWord t))).text =
      match (Expression.evaluate interpret (integers equates) t).number with
      | .done (some w) => .ok (moveLine (ofInt w.toInt))
      | .done none => .error (.bad ⟨t, .unsuitable⟩)
      | .failed => .error (.bad ⟨t, .failed⟩)
      | .crashed => .error .crashed := by
  have hquote : quote ∉ moveLine (expressionWord t) :=
    not_mem_line (clean_move hclean.expression) (by decide)
  rw [replaceConstants, replaceChars_eq_self hquote, segments, moveLine_eq,
    segmentsFrom_append (by decide), segmentsFrom_expressionWord hdollar, expandAll_append]
  rw [expandAll, expandAll, Segment.expand]
  generalize Expression.evaluate interpret (integers equates) t = e
  obtain ⟨(_ | w) | _ | _, printed⟩ := e
  · rfl
  · change Except.ok (text "mov r0 " ++ (ofInt w.toInt ++ [])) = .ok (moveLine (ofInt w.toInt))
    rw [List.append_nil, moveLine_eq]
  · rfl
  · rfl

/-- A move of an expression that gives the number, or gives none because the number does not fit. -/
theorem State.Ready.moved_expression {s : State} (h : s.Ready) (depth n : Nat) {t : Text} {v : Int}
    (hclean : IsClean t) (hdollar : byte '$' ∉ t)
    (hnumber : (Expression.evaluate interpret (integers (s.atLine n).equates) t).number =
        .done (word32? v) ∨
      ¬Fits32 v ∧ (Expression.evaluate interpret (integers (s.atLine n).equates) t).number = .failed) :
    Moved v (sourceLine interpret depth n (moveLine (expressionWord t)) s) := by
  obtain ⟨expand, hline⟩ := h.sourceLine_eq interpret depth n (clean_move hclean.expression)
    (by decide) (by decide)
  have hreplaced := replaceConstants_expressionWord interpret (s.atLine n).equates hclean hdollar
  change Moved v (sourceLine interpret depth n (unwords [text "mov", text "r0", expressionWord t]) s)
  rw [hline]
  change Moved v (assembleWith interpret expand n (moveLine (expressionWord t)) s)
  rcases hnumber with hdone | ⟨hfits, hfailed⟩
  · rw [hdone] at hreplaced
    cases hword : word32? v with
    | none =>
        rw [hword] at hreplaced
        rw [assembleWith_reading, hreplaced]
        exact ⟨word32?_eq_none.1 hword, _, rfl⟩
    | some w =>
        obtain ⟨hfits, rfl⟩ := word32?_eq_some.1 hword
        rw [hword] at hreplaced
        refine moved_of_toInt hfits (h.moved_reading expand n _ ?_ hreplaced ?_)
        · exact isClean_of_isPlainWord (isPlainWord_ofInt _)
        · exact (h.atLine n).substitute_numeral _
  · rw [hfailed] at hreplaced
    rw [assembleWith_reading, hreplaced]
    exact ⟨hfits, _, rfl⟩

namespace IsFreeName

variable {x : Text}

theorem ne_mnemonic (h : IsFreeName L reserved x) : text "mov" ≠ x := by
  rintro rfl
  cases h.notMnemonic

theorem ne_register (h : IsFreeName L reserved x) : text "r0" ≠ x := by
  rintro rfl
  cases h.notRegister

theorem ne_numeral (h : IsFreeName L reserved x) (v : Int) : ofInt v ≠ x := by
  rintro rfl
  have hname := h.name
  obtain ⟨b, rest, hcons, hb⟩ := ofInt_eq_cons v
  rw [hcons] at hname
  rw [Bool.or_eq_true, isSign, Bool.or_eq_true, decide_eq_true_iff, decide_eq_true_iff] at hb
  rcases hb with (rfl | rfl) | hb
  · exact not_mem_of_isName hname (by decide) (by decide) List.mem_cons_self
  · exact not_mem_of_isName hname (by decide) (by decide) List.mem_cons_self
  · rw [not_isDigit_of_isName hname] at hb
    cases hb

theorem noDollar (h : IsFreeName L reserved x) : byte '$' ∉ x :=
  not_mem_of_isName h.name (by decide) (by decide)

end IsFreeName

theorem noDollar_ofInt (v : Int) : byte '$' ∉ ofInt v :=
  fun hmem => absurd ((isPlainWord_ofInt v).plain _ hmem) (by decide)

/-- A free name is equated with a number. -/
theorem State.Ready.equate_run {s : State} (h : s.Ready) (depth n : Nat) {x : Text}
    (hx : IsFreeName L reserved x) (hfresh : s.equates.get? x = none) (v : Int) :
    ∃ t, sourceLine interpret depth n (equateLine x (ofInt v)) s = .ok () t ∧ t.Ready ∧
      t.equates = (s.atLine n).equates.insert x (ofInt v) := by
  have hclean := clean_equate (isClean_of_isName hx.name) (isClean_of_isPlainWord (isPlainWord_ofInt v))
  obtain ⟨expand, hline⟩ := h.sourceLine_eq interpret depth n hclean (by decide) (by decide)
  have hdollar : byte '$' ∉ equateLine x (ofInt v) := by
    rw [equateLine_eq, List.mem_append, List.mem_append, List.mem_cons, not_or, not_or, not_or]
    exact ⟨⟨by decide, hx.noDollar⟩, by decide, noDollar_ofInt v⟩
  have hcontains : (s.reading interpret n (equateLine x (ofInt v))).equates.contains x = false := by
    change ((s.atLine n).equates.get? x).isSome = false
    rw [s.get?_atLine n hx.notLine, hfresh, Option.isSome_none]
  have hreading := h.reading interpret n (equateLine x (ofInt v))
  refine ⟨{ s.reading interpret n (equateLine x (ofInt v)) with
    equates := (s.atLine n).equates.insert x (ofInt v) }, ?_, ?_, rfl⟩
  · rw [equateLine] at *
    rw [hline, assembleWith_reading,
      replaceConstants_eq_self _ (not_mem_line hclean (by decide)) hdollar]
    dsimp only
    rw [words_line hclean]
    dsimp only
    rw [if_pos rfl, defineEquate_run, hcontains]
    rfl
  · refine ⟨h.outside, h.noMacros, h.empty, ?_, ?_, fun w => ?_⟩
    · exact (Bindings.get?_insert_of_ne _ _ hx.ne_mnemonic).trans (h.atLine n).noMnemonic
    · exact (Bindings.get?_insert_of_ne _ _ hx.ne_register).trans (h.atLine n).noRegister
    · exact (Bindings.get?_insert_of_ne _ _ (hx.ne_numeral w)).trans ((h.atLine n).noNumeral w)

/-! ### The verdict -/

theorem ready_start : State.Ready { equates := startEquates (fresh interpret) } where
  outside := rfl
  noMacros := rfl
  empty := rfl
  noMnemonic := bare_start.noEquates _ (by decide)
  noRegister := bare_start.noEquates _ (by decide)
  noNumeral v := bare_start.noEquates _ (ofInt_ne_lineEquate v)

theorem verdict_eq_judge (a : Assembler) {depth : Nat} {source : Text} {ls : List Text}
    {overlong : Bool} {pos : Position} {failure : Option Failure} {s : State}
    (hlines : Source.lines source = ⟨ls, overlong⟩)
    (hrun : sourceLines a.interpret depth {} ls { equates := a.startEquates } = (pos, failure, s)) :
    (parse depth a source).verdict = judge overlong pos failure s := by
  rw [parse_verdict, hlines, hrun]

/-- A source is rejected where the lines before its last are taken in and some line is too long: the
last line is then not read. -/
theorem rejected_of_long {depth : Nat} {front : List Text} {last : Text} {pos : Position} {s : State}
    (hfeed : ∀ l ∈ front ++ [last], 10 ∉ l) (hreturn : ∀ l ∈ front ++ [last], 13 ∉ l)
    (hfront : sourceLines interpret depth {} front { equates := startEquates (fresh interpret) } =
      (pos, none, s))
    (hlong : ¬∀ l ∈ front ++ [last], Source.fits l = true) :
    ∃ e, (parse depth (fresh interpret) (Source.unlines (front ++ [last]))).verdict = .rejected e := by
  have hlines := Source.lines_eq_takeWhile hfeed hreturn
  have hany : (front ++ [last]).any (!Source.fits ·) = true := by
    rw [List.any_eq_true]
    simpa using hlong
  rw [hany] at hlines
  rcases List.prefix_concat_iff.1 (List.takeWhile_prefix Source.fits) with hwhole | ⟨rest, hrest⟩
  · exact absurd (List.takeWhile_eq_self_iff.1 hwhole) hlong
  · rw [← hrest] at hfront
    obtain ⟨here, t, hrun, -⟩ := sourceLines_append_eq_none.1 hfront
    have hverdict := verdict_eq_judge (fresh interpret) hlines hrun
    exact ⟨_, hverdict⟩

/-- The verdict on lines of which the last is the move and those before it are taken in. -/
theorem verdict_of_last {depth : Nat} {front : List Text} {last : Text} {pos : Position} {s : State}
    {v : Int} (hfeed : ∀ l ∈ front ++ [last], 10 ∉ l) (hreturn : ∀ l ∈ front ++ [last], 13 ∉ l)
    (hfront : sourceLines interpret depth {} front { equates := startEquates (fresh interpret) } =
      (pos, none, s))
    (hlast : Moved v (sourceLine interpret depth (pos.number + 1) (Source.strip last) s)) :
    (Fits32 v → (∀ l ∈ front ++ [last], Source.fits l = true) →
      ∃ p, (parse depth (fresh interpret) (Source.unlines (front ++ [last]))).verdict = .accepted p ∧
        p.entries = [.insn (moveNumber v)]) ∧
    (¬(Fits32 v ∧ ∀ l ∈ front ++ [last], Source.fits l = true) →
      ∃ e, (parse depth (fresh interpret) (Source.unlines (front ++ [last]))).verdict = .rejected e) := by
  by_cases hall : ∀ l ∈ front ++ [last], Source.fits l = true
  · have hlines := Source.lines_unlines hall hfeed hreturn
    have hrun := sourceLines_append interpret depth {} front [last]
      { equates := startEquates (fresh interpret) }
    rw [hfront] at hrun
    dsimp only at hrun
    rw [sourceLines] at hrun
    dsimp only at hrun
    cases hline : sourceLine interpret depth (pos.number + 1) (Source.strip last) s with
    | ok _ t =>
        rw [hline] at hlast hrun
        obtain ⟨hfits, hdefining, hentries⟩ := hlast
        refine ⟨fun _ _ => ?_, fun hnot => absurd ⟨hfits, hall⟩ hnot⟩
        rw [← hentries]
        refine accepted_of_sourceLines hlines hrun hdefining fun i hi name hname => ?_
        rw [hentries, List.mem_singleton] at hi
        cases hi
        cases hname
    | error e t =>
        rw [hline] at hlast hrun
        obtain ⟨hfits, c, rfl⟩ := hlast
        have hverdict := verdict_eq_judge (fresh interpret) hlines hrun
        exact ⟨fun hfits' => absurd hfits' hfits, fun _ => ⟨_, hverdict⟩⟩
  · exact ⟨fun _ hfits => absurd hfits hall, fun _ => rejected_of_long hfeed hreturn hfront hall⟩

section

variable {x : Text} (v : Int)

theorem equated_start (depth : Nat) (hx : IsFreeName L reserved x) :
    ∃ t : State, sourceLines interpret depth {} [equateLine x (ofInt v)]
        { equates := startEquates (fresh interpret) } = (⟨1, equateLine x (ofInt v)⟩, none, t) ∧
      t.Ready ∧ t.equates.get? x = some (ofInt v) := by
  have hclean := clean_equate (isClean_of_isName hx.name) (isClean_of_isPlainWord (isPlainWord_ofInt v))
  obtain ⟨t, hrun, hready, hequates⟩ :=
    ready_start.equate_run depth 1 hx (bare_start.noEquates x hx.notLine) v
  refine ⟨t, ?_, hready, ?_⟩
  · have hstrip : Source.strip (equateLine x (ofInt v)) = equateLine x (ofInt v) := strip_line hclean
    rw [sourceLines, hstrip]
    dsimp only
    rw [hrun]
    rfl
  · rw [hequates, Bindings.get?_insert_self]

/-- An expression of a name gives the number the name is equated with, unless the number does not fit. -/
theorem number_of_equate (h : Expression.ReadsNumbers interpret L reserved) {equates : Bindings Text}
    (hx : IsFreeName L reserved x) (hget : equates.get? x = some (ofInt v)) :
    (Expression.evaluate interpret (integers equates) x).number = .done (word32? v) ∨
      ¬Fits32 v ∧ (Expression.evaluate interpret (integers equates) x).number = .failed := by
  rw [Expression.number_evaluate]
  by_cases hrange : -2 ^ 63 ≤ v ∧ v < 2 ^ 63
  · have hread : integers equates x = some v := by
      rw [integers, hget, Option.map_some, readSigned_ofInt hrange.1 hrange.2]
    rw [h.bound hx.name hx.notReserved hx.notResult hread]
    exact .inl rfl
  · have hread : integers equates x = none := by
      rw [integers, hget, Option.map_some, readSigned_ofInt_of_out (by omega)]
    have hfits : ¬Fits32 v := by
      rw [Fits32]
      omega
    rcases h.unbound hx.name hx.notReserved hx.notResult hread with hfailed | hother
    · rw [hfailed]
      exact .inr ⟨hfits, rfl⟩
    · rw [hother, word32?_eq_none.2 hfits]
      exact .inl rfl

theorem isClean_operand (hx : IsFreeName L reserved x) (sp : NumberSpelling) :
    IsClean (sp.operand x v) := by
  have hname := isClean_of_isName hx.name
  have hnumeral := isClean_of_isPlainWord (isPlainWord_ofInt v)
  cases sp with
  | numeral => exact hnumeral
  | expression => exact hnumeral.expression
  | equate => exact hname
  | equateExpression => exact hname.expression

theorem not_mem_lines (hx : IsFreeName L reserved x) (sp : NumberSpelling) {b : UInt8}
    (hb : isSeparator b = true) : ∀ line ∈ sp.lines x v, b ∉ line := by
  have hmove : b ∉ moveLine (sp.operand x v) := not_mem_line (clean_move (isClean_operand v hx sp)) hb
  have hequate : b ∉ equateLine x (ofInt v) := not_mem_line
    (clean_equate (isClean_of_isName hx.name) (isClean_of_isPlainWord (isPlainWord_ofInt v))) hb
  cases sp <;> simpa [NumberSpelling.lines, NumberSpelling.leading, hequate] using hmove

/-- The verdict on every spelling of a number, by the length of its lines. -/
theorem verdict_of_spelling (h : Expression.ReadsNumbers interpret L reserved) (depth : Nat)
    (hx : IsFreeName L reserved x) (sp : NumberSpelling) :
    (Fits32 v → (∀ line ∈ sp.lines x v, Source.fits line = true) →
      ∃ p, (parse depth (fresh interpret) (Source.unlines (sp.lines x v))).verdict = .accepted p ∧
        p.entries = [.insn (moveNumber v)]) ∧
    (¬(Fits32 v ∧ ∀ line ∈ sp.lines x v, Source.fits line = true) →
      ∃ e, (parse depth (fresh interpret) (Source.unlines (sp.lines x v))).verdict = .rejected e) := by
  have hfeed := not_mem_lines v hx sp (b := 10) (by decide)
  have hreturn := not_mem_lines v hx sp (b := 13) (by decide)
  have hstrip : Source.strip (moveLine (sp.operand x v)) = moveLine (sp.operand x v) :=
    strip_line (clean_move (isClean_operand v hx sp))
  have hnumeral := isClean_of_isPlainWord (isPlainWord_ofInt v)
  have hname := isClean_of_isName hx.name
  cases sp with
  | numeral =>
      refine verdict_of_last hfeed hreturn rfl ?_
      rw [hstrip]
      exact ready_start.moved_operand depth 1 hnumeral (noDollar_ofInt v)
        ((ready_start.atLine 1).substitute_numeral v)
  | expression =>
      refine verdict_of_last hfeed hreturn rfl ?_
      rw [hstrip]
      refine ready_start.moved_expression depth 1 hnumeral (noDollar_ofInt v) (.inl ?_)
      rw [Expression.number_evaluate, h.numeral]
      rfl
  | equate =>
      obtain ⟨t, hrun, hready, hget⟩ := equated_start v depth hx
      have hoperand : substitute (t.atLine 2).equates x = ofInt v := by
        rw [substitute, t.get?_atLine 2 hx.notLine, hget, Option.getD_some]
      refine verdict_of_last hfeed hreturn hrun ?_
      rw [hstrip]
      exact hready.moved_operand depth 2 hname hx.noDollar hoperand
  | equateExpression =>
      obtain ⟨t, hrun, hready, hget⟩ := equated_start v depth hx
      refine verdict_of_last hfeed hreturn hrun ?_
      rw [hstrip]
      refine hready.moved_expression depth 2 hname hx.noDollar (number_of_equate v h hx ?_)
      rw [t.get?_atLine 2 hx.notLine, hget]

/-- A number that fits is written in few bytes. -/
theorem length_ofInt_le (h : Fits32 v) : (ofInt v).length ≤ 11 := by
  have hdigits : (ofNat v.natAbs).length ≤ 10 := by
    rw [ofNat, digits, List.length_map]
    refine Nat.toDigits_length 10 v.natAbs 10 (by decide) ?_
    rw [Fits32] at h
    omega
  rw [ofInt, signed]
  split_ifs
  · exact Nat.succ_le_succ hdigits
  · omega

/-- The lines of a number that fits can be read, unless a name in them is too long. -/
theorem fits_of_readable {sp : NumberSpelling} (h : Fits32 v) (hreadable : sp.Readable x v) :
    ∀ line ∈ sp.lines x v, Source.fits line = true := by
  have hlength := length_ofInt_le v h
  have hmove : (text "mov r0 ").length = 7 := rfl
  cases sp with
  | numeral =>
      refine List.forall_mem_singleton.2 (decide_eq_true ?_)
      rw [NumberSpelling.operand, moveLine_eq, List.length_append, hmove]
      exact Nat.lt_of_le_of_lt (Nat.add_le_add_left hlength 7) (by decide)
  | expression =>
      have hword : (expressionWord (ofInt v)).length = (ofInt v).length + 3 := by
        rw [expressionWord, List.length_append, List.length_append]
        change 2 + (ofInt v).length + 1 = _
        omega
      refine List.forall_mem_singleton.2 (decide_eq_true ?_)
      rw [NumberSpelling.operand, moveLine_eq, List.length_append, hmove, hword]
      exact Nat.lt_of_le_of_lt (Nat.add_le_add_left (Nat.add_le_add_right hlength 3) 7) (by decide)
  | equate => exact hreadable
  | equateExpression => exact hreadable

end

/-- However a number is given to an instruction, it is moved as a word of 32 bits if it fits one, and
rejected otherwise; but a line that a long name makes too long cannot be read. -/
theorem number_spellings_agree (interpret : Expression.Interpreter) (L : LetterSet)
    (reserved : Text → Bool) (h : Expression.ReadsNumbers interpret L reserved) (depth : Nat) (v : Int)
    {x : Text} (hx : IsFreeName L reserved x) (sp : NumberSpelling) :
    (Fits32 v → sp.Readable x v →
      ∃ p, (parse depth (fresh interpret) (Source.unlines (sp.lines x v))).verdict = .accepted p ∧
        p.entries = [.insn (moveNumber v)]) ∧
    (¬(Fits32 v ∧ sp.Readable x v) →
      ∃ e, (parse depth (fresh interpret) (Source.unlines (sp.lines x v))).verdict = .rejected e) := by
  obtain ⟨haccepted, hrejected⟩ := verdict_of_spelling v h depth hx sp
  refine ⟨fun hfits hreadable => haccepted hfits (fits_of_readable v hfits hreadable), fun hnot => ?_⟩
  refine hrejected fun ⟨hfits, hlines⟩ => hnot ⟨hfits, ?_⟩
  cases sp with
  | numeral => trivial
  | expression => trivial
  | equate => exact hlines
  | equateExpression => exact hlines

theorem isFreeName_limit : IsFreeName unicodeLetters Expression.Token.isReserved (text "limit") :=
  ⟨by decide +kernel, by decide, by decide, by decide, by decide, by decide⟩

/-- The largest number that fits, by an expression of a name, and the one after it. -/
theorem limit_spellings_agree :
    (∃ p, (parse 0 (fresh Expression.interpret) (Source.unlines
        (NumberSpelling.equateExpression.lines (text "limit") 0xffffffff))).verdict = .accepted p ∧
      p.entries = [.insn (moveNumber (-1))]) ∧
    ∃ e, (parse 0 (fresh Expression.interpret) (Source.unlines
        (NumberSpelling.equateExpression.lines (text "limit") 0x100000000))).verdict = .rejected e := by
  have hreadable : NumberSpelling.equateExpression.Readable (text "limit") 0xffffffff :=
    List.all_eq_true.1 (by decide)
  have hreads := Expression.readsNumbers_interpret
  refine ⟨(number_spellings_agree _ _ _ hreads 0 0xffffffff isFreeName_limit .equateExpression).1
      (by decide) hreadable,
    (number_spellings_agree _ _ _ hreads 0 0x100000000 isFreeName_limit .equateExpression).2
      fun hboth => ?_⟩
  exact absurd hboth.1 (by decide)

/-! ### A name that is too long -/

theorem isName_longName : isName unicodeLetters longName = true := by
  have hcodes : ∀ n, codes (List.replicate n (byte 'a')) = List.replicate n 97 := by
    intro n
    induction n with
    | zero => rfl
    | succ n ih =>
        rw [List.replicate_succ, ← List.singleton_append, (IsCharacter.one (by decide)).codes_append, ih]
        rfl
  have hall : ∀ n, isName unicodeLetters (List.replicate (n + 1) (byte 'a')) = true := by
    intro n
    rw [isName, hcodes, List.replicate_succ]
    dsimp only
    rw [Bool.and_eq_true, List.all_eq_true]
    refine ⟨by decide, fun code hcode => ?_⟩
    rw [List.eq_of_mem_replicate hcode]
    decide
  exact hall 65535

theorem longName_ne_of_short {w : Text} (h : w.length ≤ 8) : w ≠ longName := by
  rintro rfl
  rw [longName, List.length_replicate] at h
  exact absurd h (by decide)

theorem isFreeName_longName :
    IsFreeName unicodeLetters Expression.Token.isReserved longName where
  name := isName_longName
  notReserved := by
    have hkeywords : ∀ p ∈ Expression.Token.keywords, p.1.length ≤ 8 := by decide
    have hwords : ∀ w ∈ Expression.Token.reservedWords, w.length ≤ 8 := by decide
    rw [Expression.Token.isReserved, Bool.or_eq_false_iff, Option.isSome_eq_false_iff,
      Option.isNone_iff_eq_none, List.lookup_eq_none_iff, List.contains_eq_mem, decide_eq_false_iff_not]
    exact ⟨fun p hp => bne_iff_ne.2 (longName_ne_of_short (hkeywords p hp)).symm,
      fun hmem => longName_ne_of_short (hwords _ hmem) rfl⟩
  notResult := longName_ne (by decide)
  notLine := longName_ne (by decide)
  notMnemonic := by
    have hnames : ∀ op ∈ Opcode.numbered.tail, op.name.length ≤ 8 := by decide
    refine List.find?_eq_none.2 fun op hop hname => ?_
    exact longName_ne_of_short (hnames op hop) (of_decide_eq_true hname)
  notRegister := Register.ofName?_of_head? (by rw [longName, List.head?_replicate]; decide)

/-- A number that fits is moved as a numeral but not by a name that is too long to be read. -/
theorem longName_spelling_unread :
    Expression.ReadsNumbers Expression.interpret unicodeLetters Expression.Token.isReserved ∧
      IsFreeName unicodeLetters Expression.Token.isReserved longName ∧ Fits32 5 ∧
      (∃ p, (parse 0 (fresh Expression.interpret)
          (Source.unlines (NumberSpelling.numeral.lines longName 5))).verdict = .accepted p ∧
        p.entries = [.insn (moveNumber 5)]) ∧
      ∃ e, (parse 0 (fresh Expression.interpret)
        (Source.unlines (NumberSpelling.equate.lines longName 5))).verdict = .rejected e := by
  have hlong : ¬∀ line ∈ NumberSpelling.equate.lines longName 5, Source.fits line = true := by
    intro hfits
    have hline := of_decide_eq_true (hfits (moveLine longName) (List.mem_append_right _ List.mem_cons_self))
    rw [moveLine_eq, List.length_append, longName, List.length_replicate] at hline
    omega
  have hreads := Expression.readsNumbers_interpret
  refine ⟨hreads, isFreeName_longName, by decide, ?_, ?_⟩
  · exact (verdict_of_spelling 5 hreads 0 isFreeName_longName .numeral).1 (by decide)
      (fits_of_readable 5 (by decide) trivial)
  · exact (verdict_of_spelling 5 hreads 0 isFreeName_longName .equate).2 fun hboth => hlong hboth.2

end TapeMachine.Assembler
