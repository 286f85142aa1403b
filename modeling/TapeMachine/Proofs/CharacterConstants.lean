import TapeMachine.Expression.Eval
import TapeMachine.Proofs.AsciiSeams
import TapeMachine.Proofs.ConstantScan
import TapeMachine.Proofs.LabelBinding
import TapeMachine.Proofs.MacroDefinitions
import TapeMachine.Proofs.Numerals

/-! Character constants in a source. In a line outside comments, the decimal code of a printable
character and the character between quotes come to the same: comments, blanks and the first word are
cut off around both alike, and replacing constants makes one the other. This holds of every character
but the semicolon, which starts a comment, as long as the line can be read and no quote before the
constant is left open. -/

namespace TapeMachine.Assembler

open Text

variable {interpret : Expression.Interpreter}

/-- A printable ASCII character that stands for itself between quotes, within a line. -/
def isConstantChar (c : UInt8) : Bool :=
  0x20 ≤ c && c ≤ 0x7E && c ≠ quote && c ≠ backslash && c ≠ byte ';'

def charConstant (c : UInt8) : Text := [quote, c, quote]

/-- The decimal code of a character. -/
def charDigits (c : UInt8) : Text := Text.ofNat c.toNat

section

variable {c : UInt8}

theorem isConstantChar_iff :
    isConstantChar c = true ↔
      (32 ≤ c.toNat ∧ c.toNat ≤ 126) ∧ c ≠ quote ∧ c ≠ backslash ∧ c ≠ byte ';' := by
  simp [isConstantChar, UInt8.le_iff_toNat_le, and_assoc]

theorem charDigits_eq (h : isConstantChar c = true) :
    ∃ a b rest, charDigits c = a :: b :: rest ∧ isDigit a = true ∧ isDigit b = true := by
  have hall : ∀ c : UInt8, isConstantChar c = true → 2 ≤ (charDigits c).length :=
    forall_byte (by decide +kernel)
  have hlength := hall c h
  have hdigits : ∀ b ∈ charDigits c, isDigit b = true := isDigit_of_mem_ofNat
  rcases hcode : charDigits c with _ | ⟨a, _ | ⟨b, rest⟩⟩ <;> rw [hcode] at hlength
  · cases hlength
  · exact absurd hlength (Nat.not_succ_le_self 1)
  · rw [hcode] at hdigits
    exact ⟨a, b, rest, rfl, hdigits a (by simp), hdigits b (by simp)⟩

theorem solid_charConstant (h : isConstantChar c = true) : Solid (charConstant c) where
  ascii := List.forall_mem_cons.2 ⟨by decide, List.forall_mem_cons.2
    ⟨UInt8.lt_iff_toNat_lt.2 (Nat.lt_succ_of_le (Nat.le_succ_of_le (isConstantChar_iff.1 h).1.2)),
      List.forall_mem_singleton.2 (by decide)⟩⟩
  first := ⟨quote, [c, quote], rfl, by decide⟩
  last := ⟨[quote, c], quote, rfl, by decide⟩

theorem solid_charDigits (c : UInt8) : Solid (charDigits c) := by
  have hdigit : ∀ b : UInt8, isDigit b = true → b < 0x80 ∧ isGraphic b = true :=
    forall_byte (by decide +kernel)
  have hall : ∀ b ∈ charDigits c, b < 0x80 ∧ isGraphic b = true :=
    fun b hb => hdigit b (isDigit_of_mem_ofNat b hb)
  have hne : charDigits c ≠ [] := ofNat_ne_nil _
  refine ⟨fun b hb => (hall b hb).1, ?_, ?_⟩
  · obtain ⟨b, rest, heq⟩ := List.exists_cons_of_ne_nil hne
    exact ⟨b, rest, heq, (hall b (by simp [heq])).2⟩
  · obtain ⟨front, b, heq⟩ := (List.eq_nil_or_concat' (charDigits c)).resolve_left hne
    exact ⟨front, b, heq, (hall b (by simp [heq])).2⟩

theorem quote_not_mem_charDigits (c : UInt8) : quote ∉ charDigits c := not_mem_ofNat (by decide) _

theorem not_mem_charConstant (h : isConstantChar c = true) :
    10 ∉ charConstant c ∧ byte ';' ∉ charConstant c := by
  obtain ⟨⟨hblank, -⟩, -, -, hcomment⟩ := isConstantChar_iff.1 h
  have hfeed : c ≠ 10 := by
    rintro rfl
    exact absurd hblank (by decide)
  have hmem : ∀ b, b ≠ quote → b ≠ c → b ∉ charConstant c := by
    intro b hquote hc hb
    simp only [charConstant, List.mem_cons, List.not_mem_nil, or_false] at hb
    exact hb.elim hquote (·.elim hc hquote)
  exact ⟨hmem _ (by decide) hfeed.symm, hmem _ (by decide) hcomment.symm⟩

theorem replaceChars_constant_cons (h : isConstantChar c = true) (back : Text) :
    replaceChars 0 (charConstant c ++ back) = charDigits c ++ replaceChars 0 back := by
  obtain ⟨-, hquote, hbackslash, -⟩ := isConstantChar_iff.1 h
  have hbody : ConstantBody [c] :=
    .of_unescaped (.singleton hquote) fun hhead => hbackslash (Option.some.inj hhead)
  have hwidth : constantWidth? (quote :: c :: quote :: back) = some 1 := hbody.closed back
  have hcode : charCode? [c] = some c.toNat := if_neg hbackslash
  change replaceChars 0 (quote :: c :: quote :: back) = _
  rw [replaceChars, hwidth]
  dsimp only
  rw [List.take_succ_cons, List.take_zero, hcode]
  rfl

/-- The code and the constant leave the same text, unless the quote of the constant ends another
one. -/
theorem replaceChars_charConstant (h : isConstantChar c = true) {front : Text}
    (hopen : overhangs [quote] 0 front = false) (back : Text) :
    replaceChars 0 (front ++ (charConstant c ++ back)) =
      replaceChars 0 (front ++ (charDigits c ++ back)) := by
  have hquote : overhangs (charConstant c ++ back) 0 front = false :=
    (overhangs_quote _ 0 front).trans hopen
  have hdigits : overhangs (charDigits c ++ back) 0 front = false := by
    obtain ⟨a, b, rest, heq, ha, hb⟩ := charDigits_eq h
    rw [heq]
    exact overhangs_digits ha hb _ (Nat.zero_le _)
  have hseam : overhangs back 0 (charDigits c) = false := by
    have hfront := overhangs_append back (quote_not_mem_charDigits c) []
    rwa [List.append_nil] at hfront
  rw [replaceChars_append hquote, replaceChars_append hdigits, replaceChars_constant_cons h,
    replaceChars_append hseam, replaceChars_eq_self (quote_not_mem_charDigits c)]

theorem before_append {stop : UInt8} {t : Text} (h : stop ∉ t) (u : Text) :
    before stop (t ++ u) = t ++ before stop u :=
  List.takeWhile_append_of_pos fun _ hb => decide_eq_true fun heq => h (heq ▸ hb)

theorem strip_append_solid {front x : Text} (hx : Solid x) (hfront : byte ';' ∉ front)
    (hcomment : byte ';' ∉ x) (back : Text) :
    Source.strip (front ++ (x ++ back)) =
      trimFront front ++ (x ++ trimBack (before (byte ';') back)) := by
  rw [Source.strip, before_append hfront, before_append hcomment]
  exact hx.trim_append front _

theorem overhangs_trimFront {behind front : Text} :
    overhangs behind 0 (trimFront front) = overhangs behind 0 front := by
  obtain ⟨bs, heq, hbs⟩ := exists_append_trimFront front
  have hquote : quote ∉ bs := fun hmem => absurd (hbs quote hmem) (by decide)
  conv => rhs; rw [heq]
  exact (overhangs_append behind hquote _).symm

/-- A first word without quotes does not see the constant. -/
theorem head?_words_charConstant (front back : Text) {w : Text} (hw : quote ∉ w)
    (h : (words (front ++ (charConstant c ++ back))).head? = some w) :
    (words (front ++ (charDigits c ++ back))).head? = some w := by
  obtain ⟨b, rest, heq, hb⟩ := (solid_charDigits c).first
  rw [heq]
  change (words (front ++ quote :: (c :: quote :: back))).head? = some w at h
  rcases head?_words_append front hb (by decide : isGraphic quote = true) (rest ++ back)
    (c :: quote :: back) with hsame | ⟨start, -, hword⟩
  · exact hsame.trans h
  · rw [hword, Option.some_inj] at h
    exact absurd (h ▸ by simp) hw

/-- Lines with the same characters replaced are assembled alike. -/
theorem assembleLine_congr (depth n : Nat) {line line' : Text}
    (h : replaceChars 0 line = replaceChars 0 line') :
    assembleLine interpret depth n line = assembleLine interpret depth n line' := by
  have hwords : readWords interpret line = readWords interpret line' := by
    unfold readWords replaceConstants
    rw [h]
  have hwith : ∀ expand, assembleWith interpret expand n line = assembleWith interpret expand n line' := by
    intro expand
    unfold assembleWith
    rw [hwords]
  cases depth with
  | zero => exact hwith _
  | succ depth => exact hwith _

end

namespace Source

theorem foldr_addByte_closed (t line : Text) (ls : List Text) :
    t.foldr addByte ([], line :: ls) =
      ((t.foldr addByte ([], [])).1, (t.foldr addByte ([], [])).2 ++ line :: ls) := by
  induction t with
  | nil => rfl
  | cons b t ih =>
      rw [List.foldr_cons, List.foldr_cons, ih, addByte, addByte]
      split_ifs <;> rfl

/-- A line that is not empty, between line feeds or the ends of a source, is one of its lines, and the
others do not depend on it. -/
theorem rawLines_around {above below : Text} (habove : above = [] ∨ above.getLast? = some 10)
    (hbelow : below = [] ∨ below.head? = some 10) :
    ∃ front back, ∀ line, 10 ∉ line → line ≠ [] →
      rawLines (above ++ (line ++ below)) = front ++ line :: back := by
  have hline : ∀ line, 10 ∉ line → openLines (line ++ below) = (line, (openLines below).2) := by
    intro line hfeed
    have hopen : (openLines below).1 = [] := by
      rcases hbelow with rfl | hhead
      · rfl
      · obtain ⟨rest, rfl⟩ := List.head?_eq_some_iff.1 hhead
        rfl
    rw [openLines_append hfeed, hopen, List.append_nil]
  have hall : ∃ front, ∀ line, 10 ∉ line →
      (openLines (above ++ (line ++ below))).1 :: (openLines (above ++ (line ++ below))).2 =
        front ++ line :: (openLines below).2 := by
    rcases habove with rfl | hlast
    · refine ⟨[], fun line hfeed => ?_⟩
      rw [List.nil_append, hline line hfeed, List.nil_append]
    · obtain ⟨rest, rfl⟩ := List.getLast?_eq_some_iff.1 hlast
      refine ⟨(openLines rest).1 :: (openLines rest).2, fun line hfeed => ?_⟩
      have hopen : openLines (rest ++ [10] ++ (line ++ below)) =
          rest.foldr addByte ([], line :: (openLines below).2) := by
        rw [openLines, List.append_assoc, List.foldr_append, List.singleton_append]
        change rest.foldr addByte (openLines (10 :: (line ++ below))) = _
        rw [openLines_lineFeed, hline line hfeed]
      rw [hopen, foldr_addByte_closed]
      rfl
  obtain ⟨front, hfront⟩ := hall
  refine ⟨front, if (openLines below).2.getLast? = some [] then (openLines below).2.dropLast
    else (openLines below).2, fun line hfeed hne => ?_⟩
  have hraw : rawLines (above ++ (line ++ below)) =
      if (front ++ line :: (openLines below).2).getLast? = some []
      then (front ++ line :: (openLines below).2).dropLast
      else front ++ line :: (openLines below).2 := by
    rw [← hfront line hfeed]
    rfl
  rw [hraw]
  cases (openLines below).2 with
  | nil => simp [hne]
  | cons l ls =>
      rw [List.getLast?_append_of_ne_nil _ (List.cons_ne_nil _ _), List.getLast?_cons_cons,
        List.dropLast_append_of_ne_nil (List.cons_ne_nil _ _),
        List.dropLast_cons_of_ne_nil (List.cons_ne_nil _ _)]
      split_ifs <;> rfl

theorem dropReturn_append_solid {x : Text} (hx : Solid x) (front back : Text) :
    dropReturn (front ++ (x ++ back)) = front ++ (x ++ dropReturn back) := by
  rw [dropReturn, dropReturn, ← List.append_assoc, ← List.append_assoc]
  cases back with
  | nil =>
      obtain ⟨start, b, rfl, hb⟩ := hx.last
      have hreturn : b ≠ 13 := ne_of_isGraphic hb (by decide)
      rw [List.append_nil, ← List.append_assoc, List.getLast?_concat,
        if_neg fun heq => hreturn (Option.some.inj heq), if_neg nofun, List.append_nil]
  | cons b back =>
      rw [List.getLast?_append_of_ne_nil _ (List.cons_ne_nil _ _),
        List.dropLast_append_of_ne_nil (List.cons_ne_nil _ _)]
      split_ifs <;> rfl

theorem lines_of_fits {t : Text} (h : ∀ l ∈ rawLines t, fits l = true) :
    lines t = ⟨(rawLines t).map dropReturn, false⟩ := by
  have hany : (rawLines t).any (!fits ·) = false := by
    rw [List.any_eq_false]
    intro l hl
    rw [h l hl]
    decide
  rw [lines, List.takeWhile_eq_self_iff.2 h, hany]

end Source

/-- Outside of macros, a line that does not open one is assembled if it is taken in. -/
theorem assembles_of_ok {depth n : Nat} {line : Text} {s t : State} (hout : s.defining = none)
    (hopen : (words line).head? ≠ some (text ".macro"))
    (h : sourceLine interpret depth n line s = .ok () t) :
    s.Assembles line := by
  refine ⟨hout, hopen, fun hclose => ?_⟩
  rw [sourceLine_run, if_neg fun hline => hline.2.2 hclose] at h
  obtain ⟨rest, hwords⟩ := List.head?_eq_some_iff.1 hclose
  simp only [macroLine, bind_run, get_run, hwords] at h
  rw [if_neg (by decide), if_pos trivial, closeMacro_run, hout] at h
  cases h

/-- A source without macros defines none. -/
theorem defining_of_sourceLines {depth : Nat} {pos pos' : Position} {lines : List Text} {s t : State}
    (hopen : ∀ l ∈ lines, (words (Source.strip l)).head? ≠ some (text ".macro"))
    (hout : s.defining = none) (h : sourceLines interpret depth pos lines s = (pos', none, t)) :
    t.defining = none := by
  induction lines generalizing pos s with
  | nil =>
      cases h
      exact hout
  | cons line lines ih =>
      rw [List.forall_mem_cons] at hopen
      obtain ⟨u, hline, hrest⟩ := sourceLines_cons_eq_none.1 h
      have hassembles := assembles_of_ok hout hopen.1 hline
      rw [sourceLine_run, if_pos hassembles] at hline
      exact ih hopen.2 ((assembleLine_macros hline).2.trans hout) hrest

/-- How the line before was written has no part in what comes of the lines behind it. -/
theorem sourceLines_position {depth n : Nat} (before before' : Text) {pos : Position}
    {lines : List Text} {s t : State}
    (h : sourceLines interpret depth ⟨n, before⟩ lines s = (pos, none, t)) :
    ∃ pos', sourceLines interpret depth ⟨n, before'⟩ lines s = (pos', none, t) := by
  cases lines with
  | nil =>
      cases h
      exact ⟨_, rfl⟩
  | cons line lines => exact ⟨pos, h⟩

/-- A line that stands for another where no macro is defined: what the other comes to, it comes to. -/
def StandsFor (interpret : Expression.Interpreter) (depth : Nat) (new old : Text) : Prop :=
  ∀ n s t, s.defining = none → (words (Source.strip old)).head? ≠ some (text ".macro") →
    sourceLine interpret depth n (Source.strip old) s = .ok () t →
      sourceLine interpret depth n (Source.strip new) s = .ok () t

theorem StandsFor.sourceLines {depth : Nat} {new old : Text} (h : StandsFor interpret depth new old)
    {before behind : List Text} {pos : Position} {s t : State} (hout : s.defining = none)
    (hopen : ∀ l ∈ before ++ old :: behind, (words (Source.strip l)).head? ≠ some (text ".macro"))
    (hrun : sourceLines interpret depth {} (before ++ old :: behind) s = (pos, none, t)) :
    ∃ pos', sourceLines interpret depth {} (before ++ new :: behind) s = (pos', none, t) := by
  rw [List.forall_mem_append, List.forall_mem_cons] at hopen
  obtain ⟨here, u, hbefore, hrest⟩ := sourceLines_append_eq_none.1 hrun
  obtain ⟨v, hline, hbehind⟩ := sourceLines_cons_eq_none.1 hrest
  have hout' := defining_of_sourceLines hopen.1 hout hbefore
  obtain ⟨pos', hbehind'⟩ := sourceLines_position (Source.strip old) (Source.strip new) hbehind
  refine ⟨pos', sourceLines_append_eq_none.2 ⟨here, u, hbefore, ?_⟩⟩
  exact sourceLines_cons_eq_none.2 ⟨v, h _ u v hout' hopen.2.1 hline, hbehind'⟩

/-- In an accepted source without macros, a line may be replaced by one that stands for it and can be
read. -/
theorem StandsFor.parse {depth : Nat} {a : Assembler} {new old : Text}
    (h : StandsFor a.interpret depth (Source.dropReturn new) (Source.dropReturn old))
    {above below : Text} (habove : above = [] ∨ above.getLast? = some 10)
    (hbelow : below = [] ∨ below.head? = some 10) (hold : 10 ∉ old ∧ old ≠ [])
    (hnew : 10 ∉ new ∧ new ≠ []) (hfits : Source.fits new = true) {p : Program}
    (hmacros : ∀ l ∈ (Source.lines (above ++ (old ++ below))).texts,
      (words (Source.strip l)).head? ≠ some (text ".macro"))
    (haccepted : (parse depth a (above ++ (old ++ below))).verdict = .accepted p) :
    (parse depth a (above ++ (new ++ below))).verdict = .accepted p := by
  obtain ⟨front, back, hraw⟩ := Source.rawLines_around habove hbelow
  rw [parse_verdict] at haccepted ⊢
  obtain ⟨hfailure, hoverlong, hdefining, hmissing, hp⟩ := judge_eq_accepted.1 haccepted
  have hread : ∀ l ∈ front ++ old :: back, Source.fits l = true := by
    intro l hl
    rw [← hraw old hold.1 hold.2] at hl
    simpa using List.any_eq_false.1 hoverlong l hl
  have hread' : ∀ l ∈ front ++ new :: back, Source.fits l = true := by
    rw [List.forall_mem_append, List.forall_mem_cons] at hread ⊢
    exact ⟨hread.1, hfits, hread.2.2⟩
  have hlines := Source.lines_of_fits (hraw old hold.1 hold.2 ▸ hread)
  have hlines' := Source.lines_of_fits (hraw new hnew.1 hnew.2 ▸ hread')
  rw [hraw old hold.1 hold.2, List.map_append, List.map_cons] at hlines
  rw [hraw new hnew.1 hnew.2, List.map_append, List.map_cons] at hlines'
  rw [hlines] at hmacros hfailure hdefining hmissing hp
  obtain ⟨pos', hrun⟩ := h.sourceLines rfl hmacros (Prod.ext rfl (Prod.ext hfailure rfl))
  rw [hlines', hrun]
  exact judge_eq_accepted.2 ⟨rfl, rfl, hdefining, hmissing, hp⟩

/-- A place in a line of a source, outside of comments: the lines above, the part of the line before
it and the part behind it, and the lines below. -/
structure InLine (above front back below : Text) : Prop where
  starts : above = [] ∨ above.getLast? = some 10
  ends : below = [] ∨ below.head? = some 10
  front_unbroken : 10 ∉ front
  back_unbroken : 10 ∉ back
  no_comment : byte ';' ∉ front

/-- A line with a character constant stands for the line with its code. -/
theorem standsFor_charConstant (depth : Nat) {c : UInt8} (hc : isConstantChar c = true)
    {front : Text} (hopen : overhangs [quote] 0 front = false) (hcomment : byte ';' ∉ front)
    (back : Text) :
    StandsFor interpret depth (front ++ (charConstant c ++ back)) (front ++ (charDigits c ++ back)) := by
  intro n s t hout hmacro h
  have hassembles := assembles_of_ok hout hmacro h
  rw [strip_append_solid (solid_charDigits c) hcomment (not_mem_ofNat (by decide) _)] at h hassembles
  rw [strip_append_solid (solid_charConstant hc) hcomment (not_mem_charConstant hc).2]
  have hconstant : s.Assembles
      (trimFront front ++ (charConstant c ++ trimBack (before (byte ';') back))) :=
    ⟨hout, fun hhead => hassembles.2.1 (head?_words_charConstant _ _ (by decide) hhead),
      fun hhead => hassembles.2.2 (head?_words_charConstant _ _ (by decide) hhead)⟩
  rw [sourceLine_run, if_pos hassembles] at h
  rw [sourceLine_run, if_pos hconstant, ← h]
  refine congrFun (assembleLine_congr depth n ?_) s
  exact replaceChars_charConstant hc (overhangs_trimFront.trans hopen) _

theorem InLine.unbroken {above front back below x : Text} (h : InLine above front back below)
    (hx : Solid x) (hfeed : 10 ∉ x) : 10 ∉ front ++ (x ++ back) ∧ front ++ (x ++ back) ≠ [] := by
  refine ⟨by simp [h.front_unbroken, h.back_unbroken, hfeed], ?_⟩
  obtain ⟨b, rest, rfl, -⟩ := hx.first
  simp

/-- In an accepted source without macros, the decimal code of a printable character may be written as
a character constant, and the same program comes of it. The character is no quote, no backslash and no
semicolon, the line with the constant can be read, and no quote before it is left open. -/
theorem character_constants_are_codes (depth : Nat) (a : Assembler) {above front back below : Text}
    {c : UInt8} {p : Program} (hplace : InLine above front back below)
    (hc : isConstantChar c = true) (hopen : overhangs [quote] 0 front = false)
    (hfits : (front ++ (charConstant c ++ back)).length < Source.lineLimit)
    (hmacros : ∀ l ∈ (Source.lines (above ++ (front ++ (charDigits c ++ back) ++ below))).texts,
      (words (Source.strip l)).head? ≠ some (text ".macro"))
    (haccepted : (parse depth a (above ++ (front ++ (charDigits c ++ back) ++ below))).verdict =
      .accepted p) :
    (parse depth a (above ++ (front ++ (charConstant c ++ back) ++ below))).verdict =
      .accepted p := by
  have hdigits := hplace.unbroken (solid_charDigits c) (not_mem_ofNat (by decide) _)
  have hconstant := hplace.unbroken (solid_charConstant hc) (not_mem_charConstant hc).1
  have hstands : StandsFor a.interpret depth (Source.dropReturn (front ++ (charConstant c ++ back)))
      (Source.dropReturn (front ++ (charDigits c ++ back))) := by
    rw [Source.dropReturn_append_solid (solid_charConstant hc),
      Source.dropReturn_append_solid (solid_charDigits c)]
    exact standsFor_charConstant depth hc hopen hplace.no_comment _
  exact hstands.parse hplace.starts hplace.ends hdigits hconstant (decide_eq_true hfits) hmacros
    haccepted

/-- A store between other lines, with blanks and a constant before its source, and behind it a comment
with quotes and a carriage return. -/
def pricedSource (price : Text) : Text :=
  text "top:\n" ++ (text "\tstdw [r1+'a'] " ++ (price ++ text "  ; '36'\r") ++ text "\nja top")

def pricedProgram : Program :=
  ⟨[⟨1, 0, [text "top:"], .label (text "top")⟩,
    ⟨2, 0, [text "stdw", text "[r1+97]", text "36"], .insn (.store .dw (.ofInd ⟨1⟩ 97) (.ofImm 36))⟩,
    ⟨3, 1, [text "ja", text "top"], .insn (.ja (.ofLabel (text "top")))⟩]⟩

theorem dollar_constant_is_code :
    (parse 0 (fresh Expression.interpret) (pricedSource (text "36"))).verdict = .accepted pricedProgram ∧
      (parse 0 (fresh Expression.interpret) (pricedSource (text "'$'"))).verdict =
        .accepted pricedProgram := by
  have hcode : (parse 0 (fresh Expression.interpret) (pricedSource (text "36"))).verdict =
      .accepted pricedProgram := by
    decide
  refine ⟨hcode, character_constants_are_codes (c := byte '$') 0 (fresh Expression.interpret) ?_
    (by decide) (by decide) (by decide) (by decide) hcode⟩
  exact ⟨.inr (by decide), .inr (by decide), by decide, by decide, by decide⟩

/-! ### Constants that are not codes -/

/-- A line with a comment that leaves just enough room for a code of two digits. -/
def commented (t : Text) : Text := t ++ byte ';' :: List.replicate 65525 (byte 'x')

section

variable {t : Text}

theorem not_mem_commented {b : UInt8} (ht : b ∉ t) (hb : b ≠ byte ';' ∧ b ≠ byte 'x') :
    b ∉ commented t := by
  rw [commented, List.mem_append, List.mem_cons]
  rintro (hmem | rfl | hmem)
  · exact ht hmem
  · exact hb.1 rfl
  · exact hb.2 (List.eq_of_mem_replicate hmem)

theorem fits_commented : Source.fits (commented t) = decide (t.length < 10) := by
  rw [Source.fits, commented, List.length_append, List.length_cons, List.length_replicate,
    Source.lineLimit]
  exact decide_eq_decide.2 (by omega)

theorem strip_commented (ht : byte ';' ∉ t) : Source.strip (commented t) = trim t := by
  rw [Source.strip, commented, before_append ht, before, List.takeWhile_cons_of_neg (by decide),
    List.append_nil]

end

def movProgram (word : Text) (value : BitVec 32) : Program :=
  ⟨[⟨1, 0, [text "mov", text "r0", word], .insn (.alu .mov ⟨0⟩ (.ofImm value))⟩]⟩

theorem commented_code_accepted :
    (parse 0 (fresh Expression.interpret) (Source.unlines [commented (text "mov r0 65")])).verdict =
      .accepted (movProgram (text "65") 65) := by
  have hlines : Source.lines (Source.unlines [commented (text "mov r0 65")]) =
      ⟨[commented (text "mov r0 65")], false⟩ := by
    refine Source.lines_unlines ?_ ?_ ?_ <;> refine List.forall_mem_singleton.2 ?_
    · rw [fits_commented]
      decide
    · exact not_mem_commented (by decide) (by decide)
    · exact not_mem_commented (by decide) (by decide)
  rw [parse_verdict, hlines]
  dsimp only
  rw [sourceLines, strip_commented (by decide)]
  decide

theorem commented_constant_unread :
    (parse 0 (fresh Expression.interpret) (Source.unlines [commented (text "mov r0 'A'")])).verdict =
      .rejected ⟨0, [], [], .lineTooLong⟩ := by
  have hlong : Source.fits (commented (text "mov r0 'A'")) = false := by
    rw [fits_commented]
    decide
  have hlines : Source.lines (Source.unlines [commented (text "mov r0 'A'")]) = ⟨[], true⟩ := by
    rw [Source.lines_eq_takeWhile]
    · rw [List.takeWhile_cons_of_neg (by rw [hlong]; exact Bool.false_ne_true), List.any_cons, hlong]
      rfl
    · exact List.forall_mem_singleton.2 (not_mem_commented (by decide) (by decide))
    · exact List.forall_mem_singleton.2 (not_mem_commented (by decide) (by decide))
  rw [parse_verdict, hlines]
  rfl

/-- The code of the semicolon, a code in a line as long as can be read, and a code behind an open
quote are accepted, and the constants in their place are not. -/
theorem some_constants_are_no_codes :
    ((parse 0 (fresh Expression.interpret) (text "mov r0 59\n")).verdict =
          .accepted (movProgram (text "59") 59) ∧
        (parse 0 (fresh Expression.interpret) (text "mov r0 ';'\n")).verdict =
          .rejected ⟨1, text "mov r0 '", [], .notOperand (text "'")⟩) ∧
      ((parse 0 (fresh Expression.interpret) (Source.unlines [commented (text "mov r0 65")])).verdict =
          .accepted (movProgram (text "65") 65) ∧
        (parse 0 (fresh Expression.interpret) (Source.unlines [commented (text "mov r0 'A'")])).verdict =
          .rejected ⟨0, [], [], .lineTooLong⟩) ∧
      ((parse 0 (fresh Expression.interpret) (text ".equ x' 5\nstdw x' 65\n")).verdict =
          .accepted ⟨[⟨2, 0, [text "stdw", text "5", text "65"],
            .insn (.store .dw (.ofImm 5) (.ofImm 65))⟩]⟩ ∧
        (parse 0 (fresh Expression.interpret) (text ".equ x' 5\nstdw x' 'A'\n")).verdict =
          .rejected ⟨2, text "stdw x' 'A'", [], .valueMissing⟩) :=
  ⟨⟨by decide, by decide⟩, ⟨commented_code_accepted, commented_constant_unread⟩, by decide, by decide⟩

end TapeMachine.Assembler
