import Mathlib.Data.List.TakeWhile
import TapeMachine.Assembler.Constant
import TapeMachine.Assembler.Source

/-! Text that is taken as it stands. Words of graphic ASCII characters with single blanks between
them are the words of the line they make, and lines of them are the lines of the text they make. A
text without quotes and dollar signs holds no constant to replace. -/

namespace TapeMachine.Text

variable {interpret : Expression.Interpreter}

theorem forall_byte {p : UInt8 → Prop} (h : ∀ n : Fin 256, p (.ofFin n)) (b : UInt8) : p b :=
  h b.toFin

/-- A byte outside a class is not in a text of that class. -/
theorem not_mem_of_forall {p : UInt8 → Bool} {t : Text} {b : UInt8} (h : ∀ c ∈ t, p c = true)
    (hb : p b = false) : b ∉ t := by
  intro hmem
  rw [h b hmem] at hb
  cases hb

theorem replaceByte_eq_self {b : UInt8} {new t : Text} (h : b ∉ t) : replaceByte b new t = t := by
  rw [replaceByte]
  induction t with
  | nil => rfl
  | cons c t ih =>
      rw [List.mem_cons, not_or] at h
      rw [List.flatMap_cons, if_neg (Ne.symm h.1), ih h.2, List.singleton_append]

/-- A printable ASCII character other than the blank. -/
def isGraphic (b : UInt8) : Bool := 0x21 ≤ b && b ≤ 0x7E

theorem isGraphic_iff {b : UInt8} : isGraphic b = true ↔ 33 ≤ b.toNat ∧ b.toNat ≤ 126 := by
  rw [isGraphic, Bool.and_eq_true, decide_eq_true_iff, decide_eq_true_iff, UInt8.le_iff_toNat_le,
    UInt8.le_iff_toNat_le]
  rfl

theorem ne_of_isGraphic {b c : UInt8} (hb : isGraphic b = true) (hc : isGraphic c = false) :
    b ≠ c := by
  rintro rfl
  rw [hb] at hc
  cases hc

/-- A word of a line: not empty, and of graphic characters. -/
structure IsWord (w : Text) : Prop where
  ne_nil : w ≠ []
  graphic : ∀ b ∈ w, isGraphic b = true

theorem Piece.cons_of_isGraphic {b : UInt8} (h : isGraphic b = true) (ps : List Piece) :
    Piece.cons b ps = .plain b :: ps := by
  have hb := isGraphic_iff.1 h
  have hblank : ¬((b = byte ' ' || (9 ≤ b && b ≤ 13)) = true) := by
    simp only [Bool.or_eq_true, Bool.and_eq_true, decide_eq_true_iff, UInt8.le_iff_toNat_le]
    rintro (rfl | ⟨_, hle⟩)
    · exact absurd hb.1 (by decide)
    · exact absurd (hb.1.trans hle) (by decide)
  unfold Piece.cons
  rw [if_neg hblank]
  split
  all_goals first
    | rfl
    | exact absurd h (by decide)

theorem Piece.cons_space (ps : List Piece) :
    Piece.cons (byte ' ') ps = .blank [byte ' '] :: ps := rfl

theorem pieces_cons (b : UInt8) (t : Text) : pieces (b :: t) = Piece.cons b (pieces t) := rfl

/-- A text in which no blank is seen, whatever follows it. -/
structure Unbroken (w : Text) : Prop where
  ne_nil : w ≠ []
  pieces_append : ∀ t, pieces (w ++ t) = w.map .plain ++ pieces t

theorem IsWord.unbroken {w : Text} (h : IsWord w) : Unbroken w where
  ne_nil := h.ne_nil
  pieces_append t := by
    have hgraphic := h.graphic
    clear h
    induction w with
    | nil => rfl
    | cons b w ih =>
        rw [List.forall_mem_cons] at hgraphic
        rw [List.cons_append, pieces_cons, Piece.cons_of_isGraphic hgraphic.1, ih hgraphic.2,
          List.map_cons, List.cons_append]

theorem Unbroken.append {w v : Text} (hw : Unbroken w) (hv : Unbroken v) : Unbroken (w ++ v) where
  ne_nil := List.append_ne_nil_of_left_ne_nil hw.ne_nil v
  pieces_append t := by
    rw [List.append_assoc, hw.pieces_append, hv.pieces_append, List.map_append, List.append_assoc]

theorem Piece.flatMap_bytes_cons (b : UInt8) (ps : List Piece) :
    (Piece.cons b ps).flatMap Piece.bytes = b :: ps.flatMap Piece.bytes := by
  unfold Piece.cons
  split_ifs
  · rfl
  · split
    · split_ifs <;> rfl
    · rfl
    · split_ifs <;> rfl
    · rfl
    · rfl
    · rfl

/-- The pieces of a text make up the text. -/
theorem flatMap_bytes_pieces (t : Text) : (pieces t).flatMap Piece.bytes = t := by
  induction t with
  | nil => rfl
  | cons b t ih => rw [pieces_cons, Piece.flatMap_bytes_cons, ih]

private theorem dropWhile_isBlank_eq_self {ps : List Piece}
    (h : ∀ p, ps.head? = some p → p.isBlank = false) : ps.dropWhile Piece.isBlank = ps := by
  cases ps with
  | nil => rfl
  | cons p ps => rw [List.dropWhile_cons_of_neg (by rw [h p rfl]; exact Bool.false_ne_true)]

/-! ### Words -/

theorem unwords_cons_cons (w v : Text) (ws : List Text) :
    unwords (w :: v :: ws) = w ++ byte ' ' :: unwords (v :: ws) := by
  simp [unwords, List.intercalate]

theorem unwords_singleton (w : Text) : unwords [w] = w := by
  simp [unwords, List.intercalate]

theorem mem_unwords {ws : List Text} {b : UInt8} (h : b ∈ unwords ws) :
    b = byte ' ' ∨ ∃ w ∈ ws, b ∈ w := by
  induction ws with
  | nil => cases h
  | cons w ws ih =>
      cases ws with
      | nil =>
          rw [unwords_singleton] at h
          exact Or.inr ⟨w, by simp, h⟩
      | cons v ws =>
          rw [unwords_cons_cons] at h
          rcases List.mem_append.1 h with hw | hrest
          · exact Or.inr ⟨w, by simp, hw⟩
          · rcases List.mem_cons.1 hrest with hspace | hmore
            · exact Or.inl hspace
            · obtain hspace | ⟨u, hu, hb⟩ := ih hmore
              · exact Or.inl hspace
              · exact Or.inr ⟨u, List.mem_cons_of_mem _ hu, hb⟩

/-- The bytes of a word that is still open at the front of a text, and the words behind it. -/
def openWords (t : Text) : Text × List Text := (pieces t).foldr addPiece ([], [])

theorem words_eq_closeWord (t : Text) : words t = closeWord (openWords t).1 (openWords t).2 := rfl

theorem foldr_addPiece_plain (w : Text) (st : Text × List Text) :
    (w.map .plain).foldr addPiece st = (w ++ st.1, st.2) := by
  induction w with
  | nil => rfl
  | cons b w ih =>
      rw [List.map_cons, List.foldr_cons, ih]
      rfl

theorem openWords_append {w : Text} (hw : Unbroken w) (t : Text) :
    openWords (w ++ t) = (w ++ (openWords t).1, (openWords t).2) := by
  rw [openWords, hw.pieces_append, List.foldr_append, foldr_addPiece_plain]
  rfl

theorem openWords_space (t : Text) :
    openWords (byte ' ' :: t) = ([], closeWord (openWords t).1 (openWords t).2) := rfl

theorem openWords_unwords {w : Text} {ws : List Text} (h : ∀ v ∈ w :: ws, Unbroken v) :
    openWords (unwords (w :: ws)) = (w, ws) := by
  induction ws generalizing w with
  | nil =>
      have hopen := openWords_append (h w (by simp)) []
      rw [List.append_nil] at hopen
      rw [unwords_singleton, hopen]
      change (w ++ [], []) = (w, [])
      rw [List.append_nil]
  | cons v ws ih =>
      rw [List.forall_mem_cons] at h
      have hv : v.isEmpty = false := by simpa using (h.2 v (by simp)).ne_nil
      rw [unwords_cons_cons, openWords_append h.1, openWords_space, ih h.2, closeWord, hv,
        if_neg Bool.false_ne_true, List.append_nil]

/-- The words of a line made of words are these words. -/
theorem words_unwords {ws : List Text} (h : ∀ w ∈ ws, Unbroken w) : words (unwords ws) = ws := by
  cases ws with
  | nil => rfl
  | cons w ws =>
      have hw : w.isEmpty = false := by simpa using (h w (by simp)).ne_nil
      rw [words_eq_closeWord, openWords_unwords h, closeWord, hw, if_neg Bool.false_ne_true]

theorem Unbroken.pieces_eq {w : Text} (h : Unbroken w) : pieces w = w.map .plain := by
  have hpieces := h.pieces_append []
  rwa [List.append_nil, show pieces [] = [] from rfl, List.append_nil] at hpieces

/-- A line made of words starts and ends with bytes of them. -/
theorem pieces_unwords_ends {w : Text} {ws : List Text} (h : ∀ v ∈ w :: ws, Unbroken v) :
    (∃ b, (pieces (unwords (w :: ws))).head? = some (.plain b)) ∧
      ∃ b, (pieces (unwords (w :: ws))).getLast? = some (.plain b) := by
  obtain ⟨b, v, rfl⟩ := List.exists_cons_of_ne_nil (h w (by simp)).ne_nil
  induction ws generalizing b v with
  | nil =>
      rw [unwords_singleton, (h _ (by simp)).pieces_eq]
      refine ⟨⟨b, rfl⟩, (b :: v).getLast (by simp), ?_⟩
      rw [List.getLast?_map, List.getLast?_eq_some_getLast (by simp), Option.map_some]
  | cons u ws ih =>
      rw [List.forall_mem_cons] at h
      obtain ⟨c, u, rfl⟩ := List.exists_cons_of_ne_nil (h.2 u (by simp)).ne_nil
      obtain ⟨-, d, hd⟩ := ih c u h.2
      rw [unwords_cons_cons, h.1.pieces_append, pieces_cons, Piece.cons_space]
      refine ⟨⟨b, rfl⟩, d, ?_⟩
      rw [List.getLast?_append, List.getLast?_cons, hd]
      rfl

/-- A line made of words has no blanks to trim. -/
theorem trim_unwords {ws : List Text} (h : ∀ w ∈ ws, Unbroken w) :
    trim (unwords ws) = unwords ws := by
  cases ws with
  | nil => rfl
  | cons w ws =>
      obtain ⟨⟨b, hfirst⟩, c, hlast⟩ := pieces_unwords_ends h
      have hfront := dropWhile_isBlank_eq_self fun p hp => by
        rw [hfirst, Option.some_inj] at hp
        exact hp ▸ rfl
      have hback := dropWhile_isBlank_eq_self fun p hp => by
        rw [List.head?_reverse, hlast, Option.some_inj] at hp
        exact hp ▸ rfl
      rw [trim, hfront, hback, List.reverse_reverse, flatMap_bytes_pieces]

end TapeMachine.Text

namespace TapeMachine.Assembler

open Text

theorem replaceChars_eq_self {t : Text} (h : quote ∉ t) : replaceChars 0 t = t := by
  induction t with
  | nil => rfl
  | cons b t ih =>
      rw [List.mem_cons, not_or] at h
      have hwidth : constantWidth? (b :: t) = none := by
        unfold constantWidth?
        split
        · rename_i heq
          cases heq
          exact absurd rfl h.1
        · rename_i heq
          cases heq
          exact absurd rfl h.1
        · rfl
      rw [replaceChars, hwidth, ih h.2]

theorem segmentsFrom_append {front : Text} (h : byte '$' ∉ front) (t : Text) :
    segmentsFrom 0 (front ++ t) = front.map .plain ++ segmentsFrom 0 t := by
  induction front with
  | nil => rfl
  | cons b front ih =>
      rw [List.mem_cons, not_or] at h
      have hnone : expressionAt? (b :: (front ++ t)) = none := by
        unfold expressionAt?
        split
        · rename_i heq
          exact absurd (List.cons.inj heq).1.symm h.1
        · rfl
      rw [List.cons_append, segmentsFrom, hnone, ih h.2, List.map_cons, List.cons_append]

theorem expandAll_append (numbers : Expression.Numbers) (front : Text) (ss : List Segment) :
    expandAll interpret numbers (front.map .plain ++ ss) =
      { text := (expandAll interpret numbers ss).text.map (front ++ ·)
        printed := (expandAll interpret numbers ss).printed } := by
  induction front with
  | nil =>
      rw [List.map_nil, List.nil_append]
      obtain ⟨_ | _, _⟩ := expandAll interpret numbers ss <;> rfl
  | cons b front ih =>
      rw [List.map_cons, List.cons_append, expandAll, ih]
      obtain ⟨_ | _, _⟩ := expandAll interpret numbers ss <;> rfl

/-- A line without quotes and dollar signs stays as it is, whatever the equates. -/
theorem replaceConstants_eq_self (equates : Bindings Text) {line : Text} (hquote : quote ∉ line)
    (hdollar : byte '$' ∉ line) : replaceConstants interpret equates line = { text := .ok line } := by
  have hsegments := segmentsFrom_append hdollar []
  rw [List.append_nil] at hsegments
  rw [replaceConstants, replaceChars_eq_self hquote, segments, hsegments, expandAll_append]
  change { text := .ok (line ++ []) : Expansion } = _
  rw [List.append_nil]

/-- A graphic character that starts neither a comment nor a constant. -/
def isPlain (b : UInt8) : Bool := isGraphic b && b != byte ';' && b != quote && b != byte '$'

/-- A word that stands for itself in a line. -/
structure IsPlainWord (w : Text) : Prop where
  ne_nil : w ≠ []
  plain : ∀ b ∈ w, isPlain b = true

theorem IsPlainWord.isWord {w : Text} (h : IsPlainWord w) : IsWord w where
  ne_nil := h.ne_nil
  graphic b hb := by
    have hplain := h.plain b hb
    simp only [isPlain, Bool.and_eq_true] at hplain
    exact hplain.1.1.1

theorem not_mem_unwords {ws : List Text} {c : UInt8} (h : ∀ w ∈ ws, IsPlainWord w)
    (hc : isPlain c = false) (hspace : c ≠ byte ' ') : c ∉ unwords ws := by
  intro hmem
  obtain heq | ⟨w, hw, hcw⟩ := mem_unwords hmem
  · exact hspace heq
  · rw [(h w hw).plain c hcw] at hc
    cases hc

namespace Source

theorem strip_eq_self {ws : List Text} (h : ∀ w ∈ ws, Unbroken w) (hcomment : byte ';' ∉ unwords ws) :
    strip (unwords ws) = unwords ws := by
  have hbefore : before (byte ';') (unwords ws) = unwords ws := by
    refine List.takeWhile_eq_self_iff.2 fun b hb => decide_eq_true fun hstop => ?_
    exact hcomment (hstop ▸ hb)
  rw [strip, hbefore, trim_unwords h]

theorem strip_unwords {ws : List Text} (h : ∀ w ∈ ws, IsPlainWord w) :
    strip (unwords ws) = unwords ws :=
  strip_eq_self (fun w hw => (h w hw).isWord.unbroken) (not_mem_unwords h (by decide) (by decide))

/-- Lines as a text, each with a line feed behind it. -/
def unlines (ls : List Text) : Text := ls.flatMap (· ++ [10])

/-- The bytes of a line that is still open at the front of a text, and the lines behind it. -/
def openLines (t : Text) : Text × List Text := t.foldr addByte ([], [])

theorem openLines_append {l : Text} (hl : 10 ∉ l) (t : Text) :
    openLines (l ++ t) = (l ++ (openLines t).1, (openLines t).2) := by
  induction l with
  | nil => rfl
  | cons b l ih =>
      rw [List.mem_cons, not_or] at hl
      rw [openLines, List.cons_append, List.foldr_cons]
      change addByte b (openLines (l ++ t)) = _
      rw [ih hl.2, addByte, if_neg (Ne.symm hl.1), List.cons_append]

theorem openLines_lineFeed (t : Text) :
    openLines (10 :: t) = ([], (openLines t).1 :: (openLines t).2) := rfl

theorem openLines_unlines {ls : List Text} (h : ∀ l ∈ ls, 10 ∉ l) :
    (openLines (unlines ls)).1 :: (openLines (unlines ls)).2 = ls ++ [[]] := by
  induction ls with
  | nil => rfl
  | cons l ls ih =>
      rw [List.forall_mem_cons] at h
      rw [unlines, List.flatMap_cons, List.append_assoc, openLines_append h.1, List.singleton_append,
        openLines_lineFeed]
      change (l ++ []) :: (openLines (unlines ls)).1 :: (openLines (unlines ls)).2 = _
      rw [ih h.2, List.append_nil, List.cons_append]

theorem rawLines_unlines {ls : List Text} (h : ∀ l ∈ ls, 10 ∉ l) : rawLines (unlines ls) = ls := by
  have hopen := openLines_unlines h
  rw [openLines] at hopen
  rw [rawLines, hopen, List.getLast?_concat, if_pos rfl, List.dropLast_concat]

theorem dropReturn_eq_self {l : Text} (h : 13 ∉ l) : dropReturn l = l :=
  if_neg fun hlast => h (List.mem_of_getLast? hlast)

/-- The lines of a text made of lines are these lines, up to the first that is too long. -/
theorem lines_eq_takeWhile {ls : List Text} (hfeed : ∀ l ∈ ls, 10 ∉ l) (hreturn : ∀ l ∈ ls, 13 ∉ l) :
    lines (unlines ls) = ⟨ls.takeWhile fits, ls.any (!fits ·)⟩ := by
  have hmap : (ls.takeWhile fits).map dropReturn = ls.takeWhile fits :=
    (List.map_congr_left fun l hl => dropReturn_eq_self
      (hreturn l ((List.takeWhile_prefix fits).subset hl))).trans (List.map_id' _)
  rw [lines, rawLines_unlines hfeed, hmap]

/-- The lines of a text made of short lines are these lines. -/
theorem lines_unlines {ls : List Text} (hfits : ∀ l ∈ ls, fits l = true) (hfeed : ∀ l ∈ ls, 10 ∉ l)
    (hreturn : ∀ l ∈ ls, 13 ∉ l) : lines (unlines ls) = ⟨ls, false⟩ := by
  have hany : ls.any (!fits ·) = false := by
    rw [List.any_eq_false]
    intro l hl
    rw [hfits l hl]
    decide
  rw [lines_eq_takeWhile hfeed hreturn, List.takeWhile_eq_self_iff.2 hfits, hany]

end Source

end TapeMachine.Assembler
