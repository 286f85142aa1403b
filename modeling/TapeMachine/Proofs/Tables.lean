import Mathlib.Data.List.Basic
import Mathlib.Data.List.TakeWhile
import TapeMachine.Table
import TapeMachine.Proofs.AsciiSeams
import TapeMachine.Proofs.Characters

/-! Reading tables. A row that a table shows stands between bars, and so does the footer, with the
words of every cell in order; only blanks are added. So from the text of a table without a title the
words of its cells can be read again, where the texts are printable and hold no bars. The footer is
shown in upper case, and its words are read in upper case. -/

namespace TapeMachine.Table

open Text

/-- The words of the cells between the bars of a line. -/
def readLine (line : Text) : List (List Text) :=
  ((line.splitOn (byte '|')).drop 1).dropLast.map words

/-- A line of cells, as opposed to a rule. -/
def isRow (line : Text) : Bool := line.head? = some (byte '|')

/-- The lines of a table below its header, without the rule that ends the header. -/
def linesBelowHeader (t : Text) : List Text := (t.splitOn 10).drop 3

/-- The cells of the rows of a table, in words. -/
def readRows (t : Text) : List (List (List Text)) :=
  ((linesBelowHeader t).takeWhile isRow).map readLine

/-- The cells of the footer of a table, in words, if there is one. -/
def readFooter (t : Text) : List (List (List Text)) :=
  ((((linesBelowHeader t).dropWhile isRow).drop 1).takeWhile isRow).map readLine

/-- A printable ASCII character that is no bar. -/
def isShown (b : UInt8) : Bool := 0x20 ≤ b && b ≤ 0x7E && b ≠ byte '|'

/-- A text that a cell shows on one line, as it stands. -/
def Shown (t : Text) : Prop := ∀ b ∈ t, isShown b = true

theorem isShown_iff {b : UInt8} :
    isShown b = true ↔ 32 ≤ b.toNat ∧ b.toNat ≤ 126 ∧ b ≠ byte '|' := by
  simp [isShown, UInt8.le_iff_toNat_le, and_assoc]

theorem Shown.not_mem {t : Text} (h : Shown t) {b : UInt8} (hb : isShown b = false) : b ∉ t :=
  not_mem_of_forall h hb

theorem Shown.ascii {t : Text} (h : Shown t) : ∀ b ∈ t, b < 0x80 := by
  intro b hb
  have := isShown_iff.1 (h b hb)
  rw [UInt8.lt_iff_toNat_lt]
  exact Nat.lt_of_le_of_lt this.2.1 (by decide)

theorem pieces_eq_singleton {stop : UInt8} {t : Text} (h : stop ∉ t) : pieces stop t = [t] := by
  induction t with
  | nil => rfl
  | cons b t ih =>
      rw [List.mem_cons, not_or] at h
      rw [pieces, ih h.2]
      exact if_neg (Ne.symm h.1)

theorem chars_of_ascii {t : Text} (h : ∀ b ∈ t, b < 0x80) : chars t = t.map fun b => [b] := by
  rw [chars]
  induction t with
  | nil => rfl
  | cons b t ih =>
      rw [List.forall_mem_cons] at h
      have hwidth : charWidth (b :: t) = 1 := (IsCharacter.one h.1).charWidth_append t
      rw [charsFrom, hwidth, List.map_cons]
      exact congrArg _ (ih h.2)

theorem overwritten_of_shown {t : Text} (h : Shown t) : overwritten t = t := by
  rw [overwritten, pieces_eq_singleton (h.not_mem (by decide)), List.foldl_cons, List.foldl_nil,
    List.drop_nil, List.append_nil, chars_of_ascii h.ascii]
  exact List.flatMap_singleton' t

/-- A text that is shown as it stands makes a cell of one line. -/
theorem cellLines_of_shown {t : Text} (h : Shown t) : cellLines t = [t] := by
  rw [cellLines, replaceByte_eq_self (h.not_mem (by decide)),
    pieces_eq_singleton (h.not_mem (by decide)), List.map_singleton, overwritten_of_shown h]

theorem codes_of_shown {t : Text} (h : Shown t) : codes t = t.map UInt8.toNat := by
  rw [codes, chars_of_ascii h.ascii, List.map_map]
  exact List.map_congr_left fun b hb => if_pos (h.ascii b hb)

/-- A text that is shown as it stands is put into upper case letter by letter. -/
theorem upperCase_of_shown {t : Text} (h : Shown t) : upperCase t = upper t := by
  have hencode : ∀ b : UInt8, b < 0x80 → encode (upperCode b.toNat) = upper [b] :=
    forall_byte (by decide +kernel)
  rw [upperCase, codes_of_shown h]
  induction t with
  | nil => rfl
  | cons b t ih =>
      rw [Shown, List.forall_mem_cons] at h
      have hb := isShown_iff.1 h.1
      have hascii : b < 0x80 := UInt8.lt_iff_toNat_lt.2 (Nat.lt_of_le_of_lt hb.2.1 (by decide))
      have hescape : decide (b.toNat = 0x1B) = false := decide_eq_false (by omega)
      rw [List.map_cons, upperFrom, hescape, Bool.false_or, if_neg Bool.false_ne_true,
        Bool.false_and, ofCodes, List.flatMap_cons, hencode b hascii]
      exact congrArg (upper [b] ++ ·) (ih h.2)

theorem Shown.upper {t : Text} (h : Shown t) : Shown (upper t) := by
  have hall : ∀ b : UInt8, isShown b = true →
      isShown (if byte 'a' ≤ b && b ≤ byte 'z' then b - 32 else b) = true :=
    forall_byte (by decide +kernel)
  exact List.forall_mem_map.2 fun b hb => hall b (h b hb)

theorem length_upper (t : Text) : (upper t).length = t.length := List.length_map _

/-- A text that is shown as it stands takes as many columns as it has characters. -/
theorem cellWidth_of_shown {t : Text} (h : Shown t) : cellWidth t = t.length := by
  have hlongest : ∀ (t : Text) (width : Nat), Shown t →
      longestFrom .outside width (t.map UInt8.toNat) = width + t.length := by
    intro t
    induction t with
    | nil => exact fun width _ => rfl
    | cons b t ih =>
        intro width h
        rw [Shown, List.forall_mem_cons] at h
        have hb := isShown_iff.1 h.1
        have hnext : Escape.outside.next b.toNat = .outside := if_neg (by omega)
        have hwidth : codeWidth b.toNat = 1 := by
          rw [codeWidth, if_neg, if_pos (by omega)]
          simp only [Bool.or_eq_true, Bool.and_eq_true, decide_eq_true_eq]
          omega
        have hfeed : decide (b.toNat = 10) = false := decide_eq_false (by omega)
        rw [List.map_cons, longestFrom, hnext, hfeed, hwidth, List.length_cons]
        exact (ih (width + 1) h.2).trans (by omega)
  rw [cellWidth, cellLines_of_shown h, List.intercalate_singleton, codes_of_shown h, hlongest t 0 h,
    Nat.zero_add]

theorem exists_replicate_dropBlanks (t : Text) :
    ∃ n, t = List.replicate n (byte ' ') ++ dropBlanks t := by
  refine ⟨(t.takeWhile (· = byte ' ')).length, ?_⟩
  have hblanks : t.takeWhile (· = byte ' ') =
      List.replicate (t.takeWhile (· = byte ' ')).length (byte ' ') :=
    List.eq_replicate_iff.2 ⟨rfl, fun b hb => by simpa using List.mem_takeWhile_imp hb⟩
  rw [← hblanks]
  exact List.takeWhile_append_dropWhile.symm

theorem words_dropBlanks (t : Text) : words (dropBlanks t) = words t := by
  obtain ⟨n, ht⟩ := exists_replicate_dropBlanks t
  conv => rhs; rw [ht]
  exact (words_replicate_append n _).symm

theorem words_dropBlanks_reverse (t : Text) : words (dropBlanks t.reverse).reverse = words t := by
  obtain ⟨n, ht⟩ := exists_replicate_dropBlanks t.reverse
  have hback : t = (dropBlanks t.reverse).reverse ++ List.replicate n (byte ' ') := by
    rw [← List.reverse_replicate, ← List.reverse_append, ← ht, List.reverse_reverse]
  conv => rhs; rw [hback]
  exact (words_append_replicate _ n).symm

/-- Filling up a cell keeps its words. -/
theorem words_pad (c : Column) (t : Text) : words (pad c t) = words t := by
  rw [pad]
  split_ifs
  · exact (words_replicate_append _ _).trans (words_dropBlanks t)
  · exact (words_append_replicate _ _).trans (words_dropBlanks_reverse t)

theorem Shown.pad {t : Text} (h : Shown t) (c : Column) : Shown (pad c t) := by
  have hfill : ∀ n, Shown (blanks n) := fun n b hb => List.eq_of_mem_replicate hb ▸ (by decide)
  have hleft : Shown (dropBlanks t) := fun b hb => h b (List.dropWhile_subset _ hb)
  have hright : Shown (dropBlanks t.reverse).reverse := fun b hb =>
    h b (List.mem_reverse.1 (List.dropWhile_subset _ (List.mem_reverse.1 hb)))
  rw [Table.pad]
  split_ifs
  · exact List.forall_mem_append.2 ⟨hfill _, hleft⟩
  · exact List.forall_mem_append.2 ⟨hright, hfill _⟩

/-- A cell between its bars. -/
def cell (c : Column) (t : Text) : Text := byte ' ' :: (pad c t ++ [byte ' '])

theorem words_cell (c : Column) (t : Text) : words (cell c t) = words t := by
  rw [cell, words_space_cons, words_append_space, words_pad]
  exact List.append_nil (words t)

theorem Shown.cell {t : Text} (h : Shown t) (c : Column) : Shown (cell c t) :=
  List.forall_mem_cons.2
    ⟨by decide, List.forall_mem_append.2 ⟨h.pad c, List.forall_mem_singleton.2 (by decide)⟩⟩

theorem line_eq_flatMap (cs : List Column) (texts : List Text) :
    line cs texts = (List.zipWith cell cs texts).flatMap (byte '|' :: ·) ++ [byte '|'] := by
  rw [line, List.flatMap_def, List.map_zipWith]
  rfl

theorem intercalate_close (bar : UInt8) (x : Text) (xs : List Text) :
    [bar].intercalate (x :: (xs ++ [[]])) = x ++ (xs.flatMap (bar :: ·) ++ [bar]) := by
  induction xs generalizing x with
  | nil => rfl
  | cons y ys ih =>
      rw [List.cons_append, List.intercalate_cons_cons, ih, List.flatMap_cons, List.append_assoc,
        List.append_assoc]
      rfl

/-- A line is its cells, with bars between them and at both ends. -/
theorem line_eq_intercalate (cs : List Column) (texts : List Text) :
    line cs texts = [byte '|'].intercalate ([] :: (List.zipWith cell cs texts ++ [[]])) := by
  rw [line_eq_flatMap, intercalate_close, List.nil_append]

theorem shown_of_mem_cells {cs : List Column} {texts : List Text} (h : ∀ t ∈ texts, Shown t) :
    ∀ x ∈ List.zipWith cell cs texts, Shown x := by
  intro x hx
  rw [← List.map_uncurry_zip_eq_zipWith] at hx
  obtain ⟨⟨c, t⟩, hmem, rfl⟩ := List.mem_map.1 hx
  exact (h t (List.of_mem_zip hmem).2).cell c

/-- The words of the cells of a line can be read from it. -/
theorem readLine_line {cs : List Column} {texts : List Text} (hlength : texts.length = cs.length)
    (h : ∀ t ∈ texts, Shown t) : readLine (line cs texts) = texts.map words := by
  have hsplit : (line cs texts).splitOn (byte '|') = [] :: (List.zipWith cell cs texts ++ [[]]) := by
    rw [line_eq_intercalate]
    refine List.splitOn_intercalate _ (fun x hx => ?_) (List.cons_ne_nil _ _)
    rw [List.mem_cons, List.mem_append, List.mem_singleton] at hx
    rcases hx with rfl | hcell | rfl
    · exact List.not_mem_nil
    · exact (shown_of_mem_cells h x hcell).not_mem (by decide)
    · exact List.not_mem_nil
  rw [readLine, hsplit, List.drop_one, List.tail_cons, List.dropLast_concat, List.map_zipWith]
  clear hsplit
  induction cs generalizing texts with
  | nil => rw [List.eq_nil_of_length_eq_zero hlength]; rfl
  | cons c cs ih =>
      cases texts with
      | nil => cases hlength
      | cons t texts =>
          rw [List.zipWith_cons_cons, words_cell, List.map_cons]
          exact congrArg _ (ih (Nat.succ.inj hlength) (List.forall_mem_cons.1 h).2)

theorem head?_line (cs : List Column) (texts : List Text) :
    (line cs texts).head? = some (byte '|') := by
  cases cs with
  | nil => rfl
  | cons c cs =>
      cases texts with
      | nil => rfl
      | cons t texts => rfl

theorem lineFeed_not_mem_line {texts : List Text} (h : ∀ t ∈ texts, Shown t) (cs : List Column) :
    10 ∉ line cs texts := by
  rw [line_eq_flatMap, List.mem_append, List.mem_flatMap]
  rintro (⟨x, hx, hfeed⟩ | hbar)
  · exact (List.mem_cons.1 hfeed).elim (by decide) ((shown_of_mem_cells h x hx).not_mem (by decide))
  · exact absurd hbar (by decide)

theorem lineFeed_not_mem_rule (cs : List Column) : 10 ∉ rule cs := by
  intro hmem
  rw [rule, List.mem_append, List.mem_flatten] at hmem
  rcases hmem with ⟨x, hx, hfeed⟩ | hplus
  · obtain ⟨c, -, rfl⟩ := List.mem_map.1 hx
    rcases List.mem_append.1 hfeed with hplus | hdash
    · exact absurd hplus (by decide)
    · exact absurd (List.eq_of_mem_replicate hdash) (by decide)
  · exact absurd hplus (by decide)

theorem isRow_line (cs : List Column) (texts : List Text) : isRow (line cs texts) = true :=
  decide_eq_true (head?_line cs texts)

theorem isRow_rule (cs : List Column) : isRow (rule cs) = false := by
  cases cs with
  | nil => rfl
  | cons c cs => rfl

/-- A row whose cells have one line each takes one line. -/
theorem row_eq_line (show_ : Text → Text) (cs : List Column) {texts : List Text} (hne : texts ≠ [])
    (h : ∀ t ∈ texts, Shown t) : row show_ cs texts = [line cs (texts.map show_)] := by
  have hcells : texts.map cellLines = texts.map fun t => [t] :=
    List.map_congr_left fun t ht => cellLines_of_shown (h t ht)
  have hheight : ((texts.map fun t => [t]).map List.length).foldl max 0 = 1 := by
    obtain ⟨t, texts, rfl⟩ := List.exists_cons_of_ne_nil hne
    rw [List.map_map, List.map_cons, List.foldl_cons]
    change (texts.map fun _ => 1).foldl max 1 = 1
    clear h hne hcells
    induction texts with
    | nil => rfl
    | cons u texts ih => exact ih
  rw [row, hcells, hheight]
  change [line cs ((texts.map fun t => [t]).map fun c => show_ (c.getD 0 []))] = _
  rw [List.map_map]
  rfl

/-! ### Tables -/

/-- A table without a title, whose texts are all shown as they stand. -/
structure Plain (t : Table) : Prop where
  title : t.title = none
  header_ne_nil : t.header ≠ []
  header : ∀ x ∈ t.header, Shown x
  rows : ∀ r ∈ t.rows, r.length = t.header.length ∧ ∀ c ∈ r, Shown c.text
  footer : ∀ f ∈ t.footer, f.length = t.header.length ∧ ∀ x ∈ f, Shown x

namespace Plain

variable {t : Table}

theorem length_columns (t : Table) : t.columns.length = t.header.length := by
  rw [columns, List.length_map, List.length_range]

theorem ne_nil_of_length (h : t.Plain) {α : Type} {r : List α} (hr : r.length = t.header.length) :
    r ≠ [] := by
  rintro rfl
  exact h.header_ne_nil (List.eq_nil_of_length_eq_zero hr.symm)

theorem map_upperCase {f : List Text} (h : ∀ x ∈ f, Shown x) : f.map upperCase = f.map upper :=
  List.map_congr_left fun x hx => upperCase_of_shown (h x hx)

/-- The lines of a plain table. -/
theorem lines_eq (h : t.Plain) : t.lines =
    rule t.columns :: line t.columns (t.header.map upper) :: rule t.columns ::
      (t.rows.map (fun r => line t.columns (r.map Cell.text)) ++ rule t.columns ::
        t.footer.toList.flatMap fun f => [line t.columns (f.map upper), rule t.columns]) := by
  have hrows : t.rows.flatMap (fun r => row id t.columns (r.map Cell.text)) =
      t.rows.map fun r => line t.columns (r.map Cell.text) := by
    rw [List.map_eq_flatMap]
    refine List.flatMap_congr fun r hr => ?_
    have hne : r.map Cell.text ≠ [] :=
      fun hnil => h.ne_nil_of_length (h.rows r hr).1 (List.map_eq_nil_iff.1 hnil)
    rw [row_eq_line id t.columns hne (List.forall_mem_map.2 (h.rows r hr).2), List.map_id]
  have hfooter : t.footer.toList.flatMap (fun f => row upperCase t.columns f ++ [rule t.columns]) =
      t.footer.toList.flatMap fun f => [line t.columns (f.map upper), rule t.columns] := by
    refine List.flatMap_congr fun f hf => ?_
    have hshown := h.footer f (Option.mem_toList.1 hf)
    rw [row_eq_line upperCase t.columns (h.ne_nil_of_length hshown.1) hshown.2,
      map_upperCase hshown.2]
    rfl
  rw [lines, h.title, row_eq_line upperCase t.columns h.header_ne_nil h.header,
    map_upperCase h.header, hrows, hfooter]
  simp only [Option.toList_none, List.flatMap_nil, List.nil_append, List.cons_append,
    List.append_assoc]

theorem splitOn_render (h : t.Plain) : t.render.splitOn 10 = t.lines := by
  refine List.splitOn_intercalate 10 (fun l hl => ?_) ?_
  · have hrule := lineFeed_not_mem_rule t.columns
    have hline : ∀ texts : List Text, (∀ x ∈ texts, Shown x) →
        10 ∉ line t.columns (texts.map upper) := fun texts htexts =>
      lineFeed_not_mem_line (List.forall_mem_map.2 fun x hx => (htexts x hx).upper) t.columns
    rw [h.lines_eq] at hl
    simp only [List.mem_cons, List.mem_append, List.mem_map, List.mem_flatMap, Option.mem_toList,
      List.not_mem_nil, or_false] at hl
    rcases hl with rfl | rfl | rfl | ⟨r, hr, rfl⟩ | rfl | ⟨f, hf, rfl | rfl⟩
    · exact hrule
    · exact hline t.header h.header
    · exact hrule
    · exact lineFeed_not_mem_line (List.forall_mem_map.2 (h.rows r hr).2) t.columns
    · exact hrule
    · exact hline f (h.footer f hf).2
    · exact hrule
  · rw [h.lines_eq]
    exact List.cons_ne_nil _ _

theorem linesBelowHeader_render (h : t.Plain) : linesBelowHeader t.render =
    t.rows.map (fun r => line t.columns (r.map Cell.text)) ++ rule t.columns ::
      t.footer.toList.flatMap fun f => [line t.columns (f.map upper), rule t.columns] := by
  rw [linesBelowHeader, h.splitOn_render, h.lines_eq]
  rfl

/-- The words of the rows of a plain table can be read from its text. -/
theorem readRows_render (h : t.Plain) :
    readRows t.render = t.rows.map fun r => r.map fun c => words c.text := by
  rw [readRows, h.linesBelowHeader_render,
    List.takeWhile_append_of_pos (List.forall_mem_map.2 fun r _ => isRow_line _ _),
    List.takeWhile_cons_of_neg (by rw [isRow_rule]; exact Bool.false_ne_true), List.append_nil,
    List.map_map]
  refine List.map_congr_left fun r hr => ?_
  have hshown := h.rows r hr
  refine (readLine_line ?_ (List.forall_mem_map.2 hshown.2)).trans ?_
  · rw [List.length_map, length_columns, hshown.1]
  · rw [List.map_map]
    rfl

/-- The words of the footer of a plain table can be read from its text, in upper case. -/
theorem readFooter_render (h : t.Plain) :
    readFooter t.render = t.footer.toList.map fun f => f.map fun x => words (upper x) := by
  rw [readFooter, h.linesBelowHeader_render,
    List.dropWhile_append_of_pos (List.forall_mem_map.2 fun r _ => isRow_line _ _),
    List.dropWhile_cons_of_neg (by rw [isRow_rule]; exact Bool.false_ne_true), List.drop_one,
    List.tail_cons]
  cases hf : t.footer with
  | none => rfl
  | some f =>
      have hshown := h.footer f hf
      rw [Option.toList_some, List.flatMap_singleton, List.takeWhile_cons_of_pos (isRow_line _ _),
        List.takeWhile_cons_of_neg (by rw [isRow_rule]; exact Bool.false_ne_true),
        List.map_singleton, List.map_singleton,
        readLine_line (by rw [List.length_map, length_columns, hshown.1])
          (List.forall_mem_map.2 fun x hx => (hshown.2 x hx).upper), List.map_map]
      rfl

theorem cellWidth_getD_map_upper {f : List Text} (h : ∀ x ∈ f, Shown x) (n : Nat) :
    cellWidth ((f.map upper).getD n []) = cellWidth (f.getD n []) := by
  rw [List.getD_eq_getElem?_getD, List.getD_eq_getElem?_getD, List.getElem?_map]
  cases hx : f[n]? with
  | none => rfl
  | some x =>
      have hshown := h x (List.mem_of_getElem? hx)
      rw [Option.map_some, Option.getD_some, Option.getD_some, cellWidth_of_shown hshown,
        cellWidth_of_shown hshown.upper, length_upper]

theorem columns_congr {u : Table} (h : t.Plain) (hu : u.Plain) (hheader : t.header = u.header)
    (hrows : t.rows = u.rows) (hfooter : t.footer.map (·.map upper) = u.footer.map (·.map upper)) :
    t.columns = u.columns := by
  have hwidths : ∀ n, t.footer.toList.map (fun f => cellWidth (f.getD n [])) =
      u.footer.toList.map fun f => cellWidth (f.getD n []) := by
    intro n
    have hshown : ∀ {v : Table}, v.Plain → v.footer.toList.map (fun f => cellWidth (f.getD n [])) =
        (v.footer.map (·.map upper)).toList.map fun f => cellWidth (f.getD n []) := by
      intro v hv
      cases hf : v.footer with
      | none => rfl
      | some f =>
          exact congrArg (fun width => [width])
            (cellWidth_getD_map_upper (hv.footer f hf).2 n).symm
    rw [hshown h, hshown hu, hfooter]
  rw [columns, columns, hheader]
  refine List.map_congr_left fun n _ => ?_
  simp only [column, hheader, hrows, List.map_cons, List.map_append, List.map_map, Function.comp_def,
    hwidths]

/-- Plain tables that differ only in the case of their footers have the same text. -/
theorem render_congr {u : Table} (h : t.Plain) (hu : u.Plain) (hheader : t.header = u.header)
    (hrows : t.rows = u.rows) (hfooter : t.footer.map (·.map upper) = u.footer.map (·.map upper)) :
    t.render = u.render := by
  have hlines : ∀ (v : Table) (cs : List Column),
      v.footer.toList.flatMap (fun f => [line cs (f.map upper), rule cs]) =
        (v.footer.map (·.map upper)).toList.flatMap fun f => [line cs f, rule cs] := by
    intro v cs
    cases v.footer <;> rfl
  rw [render, render, h.lines_eq, hu.lines_eq, columns_congr h hu hheader hrows hfooter, hheader,
    hrows, hlines t, hlines u, hfooter]

end Plain

/-- What is used of a writer of tables. The words of a plain table can be read from the text in rows
between bars, those of the footer in upper case, and the text depends on nothing else but the header and
the way that cells are aligned. -/
structure Legible (write : Table → Text) : Prop where
  rows : ∀ {t : Table}, t.Plain →
    readRows (write t) = t.rows.map fun r => r.map fun c => words c.text
  footer : ∀ {t : Table}, t.Plain →
    readFooter (write t) = t.footer.toList.map fun f => f.map fun x => words (upper x)
  congr : ∀ {t u : Table}, t.Plain → u.Plain → t.header = u.header → t.rows = u.rows →
    t.footer.map (·.map upper) = u.footer.map (·.map upper) → write t = write u

theorem legible_render : Legible render where
  rows h := h.readRows_render
  footer h := h.readFooter_render
  congr h := h.render_congr

end TapeMachine.Table
