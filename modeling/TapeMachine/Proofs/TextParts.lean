import Mathlib.Data.List.Infix
import Mathlib.Data.List.TakeWhile
import TapeMachine.Proofs.PlainText

/-! Parts of a text. A text is cut at the first occurrence of a byte in one way only, and a part that
does not hold the byte stands on one side of the cut. Lines, stripped lines and words are parts of the
source they are cut from, and every graphic character of a line belongs to one of its words. -/

namespace TapeMachine.Text

theorem cut?_eq_some {stop : UInt8} {t left right : Text} :
    cut? stop t = some (left, right) ↔ t = left ++ stop :: right ∧ stop ∉ left := by
  constructor
  · intro h
    unfold cut? at h
    split at h
    · cases h
    next b rest hdrop =>
      cases h
      have hb : b = stop := by
        have hhead := List.head?_dropWhile_not (· ≠ stop) t
        rw [hdrop] at hhead
        simpa using hhead
      have hsplit := List.takeWhile_append_dropWhile (p := (· ≠ stop)) (l := t)
      rw [hdrop, hb] at hsplit
      refine ⟨hsplit.symm, fun hmem => ?_⟩
      simpa using List.mem_takeWhile_imp hmem
  · rintro ⟨rfl, hleft⟩
    have hne : ∀ b ∈ left, (decide (b ≠ stop)) = true := by
      intro b hb
      rw [decide_eq_true_eq]
      rintro rfl
      exact hleft hb
    have hdrop : (left ++ stop :: right).dropWhile (· ≠ stop) = stop :: right := by
      rw [List.dropWhile_append_of_pos hne]
      simp
    have htake : (left ++ stop :: right).takeWhile (· ≠ stop) = left := by
      rw [List.takeWhile_append_of_pos hne]
      simp
    simp only [cut?, before, hdrop, htake]

/-- There is one way to cut a text at the first occurrence of a byte. -/
theorem append_cons_inj {stop : UInt8} {left left' right right' : Text} (hleft : stop ∉ left)
    (hleft' : stop ∉ left') (h : left ++ stop :: right = left' ++ stop :: right') :
    left = left' ∧ right = right' := by
  have hcut : cut? stop (left ++ stop :: right) = some (left, right) :=
    cut?_eq_some.2 ⟨rfl, hleft⟩
  rw [h, cut?_eq_some.2 ⟨rfl, hleft'⟩] at hcut
  cases hcut
  exact ⟨rfl, rfl⟩

/-- A text without a byte, in a text cut at that byte, stands on one side of it. -/
theorem infix_of_infix_append_cons {b : UInt8} {t left right : Text} (hb : b ∉ t)
    (h : t <:+: left ++ b :: right) : t <:+: left ∨ t <:+: right := by
  obtain ⟨front, back, hsplit⟩ := h
  rw [List.append_assoc, List.append_eq_append_iff] at hsplit
  obtain ⟨mid, rfl, hmid⟩ | ⟨mid, rfl, hmid⟩ := hsplit
  · -- the text starts before the cut, and cannot go past it
    obtain ⟨more, rfl, -⟩ | ⟨past, rfl, hpast⟩ := List.append_eq_append_iff.1 hmid
    · exact .inl ⟨front, more, by rw [List.append_assoc]⟩
    · cases past with
      | nil => exact .inl ⟨front, [], by simp⟩
      | cons c past =>
          cases hpast
          exact absurd (by simp) hb
  · cases mid with
    | nil =>
        cases t with
        | nil => exact .inl (List.nil_infix)
        | cons c t =>
            cases hmid
            exact absurd List.mem_cons_self hb
    | cons c mid =>
        cases hmid
        exact .inr ⟨mid, back, List.append_assoc ..⟩

theorem infix_trim (t : Text) : trim t <:+: t := by
  have hfront : (pieces t).dropWhile Piece.isBlank <:+: pieces t :=
    (List.dropWhile_suffix _).isInfix
  have hback : (((pieces t).dropWhile Piece.isBlank).reverse.dropWhile Piece.isBlank).reverse <:+:
      (pieces t).dropWhile Piece.isBlank := by
    refine List.IsPrefix.isInfix (List.reverse_suffix.1 ?_)
    rw [List.reverse_reverse]
    exact List.dropWhile_suffix _
  have hparts := (hback.trans hfront).flatMap Piece.bytes
  rwa [flatMap_bytes_pieces] at hparts

/-- The open word in front of some pieces starts their text, and the words behind are parts of it. -/
theorem infix_foldr_addPiece (ps : List Piece) :
    (ps.foldr addPiece ([], [])).1 <+: ps.flatMap Piece.bytes ∧
      ∀ w ∈ (ps.foldr addPiece ([], [])).2, w <:+: ps.flatMap Piece.bytes := by
  induction ps with
  | nil => exact ⟨List.prefix_refl [], fun _ hw => nomatch hw⟩
  | cons p ps ih =>
      rw [List.foldr_cons, List.flatMap_cons]
      obtain ⟨hfront, hwords⟩ := ih
      cases p with
      | plain b =>
          refine ⟨(List.prefix_append_right_inj [b]).2 hfront, fun w hw => ?_⟩
          exact (hwords w hw).trans (List.suffix_append [b] _).isInfix
      | blank bs =>
          refine ⟨List.nil_prefix, fun w hw => ?_⟩
          have hmem : w = (ps.foldr addPiece ([], [])).1 ∨ w ∈ (ps.foldr addPiece ([], [])).2 := by
            simp only [addPiece, closeWord] at hw
            split_ifs at hw
            · exact .inr hw
            · exact List.mem_cons.1 hw
          have hpart : w <:+: ps.flatMap Piece.bytes := by
            rcases hmem with rfl | hmem
            · exact hfront.isInfix
            · exact hwords w hmem
          exact hpart.trans (List.suffix_append _ _).isInfix

theorem infix_of_mem_words {w t : Text} (h : w ∈ words t) : w <:+: t := by
  obtain ⟨hfront, hwords⟩ := infix_foldr_addPiece (pieces t)
  rw [flatMap_bytes_pieces] at hfront hwords
  rw [words_eq_closeWord, closeWord] at h
  split_ifs at h
  · exact hwords w h
  · rcases List.mem_cons.1 h with rfl | h
    · exact hfront.isInfix
    · exact hwords w h

theorem ne_nil_of_mem_closeWord {w front : Text} {ws : List Text} (h : w ∈ closeWord front ws)
    (hws : [] ∉ ws) : w ≠ [] := by
  rintro rfl
  rw [closeWord] at h
  split_ifs at h with hfront
  · exact hws h
  · rcases List.mem_cons.1 h with rfl | h
    · exact hfront rfl
    · exact hws h

theorem ne_nil_of_mem_words {w t : Text} (h : w ∈ words t) : w ≠ [] := by
  have hwords : [] ∉ ((pieces t).foldr addPiece ([], [])).2 := by
    induction pieces t with
    | nil => exact List.not_mem_nil
    | cons p ps ih =>
        cases p with
        | plain b => exact ih
        | blank bs => exact fun hmem => ne_nil_of_mem_closeWord hmem ih rfl
  exact ne_nil_of_mem_closeWord h hwords

theorem Piece.mem_of_mem_cons_plain {b c : UInt8} {ps : List Piece} (hb : isGraphic b = true)
    (hc : isGraphic c = false) (h : .plain b ∈ Piece.plain c :: ps) : .plain b ∈ ps := by
  rcases List.mem_cons.1 h with heq | h
  · injection heq with heq
    exact absurd heq (ne_of_isGraphic hb hc)
  · exact h

/-- Only bytes beyond ASCII join the piece in front of them. -/
theorem Piece.plain_mem_cons {b : UInt8} (hb : isGraphic b = true) (c : UInt8) {ps : List Piece}
    (h : .plain b ∈ ps) : .plain b ∈ Piece.cons c ps := by
  unfold Piece.cons
  split_ifs
  · exact List.mem_cons_of_mem _ h
  · split
    · split_ifs with hsecond
      · simp only [Bool.or_eq_true, decide_eq_true_eq] at hsecond
        refine List.mem_cons_of_mem _ (mem_of_mem_cons_plain hb ?_ h)
        rcases hsecond with rfl | rfl <;> decide
      · exact List.mem_cons_of_mem _ h
    · have hrest := mem_of_mem_cons_plain hb (by decide) (mem_of_mem_cons_plain hb (by decide) h)
      exact List.mem_cons_of_mem _ hrest
    · split_ifs with hthird
      · have hrest := mem_of_mem_cons_plain hb (by decide) h
        refine List.mem_cons_of_mem _ (mem_of_mem_cons_plain hb ?_ hrest)
        have hall : ∀ d : UInt8, ((0x80 ≤ d && d ≤ 0x8A) || d = 0xA8 || d = 0xA9 || d = 0xAF) = true →
            isGraphic d = false := forall_byte (by decide +kernel)
        exact hall _ hthird
      · exact List.mem_cons_of_mem _ h
    · have hrest := mem_of_mem_cons_plain hb (by decide) (mem_of_mem_cons_plain hb (by decide) h)
      exact List.mem_cons_of_mem _ hrest
    · have hrest := mem_of_mem_cons_plain hb (by decide) (mem_of_mem_cons_plain hb (by decide) h)
      exact List.mem_cons_of_mem _ hrest
    · exact List.mem_cons_of_mem _ h

/-- A graphic character stands in a piece of its own. -/
theorem plain_mem_pieces {b : UInt8} (hb : isGraphic b = true) {t : Text} (h : b ∈ t) :
    .plain b ∈ pieces t := by
  induction t with
  | nil => cases h
  | cons c t ih =>
      rw [pieces_cons]
      rcases List.mem_cons.1 h with rfl | h
      · rw [Piece.cons_of_isGraphic hb]
        exact List.mem_cons_self
      · exact Piece.plain_mem_cons hb c (ih h)

theorem exists_mem_closeWord {b : UInt8} {front : Text} {ws : List Text}
    (h : b ∈ front ∨ ∃ w ∈ ws, b ∈ w) : ∃ w ∈ closeWord front ws, b ∈ w := by
  rw [closeWord]
  split_ifs with hempty
  · rw [List.isEmpty_iff] at hempty
    rw [hempty] at h
    simpa using h
  · simpa using h

/-- Every graphic character of a line belongs to one of its words. -/
theorem exists_word_of_mem {b : UInt8} (hb : isGraphic b = true) {t : Text} (h : b ∈ t) :
    ∃ w ∈ words t, b ∈ w := by
  have hfold : ∀ ps : List Piece, .plain b ∈ ps →
      b ∈ (ps.foldr addPiece ([], [])).1 ∨ ∃ w ∈ (ps.foldr addPiece ([], [])).2, b ∈ w := by
    intro ps hmem
    induction ps with
    | nil => cases hmem
    | cons p ps ih =>
        rw [List.foldr_cons]
        cases p with
        | plain c =>
            rcases List.mem_cons.1 hmem with heq | hmem
            · injection heq with heq
              exact .inl (heq ▸ List.mem_cons_self)
            · rcases ih hmem with hfront | hwords
              · exact .inl (List.mem_cons_of_mem _ hfront)
              · exact .inr hwords
        | blank bs =>
            have hps : .plain b ∈ ps := by simpa using hmem
            exact .inr (exists_mem_closeWord (ih hps))
  rw [words_eq_closeWord]
  exact exists_mem_closeWord (hfold _ (plain_mem_pieces hb h))

end TapeMachine.Text

namespace TapeMachine.Assembler.Source

open Text

theorem prefix_before (stop : UInt8) (t : Text) : before stop t <+: t := List.takeWhile_prefix _

theorem infix_strip (line : Text) : strip line <:+: line :=
  (infix_trim _).trans (prefix_before _ line).isInfix

theorem infix_openLines (t : Text) :
    (openLines t).1 <+: t ∧ ∀ l ∈ (openLines t).2, l <:+: t := by
  induction t with
  | nil => exact ⟨List.prefix_refl [], fun _ hl => nomatch hl⟩
  | cons b t ih =>
      obtain ⟨hfront, hlines⟩ := ih
      have hopen : openLines (b :: t) = addByte b (openLines t) := rfl
      rw [hopen, addByte]
      split_ifs
      · refine ⟨List.nil_prefix, fun l hl => ?_⟩
        rcases List.mem_cons.1 hl with rfl | hl
        · exact List.infix_cons hfront.isInfix
        · exact List.infix_cons (hlines l hl)
      · exact ⟨List.cons_prefix_cons.2 ⟨rfl, hfront⟩, fun l hl => List.infix_cons (hlines l hl)⟩

theorem infix_of_mem_rawLines {l t : Text} (h : l ∈ rawLines t) : l <:+: t := by
  obtain ⟨hfront, hlines⟩ := infix_openLines t
  have hmem : l ∈ (openLines t).1 :: (openLines t).2 := by
    rw [rawLines] at h
    split_ifs at h
    · exact List.mem_of_mem_dropLast h
    · exact h
  rcases List.mem_cons.1 hmem with rfl | hmem
  · exact hfront.isInfix
  · exact hlines l hmem

/-- A part of some lines that does not reach over a line end is part of one of them. -/
theorem exists_infix_of_infix_unlines {ls : List Text} {t : Text} (hne : t ≠ []) (hfeed : 10 ∉ t)
    (h : t <:+: unlines ls) : ∃ l ∈ ls, t <:+: l := by
  induction ls with
  | nil => exact absurd (List.eq_nil_of_infix_nil h) hne
  | cons l ls ih =>
      rw [unlines, List.flatMap_cons, List.append_assoc, List.singleton_append] at h
      rcases infix_of_infix_append_cons hfeed h with hfirst | hrest
      · exact ⟨l, List.mem_cons_self, hfirst⟩
      · obtain ⟨l', hmem, hpart⟩ := ih hrest
        exact ⟨l', List.mem_cons_of_mem l hmem, hpart⟩

theorem infix_of_mem_lines {l t : Text} (h : l ∈ (lines t).texts) : l <:+: t := by
  obtain ⟨raw, hraw, rfl⟩ := List.mem_map.1 h
  have hreturn : dropReturn raw <+: raw := by
    rw [dropReturn]
    split_ifs
    · exact List.dropLast_prefix raw
    · exact List.prefix_refl raw
  exact hreturn.isInfix.trans (infix_of_mem_rawLines (List.takeWhile_subset _ hraw))

end TapeMachine.Assembler.Source
