import TapeMachine.Proofs.PlainText

/-! Texts put together at an ASCII character. No blank of several bytes holds such a character, so the
blanks of the whole are the blanks of its parts. From this follow the words of a text with a space in
it, what is left of a text when it is trimmed, and its first word. -/

namespace TapeMachine.Text

/-- A byte that is no blank starts none if no byte beyond ASCII follows it. -/
theorem Piece.cons_eq_plain {c : UInt8} {ps : List Piece}
    (hc : ¬((c = byte ' ' || (9 ≤ c && c ≤ 13)) = true))
    (h : ∀ d, ps.head? = some (.plain d) → d < 0x80) : Piece.cons c ps = .plain c :: ps := by
  unfold Piece.cons
  rw [if_neg hc]
  split
  · rename_i d r
    have hd := h d rfl
    rw [if_neg]
    rw [Bool.or_eq_true, decide_eq_true_iff, decide_eq_true_iff]
    rintro (rfl | rfl)
    · exact absurd hd (by decide)
    · exact absurd hd (by decide)
  · exact absurd (h _ rfl) (by decide)
  · exact absurd (h _ rfl) (by decide)
  · exact absurd (h _ rfl) (by decide)
  · exact absurd (h _ rfl) (by decide)
  · rfl

/-- A byte in front of some pieces does not reach behind an ASCII character. -/
theorem Piece.cons_append (c : UInt8) (ps : List Piece) {qs : List Piece}
    (h : ∀ d, qs.head? = some (.plain d) → d < 0x80) :
    Piece.cons c (ps ++ qs) = Piece.cons c ps ++ qs := by
  by_cases hc : (c = byte ' ' || (9 ≤ c && c ≤ 13)) = true
  · unfold Piece.cons
    rw [if_pos hc, if_pos hc, List.cons_append]
  · -- A blank takes two more pieces at most.
    cases ps with
    | nil =>
        rw [List.nil_append, Piece.cons_eq_plain hc h,
          Piece.cons_eq_plain hc fun d hd => by cases hd]
        rfl
    | cons p ps =>
        unfold Piece.cons
        rw [if_neg hc, if_neg hc]
        cases ps with
        | cons q ps => grind
        | nil =>
            cases qs with
            | nil => grind
            | cons q qs =>
                cases q with
                | blank bs => grind
                | plain d =>
                    have hd := h d rfl
                    grind

theorem Piece.head?_cons_of_ascii {b : UInt8} (hb : b < 0x80) (ps : List Piece) {d : UInt8}
    (h : (Piece.cons b ps).head? = some (.plain d)) : d < 0x80 := by
  unfold Piece.cons at h
  split_ifs at h with hblank
  · cases h
  · split at h
    · exact absurd hb (by decide)
    · exact absurd hb (by decide)
    · exact absurd hb (by decide)
    · exact absurd hb (by decide)
    · exact absurd hb (by decide)
    · cases h
      exact hb

theorem pieces_append_of_ascii (t : Text) {b : UInt8} (hb : b < 0x80) (u : Text) :
    pieces (t ++ b :: u) = pieces t ++ pieces (b :: u) := by
  induction t with
  | nil => rfl
  | cons c t ih =>
      rw [List.cons_append, pieces_cons, ih, pieces_cons]
      exact Piece.cons_append c (pieces t) fun d => Piece.head?_cons_of_ascii hb (pieces u)

theorem foldr_addPiece_closed (ps : List Piece) (ws : List Text) :
    ps.foldr addPiece ([], ws) =
      ((ps.foldr addPiece ([], [])).1, (ps.foldr addPiece ([], [])).2 ++ ws) := by
  induction ps with
  | nil => rfl
  | cons p ps ih =>
      rw [List.foldr_cons, List.foldr_cons, ih]
      cases p with
      | plain b => rfl
      | blank bs =>
          simp only [addPiece, closeWord]
          split_ifs <;> rfl

/-- A space parts the words before it from those behind it. -/
theorem words_append_space (t u : Text) : words (t ++ byte ' ' :: u) = words t ++ words u := by
  have hopen : openWords (t ++ byte ' ' :: u) =
      ((openWords t).1, (openWords t).2 ++ words u) := by
    rw [openWords, pieces_append_of_ascii t (by decide), List.foldr_append]
    exact foldr_addPiece_closed (pieces t) (words u)
  rw [words_eq_closeWord, hopen, words_eq_closeWord t, closeWord, closeWord]
  split_ifs <;> rfl

theorem words_space_cons (t : Text) : words (byte ' ' :: t) = words t :=
  words_append_space [] t

theorem words_replicate_append (n : Nat) (t : Text) :
    words (List.replicate n (byte ' ') ++ t) = words t := by
  induction n with
  | zero => rfl
  | succ n ih => rw [List.replicate_succ, List.cons_append, words_space_cons, ih]

theorem words_append_replicate (t : Text) (n : Nat) :
    words (t ++ List.replicate n (byte ' ')) = words t := by
  cases n with
  | zero => rw [List.replicate_zero, List.append_nil]
  | succ n =>
      have hblank := words_replicate_append n []
      rw [List.append_nil] at hblank
      rw [List.replicate_succ, words_append_space, hblank]
      exact List.append_nil (words t)

theorem Piece.cons_of_ascii {b : UInt8} (hb : b < 0x80) (ps : List Piece) :
    Piece.cons b ps = Piece.cons b [] ++ ps := by
  have hplain : ¬((b = byte ' ' || (9 ≤ b && b ≤ 13)) = true) →
      ∀ qs, Piece.cons b qs = .plain b :: qs := by
    intro hblank qs
    unfold Piece.cons
    rw [if_neg hblank]
    split
    · exact absurd hb (by decide)
    · exact absurd hb (by decide)
    · exact absurd hb (by decide)
    · exact absurd hb (by decide)
    · exact absurd hb (by decide)
    · rfl
  by_cases hblank : (b = byte ' ' || (9 ≤ b && b ≤ 13)) = true
  · unfold Piece.cons
    rw [if_pos hblank, if_pos hblank, List.singleton_append]
  · rw [hplain hblank, hplain hblank, List.singleton_append]

theorem pieces_append_right {x : Text} (hx : ∀ b ∈ x, b < 0x80) (u : Text) :
    pieces (x ++ u) = pieces x ++ pieces u := by
  induction x with
  | nil => rfl
  | cons b x ih =>
      rw [List.forall_mem_cons] at hx
      rw [List.cons_append, pieces_cons, pieces_cons, ih hx.2, Piece.cons_of_ascii hx.1,
        Piece.cons_of_ascii hx.1 (pieces x), List.append_assoc]

/-- A text of ASCII characters, the first and the last of which are graphic. -/
structure Solid (x : Text) : Prop where
  ascii : ∀ b ∈ x, b < 0x80
  first : ∃ b rest, x = b :: rest ∧ isGraphic b = true
  last : ∃ front b, x = front ++ [b] ∧ isGraphic b = true

/-- A text without the blanks at its start. -/
def trimFront (t : Text) : Text := ((pieces t).dropWhile Piece.isBlank).flatMap Piece.bytes

/-- A text without the blanks at its end. -/
def trimBack (t : Text) : Text :=
  ((pieces t).reverse.dropWhile Piece.isBlank).reverse.flatMap Piece.bytes

private theorem dropWhile_append_cons {ps qs : List Piece} {q : Piece} (hq : q.isBlank = false) :
    (ps ++ q :: qs).dropWhile Piece.isBlank = ps.dropWhile Piece.isBlank ++ q :: qs := by
  rw [List.dropWhile_append]
  split_ifs with hempty
  · rw [List.isEmpty_iff.1 hempty, List.dropWhile_cons_of_neg (by rw [hq]; exact Bool.false_ne_true),
      List.nil_append]
  · rfl

namespace Solid

variable {x : Text}

theorem pieces_append (h : Solid x) (t u : Text) :
    pieces (t ++ (x ++ u)) = pieces t ++ (pieces x ++ pieces u) := by
  obtain ⟨b, rest, hx, -⟩ := h.first
  rw [← pieces_append_right h.ascii, hx, List.cons_append]
  exact pieces_append_of_ascii t (h.ascii b (hx ▸ List.mem_cons_self)) _

theorem pieces_first (h : Solid x) : ∃ b ps, pieces x = .plain b :: ps := by
  obtain ⟨b, rest, rfl, hb⟩ := h.first
  exact ⟨b, pieces rest, Piece.cons_of_isGraphic hb (pieces rest)⟩

theorem pieces_last (h : Solid x) : ∃ ps b, pieces x = ps ++ [.plain b] := by
  obtain ⟨front, b, rfl, hb⟩ := h.last
  refine ⟨pieces front, b, ?_⟩
  rw [pieces_append_right fun c hc => h.ascii c (List.mem_append_left _ hc)]
  exact congrArg _ (Piece.cons_of_isGraphic hb [])

/-- Trimming a text with a solid part takes blanks only from what stands before and behind it. -/
theorem trim_append (h : Solid x) (t u : Text) :
    trim (t ++ (x ++ u)) = trimFront t ++ (x ++ trimBack u) := by
  have hfront : ∀ qs, (pieces t ++ (pieces x ++ qs)).dropWhile Piece.isBlank =
      (pieces t).dropWhile Piece.isBlank ++ (pieces x ++ qs) := by
    intro qs
    obtain ⟨b, ps, hx⟩ := h.pieces_first
    rw [hx, List.cons_append, dropWhile_append_cons rfl]
  have hback : ∀ qs, ((pieces u).reverse ++ ((pieces x).reverse ++ qs)).dropWhile Piece.isBlank =
      (pieces u).reverse.dropWhile Piece.isBlank ++ ((pieces x).reverse ++ qs) := by
    intro qs
    obtain ⟨ps, b, hx⟩ := h.pieces_last
    rw [hx, List.reverse_append, List.reverse_singleton, List.singleton_append, List.cons_append,
      dropWhile_append_cons rfl]
  rw [trim, h.pieces_append, hfront, List.reverse_append, List.reverse_append, List.append_assoc,
    hback, List.reverse_append, List.reverse_append, List.reverse_reverse, List.reverse_reverse,
    List.append_assoc, List.flatMap_append, List.flatMap_append, flatMap_bytes_pieces]
  rfl

end Solid

/-- The bytes of blanks are not graphic. -/
theorem Piece.not_isGraphic_of_blank_mem_cons {b : UInt8} {ps : List Piece}
    (h : ∀ bs, .blank bs ∈ ps → ∀ c ∈ bs, isGraphic c = false) :
    ∀ bs, .blank bs ∈ Piece.cons b ps → ∀ c ∈ bs, isGraphic c = false := by
  have hascii : ∀ b : UInt8, (b = byte ' ' || (9 ≤ b && b ≤ 13)) = true → isGraphic b = false :=
    forall_byte (by decide +kernel)
  have htwo : ∀ c : UInt8, (c = 0x85 || c = 0xA0) = true → isGraphic c = false :=
    forall_byte (by decide +kernel)
  have hthree : ∀ c : UInt8,
      ((0x80 ≤ c && c ≤ 0x8A) || c = 0xA8 || c = 0xA9 || c = 0xAF) = true → isGraphic c = false :=
    forall_byte (by decide +kernel)
  have hplain : ∀ bs, .blank bs ∈ Piece.plain b :: ps → ∀ c ∈ bs, isGraphic c = false :=
    fun bs hbs => h bs (by simpa using hbs)
  have hcons : ∀ {new : Text} {qs : List Piece}, new.any isGraphic = false → qs ⊆ ps →
      ∀ bs, .blank bs ∈ Piece.blank new :: qs → ∀ c ∈ bs, isGraphic c = false := by
    intro new qs hnew hqs bs hbs
    rcases List.mem_cons.1 hbs with heq | hmem
    · cases heq
      exact fun c hc => Bool.eq_false_iff.2 (List.any_eq_false.1 hnew c hc)
    · exact h bs (hqs hmem)
  unfold Piece.cons
  split_ifs with hblank
  · exact hcons (by rw [List.any_cons, hascii b hblank]; rfl) (List.Subset.refl ps)
  · split
    · split_ifs with hc
      · exact hcons (by rw [List.any_cons, List.any_cons, htwo _ hc]; rfl) (List.subset_cons_self _ _)
      · exact hplain
    · exact hcons (by decide) fun q hq => by simp [hq]
    · split_ifs with hc
      · exact hcons (by rw [List.any_cons, List.any_cons, List.any_cons, hthree _ hc]; rfl)
          fun q hq => by simp [hq]
      · exact hplain
    · exact hcons (by decide) fun q hq => by simp [hq]
    · exact hcons (by decide) fun q hq => by simp [hq]
    · exact hplain

theorem exists_append_trimFront (t : Text) :
    ∃ bs, t = bs ++ trimFront t ∧ ∀ b ∈ bs, isGraphic b = false := by
  have hblank : ∀ bs, .blank bs ∈ pieces t → ∀ b ∈ bs, isGraphic b = false := by
    induction t with
    | nil => exact fun _ hbs => by cases hbs
    | cons b t ih => exact Piece.not_isGraphic_of_blank_mem_cons ih
  refine ⟨((pieces t).takeWhile Piece.isBlank).flatMap Piece.bytes, ?_, fun b hb => ?_⟩
  · rw [trimFront, ← List.flatMap_append, List.takeWhile_append_dropWhile, flatMap_bytes_pieces]
  · obtain ⟨p, hp, hmem⟩ := List.mem_flatMap.1 hb
    have hp' := List.mem_takeWhile_imp hp
    cases p with
    | plain c => cases hp'
    | blank bs => exact hblank bs ((List.takeWhile_prefix _).subset hp) b hmem

/-- Two first words, the same or with different ends. -/
def FirstWords (v w : Text) (first second : Option Text) : Prop :=
  first = second ∨ ∃ front, first = some (front ++ v) ∧ second = some (front ++ w)

/-- Two open words with the words behind them: both are still open, or the first words have
different ends at most. -/
def OpenAlike (v w : Text) (l r : Text × List Text) : Prop :=
  (∃ front, l.1 = front ++ v ∧ r.1 = front ++ w) ∨ (l.1 = r.1 ∧ FirstWords v w l.2.head? r.2.head?)

section

variable {v w : Text} {l r : Text × List Text}

theorem OpenAlike.close (hv : v ≠ []) (hw : w ≠ []) (h : OpenAlike v w l r) :
    FirstWords v w (closeWord l.1 l.2).head? (closeWord r.1 r.2).head? := by
  rw [closeWord, closeWord]
  rcases h with ⟨front, hl, hr⟩ | ⟨hsame, hfirst⟩
  · rw [hl, hr, if_neg (by simp [hv]), if_neg (by simp [hw])]
    exact .inr ⟨front, rfl, rfl⟩
  · rw [hsame]
    split_ifs
    · exact hfirst
    · exact .inl rfl

theorem OpenAlike.addPiece (hv : v ≠ []) (hw : w ≠ []) (h : OpenAlike v w l r) (p : Piece) :
    OpenAlike v w (addPiece p l) (addPiece p r) := by
  cases p with
  | blank bs => exact .inr ⟨rfl, h.close hv hw⟩
  | plain b =>
      rcases h with ⟨front, hl, hr⟩ | ⟨hsame, hfirst⟩
      · exact .inl ⟨b :: front, congrArg _ hl, congrArg _ hr⟩
      · exact .inr ⟨congrArg (b :: ·) hsame, hfirst⟩

end

/-- Behind a text, a graphic character in place of another changes the first word only if it belongs
to it. -/
theorem head?_words_append (t : Text) {b c : UInt8} (hb : isGraphic b = true)
    (hc : isGraphic c = true) (u v : Text) :
    FirstWords (b :: (openWords u).1) (c :: (openWords v).1) (words (t ++ b :: u)).head?
      (words (t ++ c :: v)).head? := by
  have hascii : ∀ b : UInt8, isGraphic b = true → b < 0x80 := forall_byte (by decide +kernel)
  have hopen : OpenAlike (b :: (openWords u).1) (c :: (openWords v).1) (openWords (t ++ b :: u))
      (openWords (t ++ c :: v)) := by
    unfold openWords
    rw [pieces_append_of_ascii t (hascii b hb), pieces_append_of_ascii t (hascii c hc),
      List.foldr_append, List.foldr_append, pieces_cons, pieces_cons, Piece.cons_of_isGraphic hb,
      Piece.cons_of_isGraphic hc]
    induction pieces t with
    | nil => exact .inl ⟨[], rfl, rfl⟩
    | cons p ps ih => exact ih.addPiece (List.cons_ne_nil _ _) (List.cons_ne_nil _ _) p
  rw [words_eq_closeWord, words_eq_closeWord]
  exact hopen.close (List.cons_ne_nil _ _) (List.cons_ne_nil _ _)

end TapeMachine.Text
