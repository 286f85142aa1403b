import TapeMachine.Expression.Token
import TapeMachine.Proofs.Rewriting

/-! Names of expressions. A name is a letter or an underscore, and then letters, underscores and digits,
where a letter may be one of a set of letters beyond ASCII. Which these are is up to the language; all
that matters is that no blank is one of them. So no blank is seen inside of a name, it is the same text
after bytes of no character are replaced, and the interpreter reads it to its end whatever follows
it. -/

namespace TapeMachine.Text

/-- The codes of the blanks beyond ASCII. -/
def blankCodes : List Nat :=
  [0x85, 0xA0, 0x1680, 0x2000, 0x2001, 0x2002, 0x2003, 0x2004, 0x2005, 0x2006, 0x2007, 0x2008, 0x2009,
    0x200A, 0x2028, 0x2029, 0x202F, 0x205F, 0x3000]

/-- A set of letters beyond ASCII, such as those of a version of Unicode. -/
structure LetterSet where
  has : Nat → Bool
  noBlank : ∀ code ∈ blankCodes, has code = false
  noReplacement : has replacement = false

/-- The letters that the interpreter knows. -/
def unicodeLetters : LetterSet where
  has := inRanges letterRanges
  noBlank := by
    have hall : (blankCodes.all fun code => !inRanges letterRanges code) = true := by decide +kernel
    exact fun code hcode => by simpa using List.all_eq_true.1 hall code hcode
  noReplacement := by decide +kernel

/-- The code of a letter or an underscore. -/
def startsName (L : LetterSet) (code : Nat) : Bool :=
  (if code < 0x80 then isLetter code.toUInt8 else L.has code) || code = 0x5F

/-- The code of a letter, an underscore or a digit. -/
def continuesName (L : LetterSet) (code : Nat) : Bool :=
  startsName L code || (0x30 ≤ code && code ≤ 0x39)

/-- A name: a letter or an underscore, and then letters, underscores and digits. -/
def isName (L : LetterSet) (t : Text) : Bool :=
  match codes t with
  | [] => false
  | code :: rest => startsName L code && rest.all (continuesName L)

variable {L : LetterSet}

/-- A byte of ASCII that a name may have. -/
def isNameByte (b : UInt8) : Bool := isLetter b || b = byte '_' || isDigit b

/-- A character that a name may have: one of ASCII, or a letter beyond. -/
inductive IsNameChar (L : LetterSet) : Text → Prop where
  | ascii {b : UInt8} (hb : isNameByte b = true) : IsNameChar L [b]
  | letter {ch : Text} (hch : IsCharacter ch) (hlength : 2 ≤ ch.length)
      (hcode : L.has (codeOf ch) = true) : IsNameChar L ch

theorem name_codes_of_ascii {b : UInt8} (hb : b < 0x80) :
    startsName L (codeOf [b]) = (isLetter b || b = byte '_') ∧
      continuesName L (codeOf [b]) = isNameByte b ∧
      (startsName L (codeOf [b]) = true → isDigit b = false) := by
  have hbytes : ∀ c : UInt8, c < 0x80 → codeOf [c] < 0x80 ∧ (codeOf [c]).toUInt8 = c ∧
      decide (codeOf [c] = 0x5F) = decide (c = byte '_') ∧
      (decide (0x30 ≤ codeOf [c]) && decide (codeOf [c] ≤ 0x39)) = isDigit c ∧
      ((isLetter c || c = byte '_') = true → isDigit c = false) :=
    forall_byte (by decide +kernel)
  obtain ⟨hascii, hcode, hmark, hdigit, hapart⟩ := hbytes b hb
  have hstart : startsName L (codeOf [b]) = (isLetter b || b = byte '_') := by
    rw [startsName, if_pos hascii, hcode, hmark]
  refine ⟨hstart, ?_, fun h => hapart (hstart.symm.trans h)⟩
  rw [continuesName, hstart, hdigit, isNameByte]

theorem isNameByte_ascii : ∀ b : UInt8, isNameByte b = true → b < 0x80 ∧ isGraphic b = true :=
  forall_byte (by decide +kernel)

theorem isNameByte_of_not_ascii {b : UInt8} (h : ¬b < 0x80) : isNameByte b = false :=
  eq_false_of_ne_true fun hname => h (isNameByte_ascii b hname).1

theorem not_continuesName_replacement : continuesName L replacement = false := by
  rw [continuesName, startsName, if_neg (by decide), L.noReplacement]
  decide

/-- Characters that may follow the first one of a name. -/
inductive IsNameTail (L : LetterSet) : Text → Prop where
  | nil : IsNameTail L []
  | cons {ch t : Text} (hch : IsNameChar L ch) (ht : IsNameTail L t) : IsNameTail L (ch ++ t)

theorem IsCharacter.isNameChar {ch : Text} (h : IsCharacter ch)
    (hcode : continuesName L (codeOf ch) = true) : IsNameChar L ch := by
  by_cases hlength : 2 ≤ ch.length
  · -- Beyond ASCII there are only letters.
    have hge := h.code_ge hlength
    refine .letter h hlength ?_
    simp only [continuesName, startsName, if_neg (Nat.not_lt.2 hge), Bool.or_eq_true,
      Bool.and_eq_true, decide_eq_true_eq] at hcode
    rcases hcode with (hletter | hmark) | hdigit
    · exact hletter
    · omega
    · omega
  · cases h with
    | @one b ha => exact .ascii ((name_codes_of_ascii ha).2.1 ▸ hcode)
    | two _ _ => exact absurd (Nat.le_refl 2) hlength
    | three _ _ _ => exact absurd (Nat.le_add_left 2 1) hlength
    | four _ _ _ _ => exact absurd (Nat.le_add_left 2 2) hlength

theorem isNameTail_of_codes {t : Text} (h : ∀ code ∈ codes t, continuesName L code = true) :
    IsNameTail L t := by
  induction hn : t.length using Nat.strong_induction_on generalizing t with
  | _ n ih =>
      cases t with
      | nil => exact .nil
      | cons b t =>
          rcases character_cases b t with ⟨ch, rest, hch, heq⟩ | ⟨hb, hwidth⟩
          · rw [heq] at h hn ⊢
            rw [hch.codes_append, List.forall_mem_cons] at h
            have hlength : rest.length < n := by
              have hpos := List.length_pos_iff.2 hch.ne_nil
              rw [List.length_append] at hn
              omega
            exact .cons (hch.isNameChar h.1) (ih _ hlength h.2 rfl)
          · rw [codes_of_lone hb hwidth, List.forall_mem_cons, not_continuesName_replacement] at h
            cases h.1

theorem not_blank_of_not_ascii {a : UInt8} (h : ¬a < 0x80) : (a = byte ' ' || (9 ≤ a && a ≤ 13)) = false := by
  have ha : 128 ≤ a.toNat := UInt8.le_iff_toNat_le.1 (UInt8.not_lt.1 h)
  rw [Bool.or_eq_false_iff, decide_eq_false_iff_not]
  refine ⟨?_, not_in_range (.inr (Nat.lt_of_lt_of_le (by decide) ha))⟩
  rintro rfl
  exact h (by decide)

/-- A byte beyond ASCII that no blank begins with is plain. -/
theorem Piece.cons_of_not_lead {b : UInt8} (hascii : ¬b < 0x80)
    (hlead : b ∉ [0xC2, 0xE1, 0xE2, 0xE3]) (ps : List Piece) :
    Piece.cons b ps = .plain b :: ps := by
  unfold Piece.cons
  rw [not_blank_of_not_ascii hascii, if_neg Bool.false_ne_true]
  split
  all_goals first
    | rfl
    | exact absurd (by decide) hlead

theorem Piece.cons_of_continues {b : UInt8} (h : continues b = true) (ps : List Piece) :
    Piece.cons b ps = .plain b :: ps := by
  refine Piece.cons_of_not_lead (not_ascii_of_range h (by decide)) (fun hmem => ?_) ps
  have hlead : ∀ a ∈ [0xC2, 0xE1, 0xE2, 0xE3], (!continues a) = true :=
    List.all_eq_true.1 (by decide)
  have hb := hlead b hmem
  rw [h] at hb
  cases hb

/-- The bytes after `E2 80` that make a blank. -/
theorem mem_blankCodes_general : ∀ c : UInt8,
    ((0x80 ≤ c && c ≤ 0x8A) || c = 0xA8 || c = 0xA9 || c = 0xAF) = true →
      0x2000 + c.toNat % 64 ∈ blankCodes :=
  forall_byte (by decide +kernel)

section

variable {a b c : UInt8}

theorem Piece.cons_of_two (ha : (0xC2 ≤ a && a ≤ 0xDF) = true) (hcode : codeOf [a, b] ∉ blankCodes)
    (ps : List Piece) : Piece.cons a (.plain b :: ps) = .plain a :: .plain b :: ps := by
  unfold Piece.cons
  rw [not_blank_of_not_ascii (not_ascii_of_range ha (by decide)), if_neg Bool.false_ne_true]
  split
  · rename_i heq
    cases heq
    refine if_neg fun hblank => ?_
    rw [Bool.or_eq_true, decide_eq_true_iff, decide_eq_true_iff] at hblank
    rcases hblank with rfl | rfl
    · exact hcode (by decide)
    · exact hcode (by decide)
  all_goals first
    | rfl
    | exact absurd ha (by decide)

theorem Piece.cons_of_three (ha : (0xE0 ≤ a && a ≤ 0xEF) = true) (hcode : codeOf [a, b, c] ∉ blankCodes)
    (ps : List Piece) :
    Piece.cons a (.plain b :: .plain c :: ps) = .plain a :: .plain b :: .plain c :: ps := by
  unfold Piece.cons
  rw [not_blank_of_not_ascii (not_ascii_of_range ha (by decide)), if_neg Bool.false_ne_true]
  split
  · exact absurd ha (by decide)
  · rename_i heq
    cases heq
    exact absurd (by decide) hcode
  · rename_i heq
    cases heq
    exact if_neg fun hblank => hcode (mem_blankCodes_general c hblank)
  · rename_i heq
    cases heq
    exact absurd (by decide) hcode
  · rename_i heq
    cases heq
    exact absurd (by decide) hcode
  · rfl

theorem Piece.cons_of_four (ha : (0xF0 ≤ a && a ≤ 0xF4) = true) (ps : List Piece) :
    Piece.cons a ps = .plain a :: ps := by
  refine Piece.cons_of_not_lead (not_ascii_of_range ha (by decide)) (fun hmem => ?_) ps
  have hlead : ∀ b ∈ [0xC2, 0xE1, 0xE2, 0xE3], (!(0xF0 ≤ b && b ≤ (0xF4 : UInt8))) = true :=
    List.all_eq_true.1 (by decide)
  have ha' := hlead a hmem
  rw [ha] at ha'
  cases ha'

end

/-- The bytes of a letter are plain, since no letter is a blank. -/
theorem IsCharacter.pieces_append {ch : Text} (h : IsCharacter ch) (hlength : 2 ≤ ch.length)
    (hcode : L.has (codeOf ch) = true) (t : Text) :
    pieces (ch ++ t) = ch.map .plain ++ pieces t := by
  have hblank : codeOf ch ∉ blankCodes :=
    fun hmem => Bool.false_ne_true ((L.noBlank _ hmem).symm.trans hcode)
  cases h with
  | one _ => exact absurd hlength (Nat.not_succ_le_self 1)
  | @two a b ha hb =>
      change Piece.cons a (Piece.cons b (pieces t)) = .plain a :: .plain b :: pieces t
      rw [Piece.cons_of_continues hb, Piece.cons_of_two ha hblank]
  | @three a b c ha hb hc =>
      change Piece.cons a (Piece.cons b (Piece.cons c (pieces t))) =
        .plain a :: .plain b :: .plain c :: pieces t
      rw [Piece.cons_of_continues hc, Piece.cons_of_continues (continues_of_mayFollow hb),
        Piece.cons_of_three ha hblank]
  | @four a b c d ha hb hc hd =>
      change Piece.cons a (Piece.cons b (Piece.cons c (Piece.cons d (pieces t)))) =
        .plain a :: .plain b :: .plain c :: .plain d :: pieces t
      rw [Piece.cons_of_continues hd, Piece.cons_of_continues hc,
        Piece.cons_of_continues (continues_of_mayFollow hb), Piece.cons_of_four ha]

namespace IsNameChar

variable {ch : Text}

theorem isCharacter (h : IsNameChar L ch) : IsCharacter ch := by
  cases h with
  | ascii hb => exact .one (isNameByte_ascii _ hb).1
  | letter hch _ _ => exact hch

theorem bytes (h : IsNameChar L ch) : ∀ b ∈ ch, isNameByte b = true ∨ ¬b < 0x80 := by
  cases h with
  | ascii hb => exact List.forall_mem_singleton.2 (.inl hb)
  | letter hch hlength _ => exact fun b hb => .inr (hch.bytes_ge hlength b hb)

theorem pieces_append (h : IsNameChar L ch) (t : Text) : pieces (ch ++ t) = ch.map .plain ++ pieces t := by
  cases h with
  | ascii hb => exact Piece.cons_of_isGraphic (isNameByte_ascii _ hb).2 _
  | letter hch hlength hcode => exact hch.pieces_append hlength hcode t

end IsNameChar

namespace IsNameTail

variable {x : Text}

theorem bytes (h : IsNameTail L x) : ∀ b ∈ x, isNameByte b = true ∨ ¬b < 0x80 := by
  induction h with
  | nil => exact List.forall_mem_nil _
  | cons hch _ ih => exact List.forall_mem_append.2 ⟨hch.bytes, ih⟩

theorem pieces_append (h : IsNameTail L x) (t : Text) : pieces (x ++ t) = x.map .plain ++ pieces t := by
  induction h with
  | nil => rfl
  | cons hch _ ih => rw [List.append_assoc, hch.pieces_append, ih, List.map_append, List.append_assoc]

theorem repaired_append (h : IsNameTail L x) (t : Text) : repaired (x ++ t) = x ++ repaired t := by
  induction h with
  | nil => rfl
  | cons hch _ ih => rw [List.append_assoc, hch.isCharacter.repaired_append, ih, List.append_assoc]

end IsNameTail

/-- The first character of a name, and those that follow it. -/
theorem isName_cases {x : Text} (h : isName L x = true) :
    ∃ ch t, x = ch ++ t ∧ IsNameChar L ch ∧ startsName L (codeOf ch) = true ∧ IsNameTail L t := by
  rw [isName] at h
  cases x with
  | nil => cases h
  | cons b rest =>
      rcases character_cases b rest with ⟨ch, t, hch, heq⟩ | ⟨hb, hwidth⟩
      · rw [heq, hch.codes_append] at h
        dsimp only at h
        rw [Bool.and_eq_true, List.all_eq_true] at h
        refine ⟨ch, t, heq, hch.isNameChar ?_, h.1, isNameTail_of_codes h.2⟩
        rw [continuesName, h.1, Bool.true_or]
      · have hstart : startsName L replacement = false :=
          (Bool.or_eq_false_iff.1 not_continuesName_replacement).1
        rw [codes_of_lone hb hwidth] at h
        exact absurd ((Bool.and_eq_true _ _ ▸ h).1.symm.trans hstart) Bool.false_ne_true.symm

theorem isNameTail_of_isName {x : Text} (h : isName L x = true) : IsNameTail L x := by
  obtain ⟨ch, t, rfl, hch, -, ht⟩ := isName_cases h
  exact .cons hch ht

theorem not_isDigit_of_isName {b : UInt8} {t : Text} (h : isName L (b :: t) = true) :
    isDigit b = false := by
  obtain ⟨ch, tail, heq, hch, hstart, -⟩ := isName_cases h
  cases hch with
  | ascii hb =>
      rw [List.singleton_append, List.cons.injEq] at heq
      exact heq.1 ▸ (name_codes_of_ascii (isNameByte_ascii _ hb).1).2.2 hstart
  | letter hch hlength _ =>
      have hmem : b ∈ ch := by
        obtain ⟨c, rest, rfl⟩ := List.exists_cons_of_ne_nil hch.ne_nil
        rw [List.cons_append, List.cons.injEq] at heq
        exact heq.1 ▸ List.mem_cons_self
      exact (Bool.or_eq_false_iff.1 (isNameByte_of_not_ascii (hch.bytes_ge hlength b hmem))).2

theorem unbroken_of_isName {x : Text} (h : isName L x = true) : Unbroken x where
  ne_nil := by
    rintro rfl
    cases h
  pieces_append := (isNameTail_of_isName h).pieces_append

/-- No ASCII character stands in a name but letters, underscores and digits. -/
theorem not_mem_of_isName {x : Text} {b : UInt8} (h : isName L x = true) (hascii : b < 0x80)
    (hb : isNameByte b = false) : b ∉ x := by
  intro hmem
  rcases (isNameTail_of_isName h).bytes b hmem with hname | hge
  · rw [hname] at hb
    cases hb
  · exact hge hascii

end TapeMachine.Text

namespace TapeMachine.Expression.Token

open Text

theorem letterWidth_append {ch : Text} (h : IsCharacter ch) (hlength : 2 ≤ ch.length)
    (hcode : inRanges letterRanges (codeOf ch) = true) (t : Text) : letterWidth (ch ++ t) = ch.length := by
  have hsame : charCode ch.length (ch ++ t) = codeOf ch := by
    cases h with
    | one _ => exact absurd hlength (Nat.not_succ_le_self 1)
    | two _ _ => rfl
    | three _ _ _ => rfl
    | four _ _ _ _ => rfl
  rw [letterWidth, h.charWidth_append, hsame, hcode, Bool.and_true, if_pos (decide_eq_true hlength)]

theorem nameWidth_append {ch : Text} (first : Bool) (h : IsNameChar unicodeLetters ch)
    (hfirst : first = true → startsName unicodeLetters (codeOf ch) = true) (t : Text) :
    nameWidth first (ch ++ t) = ch.length := by
  cases h with
  | @ascii b hb =>
      have hstart := (name_codes_of_ascii (L := unicodeLetters) (isNameByte_ascii b hb).1).1
      have hbyte : (isLetter b || b = byte '_' || (!first && isDigit b)) = true := by
        cases first with
        | true => rw [← hstart, hfirst rfl, Bool.true_or]
        | false => exact hb
      exact if_pos hbyte
  | letter hch hlength hcode =>
      have hbytes := hch.bytes_ge hlength
      have hwidth := letterWidth_append hch hlength hcode t
      obtain ⟨b, rest, rfl⟩ := List.exists_cons_of_ne_nil hch.ne_nil
      have hb := hbytes b List.mem_cons_self
      have hother : ¬(isLetter b || b = byte '_' || (!first && isDigit b)) = true := by
        have hnone := isNameByte_of_not_ascii hb
        rw [isNameByte, Bool.or_eq_false_iff] at hnone
        rw [hnone.1, hnone.2, Bool.and_false]
        exact Bool.false_ne_true
      rw [List.cons_append] at hwidth ⊢
      rw [nameWidth, if_neg hother, if_neg hb, hwidth]

theorem nameTail_skip (front t : Text) : nameTail front.length (front ++ t) = front ++ nameTail 0 t := by
  induction front with
  | nil => rfl
  | cons b front ih => exact congrArg (b :: ·) ih

theorem nameTail_append {x : Text} (h : IsNameTail unicodeLetters x) (t : Text) :
    nameTail 0 (x ++ t) = x ++ nameTail 0 t := by
  induction h with
  | nil => rfl
  | @cons ch x hch _ ih =>
      have hwidth := nameWidth_append false hch nofun (x ++ t)
      obtain ⟨b, rest, rfl⟩ := List.exists_cons_of_ne_nil hch.isCharacter.ne_nil
      rw [List.append_assoc, List.append_assoc, List.cons_append] at *
      rw [nameTail, hwidth, List.length_cons]
      dsimp only
      rw [nameTail_skip, ih, List.cons_append]

/-- A name is read to its end where no character of a name follows it. -/
theorem leadingName_append {x : Text} (h : isName unicodeLetters x = true) {t : Text}
    (ht : nameTail 0 t = []) : leadingName (x ++ t) = x := by
  obtain ⟨ch, tail, rfl, hch, hstart, htail⟩ := isName_cases h
  have hwidth := nameWidth_append true hch (fun _ => hstart) (tail ++ t)
  obtain ⟨b, rest, rfl⟩ := List.exists_cons_of_ne_nil hch.isCharacter.ne_nil
  rw [List.append_assoc, List.cons_append] at *
  rw [leadingName, hwidth, List.length_cons]
  dsimp only
  rw [nameTail_skip, nameTail_append htail, ht, List.append_nil, List.cons_append]

end TapeMachine.Expression.Token
