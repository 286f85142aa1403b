import TapeMachine.Proofs.Characters
import TapeMachine.Proofs.PlainText

/-! Where character constants end. A constant ends at the first quote behind the one it starts with,
so what stands behind that quote has no part in it. Characters are therefore replaced on both sides
of a seam in a text on their own, unless a constant reaches over the seam: never before two digits,
and before a quote only if a constant is left open. -/

namespace TapeMachine.Assembler

open Text

theorem continues_of_ascii {b : UInt8} (h : b < 0x80) : continues b = false := by
  have hall : ∀ b : UInt8, b < 0x80 → continues b = false := forall_byte (by decide +kernel)
  exact hall b h

theorem mayFollow_of_ascii (a : UInt8) {b : UInt8} (h : b < 0x80) : mayFollow a b = false :=
  Bool.eq_false_iff.2 fun hmay =>
    Bool.false_ne_true ((continues_of_ascii h).symm.trans (continues_of_mayFollow hmay))

/-- A byte before an ASCII character makes a character of its own. -/
theorem charWidth_before_ascii (a : UInt8) {b : UInt8} (h : b < 0x80) (t : Text) :
    charWidth (a :: b :: t) = 1 := by
  rcases t with _ | ⟨c, _ | ⟨d, t⟩⟩ <;>
    simp [charWidth, continues_of_ascii h, mayFollow_of_ascii a h]

/-- One character that is no quote. -/
structure CharBody (ch : Text) : Prop where
  closed : ∀ u, closedChar? (ch ++ quote :: u) = some ch.length
  no_quote : quote ∉ ch
  ascii_last : ∀ front b back, ch = front ++ b :: back → b < 0x80 → back = []

theorem closedChar?_cons (b : UInt8) (t : Text) :
    closedChar? (b :: t) =
      if b ≠ quote && ((b :: t).drop (charWidth (b :: t))).head? = some quote
      then some (charWidth (b :: t)) else none := rfl

theorem CharBody.singleton {b : UInt8} (h : b ≠ quote) : CharBody [b] where
  closed u := by
    rw [List.singleton_append, closedChar?_cons, charWidth_before_ascii b (by decide)]
    exact if_pos (by simp [h])
  no_quote := by simpa using h.symm
  ascii_last front c back heq _ := by
    have hlength := congrArg List.length heq
    simp only [List.length_cons, List.length_nil, List.length_append] at hlength
    exact List.eq_nil_of_length_eq_zero (by omega)

theorem CharBody.of_isCharacter {ch : Text} (h : IsCharacter ch) (hlength : 2 ≤ ch.length) :
    CharBody ch where
  closed u := by
    have hwidth := h.charWidth_append (quote :: u)
    obtain ⟨b, rest, rfl⟩ := List.exists_cons_of_ne_nil h.ne_nil
    have hb : b ≠ quote := by
      rintro rfl
      exact h.bytes_ge hlength quote List.mem_cons_self (by decide)
    rw [List.cons_append] at hwidth ⊢
    rw [closedChar?_cons, hwidth, ← List.cons_append, List.drop_left]
    exact if_pos (by simp [hb])
  no_quote hmem := h.bytes_ge hlength quote hmem (by decide)
  ascii_last front b back heq hb := absurd hb (h.bytes_ge hlength b (by simp [heq]))

/-- A character with a quote behind it. -/
theorem closedChar?_eq_some {t : Text} {width : Nat} (h : closedChar? t = some width) :
    ∃ ch rest, t = ch ++ quote :: rest ∧ ch.length = width ∧ CharBody ch := by
  cases t with
  | nil => cases h
  | cons b t =>
      rw [closedChar?_cons] at h
      split_ifs at h with hclosed
      rw [Bool.and_eq_true, decide_eq_true_eq, decide_eq_true_eq] at hclosed
      obtain ⟨hquote, hhead⟩ := hclosed
      have hsingle : charWidth (b :: t) = 1 →
          ∃ ch rest, b :: t = ch ++ quote :: rest ∧ ch.length = width ∧ CharBody ch := by
        intro hwidth
        rw [hwidth] at h hhead
        obtain ⟨rest, rfl⟩ := List.head?_eq_some_iff.1 hhead
        exact ⟨[b], rest, rfl, Option.some.inj h, .singleton hquote⟩
      rcases character_cases b t with ⟨ch, rest, hch, heq⟩ | ⟨-, hwidth⟩
      · rw [heq, hch.charWidth_append] at h hhead
        rcases Nat.lt_or_ge ch.length 2 with hlt | hge
        · refine hsingle ?_
          have hpos := List.length_pos_iff.2 hch.ne_nil
          rw [heq, hch.charWidth_append]
          omega
        · rw [List.drop_left] at hhead
          obtain ⟨rest, rfl⟩ := List.head?_eq_some_iff.1 hhead
          exact ⟨ch, rest, heq, Option.some.inj h, .of_isCharacter hch hge⟩
      · exact hsingle hwidth

/-- What a constant has between its quotes. -/
structure ConstantBody (body : Text) : Prop where
  closed : ∀ u, constantWidth? (quote :: (body ++ quote :: u)) = some body.length
  no_quote : quote ∉ body
  ascii_last : ∀ front b back, body = front ++ b :: back → b < 0x80 → b ≠ backslash → back = []

theorem ConstantBody.ne_nil {body : Text} (h : ConstantBody body) : body ≠ [] := by
  rintro rfl
  cases h.closed []

theorem constantWidth?_of_ne {b : UInt8} (h : b ≠ quote) (t : Text) :
    constantWidth? (b :: t) = none := by
  unfold constantWidth?
  split
  · rename_i heq
    exact absurd (List.cons.inj heq).1 h
  · rename_i heq
    exact absurd (List.cons.inj heq).1 h
  · rfl

theorem constantWidth?_escaped (t : Text) :
    constantWidth? (quote :: backslash :: t) =
      match closedChar? t with
      | some width => some (width + 1)
      | none => closedChar? (backslash :: t) := rfl

theorem constantWidth?_unescaped {t : Text} (h : t.head? ≠ some backslash) :
    constantWidth? (quote :: t) = closedChar? t := by
  unfold constantWidth?
  split
  · rename_i heq
    rw [(List.cons.inj heq).2] at h
    exact absurd rfl h
  · rename_i heq
    rw [(List.cons.inj heq).2]
  · rename_i hne
    exact absurd rfl (hne t)

theorem CharBody.ne_nil {ch : Text} (h : CharBody ch) : ch ≠ [] := by
  rintro rfl
  cases h.closed []

theorem ConstantBody.of_escaped {ch : Text} (h : CharBody ch) : ConstantBody (backslash :: ch) where
  closed u := by rw [List.cons_append, constantWidth?_escaped, h.closed]; rfl
  no_quote hmem := (List.mem_cons.1 hmem).elim (by decide) h.no_quote
  ascii_last front b back heq hb hne := by
    cases front with
    | nil => exact absurd (List.cons.inj heq).1.symm hne
    | cons c front => exact h.ascii_last front b back (List.cons.inj heq).2 hb

theorem ConstantBody.of_backslash : ConstantBody [backslash] where
  closed u := by
    rw [List.singleton_append, constantWidth?_escaped]
    exact (CharBody.singleton (by decide)).closed u
  no_quote := by decide
  ascii_last front b back heq hb _ := (CharBody.singleton (by decide)).ascii_last front b back heq hb

theorem ConstantBody.of_unescaped {ch : Text} (h : CharBody ch) (hhead : ch.head? ≠ some backslash) :
    ConstantBody ch where
  closed u := by
    rw [constantWidth?_unescaped, h.closed]
    obtain ⟨b, rest, rfl⟩ := List.exists_cons_of_ne_nil h.ne_nil
    exact hhead
  no_quote := h.no_quote
  ascii_last front b back heq hb _ := h.ascii_last front b back heq hb

/-- A constant ends at the first quote behind the one it starts with. -/
theorem constantWidth?_eq_some {t : Text} {width : Nat} (h : constantWidth? t = some width) :
    ∃ body rest, t = quote :: (body ++ quote :: rest) ∧ body.length = width ∧ ConstantBody body := by
  cases t with
  | nil => cases h
  | cons b t =>
      by_cases hb : b = quote
      · subst hb
        by_cases hhead : t.head? = some backslash
        · obtain ⟨t, rfl⟩ := List.head?_eq_some_iff.1 hhead
          rw [constantWidth?_escaped] at h
          cases hclosed : closedChar? t with
          | some w =>
              rw [hclosed] at h
              obtain ⟨ch, rest, rfl, hlength, hch⟩ := closedChar?_eq_some hclosed
              refine ⟨backslash :: ch, rest, rfl, ?_, .of_escaped hch⟩
              rw [List.length_cons, hlength]
              exact Option.some.inj h
          | none =>
              rw [hclosed] at h
              obtain ⟨ch, rest, heq, hlength, hch⟩ := closedChar?_eq_some h
              obtain ⟨c, back, rfl⟩ := List.exists_cons_of_ne_nil hch.ne_nil
              obtain ⟨rfl, -⟩ := List.cons.inj heq
              obtain rfl := hch.ascii_last [] _ back rfl (by decide)
              exact ⟨[backslash], rest, congrArg _ heq, hlength, .of_backslash⟩
        · rw [constantWidth?_unescaped hhead] at h
          obtain ⟨ch, rest, rfl, hlength, hch⟩ := closedChar?_eq_some h
          refine ⟨ch, rest, rfl, hlength, .of_unescaped hch fun heq => hhead ?_⟩
          rw [List.head?_append, heq]
          rfl
      · rw [constantWidth?_of_ne hb] at h
        cases h

/-! ### Constants at a seam -/

/-- A constant does not depend on what stands behind it. -/
theorem constantWidth?_append {t : Text} {width : Nat} (h : constantWidth? t = some width) (u : Text) :
    constantWidth? (t ++ u) = some width := by
  obtain ⟨body, rest, rfl, rfl, hbody⟩ := constantWidth?_eq_some h
  rw [List.cons_append, List.append_assoc, List.cons_append]
  exact hbody.closed (rest ++ u)

/-- A constant of two texts that ends in the first one is one of the first one. -/
theorem constantWidth?_of_append {t u : Text} {width : Nat}
    (h : constantWidth? (t ++ u) = some width) (hlength : width + 2 ≤ t.length) :
    constantWidth? t = some width := by
  obtain ⟨body, rest, heq, rfl, hbody⟩ := constantWidth?_eq_some h
  have hfront : quote :: (body ++ [quote]) <+: t := by
    refine List.prefix_of_prefix_length_le ⟨rest, ?_⟩ (List.prefix_append t u) ?_
    · rw [heq, List.cons_append, List.append_assoc, List.singleton_append]
    · rw [List.length_cons, List.length_append, List.length_singleton]
      omega
  obtain ⟨back, rfl⟩ := hfront
  rw [List.cons_append, List.append_assoc, List.singleton_append]
  exact hbody.closed back

/-- Whether a constant that starts in a text ends in what stands behind the text, after `skip` more
bytes of a constant that starts before it. -/
def overhangs (behind : Text) : Nat → Text → Bool
  | 0, [] => false
  | _ + 1, [] => true
  | skip + 1, _ :: rest => overhangs behind skip rest
  | 0, b :: rest =>
      match constantWidth? (b :: rest ++ behind) with
      | none => overhangs behind 0 rest
      | some width => overhangs behind (width + 1) rest

theorem le_length_of_not_overhangs {behind : Text} {skip : Nat} {t : Text}
    (h : overhangs behind skip t = false) : skip ≤ t.length := by
  induction t generalizing skip with
  | nil =>
      cases skip with
      | zero => exact Nat.le_refl 0
      | succ skip => cases h
  | cons b t ih =>
      cases skip with
      | zero => exact Nat.zero_le _
      | succ skip => exact Nat.succ_le_succ (ih h)

/-- Where no constant reaches over a seam, characters are replaced on both sides on their own. -/
theorem replaceChars_append {behind : Text} {skip : Nat} {t : Text}
    (h : overhangs behind skip t = false) :
    replaceChars skip (t ++ behind) = replaceChars skip t ++ replaceChars 0 behind := by
  induction t generalizing skip with
  | nil =>
      cases skip with
      | zero => rfl
      | succ skip => cases h
  | cons b t ih =>
      cases skip with
      | succ skip => exact ih h
      | zero =>
          rw [overhangs] at h
          rw [List.cons_append, replaceChars, replaceChars, ← List.cons_append]
          cases hwidth : constantWidth? (b :: t ++ behind) with
          | none =>
              have hnone : constantWidth? (b :: t) = none := by
                cases hsome : constantWidth? (b :: t) with
                | none => rfl
                | some width =>
                    rw [constantWidth?_append hsome] at hwidth
                    cases hwidth
              rw [hwidth] at h
              rw [hnone, ih h, List.cons_append]
          | some width =>
              rw [hwidth] at h
              have hle := le_length_of_not_overhangs h
              have hsome := constantWidth?_of_append hwidth (by rw [List.length_cons]; omega)
              rw [hsome]
              dsimp only
              rw [ih h, List.take_append_of_le_length (by omega), List.take_append_of_le_length hle]
              cases charCode? (t.take width) with
              | none => rw [List.append_assoc]
              | some code => rw [List.append_assoc]

/-- Bytes before the first quote have no part in a constant. -/
theorem overhangs_append (behind : Text) {front : Text} (h : quote ∉ front) (t : Text) :
    overhangs behind 0 (front ++ t) = overhangs behind 0 t := by
  induction front with
  | nil => rfl
  | cons b front ih =>
      rw [List.mem_cons, not_or] at h
      rw [List.cons_append, overhangs, List.cons_append, constantWidth?_of_ne (Ne.symm h.1), ih h.2]

/-- No constant reaches over two digits. -/
theorem overhangs_digits {a b : UInt8} (ha : isDigit a = true) (hb : isDigit b = true) (u : Text)
    {skip : Nat} {t : Text} (hskip : skip ≤ t.length) : overhangs (a :: b :: u) skip t = false := by
  have hdigit : ∀ b : UInt8, isDigit b = true → b < 0x80 ∧ b ≠ backslash ∧ b ≠ quote :=
    forall_byte (by decide +kernel)
  induction t generalizing skip with
  | nil =>
      rw [Nat.le_zero.1 hskip]
      rfl
  | cons c t ih =>
      cases skip with
      | succ skip => exact ih (Nat.le_of_succ_le_succ hskip)
      | zero =>
          rw [overhangs]
          cases hwidth : constantWidth? (c :: t ++ a :: b :: u) with
          | none => exact ih (Nat.zero_le _)
          | some width =>
              refine ih ?_
              obtain ⟨body, rest, heq, rfl, hbody⟩ := constantWidth?_eq_some hwidth
              rcases List.append_eq_append_iff.1 (List.cons.inj heq).2 with
                ⟨back, hback, hrest⟩ | ⟨back, hback, hrest⟩
              · -- A constant that reaches the first digit ends with it, and then a digit is its quote.
                cases back with
                | nil => exact absurd (List.cons.inj hrest).1 (hdigit a ha).2.2
                | cons d back =>
                    obtain ⟨rfl, hmore⟩ := List.cons.inj hrest
                    have hlast := hbody.ascii_last t a back hback (hdigit a ha).1 (hdigit a ha).2.1
                    rw [hlast] at hmore
                    exact absurd (List.cons.inj hmore).1 (hdigit b hb).2.2
              · cases back with
                | nil => exact absurd (List.cons.inj hrest).1.symm (hdigit a ha).2.2
                | cons d back =>
                    rw [hback, List.length_append, List.length_cons]
                    omega

/-- What stands behind a quote has no part in the constants that start before it. -/
theorem constantWidth?_append_quote (b : UInt8) (t u : Text) :
    constantWidth? (b :: t ++ quote :: u) = constantWidth? (b :: t ++ [quote]) := by
  have happend : b :: t ++ quote :: u = (b :: t ++ [quote]) ++ u := by
    rw [List.append_assoc, List.singleton_append]
  cases hquote : constantWidth? (b :: t ++ [quote]) with
  | some width =>
      rw [happend]
      exact constantWidth?_append hquote u
  | none =>
      cases hwidth : constantWidth? (b :: t ++ quote :: u) with
      | none => rfl
      | some width =>
          have hlength : width ≤ t.length := by
            obtain ⟨body, rest, heq, rfl, hbody⟩ := constantWidth?_eq_some hwidth
            rcases List.append_eq_append_iff.1 (List.cons.inj heq).2 with
              ⟨back, hback, hrest⟩ | ⟨back, hback, -⟩
            · cases back with
              | nil => rw [hback, List.append_nil]
              | cons d back =>
                  obtain ⟨rfl, -⟩ := List.cons.inj hrest
                  exact absurd (by simp [hback]) hbody.no_quote
            · rw [hback, List.length_append]
              omega
          rw [happend] at hwidth
          have hends : width + 2 ≤ (b :: t ++ [quote]).length := by
            rw [List.length_append, List.length_cons, List.length_singleton]
            omega
          rw [constantWidth?_of_append hwidth hends] at hquote
          cases hquote

theorem overhangs_quote (u : Text) (skip : Nat) (t : Text) :
    overhangs (quote :: u) skip t = overhangs [quote] skip t := by
  induction t generalizing skip with
  | nil => cases skip <;> rfl
  | cons b t ih =>
      cases skip with
      | succ skip => exact ih skip
      | zero =>
          rw [overhangs, overhangs, constantWidth?_append_quote]
          cases constantWidth? (b :: t ++ [quote]) with
          | none => exact ih 0
          | some width => exact ih (width + 1)

end TapeMachine.Assembler
