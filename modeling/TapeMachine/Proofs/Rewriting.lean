import TapeMachine.Proofs.Characters
import TapeMachine.Proofs.Numerals
import TapeMachine.Proofs.TextParts

/-! Texts that gain no letters. Where constants and expressions are replaced and characters repaired,
whatever is put in holds no letter; so a word of letters that occurs after it has been there before. -/

namespace TapeMachine.Text

variable {interpret : Expression.Interpreter}

/-- A text after parts of it have been replaced, each by at least one byte and by no letters. -/
inductive Rewritten : Text → Text → Prop where
  | nil : Rewritten [] []
  | keep (b : UInt8) {old new : Text} (h : Rewritten old new) : Rewritten (b :: old) (b :: new)
  | swap (part : Text) {block old new : Text} (hne : block ≠ [])
      (hblock : ∀ b ∈ block, isLetter b = false) (h : Rewritten old new) :
      Rewritten (part ++ old) (block ++ new)

namespace Rewritten

theorem keep_append (part : Text) {old new : Text} (h : Rewritten old new) :
    Rewritten (part ++ old) (part ++ new) := by
  induction part with
  | nil => exact h
  | cons b part ih => exact .keep b ih

/-- Letters at the start have been there before. -/
theorem prefix_of_letters {old new x : Text} (h : Rewritten old new)
    (hx : ∀ b ∈ x, isLetter b = true) (hlead : x <+: new) : x <+: old := by
  induction h generalizing x with
  | nil => exact hlead
  | keep b _ ih =>
      cases x with
      | nil => exact List.nil_prefix
      | cons c x =>
          rw [List.forall_mem_cons] at hx
          rw [List.cons_prefix_cons] at hlead ⊢
          exact ⟨hlead.1, ih hx.2 hlead.2⟩
  | swap part hne hblock _ _ =>
      cases x with
      | nil => exact List.nil_prefix
      | cons c x =>
          obtain ⟨b, block, rfl⟩ := List.exists_cons_of_ne_nil hne
          rw [List.cons_append, List.cons_prefix_cons] at hlead
          have hletter := (List.forall_mem_cons.1 hx).1
          rw [hlead.1, (List.forall_mem_cons.1 hblock).1] at hletter
          cases hletter

/-- A word of letters occurs behind a block without letters. -/
theorem infix_of_infix_append {block t x : Text} (hne : x ≠ []) (hx : ∀ b ∈ x, isLetter b = true)
    (hblock : ∀ b ∈ block, isLetter b = false) (h : x <:+: block ++ t) : x <:+: t := by
  induction block with
  | nil => exact h
  | cons b block ih =>
      rw [List.forall_mem_cons] at hblock
      rcases List.infix_cons_iff.1 h with hlead | hpart
      · obtain ⟨c, x, rfl⟩ := List.exists_cons_of_ne_nil hne
        have hletter := (List.forall_mem_cons.1 hx).1
        rw [(List.cons_prefix_cons.1 hlead).1, hblock.1] at hletter
        cases hletter
      · exact ih hblock.2 hpart

/-- A word of letters that occurs has been there before. -/
theorem infix_of_letters {old new x : Text} (h : Rewritten old new) (hne : x ≠ [])
    (hx : ∀ b ∈ x, isLetter b = true) (hpart : x <:+: new) : x <:+: old := by
  induction h with
  | nil => exact hpart
  | keep b hrest ih =>
      rcases List.infix_cons_iff.1 hpart with hlead | hpart
      · exact ((hrest.keep b).prefix_of_letters hx hlead).isInfix
      · exact List.infix_cons (ih hpart)
  | swap part _ hblock _ ih =>
      exact (ih (infix_of_infix_append hne hx hblock hpart)).trans (List.suffix_append part _).isInfix

end Rewritten

theorem isLetter_eq_false_of_le {b : UInt8} (h : 0x80 ≤ b.toNat) : isLetter b = false := by
  have hall : ∀ b : UInt8, 0x80 ≤ b.toNat → isLetter b = false := forall_byte (by decide +kernel)
  exact hall b h

theorem isLetter_eq_false_of_isDigit {b : UInt8} (h : isDigit b = true) : isLetter b = false := by
  have hall : ∀ b : UInt8, isDigit b = true → isLetter b = false := forall_byte (by decide +kernel)
  exact hall b h

/-- Codes beyond ASCII are written without letters. -/
theorem encode_beyond_ascii {code : Nat} (h : 0x80 ≤ code) :
    encode code ≠ [] ∧ ∀ b ∈ encode code, isLetter b = false := by
  have hbyte : ∀ n, 0x80 ≤ n → n < 256 → isLetter n.toUInt8 = false := by
    intro n hlow hhigh
    refine isLetter_eq_false_of_le ?_
    rw [Nat.toUInt8, UInt8.toNat_ofNat', Nat.mod_eq_of_lt hhigh]
    exact hlow
  unfold encode
  rw [if_neg (by omega)]
  split_ifs with htwo hgap hthree
  · refine ⟨List.cons_ne_nil _ _, ?_⟩
    simp only [List.forall_mem_cons]
    exact ⟨hbyte _ (by omega) (by omega), hbyte _ (by omega) (by omega), nofun⟩
  · refine ⟨List.cons_ne_nil _ _, ?_⟩
    simp only [List.forall_mem_cons]
    exact ⟨by decide, by decide, by decide, nofun⟩
  · refine ⟨List.cons_ne_nil _ _, ?_⟩
    simp only [List.forall_mem_cons]
    exact ⟨hbyte _ (by omega) (by omega), hbyte _ (by omega) (by omega),
      hbyte _ (by omega) (by omega), nofun⟩
  · simp only [Bool.or_eq_true, decide_eq_true_eq, not_or, Nat.not_lt] at hgap
    refine ⟨List.cons_ne_nil _ _, ?_⟩
    simp only [List.forall_mem_cons]
    exact ⟨hbyte _ (by omega) (by omega), hbyte _ (by omega) (by omega),
      hbyte _ (by omega) (by omega), hbyte _ (by omega) (by omega), nofun⟩

/-- Repairing a text changes bytes beyond ASCII only. -/
theorem rewritten_ofCodes (skip : Nat) (t : Text) :
    Rewritten (t.drop skip) (ofCodes ((charsFrom skip t).map codeOf)) := by
  induction t generalizing skip with
  | nil =>
      rw [List.drop_nil]
      cases skip <;> exact .nil
  | cons b t ih =>
      cases skip with
      | succ skip => exact ih skip
      | zero =>
          rw [List.drop_zero, charsFrom, List.map_cons, ofCodes, List.flatMap_cons]
          have hrest := ih (charWidth (b :: t) - 1)
          rcases codeOf_char b t with ⟨hwidth, hascii⟩ | hbeyond
          · rw [hwidth] at hrest ⊢
            have hcode : encode (codeOf ((b :: t).take 1)) = [b] := (IsCharacter.one hascii).encode_codeOf
            rw [hcode]
            exact .keep b hrest
          · obtain ⟨hne, hblock⟩ := encode_beyond_ascii hbeyond
            have hswap := Rewritten.swap (b :: t.take (charWidth (b :: t) - 1)) hne hblock hrest
            rw [List.cons_append, List.take_append_drop] at hswap
            exact hswap

theorem rewritten_repaired (t : Text) : Rewritten t (repaired t) := rewritten_ofCodes 0 t

end TapeMachine.Text

namespace TapeMachine.Assembler

open Text

theorem ofNat_no_letters (n : Nat) : ∀ b ∈ ofNat n, isLetter b = false :=
  fun b hb => isLetter_eq_false_of_isDigit (isDigit_of_mem_ofNat b hb)

theorem ofInt_no_letters (n : Int) : ∀ b ∈ ofInt n, isLetter b = false :=
  forall_mem_ofInt (by decide) (fun _ => isLetter_eq_false_of_isDigit) n

theorem rewritten_replaceChars (skip : Nat) (t : Text) :
    Rewritten (t.drop skip) (replaceChars skip t) := by
  induction t generalizing skip with
  | nil =>
      rw [List.drop_nil]
      cases skip <;> exact .nil
  | cons b t ih =>
      cases skip with
      | succ skip => exact ih skip
      | zero =>
          rw [List.drop_zero, replaceChars]
          cases constantWidth? (b :: t) with
          | none => exact .keep b (ih 0)
          | some width =>
              dsimp only
              have hrest := ih (width + 1)
              cases charCode? (t.take width) with
              | some code =>
                  have hswap := Rewritten.swap (b :: t.take (width + 1)) (ofNat_ne_nil code)
                    (ofNat_no_letters code) hrest
                  rwa [List.cons_append, List.take_append_drop] at hswap
              | none =>
                  have hkeep := hrest.keep_append (b :: t.take (width + 1))
                  rwa [List.cons_append, List.take_append_drop] at hkeep

/-- An expression stands in the line it is cut from. -/
theorem infix_of_expressionAt? {t body : Text} (h : expressionAt? t = some body) : body <:+: t := by
  unfold expressionAt? at h
  split at h
  · rename_i rest
    split at h
    · cases h
    · rename_i c reversed hdrop
      cases h
      have hsuffix : c :: reversed <:+ (before (byte '$') rest).reverse := by
        rw [← hdrop]
        exact List.dropWhile_suffix _
      have hlead : reversed.reverse <+: before (byte '$') rest := by
        rw [← List.reverse_suffix, List.reverse_reverse]
        exact (List.suffix_cons c reversed).trans hsuffix
      have hbody : reversed.reverse <:+: rest :=
        hlead.isInfix.trans (Source.prefix_before _ rest).isInfix
      exact List.infix_cons (List.infix_cons hbody)
  · cases h

theorem infix_of_mem_segmentsFrom {skip : Nat} {t body : Text}
    (h : .expression body ∈ segmentsFrom skip t) : body <:+: t := by
  induction t generalizing skip with
  | nil => cases skip <;> cases h
  | cons b t ih =>
      cases skip with
      | succ skip => exact List.infix_cons (ih h)
      | zero =>
          rw [segmentsFrom] at h
          cases hat : expressionAt? (b :: t) with
          | none =>
              rw [hat] at h
              have hmem : .expression body ∈ segmentsFrom 0 t := by simpa using h
              exact List.infix_cons (ih hmem)
          | some found =>
              rw [hat] at h
              rcases List.mem_cons.1 h with heq | hmem
              · cases heq
                exact infix_of_expressionAt? hat
              · exact List.infix_cons (ih hmem)

/-- Two expansions one after the other give a text if and only if both do. -/
theorem Expansion.append_text_eq_ok {a b : Expansion} {t : Text} (h : (a.append b).text = .ok t) :
    ∃ u v, a.text = .ok u ∧ b.text = .ok v ∧ t = u ++ v := by
  unfold Expansion.append at h
  split at h
  · rename_i herror
    rw [herror] at h
    cases h
  · cases ha : a.text with
    | error e =>
        rw [ha] at h
        cases hb : b.text <;> rw [hb] at h <;> cases h
    | ok u =>
        rw [ha] at h
        cases hb : b.text with
        | error e =>
            rw [hb] at h
            cases h
        | ok v =>
            rw [hb] at h
            cases h
            exact ⟨u, v, rfl, rfl, rfl⟩

theorem rewritten_expandAll (numbers : Expression.Numbers) (skip : Nat) {t u : Text}
    (h : (expandAll interpret numbers (segmentsFrom skip t)).text = .ok u) : Rewritten (t.drop skip) u := by
  induction t generalizing skip u with
  | nil =>
      rw [List.drop_nil]
      cases skip <;> cases h <;> exact .nil
  | cons b t ih =>
      cases skip with
      | succ skip => exact ih skip h
      | zero =>
          rw [segmentsFrom] at h
          cases hat : expressionAt? (b :: t) with
          | none =>
              rw [hat] at h
              obtain ⟨first, rest, hfirst, hrest, rfl⟩ := Expansion.append_text_eq_ok h
              cases hfirst
              exact .keep b (ih 0 hrest)
          | some body =>
              rw [hat] at h
              obtain ⟨first, rest, hfirst, hrest, rfl⟩ := Expansion.append_text_eq_ok h
              have hnumber : ∃ w : BitVec 32, first = ofInt w.toInt := by
                simp only [Segment.expand] at hfirst
                split at hfirst
                · rename_i w _
                  cases hfirst
                  exact ⟨w, rfl⟩
                · cases hfirst
                · cases hfirst
                · cases hfirst
              obtain ⟨w, rfl⟩ := hnumber
              have hswap := Rewritten.swap (b :: t.take (body.length + 2)) (ofInt_ne_nil w.toInt)
                (ofInt_no_letters w.toInt) (ih (body.length + 2) hrest)
              rwa [List.cons_append, List.take_append_drop] at hswap

/-- A word of letters in a line whose constants are replaced has been there before. -/
theorem infix_of_replaceConstants {equates : Bindings Text} {line t x : Text} (hne : x ≠ [])
    (hx : ∀ b ∈ x, isLetter b = true) (h : (replaceConstants interpret equates line).text = .ok t)
    (hpart : x <:+: t) : x <:+: line := by
  have hchars := (rewritten_expandAll _ 0 h).infix_of_letters hne hx hpart
  exact (rewritten_replaceChars 0 line).infix_of_letters hne hx hchars

end TapeMachine.Assembler
