import TapeMachine.Proofs.Spelling

/-! Which words are addresses. An address is written in square brackets as a register with a sign and
an unsigned literal after it, or as a register alone. The reader takes one plus sign off what follows
the register and reads the rest as it reads any number, so it also takes a plus sign with nothing
after it and a plus sign with a signed literal after it. These are the only words in brackets that it
reads and that are not written as an address is; all others are refused. -/

namespace TapeMachine.Assembler

open Text

/-- A word in square brackets that starts with the name of a register. -/
def bracketWord (r : Register) (tail : Text) : Text :=
  byte '[' :: (r.name ++ tail ++ [byte ']'])

/-- What is written after the register of an address, with the offset that it stands for. -/
inductive OffsetForm : Text → Int → Prop where
  | none : OffsetForm [] 0
  | plus {k : Text} {n : Int} : Unsigned k n → OffsetForm (byte '+' :: k) n
  | minus {k : Text} {n : Int} : Unsigned k n → OffsetForm (byte '-' :: k) (-n)

/-- What else the reader takes for an offset. -/
inductive LooseOffset : Text → Int → Prop where
  | lonePlus : LooseOffset [byte '+'] 0
  | plusPlus {k : Text} {n : Int} : Unsigned k n → LooseOffset (byte '+' :: byte '+' :: k) n
  | plusMinus {k : Text} {n : Int} : Unsigned k n → LooseOffset (byte '+' :: byte '-' :: k) (-n)

/-- The word is a register in brackets with an offset in the given form that fits 32 bits, and `o` is
the address of it. -/
def Addresses (form : Text → Int → Prop) (word : Text) (o : Operand) : Prop :=
  ∃ r tail n, r.IsValid ∧ form tail n ∧ Fits32 n ∧ word = bracketWord r tail ∧
    o = .ofInd r (BitVec.ofInt 32 n)

/-- The word is read as an address if it is written as one, and else refused if it stands in
brackets. -/
def ReadAsWritten (word : Text) : Prop :=
  (∀ o, operandOf word = .ok o ∧ o.kind = .ind ↔ Addresses OffsetForm word o) ∧
    ((∃ inner, word = byte '[' :: (inner ++ [byte ']'])) → (¬∃ o, Addresses OffsetForm word o) →
      operandOf word = .error (.rejected [] (.notOperand word)))

theorem offset?_minus (t : Text) : offset? (byte '-' :: t) = readWord32? (byte '-' :: t) := by
  have hhead : some (byte '-') ≠ some (byte '+') := by decide
  exact offset?_of_head? (List.cons_ne_nil _ _) hhead

/-- Every offset starts with its sign. -/
theorem isSign_of_offset {t : Text} {n : Int} (h : OffsetForm t n ∨ LooseOffset t n) :
    ∀ b, t.head? = some b → isSign b = true := by
  rcases h with h | h
  · cases h <;> rintro b ⟨⟩ <;> rfl
  · cases h <;> rintro b ⟨⟩ <;> rfl

/-- No offset is written in both ways: a digit would have to be a sign, or nothing. -/
theorem OffsetForm.not_loose {t : Text} {n n' : Int} (h : OffsetForm t n) : ¬LooseOffset t n' := by
  intro hloose
  cases hloose with
  | lonePlus =>
      cases h with
      | plus hk => exact hk.ne_nil rfl
  | plusPlus hk' =>
      cases h with
      | plus hk => cases hk.1
  | plusMinus hk' =>
      cases h with
      | plus hk => cases hk.1

theorem offset?_eq_some {t : Text} {v : BitVec 32} (ht : ∀ b, t.head? = some b → isSign b = true) :
    offset? t = some v ↔
      ∃ n, (OffsetForm t n ∨ LooseOffset t n) ∧ Fits32 n ∧ v = BitVec.ofInt 32 n := by
  constructor
  · intro h
    cases t with
    | nil =>
        cases h
        exact ⟨0, Or.inl .none, by decide, rfl⟩
    | cons b t =>
        by_cases hplus : b = byte '+'
        · subst hplus
          by_cases hempty : t = []
          · subst hempty
            cases h
            exact ⟨0, Or.inr .lonePlus, by decide, rfl⟩
          · rw [offset?_plus hempty, readWord32?_eq_some] at h
            obtain ⟨n, hsigned, hfits⟩ := h
            refine ⟨n, ?_, hfits⟩
            cases hsigned with
            | bare hk => exact Or.inl (.plus hk)
            | plus hk => exact Or.inr (.plusPlus hk)
            | minus hk => exact Or.inr (.plusMinus hk)
        · have hminus : b = byte '-' := by simpa [isSign, hplus] using ht b rfl
          subst hminus
          rw [offset?_minus, readWord32?_eq_some] at h
          obtain ⟨n, hsigned, hfits⟩ := h
          refine ⟨n, Or.inl ?_, hfits⟩
          cases hsigned with
          | bare hk => cases hk.1
          | minus hk => exact .minus hk
  · rintro ⟨n, hform, hfits⟩
    rcases hform with hform | hloose
    · cases hform with
      | none =>
          obtain ⟨-, rfl⟩ := hfits
          rfl
      | plus hk =>
          rw [offset?_plus hk.ne_nil, readWord32?_eq_some]
          exact ⟨n, .bare hk, hfits⟩
      | minus hk =>
          rw [offset?_minus, readWord32?_eq_some]
          exact ⟨_, .minus hk, hfits⟩
    · cases hloose with
      | lonePlus =>
          obtain ⟨-, rfl⟩ := hfits
          rfl
      | plusPlus hk =>
          rw [offset?_plus (List.cons_ne_nil _ _), readWord32?_eq_some]
          exact ⟨n, .plus hk, hfits⟩
      | plusMinus hk =>
          rw [offset?_plus (List.cons_ne_nil _ _), readWord32?_eq_some]
          exact ⟨_, .minus hk, hfits⟩

theorem indirect?_eq_some {t : Text} {o : Operand} :
    indirect? t = some o ↔ ∃ r tail v, r.IsValid ∧ t = r.name ++ tail ∧
      (∀ b, tail.head? = some b → isSign b = true) ∧ offset? tail = some v ∧ o = .ofInd r v := by
  constructor
  · intro h
    obtain ⟨r, hr, hrest⟩ := Option.bind_eq_some_iff.1 h
    obtain ⟨v, hv, ho⟩ := Option.bind_eq_some_iff.1 hrest
    refine ⟨r, t.dropWhile (!isSign ·), v, Register.isValid_of_ofName? hr, ?_, ?_, hv,
      (Option.some.inj ho).symm⟩
    · rw [Register.name_of_ofName? hr, List.takeWhile_append_dropWhile]
    · intro b hb
      have hstop := List.head?_dropWhile_not (!isSign ·) t
      rw [hb] at hstop
      simpa using hstop
  · rintro ⟨r, tail, v, hr, rfl, htail, hv, rfl⟩
    rw [indirect?_append hr htail, hv, Option.map_some]

theorem operandOf_of_bracketed? {word inner : Text} (h : bracketed? word = some inner) :
    (∀ o, indirect? inner = some o → operandOf word = .ok o) ∧
      (indirect? inner = none → operandOf word = .error (.rejected [] (.notOperand word))) := by
  have hreg : Register.ofName? word = none := by
    have hhead : some (byte '[') ≠ some (byte 'r') := by decide
    rw [bracketed?_eq_some.1 h]
    exact Register.ofName?_of_head? hhead
  unfold operandOf
  rw [hreg, h]
  constructor
  · intro o ho
    simp only [ho]
  · intro ho
    simp only [ho]

/-- Addresses are read from words in brackets only. -/
theorem operandOf_eq_ind {word : Text} {o : Operand} :
    operandOf word = .ok o ∧ o.kind = .ind ↔
      ∃ inner, bracketed? word = some inner ∧ indirect? inner = some o := by
  constructor
  · rintro ⟨h, hkind⟩
    unfold operandOf at h
    split at h
    · cases h
      cases hkind
    · split at h
      · rename_i inner hinner
        split at h
        · rename_i hind
          cases h
          exact ⟨inner, hinner, hind⟩
        · cases h
      · split at h
        · cases h
        · split_ifs at h
          · split at h
            · cases h
              cases hkind
            · cases h
          · cases h
            cases hkind
  · rintro ⟨inner, hinner, ho⟩
    obtain ⟨r, tail, v, -, -, -, -, rfl⟩ := indirect?_eq_some.1 ho
    exact ⟨(operandOf_of_bracketed? hinner).1 _ ho, rfl⟩

theorem addresses_or {form form' : Text → Int → Prop} {word : Text} {o : Operand} :
    Addresses (fun t n => form t n ∨ form' t n) word o ↔
      Addresses form word o ∨ Addresses form' word o := by
  constructor
  · rintro ⟨r, tail, n, hr, htail | htail, hrest⟩
    · exact Or.inl ⟨r, tail, n, hr, htail, hrest⟩
    · exact Or.inr ⟨r, tail, n, hr, htail, hrest⟩
  · rintro (⟨r, tail, n, hr, htail, hrest⟩ | ⟨r, tail, n, hr, htail, hrest⟩)
    · exact ⟨r, tail, n, hr, Or.inl htail, hrest⟩
    · exact ⟨r, tail, n, hr, Or.inr htail, hrest⟩

/-- The words read as addresses: those written so, and the loose ones. -/
theorem operandOf_eq_ind_iff_addresses {word : Text} {o : Operand} :
    operandOf word = .ok o ∧ o.kind = .ind ↔
      Addresses OffsetForm word o ∨ Addresses LooseOffset word o := by
  rw [operandOf_eq_ind, ← addresses_or]
  constructor
  · rintro ⟨inner, hinner, ho⟩
    obtain ⟨r, tail, v, hr, rfl, htail, hv, rfl⟩ := indirect?_eq_some.1 ho
    obtain ⟨n, hform, hfits, rfl⟩ := (offset?_eq_some htail).1 hv
    exact ⟨r, tail, n, hr, hform, hfits, bracketed?_eq_some.1 hinner, rfl⟩
  · rintro ⟨r, tail, n, hr, hform, hfits, rfl, rfl⟩
    have htail := isSign_of_offset hform
    have hv : offset? tail = some (BitVec.ofInt 32 n) :=
      (offset?_eq_some htail).2 ⟨n, hform, hfits, rfl⟩
    exact ⟨r.name ++ tail, bracketed?_eq_some.2 rfl,
      indirect?_eq_some.2 ⟨r, tail, _, hr, rfl, htail, hv, rfl⟩⟩

/-- A loose word is not written as an address, also not as another one. -/
theorem Addresses.not_form {word : Text} {o o' : Operand} (h : Addresses LooseOffset word o) :
    ¬Addresses OffsetForm word o' := by
  rintro ⟨r', tail', n', hr', hform, -, hword, -⟩
  obtain ⟨r, tail, n, hr, hloose, -, rfl, -⟩ := h
  have hinner : r.name ++ tail = r'.name ++ tail' :=
    List.append_cancel_right (List.cons.inj hword).2
  have htail : tail = tail' := by
    rw [← (span_name_append hr (isSign_of_offset (.inr hloose))).2, hinner,
      (span_name_append hr' (isSign_of_offset (.inl hform))).2]
  subst htail
  exact hform.not_loose hloose

theorem operandOf_of_not_addresses {word : Text}
    (hword : ∃ inner, word = byte '[' :: (inner ++ [byte ']']))
    (hform : ¬∃ o, Addresses OffsetForm word o) (hloose : ¬∃ o, Addresses LooseOffset word o) :
    operandOf word = .error (.rejected [] (.notOperand word)) := by
  obtain ⟨inner, hinner⟩ := hword
  have hbracketed := bracketed?_eq_some.2 hinner
  refine (operandOf_of_bracketed? hbracketed).2 (Option.eq_none_iff_forall_ne_some.2 fun o ho => ?_)
  rcases operandOf_eq_ind_iff_addresses.1 (operandOf_eq_ind.2 ⟨inner, hbracketed, ho⟩) with h | h
  · exact hform ⟨o, h⟩
  · exact hloose ⟨o, h⟩

theorem not_readAsWritten_of_loose {word : Text} {o : Operand}
    (h : Addresses LooseOffset word o) : ¬ReadAsWritten word := by
  intro hread
  have hind := operandOf_eq_ind_iff_addresses.2 (Or.inr h)
  exact h.not_form ((hread.1 o).1 hind)

/-- A word is read as it is written, as an address or not at all, exactly if it is not a register in
brackets with a plus sign and nothing or a signed literal after it. Those words are read as addresses
too, and every other word in brackets that is not written as an address is refused. -/
theorem addresses_read_as_written_unless_loose (word : Text) :
    (ReadAsWritten word ↔ ¬∃ o, Addresses LooseOffset word o) ∧
      (∀ o, operandOf word = .ok o ∧ o.kind = .ind ↔
        Addresses OffsetForm word o ∨ Addresses LooseOffset word o) ∧
      ((∃ inner, word = byte '[' :: (inner ++ [byte ']'])) →
        (¬∃ o, Addresses OffsetForm word o) → (¬∃ o, Addresses LooseOffset word o) →
          operandOf word = .error (.rejected [] (.notOperand word))) := by
  refine ⟨⟨?_, fun hloose => ⟨fun o => ?_, fun hword hform => ?_⟩⟩,
    fun o => operandOf_eq_ind_iff_addresses, operandOf_of_not_addresses⟩
  · rintro hread ⟨o, hloose⟩
    exact not_readAsWritten_of_loose hloose hread
  · rw [operandOf_eq_ind_iff_addresses, or_iff_left fun h => hloose ⟨o, h⟩]
  · exact operandOf_of_not_addresses hword hform hloose

/-- A plus sign with nothing after it, and one before a signed literal, are read as offsets. -/
theorem loose_words_read_as_addresses :
    operandOf (text "[r1+]") = .ok (.ofInd ⟨1⟩ 0) ∧ ¬ReadAsWritten (text "[r1+]") ∧
      operandOf (text "[r1+-5]") = .ok (.ofInd ⟨1⟩ (-5)) ∧ ¬ReadAsWritten (text "[r1+-5]") := by
  refine ⟨by decide, not_readAsWritten_of_loose (o := .ofInd ⟨1⟩ 0) ?_, by decide,
    not_readAsWritten_of_loose (o := .ofInd ⟨1⟩ (-5)) ?_⟩
  · exact ⟨⟨1⟩, _, 0, by decide, .lonePlus, by decide, by decide, rfl⟩
  · exact ⟨⟨1⟩, _, -5, by decide, .plusMinus (k := text "5") ⟨by decide, by decide⟩, by decide,
      by decide, rfl⟩

end TapeMachine.Assembler
