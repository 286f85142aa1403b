import TapeMachine.Expression.Token
import TapeMachine.Proofs.Rewriting

/-! Names among the tokens of an expression. What follows a token in the text is what is left of the
text, and a name token is the text it was read from. So a name of letters among the tokens occurs in
the text of the expression. -/

namespace TapeMachine.Expression

namespace Literal

theorem spanDigits_suffix (base : Nat) (t : Text) : (spanDigits base t).2 <:+ t := by
  rw [spanDigits, List.span_eq_takeWhile_dropWhile]
  exact List.dropWhile_suffix _

theorem marked?_suffix {base : Nat} {t rest : Text} {n : Number}
    (h : marked? base t = some (n, rest)) : rest <:+ t := by
  simp only [marked?] at h
  split_ifs at h
  cases h
  exact spanDigits_suffix base t

theorem exponent?_suffix {t rest : Text} {e : Int} (h : exponent? t = some (e, rest)) :
    rest <:+ t := by
  have hsign : (Text.splitSign t).2 <:+ t := by
    unfold Text.splitSign
    split
    · exact List.suffix_cons _ _
    · exact List.suffix_cons _ _
    · exact List.suffix_refl _
  simp only [exponent?] at h
  split_ifs at h
  · cases h
    exact (spanDigits_suffix 10 _).trans hsign
  · cases h
    exact (spanDigits_suffix 10 _).trans hsign

theorem floatTail?_suffix {whole frac t rest : Text} {n : Number}
    (h : floatTail? whole frac t = some (n, rest)) : rest <:+ t := by
  have hcomplete : ∀ (e : Int) (u : Text),
      (float? (whole ++ frac) (e - frac.length)).map (·, u) = some (n, rest) → rest = u := by
    intro e u heq
    obtain ⟨_, _, heq⟩ := Option.map_eq_some_iff.1 heq
    cases heq
    rfl
  unfold floatTail? at h
  dsimp only at h
  split at h
  · split_ifs at h
    · split at h
      · rename_i he
        rw [hcomplete _ _ h]
        exact (exponent?_suffix he).trans (List.suffix_cons _ _)
      · cases h
    · rw [hcomplete _ _ h]
  · rw [hcomplete _ _ h]

theorem whole?_rest {ds t rest : Text} {n : Number} (h : whole? ds t = some (n, rest)) : rest = t := by
  rw [whole?] at h
  split_ifs at h
  cases h
  rfl

theorem decimal?_suffix {t rest : Text} {n : Number} (h : decimal? t = some (n, rest)) :
    rest <:+ t := by
  have hspan := spanDigits_suffix 10 t
  simp only [decimal?] at h
  split at h
  · rename_i frac heq
    rw [heq] at hspan
    have hfrac := (floatTail?_suffix h).trans (spanDigits_suffix 10 frac)
    exact (hfrac.trans (List.suffix_cons _ frac)).trans hspan
  · split_ifs at h
    · exact (floatTail?_suffix h).trans hspan
    · rw [whole?_rest h]
      exact hspan
  · rw [whole?_rest h]
    exact hspan

theorem number?_suffix {t rest : Text} {n : Number} (h : number? t = some (n, rest)) :
    rest <:+ t := by
  unfold number? at h
  split at h
  · rename_i mark body
    have hbody : body <:+ 0x30 :: mark :: body :=
      (List.suffix_cons mark body).trans (List.suffix_cons _ _)
    split_ifs at h
    · exact (marked?_suffix h).trans hbody
    · exact (marked?_suffix h).trans hbody
    · exact (marked?_suffix h).trans hbody
    · exact decimal?_suffix h
  · exact decimal?_suffix h

theorem opening?_suffix {t rest : Text} {o : Opening} (h : opening? t = some (o, rest)) :
    rest <:+ t := by
  unfold opening? at h
  split at h
  · split_ifs at h
    cases h
    exact List.suffix_append [_, _, _] rest
  · split_ifs at h
    cases h
    exact List.suffix_append [_, _] rest
  · split_ifs at h
    cases h
    exact List.suffix_append [_, _] rest
  · split_ifs at h
    cases h
    exact List.suffix_cons _ rest
  · cases h

theorem body?_suffix {quote : UInt8} {t body rest : Text} (h : body? quote t = some (body, rest)) :
    rest <:+ t := by
  fun_induction body? quote t generalizing body rest with
  | case1 b t ih =>
      obtain ⟨⟨found, left⟩, hfound, heq⟩ := Option.map_eq_some_iff.1 h
      cases heq
      exact (ih hfound).trans (List.suffix_append [_, b] t)
  | case2 t _ =>
      cases h
      exact List.suffix_cons _ _
  | case3 => cases h
  | case4 b t _ _ _ ih =>
      obtain ⟨⟨found, left⟩, hfound, heq⟩ := Option.map_eq_some_iff.1 h
      cases heq
      exact (ih hfound).trans (List.suffix_cons b t)
  | case5 => cases h

theorem longBody?_suffix {quote : UInt8} {t body rest : Text}
    (h : longBody? quote t = some (body, rest)) : rest <:+ t := by
  fun_induction longBody? quote t generalizing body rest with
  | case1 b t ih =>
      obtain ⟨⟨found, left⟩, hfound, heq⟩ := Option.map_eq_some_iff.1 h
      cases heq
      exact (ih hfound).trans (List.suffix_append [_, b] t)
  | case2 => cases h
  | case3 b t _ _ _ =>
      cases h
      exact (List.drop_suffix 2 t).trans (List.suffix_cons b t)
  | case4 b t _ _ _ ih =>
      obtain ⟨⟨found, left⟩, hfound, heq⟩ := Option.map_eq_some_iff.1 h
      cases heq
      exact (ih hfound).trans (List.suffix_cons b t)
  | case5 => cases h

theorem string?_suffix {o : Opening} {t body rest : Text} (h : string? o t = some (body, rest)) :
    rest <:+ t := by
  have hread : ∀ raw left, (if [o.quote, o.quote].isPrefixOf t then longBody? o.quote (t.drop 2)
      else body? o.quote t) = some (raw, left) → left <:+ t := by
    intro raw left hread
    split_ifs at hread
    · exact (longBody?_suffix hread).trans (List.drop_suffix 2 t)
    · exact body?_suffix hread
  simp only [string?] at h
  split at h
  · cases h
  · rename_i raw left hfound
    have hleft := hread raw left hfound
    split_ifs at h
    · cases h
      exact hleft
    · obtain ⟨_, _, heq⟩ := Option.map_eq_some_iff.1 h
      cases heq
      exact hleft

end Literal

namespace Token

open Text

theorem prefix_nameTail (skip : Nat) (t : Text) : nameTail skip t <+: t := by
  induction t generalizing skip with
  | nil => cases skip <;> exact List.prefix_refl []
  | cons b t ih =>
      cases skip with
      | succ skip => exact List.cons_prefix_cons.2 ⟨rfl, ih skip⟩
      | zero =>
          rw [nameTail]
          cases nameWidth false (b :: t) with
          | zero => exact List.nil_prefix
          | succ width => exact List.cons_prefix_cons.2 ⟨rfl, ih width⟩

theorem prefix_leadingName (t : Text) : leadingName t <+: t := by
  cases t with
  | nil => exact List.prefix_refl []
  | cons b t =>
      rw [leadingName]
      cases nameWidth true (b :: t) with
      | zero => exact List.nil_prefix
      | succ width => exact List.cons_prefix_cons.2 ⟨rfl, prefix_nameTail width t⟩

theorem eq_of_ofWord_eq_name {w x : Text} (h : ofWord w = .name x) : w = x := by
  unfold ofWord at h
  split at h
  · cases h
  · split_ifs at h
    cases h
    rfl

theorem operator?_suffix {t rest : Text} {s : Symbol} (h : operator? t = some (s, rest)) :
    rest <:+ t := by
  unfold operator? at h
  split at h <;> cases h
  all_goals first
    | exact List.suffix_append [_, _] _
    | exact List.suffix_cons _ _

theorem mark?_suffix {t rest : Text} {s : Symbol} (h : mark? t = some (s, rest)) : rest <:+ t := by
  unfold mark? at h
  split at h <;> cases h
  all_goals first
    | exact List.suffix_append [_, _] _
    | exact List.suffix_cons _ _

/-- A symbol is no name, and leaves what follows it. -/
theorem symbol?_eq_some {t rest : Text} {tok : Token} (h : symbol? t = some (tok, rest)) :
    rest <:+ t ∧ ∀ x, tok ≠ .name x := by
  unfold symbol? at h
  split_ifs at h
  · cases h
    exact ⟨List.drop_suffix 2 t, nofun⟩
  · split at h
    · rename_i heq
      cases h
      exact ⟨(List.suffix_cons _ _).trans (operator?_suffix heq), nofun⟩
    · rename_i heq
      cases h
      exact ⟨operator?_suffix heq, nofun⟩
    · obtain ⟨⟨s, left⟩, hmark, heq⟩ := Option.map_eq_some_iff.1 h
      cases heq
      exact ⟨mark?_suffix hmark, nofun⟩

/-- A token leaves what follows it in the text, and a name is what the text starts with. -/
theorem first?_eq_some {b : UInt8} {t rest : Text} {tok : Token} (h : first? b t = some (tok, rest)) :
    rest <:+ b :: t ∧ ∀ x, tok = .name x → x <+: b :: t := by
  unfold first? at h
  split_ifs at h
  · obtain ⟨⟨n, left⟩, hnumber, heq⟩ := Option.map_eq_some_iff.1 h
    cases heq
    refine ⟨Literal.number?_suffix hnumber, fun x hx => ?_⟩
    cases n <;> cases hx
  · split at h
    · rename_i o opened hopening
      obtain ⟨⟨body, left⟩, hstring, heq⟩ := Option.map_eq_some_iff.1 h
      cases heq
      refine ⟨(Literal.string?_suffix hstring).trans (Literal.opening?_suffix hopening), fun x hx => ?_⟩
      cases ho : o.bytes <;> rw [ho] at hx <;> cases hx
    · dsimp only at h
      split_ifs at h
      · obtain ⟨hrest, hname⟩ := symbol?_eq_some h
        exact ⟨hrest, fun x hx => absurd hx (hname x)⟩
      · cases h
        refine ⟨List.drop_suffix _ _, fun x hx => ?_⟩
        rw [← eq_of_ofWord_eq_name hx]
        exact prefix_leadingName _

theorem column_suffix (count col : Nat) (t : Text) : (Layout.column count col t).2 <:+ t := by
  induction t generalizing count col with
  | nil => exact List.suffix_refl []
  | cons b t ih =>
      rw [Layout.column]
      split_ifs
      · exact (ih _ _).trans (List.suffix_cons b t)
      · exact (ih _ _).trans (List.suffix_cons b t)
      · exact List.suffix_refl _

theorem name_not_mem_finish (l : Layout) (x : Text) : .name x ∉ l.finish := by
  rw [Layout.finish]
  split_ifs <;> simp

theorem name_not_mem_close {col : Nat} {indents left : List Nat} {ts : List Token}
    (h : Layout.close? col indents = some (left, ts)) (x : Text) : .name x ∉ ts := by
  induction indents generalizing left ts with
  | nil =>
      rw [Layout.close?] at h
      split_ifs at h
      cases h
      exact List.not_mem_nil
  | cons top below ih =>
      rw [Layout.close?] at h
      split_ifs at h
      · obtain ⟨⟨indents, more⟩, hmore, heq⟩ := Option.map_eq_some_iff.1 h
        cases heq
        simpa using ih hmore
      · cases h
        exact List.not_mem_nil

theorem name_not_mem_enter {col : Nat} {indents left : List Nat} {ts : List Token}
    (h : Layout.enter? col indents = some (left, ts)) (x : Text) : .name x ∉ ts := by
  rw [Layout.enter?] at h
  split_ifs at h
  · cases h
    simp
  · exact name_not_mem_close h x

/-- A name among the tokens of a text is a part of the text. The induction is on the steps of the
scanner, each of which goes on with what is left of the text. -/
theorem infix_of_name_mem_scan {fuel : Nat} {l : Layout} {t x : Text} {ts : List Token}
    (h : scan? fuel l t = some ts) (hx : .name x ∈ ts) : x <:+: t := by
  induction fuel generalizing l t ts with
  | zero =>
      cases h
      cases hx
  | succ fuel ih =>
      unfold scan? at h
      by_cases hstart : l.start = true
      · rw [if_pos hstart] at h
        have hcolumn := column_suffix 0 0 t
        obtain ⟨col, left⟩ := Layout.column 0 0 t
        dsimp only at h hcolumn
        split_ifs at h
        · exact (ih h hx).trans hcolumn.isInfix
        · split at h
          · cases h
          · rename_i indents opened henter
            obtain ⟨more, hmore, rfl⟩ := Option.map_eq_some_iff.1 h
            rcases List.mem_append.1 hx with hx | hx
            · exact absurd hx (name_not_mem_enter henter x)
            · exact (ih hmore hx).trans hcolumn.isInfix
      · rw [if_neg hstart] at h
        cases t with
        | nil =>
            cases h
            exact absurd hx (name_not_mem_finish l x)
        | cons b t =>
            dsimp only at h
            split_ifs at h
            · cases h
              exact absurd hx (name_not_mem_finish l x)
            · exact List.infix_cons (ih h hx)
            · exact List.infix_cons ((ih h hx).trans (List.dropWhile_suffix _).isInfix)
            · exact List.infix_cons (ih h hx)
            · obtain ⟨more, hmore, rfl⟩ := Option.map_eq_some_iff.1 h
              have hx : .name x ∈ more := by simpa using hx
              exact List.infix_cons (ih hmore hx)
            · split at h
              · exact List.infix_cons (List.infix_cons (ih h hx))
              · cases h
            · split at h
              · cases h
              · rename_i tok rest hfirst
                obtain ⟨hrest, hname⟩ := first?_eq_some hfirst
                split at h
                · cases h
                · obtain ⟨more, hmore, rfl⟩ := Option.map_eq_some_iff.1 h
                  rcases List.mem_cons.1 hx with hx | hx
                  · exact (hname x hx.symm).isInfix
                  · exact (ih hmore hx).trans hrest.isInfix

theorem rewritten_unixLines (t : Text) : Rewritten t (unixLines t) := by
  fun_induction unixLines t with
  | case1 rest ih => exact .swap [13, 10] (List.cons_ne_nil 10 []) (List.forall_mem_singleton.2 rfl) ih
  | case2 rest _ ih => exact .swap [13] (List.cons_ne_nil 10 []) (List.forall_mem_singleton.2 rfl) ih
  | case3 b rest _ _ ih => exact .keep b ih
  | case4 => exact .nil

/-- A name of letters among the tokens occurs in the text. -/
theorem infix_of_name_mem_tokens {t x : Text} {ts : List Token} (h : tokens? t = some ts)
    (hne : x ≠ []) (hx : ∀ b ∈ x, isLetter b = true) (hmem : .name x ∈ ts) : x <:+: t := by
  have hscanned := infix_of_name_mem_scan h hmem
  have hrepaired := (rewritten_unixLines _).infix_of_letters hne hx hscanned
  exact (rewritten_repaired t).infix_of_letters hne hx hrepaired

end Token

end TapeMachine.Expression
