import Mathlib.Data.List.Induction
import TapeMachine.Proofs.Resolve

/-! What resolving accepts and what it reports. Entries resolve exactly if every label has a name of
its own and every operand that is a label is declared somewhere. The first label without a name or
with one that is taken is reported before all else, with no tape; where the labels are in order, the
first operand that is not declared is reported, with the instructions before the one it stands in. -/

namespace TapeMachine

namespace Entry

/-- Every label has a name, and no two have the same. -/
structure WellLabelled (es : List Entry) : Prop where
  named : label [] ∉ es
  distinct : (es.filterMap label?).Nodup

instance (es : List Entry) : Decidable (WellLabelled es) :=
  decidable_of_iff (label [] ∉ es ∧ (es.filterMap label?).Nodup)
    ⟨fun h => ⟨h.1, h.2⟩, fun h => ⟨h.named, h.distinct⟩⟩

/-- If the operand is a label, it is declared, before or after. -/
def DeclaredIn (es : List Entry) (o : Operand) : Prop := o.kind = .label → label o.label ∈ es

instance (es : List Entry) (o : Operand) : Decidable (DeclaredIn es o) :=
  inferInstanceAs (Decidable (_ → _))

/-- The first label that cannot be bound, by its error: all labels before it are in order. -/
inductive FirstBadLabel (es : List Entry) : LabelError → Prop
  | unnamed {before after : List Entry} : es = before ++ label [] :: after → WellLabelled before →
      FirstBadLabel es .unnamed
  | duplicate {before after : List Entry} {name : Text} : es = before ++ label name :: after →
      WellLabelled before → label name ∈ before → FirstBadLabel es (.duplicate name)

/-- The first operand that is not declared: all operands of the instructions `before` its own are,
and so are those to its left. -/
def FirstUndeclared (es : List Entry) (before : List Instruction) (o : Operand) : Prop :=
  ∃ i after left right, instructions es = before ++ i :: after ∧ i.operands = left ++ o :: right ∧
    (∀ j ∈ before, ∀ p ∈ j.operands, DeclaredIn es p) ∧ (∀ p ∈ left, DeclaredIn es p) ∧
    ¬DeclaredIn es o

theorem wellLabelled_nil : WellLabelled [] := ⟨List.not_mem_nil, List.nodup_nil⟩

theorem wellLabelled_insn {i : Instruction} {es : List Entry} :
    WellLabelled (insn i :: es) ↔ WellLabelled es := by
  constructor
  · intro h
    exact ⟨fun hmem => h.named (List.mem_cons_of_mem _ hmem), h.distinct⟩
  · intro h
    exact ⟨by simpa using h.named, h.distinct⟩

theorem wellLabelled_label {name : Text} {es : List Entry} :
    WellLabelled (label name :: es) ↔ name ≠ [] ∧ label name ∉ es ∧ WellLabelled es := by
  have hlabels : (label name :: es).filterMap label? = name :: es.filterMap label? := rfl
  constructor
  · intro h
    have hdistinct := h.distinct
    rw [hlabels, List.nodup_cons, mem_filterMap_label?] at hdistinct
    refine ⟨?_, hdistinct.1, fun hmem => h.named (List.mem_cons_of_mem _ hmem), hdistinct.2⟩
    rintro rfl
    exact h.named List.mem_cons_self
  · rintro ⟨hname, hfresh, h⟩
    refine ⟨?_, ?_⟩
    · simpa using ⟨hname, h.named⟩
    · rw [hlabels, List.nodup_cons, mem_filterMap_label?]
      exact ⟨hfresh, h.distinct⟩

/-- A bad label is one: labels in order have none. -/
theorem FirstBadLabel.not_wellLabelled {es : List Entry} {e : LabelError} (h : FirstBadLabel es e) :
    ¬WellLabelled es := by
  intro hes
  cases h with
  | unnamed heq _ => exact hes.named (by simp [heq])
  | @duplicate before after name heq _ hmem =>
      have hdistinct := hes.distinct
      have hlabels : es.filterMap label? =
          before.filterMap label? ++ name :: after.filterMap label? := by
        rw [heq, List.filterMap_append]
        rfl
      rw [hlabels, List.nodup_append] at hdistinct
      exact hdistinct.2.2 name (mem_filterMap_label?.2 hmem) name List.mem_cons_self rfl

end Entry

namespace Resolution

open Entry

/-- Labels bind if they are in order and their names are not bound already. -/
theorem bindLabels_isOk_iff {count : Nat} {table : Bindings Nat} {es : List Entry} :
    (∃ table', bindLabels count table es = (table', none)) ↔
      WellLabelled es ∧ ∀ name, label name ∈ es → table.contains name = false := by
  induction es generalizing count table with
  | nil => simp [bindLabels, wellLabelled_nil]
  | cons e es ih =>
      cases e with
      | insn i =>
          rw [bindLabels, ih, wellLabelled_insn]
          simp
      | label name =>
          simp only [bindLabels_label_ok, exists_and_left, ih, wellLabelled_label, List.mem_cons,
            label.injEq]
          have hinsert (other : Text) :
              (table.insert name count).contains other = false ↔
                other ≠ name ∧ table.contains other = false := by
            rw [Bindings.contains, Bindings.contains, Bindings.get?_insert]
            split_ifs with heq
            · simp [heq]
            · simp [heq]
          simp only [hinsert]
          constructor
          · rintro ⟨hname, hbound, hes, hrest⟩
            refine ⟨⟨hname, fun hmem => (hrest name hmem).1 rfl, hes⟩, ?_⟩
            rintro other (rfl | hmem)
            · exact hbound
            · exact (hrest other hmem).2
          · rintro ⟨⟨hname, hfresh, hes⟩, hrest⟩
            refine ⟨hname, hrest name (Or.inl rfl), hes, fun other hmem => ⟨?_, ?_⟩⟩
            · rintro rfl
              exact hfresh hmem
            · exact hrest other (Or.inr hmem)

/-- Labels that are in order bind to a table of exactly their names. -/
theorem bindLabels_of_wellLabelled {es : List Entry} (h : WellLabelled es) :
    ∃ table, bindLabels 0 {} es = (table, none) ∧
      (∀ name, table.contains name = true ↔ label name ∈ es) ∧
      ∀ name k, table.get? name = some k ↔
        ∃ before after, es = before ++ label name :: after ∧ k = (instructions before).length := by
  obtain ⟨table, hbind⟩ := bindLabels_isOk_iff.2 ⟨h, fun _ _ => Bindings.contains_empty _⟩
  obtain ⟨hentries, hnodup⟩ := bindLabels_ok hbind List.nodup_nil
  have hplaces : table.entries = places 0 es := hentries
  refine ⟨table, hbind, fun name => ?_, fun name k => ?_⟩
  · rw [Bindings.contains_iff_mem_names, Bindings.names, hplaces, map_fst_places,
      mem_filterMap_label?]
  · rw [Bindings.get?_eq_some_iff_mem hnodup, hplaces, mem_places]
    simp

/-- Binding stops at the first bad label. -/
theorem bindLabels_of_firstBadLabel {es : List Entry} {e : LabelError} (h : FirstBadLabel es e) :
    ∃ table, bindLabels 0 {} es = (table, some e) := by
  cases h with
  | unnamed heq hbefore =>
      obtain ⟨table, hbind, -, -⟩ := bindLabels_of_wellLabelled hbefore
      refine ⟨table, ?_⟩
      rw [heq, bindLabels_append hbind]
      rfl
  | @duplicate before after name heq hbefore hmem =>
      obtain ⟨table, hbind, hbound, -⟩ := bindLabels_of_wellLabelled hbefore
      have hname : name.isEmpty = false := by
        rw [List.isEmpty_eq_false_iff]
        rintro rfl
        exact hbefore.named hmem
      refine ⟨table, ?_⟩
      rw [heq, bindLabels_append hbind, bindLabels, hname, if_neg Bool.false_ne_true,
        if_pos ((hbound name).2 hmem)]

/-- Labels that are not in order have a first one that is bad. -/
theorem exists_firstBadLabel {es : List Entry} (h : ¬WellLabelled es) : ∃ e, FirstBadLabel es e := by
  induction es using List.reverseRecOn with
  | nil => exact absurd wellLabelled_nil h
  | append_singleton es e ih =>
      by_cases hes : WellLabelled es
      · cases e with
        | insn i =>
            have hlabels : (es ++ [insn i]).filterMap label? = es.filterMap label? := by
              rw [List.filterMap_append]
              exact List.append_nil _
            exact absurd ⟨by simpa using hes.named, hlabels ▸ hes.distinct⟩ h
        | label name =>
            by_cases hname : name = []
            · subst hname
              exact ⟨_, .unnamed rfl hes⟩
            · by_cases hmem : label name ∈ es
              · exact ⟨_, .duplicate rfl hes hmem⟩
              · refine absurd ⟨?_, ?_⟩ h
                · simpa [eq_comm] using ⟨hes.named, hname⟩
                · rw [List.filterMap_append]
                  refine List.nodup_append.2 ⟨hes.distinct, List.nodup_singleton name, ?_⟩
                  rintro other hother _ hsingle rfl
                  rw [List.mem_singleton.1 hsingle] at hother
                  exact hmem (mem_filterMap_label?.1 hother)
      · obtain ⟨_, hbad⟩ := ih hes
        cases hbad with
        | @unnamed before after heq hbefore =>
            have hmore : es ++ [e] = before ++ label [] :: (after ++ [e]) := by simp [heq]
            exact ⟨_, .unnamed hmore hbefore⟩
        | @duplicate before after name heq hbefore hmem =>
            have hmore : es ++ [e] = before ++ label name :: (after ++ [e]) := by simp [heq]
            exact ⟨_, .duplicate hmore hbefore hmem⟩

/-! ### References -/

/-- The label that an instruction misses first is that of its first operand whose label is not
bound. -/
theorem missing?_eq_find? (table : Bindings Nat) (i : Instruction) :
    missing? table i =
      (i.operands.find? fun o => o.kind = .label && !table.contains o.label).map Operand.label := by
  rw [missing?, Instruction.labelRefs, List.find?_map, List.find?_filter]
  congr 2
  funext o
  simp

section

variable {es : List Entry} {table : Bindings Nat}
  (hbound : ∀ name, table.contains name = true ↔ label name ∈ es)

include hbound

theorem missing?_isNone_iff {i : Instruction} :
    missing? table i = none ↔ ∀ o ∈ i.operands, DeclaredIn es o := by
  rw [missing?_eq_find?, Option.map_eq_none_iff, List.find?_eq_none]
  simp [DeclaredIn, ← hbound]

theorem missing?_of_undeclared {i : Instruction} {left right : List Operand} {o : Operand}
    (hi : i.operands = left ++ o :: right) (hleft : ∀ p ∈ left, DeclaredIn es p)
    (ho : ¬DeclaredIn es o) : missing? table i = some o.label := by
  rw [missing?_eq_find?, Option.map_eq_some_iff]
  refine ⟨o, List.find?_eq_some_iff_append.2 ⟨?_, left, right, hi, fun p hp => ?_⟩, rfl⟩
  · simpa [DeclaredIn, ← hbound] using ho
  · simpa [DeclaredIn, ← hbound, imp_iff_not_or] using hleft p hp

/-- Stripping stops at the first operand that is not declared. -/
theorem stripLabels_of_firstUndeclared {before : List Instruction} {o : Operand}
    (h : FirstUndeclared es before o) :
    stripLabels table es = (before, some (.missing o.label)) := by
  obtain ⟨i, after, left, right, hes, hi, hbefore, hleft, ho⟩ := h
  have hmissing : missing? table i = some o.label := missing?_of_undeclared hbound hi hleft ho
  have hfound : ∀ j ∈ before, missing? table j = none := fun j hj =>
    (missing?_isNone_iff hbound).2 (hbefore j hj)
  refine Prod.ext ?_ ?_
  · rw [stripLabels_fst, hes, List.takeWhile_append_of_pos fun j hj => by simp [hfound j hj],
      List.takeWhile_cons_of_neg (by simp [hmissing]), List.append_nil]
  · rw [stripLabels_snd, hes, List.findSome?_append, List.findSome?_eq_none_iff.2 hfound,
      List.findSome?_cons_of_isSome]
    · simp [hmissing]
    · simp [hmissing]

theorem stripLabels_isOk_iff :
    (stripLabels table es).2 = none ↔ ∀ i ∈ instructions es, ∀ o ∈ i.operands, DeclaredIn es o := by
  rw [stripLabels_snd, Option.map_eq_none_iff, List.findSome?_eq_none_iff]
  exact forall₂_congr fun i _ => missing?_isNone_iff hbound

end

end Resolution

open Entry Resolution

variable {es : List Entry}

theorem exists_first_not {α : Type} {P : α → Prop} {l : List α} (h : ¬∀ x ∈ l, P x) :
    ∃ before x after, l = before ++ x :: after ∧ (∀ y ∈ before, P y) ∧ ¬P x := by
  induction l with
  | nil => simp at h
  | cons x l ih =>
      by_cases hx : P x
      · have hrest : ¬∀ y ∈ l, P y := fun hall => h (List.forall_mem_cons.2 ⟨hx, hall⟩)
        obtain ⟨before, y, after, rfl, hbefore, hy⟩ := ih hrest
        exact ⟨x :: before, y, after, rfl, List.forall_mem_cons.2 ⟨hx, hbefore⟩, hy⟩
      · exact ⟨[], x, l, rfl, by simp, hx⟩

/-- Operands that are not all declared have a first one that is not. -/
theorem exists_firstUndeclared_iff :
    (∃ before o, FirstUndeclared es before o) ↔
      ¬∀ i ∈ instructions es, ∀ o ∈ i.operands, DeclaredIn es o := by
  constructor
  · rintro ⟨before, o, i, after, left, right, hes, hi, -, -, ho⟩ hall
    exact ho (hall i (by simp [hes]) o (by simp [hi]))
  · intro h
    obtain ⟨before, i, after, hes, hbefore, hi⟩ := exists_first_not h
    obtain ⟨left, o, right, hoperands, hleft, ho⟩ := exists_first_not hi
    exact ⟨before, o, i, after, left, right, hes, hoperands, hbefore, hleft, ho⟩

theorem resolve_of_firstBadLabel {e : LabelError} (h : FirstBadLabel es e) :
    (resolve es).error = some e ∧ (resolve es).tape = [] := by
  obtain ⟨table, hbind⟩ := bindLabels_of_firstBadLabel h
  rw [resolve, hbind]
  exact ⟨rfl, rfl⟩

theorem resolve_of_firstUndeclared (hes : WellLabelled es) {before : List Instruction} {o : Operand}
    (h : FirstUndeclared es before o) :
    (resolve es).error = some (.missing o.label) ∧ (resolve es).tape = before := by
  obtain ⟨table, hbind, hbound, -⟩ := bindLabels_of_wellLabelled hes
  rw [resolve_of_bindLabels hbind, stripLabels_of_firstUndeclared hbound h]
  exact ⟨rfl, rfl⟩

theorem resolve_error_eq_none_iff :
    (resolve es).error = none ↔
      WellLabelled es ∧ ∀ i ∈ instructions es, ∀ o ∈ i.operands, DeclaredIn es o := by
  by_cases hes : WellLabelled es
  · obtain ⟨table, hbind, hbound, -⟩ := bindLabels_of_wellLabelled hes
    rw [resolve_of_bindLabels hbind, stripLabels_isOk_iff hbound]
    exact (and_iff_right hes).symm
  · obtain ⟨e, hbad⟩ := exists_firstBadLabel hes
    simp [(resolve_of_firstBadLabel hbad).1, hes]

/-- Entries resolve exactly if their labels are in order and every operand that is a label is
declared; then the tape has all their instructions. Labels in order are bound to the number of
instructions before them, and no other name is. Where labels are not in order, the first bad one is
the error, and the tape is empty; else the first operand that is not declared is, and the tape has
the instructions before its own. -/
theorem resolve_reports_first_defect (es : List Entry) :
    ((resolve es).error = none ↔
        WellLabelled es ∧ ∀ i ∈ instructions es, ∀ o ∈ i.operands, DeclaredIn es o) ∧
      ((resolve es).error = none → (resolve es).tape = instructions es) ∧
      (WellLabelled es → ∀ name k, (resolve es).labels.get? name = some k ↔
        ∃ before after, es = before ++ label name :: after ∧ k = (instructions before).length) ∧
      (¬WellLabelled es ↔ ∃ e, FirstBadLabel es e) ∧
      (∀ e, FirstBadLabel es e → (resolve es).error = some e ∧ (resolve es).tape = []) ∧
      ((¬∀ i ∈ instructions es, ∀ o ∈ i.operands, DeclaredIn es o) ↔
        ∃ before o, FirstUndeclared es before o) ∧
      (WellLabelled es → ∀ before o, FirstUndeclared es before o →
        (resolve es).error = some (.missing o.label) ∧ (resolve es).tape = before) := by
  refine ⟨resolve_error_eq_none_iff, fun hok => (resolve_ok hok).2.2, fun hes name k => ?_,
    ⟨exists_firstBadLabel, ?_⟩, fun e => resolve_of_firstBadLabel, exists_firstUndeclared_iff.symm,
    fun hes before o => resolve_of_firstUndeclared hes⟩
  · obtain ⟨table, hbind, -, hget⟩ := bindLabels_of_wellLabelled hes
    rw [resolve_of_bindLabels hbind]
    exact hget name k
  · rintro ⟨e, hbad⟩
    exact hbad.not_wellLabelled

/-- Declares two labels and refers to two others, from its second instruction. -/
def danglingEntries : List Entry :=
  [.insn (.ja (.ofLabel (text "end"))), .label (text "a"),
    .insn (.jump .eq ⟨1⟩ (.ofLabel (text "x")) (.ofLabel (text "y"))), .label (text "end")]

/-- Missing labels are reported in order, a label declared twice before them, and neither where the
missing ones are declared at the end. -/
theorem danglingEntries_report_first_defect :
    (FirstUndeclared danglingEntries [.ja (.ofLabel (text "end"))] (.ofLabel (text "x")) ∧
      (resolve danglingEntries).error = some (.missing (text "x")) ∧
      (resolve danglingEntries).tape = [.ja (.ofLabel (text "end"))]) ∧
    (FirstBadLabel (danglingEntries ++ [.label (text "a")]) (.duplicate (text "a")) ∧
      (resolve (danglingEntries ++ [.label (text "a")])).error = some (.duplicate (text "a")) ∧
      (resolve (danglingEntries ++ [.label (text "a")])).tape = []) ∧
    (resolve (danglingEntries ++ [.label (text "x"), .label (text "y")])).error = none ∧
      (resolve (danglingEntries ++ [.label (text "x"), .label (text "y")])).labels.get? (text "a") =
        some 1 := by
  have hdangling := resolve_reports_first_defect danglingEntries
  have hdoubled := resolve_reports_first_defect (danglingEntries ++ [.label (text "a")])
  have hdeclared := resolve_reports_first_defect
    (danglingEntries ++ [.label (text "x"), .label (text "y")])
  have hfirst :
      FirstUndeclared danglingEntries [.ja (.ofLabel (text "end"))] (.ofLabel (text "x")) :=
    ⟨_, [], [.ofReg ⟨1⟩], [.ofLabel (text "y")], rfl, rfl, by decide, by decide, by decide⟩
  have hbad : FirstBadLabel (danglingEntries ++ [.label (text "a")]) (.duplicate (text "a")) :=
    .duplicate rfl (by decide) (by decide)
  refine ⟨⟨hfirst, hdangling.2.2.2.2.2.2 (by decide) _ _ hfirst⟩,
    ⟨hbad, hdoubled.2.2.2.2.1 _ hbad⟩, hdeclared.1.2 ⟨by decide, by decide⟩, ?_⟩
  exact (hdeclared.2.2.1 (by decide) (text "a") 1).2 ⟨danglingEntries.take 1, _, rfl, rfl⟩

end TapeMachine
