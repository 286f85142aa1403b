import Mathlib.Data.List.TakeWhile
import TapeMachine.Program
import TapeMachine.Proofs.Bindings

/-! What resolving gives. Binding labels is a fold along the entries that collects each label with
the number of instructions before it, and stripping labels keeps the instructions up to the first
one with a missing label. Entries that resolve have the table `places 0` and the tape of all their
instructions. -/

namespace TapeMachine

theorem Instruction.mem_labelRefs {i : Instruction} {o : Operand} (ho : o ∈ i.operands)
    (hkind : o.kind = .label) : o.label ∈ i.labelRefs :=
  List.mem_map.2 ⟨o, List.mem_filter.2 ⟨ho, decide_eq_true hkind⟩, rfl⟩

namespace Entry

/-- The instructions among some entries, in order. -/
def instructions (es : List Entry) : List Instruction := es.filterMap insn?

/-- The labels among some entries, each with the number of instructions before it, of which
`count` stand before the first entry. -/
def places : Nat → List Entry → List (Text × Nat)
  | _, [] => []
  | count, insn _ :: rest => places (count + 1) rest
  | count, label name :: rest => (name, count) :: places count rest

@[simp] theorem instructions_nil : instructions [] = [] := rfl

@[simp] theorem instructions_insn (i : Instruction) (es : List Entry) :
    instructions (insn i :: es) = i :: instructions es := rfl

@[simp] theorem instructions_label (name : Text) (es : List Entry) :
    instructions (label name :: es) = instructions es := rfl

@[simp] theorem instructions_append (es fs : List Entry) :
    instructions (es ++ fs) = instructions es ++ instructions fs := List.filterMap_append

theorem mem_instructions {i : Instruction} {es : List Entry} :
    i ∈ instructions es ↔ insn i ∈ es := by
  rw [instructions, List.mem_filterMap]
  constructor
  · rintro ⟨e, he, hi⟩
    cases e with
    | label name => cases hi
    | insn j =>
        cases hi
        exact he
  · exact fun he => ⟨insn i, he, rfl⟩

theorem mem_filterMap_label? {name : Text} {es : List Entry} :
    name ∈ es.filterMap label? ↔ label name ∈ es := by
  rw [List.mem_filterMap]
  constructor
  · rintro ⟨e, he, heq⟩
    cases e with
    | label _ =>
        cases heq
        exact he
    | insn _ => cases heq
  · exact fun h => ⟨_, h, rfl⟩

theorem map_fst_places (count : Nat) (es : List Entry) :
    (places count es).map Prod.fst = es.filterMap label? := by
  induction es generalizing count with
  | nil => rfl
  | cons e es ih =>
      cases e with
      | insn i => exact ih (count + 1)
      | label name => exact congrArg _ (ih count)

/-- A label is bound to the number of instructions that precede its declaration. -/
theorem mem_places {count k : Nat} {name : Text} {es : List Entry} :
    (name, k) ∈ places count es ↔
      ∃ before after, es = before ++ label name :: after ∧
        k = count + (instructions before).length := by
  induction es generalizing count with
  | nil => simp [places]
  | cons e es ih =>
      cases e with
      | insn i =>
          rw [places, ih]
          constructor
          · rintro ⟨before, after, rfl, rfl⟩
            exact ⟨insn i :: before, after, rfl, by simp; omega⟩
          · rintro ⟨before, after, hes, rfl⟩
            cases before with
            | nil => cases hes
            | cons e before =>
                injection hes with he hes
                subst he hes
                exact ⟨before, after, rfl, by simp; omega⟩
      | label other =>
          rw [places, List.mem_cons, ih]
          constructor
          · rintro (heq | ⟨before, after, rfl, rfl⟩)
            · cases heq
              exact ⟨[], es, rfl, rfl⟩
            · exact ⟨label other :: before, after, rfl, rfl⟩
          · rintro ⟨before, after, hes, rfl⟩
            cases before with
            | nil =>
                injection hes with he hes
                cases he
                exact Or.inl rfl
            | cons e before =>
                injection hes with he hes
                subst he hes
                exact Or.inr ⟨before, after, rfl, rfl⟩

end Entry

namespace Resolution

open Entry

/-- Binding labels goes on behind a label only if it has a name that is not bound yet. -/
theorem bindLabels_label_ok {count : Nat} {table table' : Bindings Nat} {name : Text}
    {es : List Entry} :
    bindLabels count table (.label name :: es) = (table', none) ↔
      name ≠ [] ∧ table.contains name = false ∧
        bindLabels count (table.insert name count) es = (table', none) := by
  rw [bindLabels]
  by_cases hempty : name.isEmpty
  · simp [List.isEmpty_iff.1 hempty]
  · cases hbound : table.contains name with
    | true => simp [hempty]
    | false => simp [hempty, List.isEmpty_iff.not.1 hempty]

theorem bindLabels_append {count : Nat} {table table' : Bindings Nat} {es : List Entry}
    (hok : bindLabels count table es = (table', none)) (fs : List Entry) :
    bindLabels count table (es ++ fs) =
      bindLabels (count + (instructions es).length) table' fs := by
  induction es generalizing count table with
  | nil =>
      cases hok
      rfl
  | cons e es ih =>
      cases e with
      | insn i =>
          rw [List.cons_append, bindLabels, ih hok, instructions_insn, List.length_cons]
          congr 1
          omega
      | label name =>
          obtain ⟨hempty, hbound, hrest⟩ := bindLabels_label_ok.1 hok
          rw [List.cons_append, bindLabels, if_neg (by simpa using hempty), hbound,
            if_neg Bool.false_ne_true, ih hrest, instructions_label]

/-- Binding labels that succeeds adds them all to the table, and binds no name twice. -/
theorem bindLabels_ok {count : Nat} {table table' : Bindings Nat} {es : List Entry}
    (hok : bindLabels count table es = (table', none)) (hnodup : table.names.Nodup) :
    table'.entries = table.entries ++ places count es ∧ table'.names.Nodup := by
  induction es generalizing count table with
  | nil =>
      cases hok
      exact ⟨by simp [places], hnodup⟩
  | cons e es ih =>
      cases e with
      | insn i => exact ih hok hnodup
      | label name =>
          obtain ⟨_, hbound, hrest⟩ := bindLabels_label_ok.1 hok
          have hentries := Bindings.entries_insert_of_fresh table count hbound
          have hnames : (table.insert name count).names.Nodup := by
            have hnot : name ∉ table.names := by
              rw [← Bindings.contains_iff_mem_names, hbound]
              exact Bool.false_ne_true
            rw [Bindings.names, hentries, List.map_append]
            exact List.Nodup.append hnodup (List.nodup_singleton name)
              (List.disjoint_singleton.2 hnot)
          obtain ⟨hplaces, htable⟩ := ih hrest hnames
          refine ⟨?_, htable⟩
          rw [hplaces, hentries, places, List.append_assoc, List.singleton_append]

/-- Stripping labels gives the instructions before the first with a missing label. -/
theorem stripLabels_fst (table : Bindings Nat) (es : List Entry) :
    (stripLabels table es).1 = (instructions es).takeWhile fun i => (missing? table i).isNone := by
  induction es with
  | nil => rfl
  | cons e es ih =>
      cases e with
      | label name => exact ih
      | insn i =>
          rw [stripLabels, instructions_insn]
          cases hmissing : missing? table i with
          | some name => simp [hmissing]
          | none => simp [hmissing, ih]

/-- Stripping labels reports the first missing label. -/
theorem stripLabels_snd (table : Bindings Nat) (es : List Entry) :
    (stripLabels table es).2 =
      ((instructions es).findSome? (missing? table)).map LabelError.missing := by
  induction es with
  | nil => rfl
  | cons e es ih =>
      cases e with
      | label name => exact ih
      | insn i =>
          rw [stripLabels, instructions_insn]
          cases hmissing : missing? table i with
          | some name => simp [hmissing]
          | none => simp [hmissing, ih]

theorem missing?_eq_none {table : Bindings Nat} {i : Instruction} :
    missing? table i = none ↔ ∀ name ∈ i.labelRefs, table.contains name = true := by
  rw [missing?, List.find?_eq_none]
  simp

theorem missing?_eq_some {table : Bindings Nat} {i : Instruction} {name : Text}
    (h : missing? table i = some name) : name ∈ i.labelRefs ∧ table.contains name = false := by
  rw [missing?] at h
  exact ⟨List.mem_of_find?_eq_some h, by simpa using List.find?_some h⟩

end Resolution

open Entry Resolution

variable {es : List Entry}

/-- Labels that bind leave only missing ones to be reported. -/
theorem resolve_of_bindLabels {table : Bindings Nat}
    (hbind : bindLabels 0 {} es = (table, none)) :
    resolve es =
      { labels := table
        tape := (stripLabels table es).1
        error := (stripLabels table es).2 } := by
  rw [resolve, hbind]

theorem resolve_ok (hok : (resolve es).error = none) :
    bindLabels 0 {} es = ((resolve es).labels, none) ∧
      (stripLabels (resolve es).labels es).2 = none ∧
      (resolve es).tape = instructions es := by
  cases hbind : bindLabels 0 {} es with
  | mk table error =>
      cases error with
      | some e =>
          rw [resolve, hbind] at hok
          cases hok
      | none =>
          rw [resolve_of_bindLabels hbind] at hok ⊢
          refine ⟨rfl, hok, ?_⟩
          have hall : (instructions es).findSome? (missing? table) = none := by
            simpa [stripLabels_snd] using hok
          rw [List.findSome?_eq_none_iff] at hall
          rw [stripLabels_fst]
          exact List.takeWhile_eq_self_iff.2 fun i hi => by rw [hall i hi]; rfl

theorem resolve_labels_entries (hok : (resolve es).error = none) :
    (resolve es).labels.entries = places 0 es ∧ (resolve es).labels.names.Nodup := by
  obtain ⟨hentries, hnodup⟩ := bindLabels_ok (resolve_ok hok).1 List.nodup_nil
  exact ⟨hentries, hnodup⟩

/-- A resolved label is bound to the number of instructions that precede its declaration. -/
theorem resolve_get?_eq_some (hok : (resolve es).error = none) {name : Text} {k : Nat} :
    (resolve es).labels.get? name = some k ↔
      ∃ before after, es = before ++ label name :: after ∧ k = (instructions before).length := by
  obtain ⟨hentries, hnodup⟩ := resolve_labels_entries hok
  rw [Bindings.get?_eq_some_iff_mem hnodup, hentries, mem_places]
  simp

theorem resolve_target_le (hok : (resolve es).error = none) {name : Text} {k : Nat}
    (hget : (resolve es).labels.get? name = some k) : k ≤ (resolve es).tape.length := by
  obtain ⟨before, after, rfl, rfl⟩ := (resolve_get?_eq_some hok).1 hget
  rw [(resolve_ok hok).2.2]
  simp

/-- Every label that a resolved instruction refers to is bound. -/
theorem resolve_labelRefs (hok : (resolve es).error = none) {i : Instruction}
    (hi : i ∈ (resolve es).tape) {name : Text} (hname : name ∈ i.labelRefs) :
    (resolve es).labels.contains name = true := by
  obtain ⟨_, hstrip, htape⟩ := resolve_ok hok
  rw [stripLabels_snd, Option.map_eq_none_iff, List.findSome?_eq_none_iff] at hstrip
  rw [htape] at hi
  exact missing?_eq_none.1 (hstrip i hi) name hname

end TapeMachine
