import TapeMachine.Proofs.Edits
import TapeMachine.Proofs.Resolve

/-! Where statements stand. The place of a statement is the number of instructions before it, and
in a listing whose statements are so placed the instructions come in the order of their places, each
found by its place. Every edit of the assembler keeps its statements placed and its labels those
that resolving binds. -/

namespace TapeMachine

namespace Statement

/-- Statements whose places count the instructions before them, of which `count` stand before the
first statement. -/
def Placed : Nat → List Statement → Prop
  | _, [] => True
  | count, st :: rest =>
      st.pc = count ∧ Placed (count + (Entry.instructions [st.entry]).length) rest

theorem placed_label {count : Nat} {line pc : Int} {words : List Text} {name : Text}
    {sts : List Statement} :
    Placed count (⟨line, pc, words, .label name⟩ :: sts) ↔ pc = count ∧ Placed count sts := Iff.rfl

theorem placed_insn {count : Nat} {line pc : Int} {words : List Text} {i : Instruction}
    {sts : List Statement} :
    Placed count (⟨line, pc, words, .insn i⟩ :: sts) ↔ pc = count ∧ Placed (count + 1) sts := Iff.rfl

theorem statementAt?_insn (line pc : Int) (words : List Text) (i : Instruction)
    (sts : List Statement) (place : Int) :
    Program.statementAt? ⟨⟨line, pc, words, .insn i⟩ :: sts⟩ place =
      if pc = place then some ⟨line, pc, words, .insn i⟩
      else Program.statementAt? ⟨sts⟩ place := by
  rw [Program.statementAt?, List.find?_cons]
  by_cases h : pc = place <;> simp [h, Entry.insn?, Program.statementAt?]

theorem placed_append {count : Nat} {sts more : List Statement} :
    Placed count (sts ++ more) ↔
      Placed count sts ∧
        Placed (count + (Entry.instructions (sts.map Statement.entry)).length) more := by
  induction sts generalizing count with
  | nil => simp [Placed]
  | cons st sts ih =>
      have hcount : (Entry.instructions ((st :: sts).map Statement.entry)).length =
          (Entry.instructions [st.entry]).length +
            (Entry.instructions (sts.map Statement.entry)).length := by
        rw [List.map_cons, ← List.singleton_append, Entry.instructions_append, List.length_append]
      rw [List.cons_append, Placed, Placed, ih, hcount, ← Nat.add_assoc, and_assoc]

theorem Placed.pc_eq {before after : List Statement} {st : Statement}
    (h : Placed 0 (before ++ st :: after)) :
    st.pc = (Entry.instructions (before.map Statement.entry)).length := by
  have hrest := (placed_append.1 h).2
  rw [Placed, Nat.zero_add] at hrest
  exact hrest.1

/-- Placed instructions are listed with consecutive places. -/
theorem Placed.instructions_eq {count : Nat} {sts : List Statement} (h : Placed count sts) :
    Program.instructions ⟨sts⟩ =
      ((Entry.instructions (sts.map Statement.entry)).zipIdx count).map fun x => ((x.2 : Int), x.1) := by
  induction sts generalizing count with
  | nil => rfl
  | cons st sts ih =>
      obtain ⟨line, pc, words, entry⟩ := st
      cases entry with
      | label name => exact ih (placed_label.1 h).2
      | insn i =>
          obtain ⟨hpc, hrest⟩ := placed_insn.1 h
          change (pc, i) :: Program.instructions ⟨sts⟩ = _
          rw [ih hrest, hpc]
          rfl

/-- The instruction at a place is found by it. -/
theorem Placed.statementAt? {count : Nat} {sts : List Statement} (h : Placed count sts) {k : Nat}
    {i : Instruction} (hk : (Entry.instructions (sts.map Statement.entry))[k]? = some i) :
    ∃ st, Program.statementAt? ⟨sts⟩ (count + k : Nat) = some st ∧ st.entry = .insn i := by
  induction sts generalizing count k with
  | nil => simp at hk
  | cons st sts ih =>
      obtain ⟨line, pc, words, entry⟩ := st
      cases entry with
      | label name => exact ih (placed_label.1 h).2 hk
      | insn j =>
          obtain ⟨hpc, hrest⟩ := placed_insn.1 h
          rw [List.map_cons, Entry.instructions_insn] at hk
          rw [statementAt?_insn]
          cases k with
          | zero =>
              rw [List.getElem?_cons_zero, Option.some_inj] at hk
              exact ⟨_, if_pos hpc, by rw [hk]⟩
          | succ k =>
              rw [if_neg (by omega), show count + (k + 1) = count + 1 + k by omega]
              exact ih hrest hk

/-- The statement found at a place stands behind as many instructions. -/
theorem Placed.statementAt?_position {sts : List Statement} (h : Placed 0 sts) {k : Nat}
    {st : Statement} (hfound : Program.statementAt? ⟨sts⟩ k = some st) :
    ∃ before after, sts = before ++ st :: after ∧
      (Entry.instructions (before.map Statement.entry)).length = k := by
  have hmem : st ∈ sts := List.mem_of_find?_eq_some hfound
  have hplace : st.pc = k := by
    have hst := List.find?_some hfound
    simp only [Bool.and_eq_true, decide_eq_true_eq] at hst
    exact hst.2
  obtain ⟨before, after, hsplit⟩ := List.append_of_mem hmem
  rw [hsplit] at h
  have hcount := h.pc_eq
  exact ⟨before, after, hsplit, by omega⟩

/-- No instruction is found outside the places that the instructions take. -/
theorem Placed.statementAt?_eq_none {count : Nat} {sts : List Statement} (h : Placed count sts)
    {pc : Int}
    (hpc : pc < count ∨
      (count + (Entry.instructions (sts.map Statement.entry)).length : Int) ≤ pc) :
    Program.statementAt? ⟨sts⟩ pc = none := by
  induction sts generalizing count with
  | nil => rfl
  | cons st sts ih =>
      obtain ⟨line, place, words, entry⟩ := st
      cases entry with
      | label name => exact ih (placed_label.1 h).2 hpc
      | insn i =>
          obtain ⟨hplace, hrest⟩ := placed_insn.1 h
          rw [List.map_cons, Entry.instructions_insn, List.length_cons] at hpc
          rw [statementAt?_insn, if_neg (by omega)]
          exact ih hrest (by omega)

end Statement

namespace Assembler

open Resolution

/-- The entries of the statements made so far. -/
def State.entries (s : State) : List Entry := s.statements.toList.map Statement.entry

/-- Statements stand where they should, and the labels are those that resolving binds. -/
structure State.Coherent (s : State) : Prop where
  placed : Statement.Placed 0 s.statements.toList
  count : s.pc = (Entry.instructions s.entries).length
  bound : bindLabels 0 {} s.entries = (s.labels, none)

@[simp] theorem State.entries_push (s : State) (n : Nat) (words : List Text) (entry : Entry) :
    (s.push n words entry).entries = s.entries ++ [entry] := by
  simp [State.entries, State.push]

theorem State.Coherent.placed_push {s : State} (h : s.Coherent) (n : Nat) (words : List Text)
    (entry : Entry) : Statement.Placed 0 (s.push n words entry).statements.toList := by
  rw [State.push, Array.toList_push, Statement.placed_append]
  refine ⟨h.placed, ?_, trivial⟩
  rw [Nat.zero_add]
  exact congrArg Nat.cast h.count

theorem ne_nil_of_isLabelName {name : Text} (h : isLabelName name = true) : name ≠ [] := by
  rintro rfl
  cases h

theorem State.Coherent.declare {s : State} (h : s.Coherent) (n : Nat) (word : Text) {name : Text}
    (hname : isLabelName name = true) (hfresh : s.labels.contains name = false) :
    (s.declare n word name).Coherent where
  placed := h.placed_push n [word] (.label name)
  count := by
    change s.pc = (Entry.instructions (s.push n [word] (.label name)).entries).length
    rw [State.entries_push, Entry.instructions_append, h.count]
    simp
  bound := by
    change bindLabels 0 {} (s.push n [word] (.label name)).entries = (s.labels.insert name s.pc, none)
    rw [State.entries_push, bindLabels_append h.bound, Nat.zero_add, ← h.count]
    exact bindLabels_label_ok.2 ⟨ne_nil_of_isLabelName hname, hfresh, rfl⟩

theorem State.Coherent.emit {s : State} (h : s.Coherent) (n : Nat) (words : List Text)
    (i : Instruction) : (s.emit n words i).Coherent where
  placed := h.placed_push n words (.insn i)
  count := by
    change s.pc + 1 = (Entry.instructions (s.push n words (.insn i)).entries).length
    rw [State.entries_push, Entry.instructions_append, h.count]
    simp
  bound := by
    change bindLabels 0 {} (s.push n words (.insn i)).entries = (s.labels, none)
    rw [State.entries_push, bindLabels_append h.bound]
    rfl

theorem State.Coherent.edit {s s' : State} (hedit : Edit s s') (h : s.Coherent) : s'.Coherent := by
  cases hedit with
  | declare n word name _ hname hfresh => exact h.declare n word hname hfresh
  | emit n mnemonic args i hi => exact h.emit n (mnemonic :: args) i
  | _ => exact ⟨h.placed, h.count, h.bound⟩

/-- Whatever comes of a source, its statements and labels fit together. -/
theorem parse_coherent (depth : Nat) (a : Assembler) (source : Text) :
    (parse depth a source).state.Coherent :=
  (parse_edits depth a source).invariant (fun _ _ hedit h => h.edit hedit) ⟨trivial, rfl, rfl⟩

/-- The labels of a coherent state are those its statements declare, in their order. -/
theorem State.Coherent.labels_entries {s : State} (h : s.Coherent) :
    s.labels.entries = Entry.places 0 s.entries ∧ s.labels.names.Nodup := by
  obtain ⟨hentries, hnodup⟩ := bindLabels_ok h.bound List.nodup_nil
  exact ⟨hentries, hnodup⟩

theorem State.Coherent.labels_names {s : State} (h : s.Coherent) :
    s.labels.names = s.entries.filterMap Entry.label? := by
  rw [Bindings.names, h.labels_entries.1, Entry.map_fst_places]

/-- A label is bound to the place of the statement that declares it. -/
theorem State.Coherent.get?_eq_some {s : State} (h : s.Coherent) {name : Text} {k : Nat} :
    s.labels.get? name = some k ↔
      ∃ st ∈ s.statements.toList, st.entry = .label name ∧ st.pc = k := by
  rw [Bindings.get?_eq_some_iff_mem h.labels_entries.2, h.labels_entries.1, Entry.mem_places]
  constructor
  · rintro ⟨before, after, hentries, rfl⟩
    obtain ⟨sts, rest, hsplit, rfl, hrest⟩ := List.map_eq_append_iff.1 hentries
    obtain ⟨st, more, rfl, hentry, rfl⟩ := List.map_eq_cons_iff.1 hrest
    have hplaced := h.placed
    rw [hsplit] at hplaced
    exact ⟨st, by simp [hsplit], hentry, by rw [hplaced.pc_eq, Nat.zero_add]⟩
  · rintro ⟨st, hst, hentry, hpc⟩
    obtain ⟨before, after, hsplit⟩ := List.append_of_mem hst
    have hplaced := h.placed
    rw [hsplit] at hplaced
    refine ⟨before.map Statement.entry, after.map Statement.entry, ?_, ?_⟩
    · rw [State.entries, hsplit, List.map_append, List.map_cons, hentry]
    · have := hplaced.pc_eq
      omega

end Assembler

end TapeMachine
