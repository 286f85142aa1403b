import TapeMachine.Expression.Eval
import TapeMachine.Proofs.Placement

/-! Two ways to bind labels. The assembler binds labels line by line, through macro calls and up to
the first failure; resolving binds them in two passes over the finished entries. For every source
both come to the same table, the same tape and the same missing label. -/

namespace TapeMachine.Assembler

open Resolution

/-- Every line of a source is read and taken in without failure, and no macro is left open. -/
structure ReadsAll (depth : Nat) (a : Assembler) (source : Text) : Prop where
  readable : (Source.lines source).overlong = false
  processed :
    (sourceLines a.interpret depth {} (Source.lines source).texts { equates := a.startEquates }).2.1 = none
  closed : (parse depth a source).state.defining = none

/-- Once all lines are taken in, only a missing label can stand against a source. -/
theorem ReadsAll.verdict {depth : Nat} {a : Assembler} {source : Text}
    (h : ReadsAll depth a source) :
    (parse depth a source).verdict =
      match missingLabel? (parse depth a source).state with
      | some (st, name) => .rejected ⟨st.line, Text.unwords st.words, [], .labelMissing name⟩
      | none => .accepted ⟨(parse depth a source).state.statements.toList⟩ := by
  change judge _ _ _ (parse depth a source).state = _
  unfold judge
  rw [startState_eq, h.processed]
  cases missingLabel? (parse depth a source).state <;> simp [h.readable, h.closed]

/-- A source is accepted if all its lines are taken in, no macro is left open and no label is
missing. -/
theorem judge_eq_accepted {overlong : Bool} {pos : Position} {failure : Option Failure} {s : State}
    {p : Program} :
    judge overlong pos failure s = .accepted p ↔
      failure = none ∧ overlong = false ∧ s.defining = none ∧ missingLabel? s = none ∧
        p = ⟨s.statements.toList⟩ := by
  unfold judge
  cases failure with
  | some e => cases e <;> simp
  | none =>
      cases overlong <;> cases s.defining <;> cases missingLabel? s <;> simp [eq_comm]

/-- A source that is accepted gives the program of all its statements, and misses no label. -/
theorem parse_accepted {depth : Nat} {a : Assembler} {source : Text} {p : Program}
    (h : (parse depth a source).verdict = .accepted p) :
    p.statements = (parse depth a source).state.statements.toList ∧
      missingLabel? (parse depth a source).state = none := by
  obtain ⟨-, -, -, hmissing, hp⟩ := judge_eq_accepted.1 h
  exact ⟨congrArg Program.statements hp, hmissing⟩

/-- The first missing label of the statements is that of their instructions. -/
theorem missingLabel?_map_snd (s : State) :
    (missingLabel? s).map Prod.snd =
      (Entry.instructions s.entries).findSome? (missing? s.labels) := by
  rw [missingLabel?, State.entries]
  generalize s.statements.toList = sts
  induction sts with
  | nil => rfl
  | cons st sts ih =>
      obtain ⟨line, pc, words, entry⟩ := st
      cases entry with
      | label name => exact ih
      | insn i =>
          rw [List.map_cons, Entry.instructions_insn, List.findSome?_cons, List.findSome?_cons]
          cases hmissing : missing? s.labels i with
          | some name => simp [Entry.insn?, hmissing]
          | none => simpa [Entry.insn?, hmissing] using ih

/-- A missing label is reported at the first statement that refers to one. -/
theorem missingLabel?_eq_some {s : State} {st : Statement} {name : Text}
    (h : missingLabel? s = some (st, name)) :
    ∃ before after, s.statements.toList = before ++ st :: after ∧
      (∃ i, st.entry = .insn i ∧ name ∈ i.labelRefs ∧ s.labels.contains name = false) ∧
      ∀ earlier ∈ before, ∀ i, earlier.entry = .insn i →
        ∀ ref ∈ i.labelRefs, s.labels.contains ref = true := by
  rw [missingLabel?] at h
  obtain ⟨before, found, after, hsplit, hfound, hbefore⟩ := List.findSome?_eq_some_iff.1 h
  obtain ⟨i, hi, hpair⟩ := Option.bind_eq_some_iff.1 hfound
  obtain ⟨missing, hmissing, heq⟩ := Option.map_eq_some_iff.1 hpair
  injection heq with hst hname
  subst hst hname
  refine ⟨before, after, hsplit, ⟨i, ?_, missing?_eq_some hmissing⟩, ?_⟩
  · cases hentry : found.entry with
    | label _ =>
        rw [hentry] at hi
        cases hi
    | insn j =>
        rw [hentry] at hi
        injection hi with hi
        rw [hi]
  · intro earlier hearlier i hentry
    have hnone := hbefore earlier hearlier
    rw [hentry] at hnone
    exact missing?_eq_none.1 (Option.map_eq_none_iff.1 hnone)

namespace State.Coherent

variable {s : State}

theorem resolve_labels (h : s.Coherent) : (resolve s.entries).labels = s.labels := by
  rw [resolve_of_bindLabels h.bound]

/-- Resolving the entries of a coherent state can only fail at its first missing label. -/
theorem resolve_error (h : s.Coherent) :
    (resolve s.entries).error = (missingLabel? s).map fun x => .missing x.2 := by
  rw [resolve_of_bindLabels h.bound]
  change (stripLabels s.labels s.entries).2 = _
  rw [stripLabels_snd, ← missingLabel?_map_snd, Option.map_map]
  rfl

end State.Coherent

/-- The statements and labels a state holds: statements are placed by counting instructions, and
the labels are the declared names, each once and with the place of its statement. -/
structure State.BindsLabels (s : State) : Prop where
  places : ∀ before st after, s.statements.toList = before ++ st :: after →
    st.pc = (before.filterMap fun st => st.entry.insn?).length
  names : s.labels.names = s.statements.toList.filterMap fun st => st.entry.label?
  once : s.labels.names.Nodup
  targets : ∀ name k, s.labels.get? name = some k ↔
    ∃ st ∈ s.statements.toList, st.entry = .label name ∧ st.pc = k

/-- An assembled source and the resolution of its entries come to the same: both succeed, with
equal labels and with the instructions of the listing on the tape in the places of their
statements; or both fail at the first statement that refers to a missing label. -/
structure Assembly.AgreesWith (out : Assembly) (r : Resolution) : Prop where
  accepted : (∃ p, out.verdict = .accepted p) ↔ r.error = none
  rejected : ∀ e, r.error = some e →
    ∃ name before st after, e = .missing name ∧
      out.verdict = .rejected ⟨st.line, Text.unwords st.words, [], .labelMissing name⟩ ∧
      out.state.statements.toList = before ++ st :: after ∧
      (∃ i, st.entry = .insn i ∧ name ∈ i.labelRefs ∧ out.state.labels.contains name = false) ∧
      ∀ earlier ∈ before, ∀ i, earlier.entry = .insn i →
        ∀ ref ∈ i.labelRefs, out.state.labels.contains ref = true
  labels : r.labels = out.state.labels
  program : ∀ p, out.verdict = .accepted p → p.statements = out.state.statements.toList
  instructions : ∀ p, out.verdict = .accepted p →
    p.instructions = r.tape.zipIdx.map fun x => ((x.2 : Int), x.1)
  found : ∀ p, out.verdict = .accepted p → ∀ (k : Nat) i, r.tape[k]? = some i →
    ∃ st, p.statementAt? k = some st ∧ st.entry = .insn i
  absent : ∀ p, out.verdict = .accepted p → ∀ pc : Int, pc < 0 ∨ r.tape.length ≤ pc →
    p.statementAt? pc = none

theorem State.Coherent.bindsLabels {s : State} (h : s.Coherent) : s.BindsLabels where
  places before st after hsplit := by
    have hplaced := h.placed
    rw [hsplit] at hplaced
    rw [hplaced.pc_eq, Entry.instructions, List.filterMap_map]
    rfl
  names := by
    rw [h.labels_names, State.entries, List.filterMap_map]
    rfl
  once := h.labels_entries.2
  targets _ _ := h.get?_eq_some

theorem ReadsAll.agreesWith {depth : Nat} {a : Assembler} {source : Text}
    (h : ReadsAll depth a source) :
    (parse depth a source).AgreesWith (resolve (parse depth a source).state.entries) := by
  have hcoherent := parse_coherent depth a source
  have hverdict := h.verdict
  have herror := hcoherent.resolve_error
  have haccepted : ∀ p, (parse depth a source).verdict = .accepted p →
      p = ⟨(parse depth a source).state.statements.toList⟩ ∧
        (resolve (parse depth a source).state.entries).tape =
          Entry.instructions (parse depth a source).state.entries := by
    intro p hp
    obtain ⟨hstatements, hmissing⟩ := parse_accepted hp
    refine ⟨by rw [← hstatements], (resolve_ok ?_).2.2⟩
    rw [herror, hmissing]
    rfl
  refine ⟨?_, ?_, hcoherent.resolve_labels, fun p hp => (parse_accepted hp).1, ?_, ?_, ?_⟩
  · rw [hverdict, herror]
    cases missingLabel? (parse depth a source).state <;> simp
  · intro e he
    rw [herror] at he
    obtain ⟨⟨st, name⟩, hmissing, rfl⟩ := Option.map_eq_some_iff.1 he
    obtain ⟨before, after, hsplit, hst, hbefore⟩ := missingLabel?_eq_some hmissing
    rw [hmissing] at hverdict
    exact ⟨name, before, st, after, rfl, hverdict, hsplit, hst, hbefore⟩
  · intro p hp
    obtain ⟨rfl, htape⟩ := haccepted p hp
    rw [htape]
    exact hcoherent.placed.instructions_eq
  · intro p hp k i hk
    obtain ⟨rfl, htape⟩ := haccepted p hp
    rw [htape] at hk
    simpa using hcoherent.placed.statementAt? hk
  · intro p hp pc hpc
    obtain ⟨rfl, htape⟩ := haccepted p hp
    rw [htape, State.entries] at hpc
    exact hcoherent.placed.statementAt?_eq_none (by omega)

/-- For every source and all predefined equates, the statements and labels that assembling leaves
fit together, also after a failure; and where all lines are taken in, assembling and resolving
agree. -/
theorem parse_binds_labels_as_resolve (depth : Nat) (a : Assembler) (source : Text) :
    (parse depth a source).state.BindsLabels ∧
      (ReadsAll depth a source →
        (parse depth a source).AgreesWith
          (resolve ((parse depth a source).state.statements.toList.map Statement.entry))) :=
  ⟨(parse_coherent depth a source).bindsLabels, ReadsAll.agreesWith⟩

/-- A source with a macro called twice, each time with a label of its own, with two labels on one
line, and with a label after the last instruction. -/
def expandedSource : Text :=
  text ".macro count x\n@l: add x 1\njne x 5 @l\n.endm\na: b: count r1\ncount r2\nja end\nend:\n"

theorem readsAll_expandedSource : ReadsAll 1 (fresh Expression.interpret) expandedSource :=
  ⟨by decide, by decide +kernel, by decide +kernel⟩

theorem expandedSource_binds_labels_as_resolve :
    ReadsAll 1 (fresh Expression.interpret) expandedSource ∧
      (parse 1 (fresh Expression.interpret) expandedSource).AgreesWith
        (resolve ((parse 1 (fresh Expression.interpret) expandedSource).state.statements.toList.map
          Statement.entry)) :=
  ⟨readsAll_expandedSource,
    (parse_binds_labels_as_resolve 1 (fresh Expression.interpret) expandedSource).2 readsAll_expandedSource⟩

end TapeMachine.Assembler
