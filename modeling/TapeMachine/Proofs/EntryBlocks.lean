import Mathlib.Data.List.Basic
import TapeMachine.Proofs.Resolve

/-! Entries in blocks. Entries are instructions with labels before them, and labels at the end. The
labels of a block are bound to the place of its instruction, so entries are put together again from
their instructions and the labels of every place, and the labels of all places, one place after the
other, are all labels in order. -/

namespace TapeMachine.Entry

/-- The labels of some entries that are bound to a place, in order. -/
def labelsAt (count : Nat) (es : List Entry) (k : Nat) : List Text :=
  ((places count es).filter (·.2 = k)).map Prod.fst

/-- Entries are labels alone, or labels before an instruction and more entries. -/
theorem block_induction {motive : List Entry → Prop}
    (labels : ∀ names : List Text, motive (names.map label))
    (block : ∀ (names : List Text) (i : Instruction) (es : List Entry), motive es →
      motive (names.map label ++ insn i :: es)) (es : List Entry) : motive es := by
  -- The labels before the first entry are carried along.
  have hpending : ∀ names : List Text, motive (names.map label ++ es) := by
    induction es with
    | nil =>
        intro names
        rw [List.append_nil]
        exact labels names
    | cons e es ih =>
        intro names
        cases e with
        | insn i => exact block names i es (ih [])
        | label name =>
            have hmore := ih (names ++ [name])
            rwa [List.map_append, List.append_assoc] at hmore
  exact hpending []

theorem instructions_map_label (names : List Text) : instructions (names.map label) = [] := by
  induction names with
  | nil => rfl
  | cons name names ih => exact ih

theorem places_map_label (count : Nat) (names : List Text) :
    places count (names.map label) = names.map (·, count) := by
  induction names with
  | nil => rfl
  | cons name names ih => exact congrArg _ ih

theorem places_append (count : Nat) (es fs : List Entry) :
    places count (es ++ fs) = places count es ++ places (count + (instructions es).length) fs := by
  induction es generalizing count with
  | nil => rfl
  | cons e es ih =>
      cases e with
      | insn i =>
          rw [List.cons_append, places, ih, places, instructions_insn, List.length_cons,
            Nat.add_right_comm, Nat.add_assoc]
      | label name => exact congrArg _ (ih count)

theorem le_of_mem_places {count : Nat} {es : List Entry} {x : Text × Nat}
    (h : x ∈ places count es) : count ≤ x.2 := by
  obtain ⟨before, after, -, hk⟩ := mem_places.1 h
  omega

theorem filter_map_pair (names : List Text) (count k : Nat) :
    ((names.map (·, count)).filter (·.2 = k)).map Prod.fst = if k = count then names else [] := by
  split_ifs with h
  · subst h
    simp [List.filter_map, Function.comp_def]
  · simp [List.filter_map, Function.comp_def, Ne.symm h]

theorem labelsAt_map_label (count : Nat) (names : List Text) (k : Nat) :
    labelsAt count (names.map label) k = if k = count then names else [] := by
  rw [labelsAt, places_map_label, filter_map_pair]

/-- The labels before an instruction are bound to its place, and the others to places behind it. -/
theorem labelsAt_block (count : Nat) (names : List Text) (i : Instruction) (es : List Entry)
    (k : Nat) :
    labelsAt count (names.map label ++ insn i :: es) k =
      if k = count then names else labelsAt (count + 1) es k := by
  rw [labelsAt, places_append, places_map_label, instructions_map_label, List.filter_append,
    List.map_append, filter_map_pair]
  change _ ++ labelsAt (count + 1) es k = _
  split_ifs with h
  · have hnone : labelsAt (count + 1) es k = [] := by
      rw [labelsAt, List.filter_eq_nil_iff.2, List.map_nil]
      intro x hx heq
      have hplace := le_of_mem_places hx
      have hk := of_decide_eq_true heq
      omega
    rw [hnone, List.append_nil]
  · exact List.nil_append _

theorem instructions_block (names : List Text) (i : Instruction) (es : List Entry) :
    instructions (names.map label ++ insn i :: es) = i :: instructions es := by
  rw [instructions_append, instructions_map_label]
  rfl

/-- Labels behind some entries are bound to the place behind all of their instructions. -/
theorem labelsAt_append_map_label (count : Nat) (es : List Entry) (names : List Text) (k : Nat) :
    labelsAt count (es ++ names.map label) k =
      labelsAt count es k ++ if k = count + (instructions es).length then names else [] := by
  rw [labelsAt, places_append, places_map_label, List.filter_append, List.map_append,
    filter_map_pair, labelsAt]

/-- Entries put together from instructions and the labels of every place: those at the place of an
instruction stand before it. -/
def weave (count : Nat) (is : List Instruction) (at_ : Nat → List Text) : List Entry :=
  (is.zipIdx count).flatMap (fun x => (at_ x.2).map label ++ [insn x.1]) ++
    (at_ (count + is.length)).map label

theorem weave_congr {count : Nat} {is : List Instruction} {at_ at' : Nat → List Text}
    (h : ∀ k, count ≤ k → k ≤ count + is.length → at_ k = at' k) :
    weave count is at_ = weave count is at' := by
  rw [weave, weave, h _ (Nat.le_add_right _ _) (Nat.le_refl _)]
  congr 1
  refine List.flatMap_congr fun x hx => ?_
  rw [h x.2 (List.le_snd_of_mem_zipIdx hx) (Nat.le_of_lt (List.snd_lt_add_of_mem_zipIdx hx))]

/-- Entries are put together from their instructions and labels. -/
theorem weave_labelsAt (count : Nat) (es : List Entry) :
    weave count (instructions es) (labelsAt count es) = es := by
  induction es using block_induction generalizing count with
  | labels names =>
      rw [instructions_map_label, weave, List.zipIdx_nil, List.flatMap_nil, List.nil_append,
        List.length_nil, Nat.add_zero, labelsAt_map_label, if_pos rfl]
  | block names i es ih =>
      have hrest : ∀ k, count + 1 ≤ k → k ≤ count + 1 + (instructions es).length →
          labelsAt count (names.map label ++ insn i :: es) k = labelsAt (count + 1) es k :=
        fun k hk _ => by rw [labelsAt_block, if_neg (by omega)]
      have hweave : weave (count + 1) (instructions es)
          (labelsAt count (names.map label ++ insn i :: es)) = es :=
        (weave_congr hrest).trans (ih (count + 1))
      rw [weave, Nat.add_right_comm] at hweave
      rw [instructions_block, weave, List.zipIdx_cons, List.flatMap_cons, labelsAt_block,
        if_pos rfl, List.append_assoc, List.append_assoc, List.length_cons, ← Nat.add_assoc,
        hweave]
      rfl

theorem filterMap_label?_map_label (names : List Text) :
    (names.map label).filterMap label? = names := by
  rw [List.filterMap_map]
  exact List.filterMap_some

/-- The labels of all places, one after the other, are the labels in order. -/
theorem flatMap_labelsAt (count : Nat) (es : List Entry) :
    (List.range' count ((instructions es).length + 1)).flatMap (labelsAt count es) =
      es.filterMap label? := by
  induction es using block_induction generalizing count with
  | labels names =>
      rw [instructions_map_label, List.length_nil, Nat.zero_add, List.range'_one,
        List.flatMap_singleton, labelsAt_map_label, if_pos rfl, filterMap_label?_map_label]
  | block names i es ih =>
      have hrest : (List.range' (count + 1) ((instructions es).length + 1)).flatMap
          (labelsAt count (names.map label ++ insn i :: es)) = es.filterMap label? := by
        rw [← ih (count + 1)]
        refine List.flatMap_congr fun k hk => ?_
        have hle := (List.mem_range'_1.1 hk).1
        rw [labelsAt_block, if_neg (by omega)]
      rw [instructions_block, List.length_cons, List.range'_succ, List.flatMap_cons, hrest,
        labelsAt_block, if_pos rfl, List.filterMap_append, filterMap_label?_map_label]
      rfl

end TapeMachine.Entry
