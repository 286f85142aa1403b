import Mathlib.Data.List.Infix
import TapeMachine.Expression.Eval
import TapeMachine.Proofs.Edits
import TapeMachine.Proofs.Numerals
import TapeMachine.Proofs.PlainText

/-! Local labels. In the body of a macro, `@` stands for the name of the macro and the number of the
call that is carried out. The calls of a source are numbered one by one, also where they nest, so
labels that belong to two calls of one macro always differ. Labels of two macros can be the same: this
happens where the name of one macro begins with the name of the other and the number of a call of it,
and nowhere else. -/

namespace TapeMachine.Assembler

open Text

variable {interpret : Expression.Interpreter}

/-- A macro that is called, with the number of the call. -/
structure NumberedCall where
  name : Text
  number : Nat
  deriving DecidableEq

namespace NumberedCall

/-- What `@` stands for in the body. -/
def localPart (c : NumberedCall) : Text := Assembler.localPart c.name c.number

/-- What a word that begins with `@` becomes in the body. -/
def localName (c : NumberedCall) (suffix : Text) : Text :=
  replaceByte (byte '@') c.localPart (byte '@' :: suffix)

/-- The name of one macro begins with the name of the other and the number of its call. -/
def Overlaps (c d : NumberedCall) : Prop :=
  c.localPart <+: d.name ++ text "_" ∨ d.localPart <+: c.name ++ text "_"

end NumberedCall

/-- Texts that are equal up to their last separator are equal behind it. -/
theorem eq_of_append_cons_eq {x : UInt8} {front back rest more : Text} (hrest : x ∉ rest)
    (hmore : x ∉ more) (h : front ++ x :: rest = back ++ x :: more) : rest = more := by
  rcases List.append_eq_append_iff.1 h with ⟨between, _, heq⟩ | ⟨between, _, heq⟩
  · cases between with
    | nil => exact List.tail_eq_of_cons_eq heq
    | cons _ _ =>
        rw [List.cons_append] at heq
        exact absurd (List.tail_eq_of_cons_eq heq ▸ List.mem_append_cons_self) hrest
  · cases between with
    | nil => exact (List.tail_eq_of_cons_eq heq).symm
    | cons _ _ =>
        rw [List.cons_append] at heq
        exact absurd (List.tail_eq_of_cons_eq heq ▸ List.mem_append_cons_self) hmore

namespace NumberedCall

variable {c d : NumberedCall}

theorem localPart_eq (c : NumberedCall) :
    c.localPart = c.name ++ text "_" ++ (ofNat c.number ++ [byte '_']) := by
  rw [localPart, Assembler.localPart, List.append_assoc]
  rfl

theorem localName_eq (c : NumberedCall) (suffix : Text) :
    c.localName suffix = c.localPart ++ replaceByte (byte '@') c.localPart suffix := rfl

theorem underscore_not_mem_ofNat (n : Nat) : byte '_' ∉ ofNat n := not_mem_ofNat (by decide) n

/-- The number of a call can be told from its local part. -/
theorem number_eq_of_localPart_eq (h : c.localPart = d.localPart) : c.number = d.number := by
  rw [localPart_eq, localPart_eq, ← List.append_assoc, ← List.append_assoc] at h
  have hfront := List.append_cancel_right h
  rw [List.append_assoc, List.append_assoc] at hfront
  exact ofNat_injective (eq_of_append_cons_eq (underscore_not_mem_ofNat _)
    (underscore_not_mem_ofNat _) hfront)

/-- The local part of another call ends before the number begins, or begins no local name. -/
theorem localPart_prefix_iff (hne : c.number ≠ d.number) :
    c.localPart <+: d.localPart ↔ c.localPart <+: d.name ++ text "_" := by
  have hname : d.name ++ text "_" <+: d.localPart := by
    rw [localPart_eq]
    exact List.prefix_append _ _
  constructor
  · intro h
    rcases List.prefix_or_prefix_of_prefix h hname with hshort | ⟨u, hu⟩
    · exact hshort
    · have hlead : u <+: ofNat d.number ++ [byte '_'] := by
        rw [← hu, localPart_eq d] at h
        exact (List.prefix_append_right_inj _).1 h
      rcases List.prefix_concat_iff.1 hlead with hall | hdigits
      · rw [hall, ← localPart_eq] at hu
        exact absurd (number_eq_of_localPart_eq hu.symm) hne
      · cases u using List.reverseRecOn with
        | nil => exact ⟨[], by rw [← hu, List.append_nil, List.append_nil]⟩
        | append_singleton u b =>
            -- the last byte of a local part is an underscore, which no number holds
            rw [localPart_eq, ← List.append_assoc, ← List.append_assoc] at hu
            have hlast : b = byte '_' := List.head_eq_of_cons_eq (List.append_inj' hu rfl).2
            rw [hlast] at hdigits
            exact absurd (hdigits.subset (List.mem_append_right _ List.mem_cons_self))
              (underscore_not_mem_ofNat _)
  · exact fun h => h.trans hname

/-- Names that coincide come from macros whose names overlap. -/
theorem overlaps_of_localName_eq (hne : c.number ≠ d.number) {s t : Text}
    (h : c.localName s = d.localName t) : c.Overlaps d := by
  have hc : c.localPart <+: c.localName s := List.prefix_append _ _
  have hd : d.localPart <+: c.localName s := by
    rw [h]
    exact List.prefix_append _ _
  rcases List.prefix_or_prefix_of_prefix hc hd with hcd | hdc
  · exact .inl ((localPart_prefix_iff hne).1 hcd)
  · exact .inr ((localPart_prefix_iff hne.symm).1 hdc)

/-- Calls of one macro never overlap: the local part is longer than the name. -/
theorem Overlaps.name_ne (h : c.Overlaps d) : c.name ≠ d.name := by
  intro hname
  have hlength : ∀ e : NumberedCall, (e.name ++ text "_").length < e.localPart.length := by
    intro e
    simp only [localPart_eq, List.length_append, List.length_singleton]
    omega
  rcases h with h | h
  · have hle := h.length_le
    have hlt := hlength c
    rw [hname] at hlt
    omega
  · have hle := h.length_le
    have hlt := hlength d
    rw [← hname] at hlt
    omega

/-- Where names overlap, some local labels are the same. -/
theorem exists_localName_eq_of_prefix (hd : byte '@' ∉ d.name)
    (h : c.localPart <+: d.name ++ text "_") : ∃ s, c.localName s = d.localName [] := by
  obtain ⟨rest, hrest⟩ := h
  have hmark : byte '@' ∉ rest ++ (ofNat d.number ++ [byte '_']) := by
    have hfront : byte '@' ∉ d.name ++ text "_" := by
      rw [List.mem_append, not_or]
      exact ⟨hd, by decide⟩
    have hnumber := not_mem_ofNat (b := byte '@') (by decide) d.number
    rw [← hrest, List.mem_append, not_or] at hfront
    rw [List.mem_append, List.mem_append, not_or, not_or]
    exact ⟨hfront.2, hnumber, by decide⟩
  refine ⟨rest ++ (ofNat d.number ++ [byte '_']), ?_⟩
  rw [localName_eq, localName_eq, replaceByte_eq_self hmark, ← List.append_assoc, hrest,
    ← localPart_eq, replaceByte, List.flatMap_nil, List.append_nil]

theorem Overlaps.exists_localName_eq (h : c.Overlaps d) (hc : byte '@' ∉ c.name)
    (hd : byte '@' ∉ d.name) : ∃ s t, c.localName s = d.localName t := by
  rcases h with h | h
  · obtain ⟨s, hs⟩ := exists_localName_eq_of_prefix hd h
    exact ⟨s, [], hs⟩
  · obtain ⟨t, ht⟩ := exists_localName_eq_of_prefix hc h
    exact ⟨[], t, ht.symm⟩

end NumberedCall

/-! ### The calls of a source -/

section

variable (act : Nat → Text → Asm Unit) (calls : Nat → Text → State → List NumberedCall)

/-- The calls carried out in lines taken in one after the other, up to the first failure. -/
def callsAlong : List (Nat × Text) → State → List NumberedCall
  | [], _ => []
  | (n, line) :: rest, s =>
      calls n line s ++
        match act n line s with
        | .ok _ s' => callsAlong rest s'
        | .error _ _ => []

/-- The state that lines taken in one after the other leave. -/
def leavesAlong : List (Nat × Text) → State → State
  | [], s => s
  | (n, line) :: rest, s =>
      match act n line s with
      | .ok _ s' => leavesAlong rest s'
      | .error _ s' => s'

end

/-- The calls carried out in assembling a line, in the order in which they begin. -/
def lineCalls (interpret : Expression.Interpreter) : Nat → Nat → Text → State → List NumberedCall
  | 0 => fun _ _ _ => []
  | depth + 1 => fun n line s =>
      match s.callOn? interpret n line with
      | none => []
      | some (c, t) =>
          ⟨c.name, t.expansions + 1⟩ ::
            callsAlong (assembleLine interpret depth) (lineCalls interpret depth)
              (c.definition.expansionLines c.name (t.expansions + 1)) (t.entering c.definition c.args)

/-- Lines of a source without their comments, numbered from `n`. -/
def numberedLines : Nat → List Text → List (Nat × Text)
  | _, [] => []
  | n, raw :: rest => (n, Source.strip raw) :: numberedLines (n + 1) rest

/-- The calls carried out in assembling a source. -/
def sourceCalls (depth : Nat) (a : Assembler) (source : Text) : List NumberedCall :=
  callsAlong (sourceLine a.interpret depth)
    (fun n line s => if s.Assembles line then lineCalls a.interpret depth n line s else [])
    (numberedLines 1 (Source.lines source).texts) { equates := a.startEquates }

/-- Calls whose numbers go on from a count of calls and lead up to another. -/
structure Numbered (calls : List NumberedCall) (count total : Nat) : Prop where
  numbers : calls.map NumberedCall.number = List.range' (count + 1) calls.length
  total_eq : total = count + calls.length

theorem numbered_nil (count : Nat) : Numbered [] count count := ⟨rfl, rfl⟩

theorem Numbered.cons {calls : List NumberedCall} {count total : Nat} (name : Text)
    (h : Numbered calls (count + 1) total) : Numbered (⟨name, count + 1⟩ :: calls) count total := by
  refine ⟨?_, ?_⟩
  · rw [List.map_cons, h.numbers, List.length_cons, List.range'_succ]
  · rw [h.total_eq, List.length_cons]
    omega

theorem Numbered.append {calls more : List NumberedCall} {count middle total : Nat}
    (h : Numbered calls count middle) (hmore : Numbered more middle total) :
    Numbered (calls ++ more) count total := by
  refine ⟨?_, ?_⟩
  · rw [List.map_append, h.numbers, hmore.numbers, h.total_eq, List.length_append,
      ← List.range'_append_1, Nat.add_right_comm]
  · rw [hmore.total_eq, h.total_eq, List.length_append]
    omega

/-- Whatever a line is and wherever it stands, the calls of an action are numbered. -/
def Counts (act : Nat → Text → Asm Unit) (calls : Nat → Text → State → List NumberedCall) : Prop :=
  ∀ n line s, Numbered (calls n line s) s.expansions ((act n line).leaves s).expansions

/-- What is numbered in every line is numbered along all lines. -/
theorem Counts.along {act : Nat → Text → Asm Unit} {calls : Nat → Text → State → List NumberedCall}
    (h : Counts act calls) (lines : List (Nat × Text)) (s : State) :
    Numbered (callsAlong act calls lines s) s.expansions (leavesAlong act lines s).expansions := by
  induction lines generalizing s with
  | nil => exact numbered_nil _
  | cons l rest ih =>
      obtain ⟨n, line⟩ := l
      have hline := h n line s
      rw [Asm.leaves] at hline
      rw [callsAlong, leavesAlong]
      cases hrun : act n line s with
      | ok _ s' =>
          rw [hrun] at hline
          exact hline.append (ih s')
      | error e s' =>
          rw [hrun] at hline
          exact hline.append (numbered_nil _)

theorem leaves_assembleBody (assemble : Nat → Text → Asm Unit) (name : Text)
    (lines : List (Nat × Text)) (s : State) :
    (assembleBody assemble name lines).leaves s = leavesAlong assemble lines s := by
  induction lines generalizing s with
  | nil => rfl
  | cons l rest ih =>
      obtain ⟨n, line⟩ := l
      rw [leavesAlong]
      rw [assembleBody_cons, Asm.leaves, bind_run, Asm.within]
      cases hrun : assemble n line s with
      | ok _ s' => exact ih s'
      | error e s' => rfl

theorem leaves_expandMacro (assemble : Nat → Text → Asm Unit) (name : Text) (m : Macro)
    (args : List Text) (s : State) :
    (expandMacro assemble name m args).leaves s =
      { leavesAlong assemble (m.expansionLines name (s.expansions + 1)) (s.entering m args) with
        equates := s.equates } := by
  rw [← leaves_assembleBody assemble name, Asm.leaves, expandMacro_run, Asm.leaves]
  cases assembleBody assemble name (m.expansionLines name (s.expansions + 1)) (s.entering m args) <;> rfl

theorem outsideCalls_expansions : HoldsOutsideCalls (Unchanged State.expansions) :=
  fun _ _ _ _ _ hexpansions => hexpansions

/-- A line that comes to no call leaves the count of calls alone. -/
theorem assembleWith_throw_expansions (interpret : Expression.Interpreter) (n : Nat) (line : Text) :
    (assembleWith interpret (fun _ _ _ => throw .tooDeep) n line).Respects (Unchanged State.expansions) :=
  assembleWith_respects outsideCalls_expansions (fun _ _ _ => Asm.Respects.throw _) n line

theorem assembleLine_counts (depth : Nat) :
    Counts (assembleLine interpret depth) (lineCalls interpret depth) := by
  induction depth with
  | zero =>
      intro n line s
      have hkeeps := assembleWith_throw_expansions interpret n line s
      rw [Unchanged] at hkeeps
      rw [assembleLine, hkeeps]
      exact numbered_nil _
  | succ depth ih =>
      intro n line s
      have hrun := assembleWith_eq interpret (expandMacro (assembleLine interpret depth)) n line s
      simp only [assembleLine, lineCalls, Asm.leaves, hrun]
      cases hcall : s.callOn? interpret n line with
      | none =>
          have hkeeps := assembleWith_throw_expansions interpret n line s
          rw [Unchanged, Asm.leaves] at hkeeps
          dsimp only
          rw [hkeeps]
          exact numbered_nil _
      | some ct =>
          obtain ⟨c, t⟩ := ct
          have hleaves := leaves_expandMacro (assembleLine interpret depth) c.name c.definition c.args t
          rw [Asm.leaves] at hleaves
          dsimp only
          have hexpansions := State.callOn?_respects outsideCalls_expansions hcall
          rw [Unchanged] at hexpansions
          rw [hleaves, ← hexpansions]
          exact (ih.along _ (t.entering c.definition c.args)).cons c.name

theorem sourceLine_counts (interpret : Expression.Interpreter) (depth : Nat) :
    Counts (sourceLine interpret depth)
      fun n line s => if s.Assembles line then lineCalls interpret depth n line s else [] := by
  intro n line s
  simp only [Asm.leaves, sourceLine_run]
  by_cases hline : s.Assembles line
  · simp only [if_pos hline]
    exact assembleLine_counts depth n line s
  · obtain ⟨macros, defining, hleaves⟩ := macroLine_leaves n line s
    rw [Asm.leaves] at hleaves
    simp only [if_neg hline, hleaves]
    exact numbered_nil _

theorem leavesAlong_numberedLines (depth : Nat) (pos : Position) (lines : List Text) (s : State) :
    leavesAlong (sourceLine interpret depth) (numberedLines (pos.number + 1) lines) s =
      (sourceLines interpret depth pos lines s).2.2 := by
  induction lines generalizing pos s with
  | nil => rfl
  | cons raw rest ih =>
      rw [numberedLines, leavesAlong, sourceLines]
      cases sourceLine interpret depth (pos.number + 1) (Source.strip raw) s with
      | ok _ s' => exact ih ⟨pos.number + 1, Source.strip raw⟩ s'
      | error e s' => rfl

/-- The calls of a source are numbered from 1. -/
theorem sourceCalls_numbered (depth : Nat) (a : Assembler) (source : Text) :
    Numbered (sourceCalls depth a source) 0 (parse depth a source).state.expansions := by
  have hcounts := (sourceLine_counts a.interpret depth).along (numberedLines 1 (Source.lines source).texts)
    { equates := a.startEquates }
  rw [leavesAlong_numberedLines depth {}] at hcounts
  exact hcounts

theorem Numbered.pairwise {calls : List NumberedCall} {count total : Nat}
    (h : Numbered calls count total) : calls.Pairwise fun c d => c.number ≠ d.number := by
  have hnodup : (calls.map NumberedCall.number).Nodup := by
    rw [h.numbers]
    exact List.nodup_range'
  exact List.pairwise_map.1 hnodup

/-- The calls of a source are numbered from 1, and a local label in one and a local label in another
are the same only if the two macros have different names that overlap; where such names do overlap, some
of their local labels are the same. -/
theorem local_names_meet_on_overlap (depth : Nat) (a : Assembler) (source : Text) :
    (sourceCalls depth a source).map NumberedCall.number =
        List.range' 1 (parse depth a source).state.expansions ∧
      (sourceCalls depth a source).Pairwise fun c d =>
        (∀ s t, c.localName s = d.localName t → c.Overlaps d ∧ c.name ≠ d.name) ∧
        (c.Overlaps d → byte '@' ∉ c.name → byte '@' ∉ d.name →
          ∃ s t, c.localName s = d.localName t) := by
  have hnumbered := sourceCalls_numbered depth a source
  have htotal := hnumbered.total_eq
  rw [Nat.zero_add] at htotal
  refine ⟨by rw [htotal, hnumbered.numbers], hnumbered.pairwise.imp fun hne => ⟨?_, ?_⟩⟩
  · intro s t heq
    have hoverlaps := NumberedCall.overlaps_of_localName_eq hne heq
    exact ⟨hoverlaps, hoverlaps.name_ne⟩
  · exact fun hoverlaps hc hd => hoverlaps.exists_localName_eq hc hd

/-- Two macros with one local label each. The second is named like the first call of the first. -/
def overlappingSource : Text :=
  text ".macro m\n@2_x: stop\n.endm\n.macro m_1\n@x: stop\n.endm\nm\nm_1\n"

/-- The local labels of two different calls clash. -/
theorem overlappingSource_labels_clash :
    sourceCalls 1 (fresh Expression.interpret) overlappingSource = [⟨text "m", 1⟩, ⟨text "m_1", 2⟩] ∧
      NumberedCall.localName ⟨text "m", 1⟩ (text "2_x") =
        NumberedCall.localName ⟨text "m_1", 2⟩ (text "x") ∧
      (parse 1 (fresh Expression.interpret) overlappingSource).verdict =
        .rejected ⟨8, text "m_1", [⟨text "m_1", 5, text "m_1_2_x: stop"⟩], .labelDuplicate⟩ := by
  refine ⟨?_, ?_, ?_⟩
  · decide +kernel
  · decide
  · decide +kernel

end TapeMachine.Assembler
