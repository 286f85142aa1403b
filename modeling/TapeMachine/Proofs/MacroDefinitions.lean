import TapeMachine.Proofs.Edits
import TapeMachine.Proofs.Bindings

/-! Macro definitions in a source. The lines from a header to the line that closes the definition
make a macro with the formals of the header and the lines between them as its body, and once the
definition is closed no later line changes the macro. -/

namespace TapeMachine.Assembler

variable {interpret : Expression.Interpreter}

theorem sourceLines_append (interpret : Expression.Interpreter) (depth : Nat) (pos : Position)
    (lines more : List Text) (s : State) :
    sourceLines interpret depth pos (lines ++ more) s =
      match sourceLines interpret depth pos lines s with
      | (pos', none, s') => sourceLines interpret depth pos' more s'
      | (pos', some e, s') => (pos', some e, s') := by
  induction lines generalizing pos s with
  | nil => rfl
  | cons line lines ih =>
      rw [List.cons_append, sourceLines, sourceLines]
      dsimp only
      cases sourceLine interpret depth (pos.number + 1) (Source.strip line) s with
      | ok _ t => exact ih _ t
      | error e t => rfl

theorem sourceLines_append_eq_none {depth : Nat} {pos pos' : Position} {lines more : List Text}
    {s s' : State} :
    sourceLines interpret depth pos (lines ++ more) s = (pos', none, s') ↔
      ∃ here t, sourceLines interpret depth pos lines s = (here, none, t) ∧
        sourceLines interpret depth here more t = (pos', none, s') := by
  rw [sourceLines_append]
  rcases sourceLines interpret depth pos lines s with ⟨here, _ | e, t⟩
  · simp
  · simp

theorem sourceLines_cons_eq_none {depth : Nat} {pos pos' : Position} {line : Text} {more : List Text}
    {s s' : State} :
    sourceLines interpret depth pos (line :: more) s = (pos', none, s') ↔
      ∃ t, sourceLine interpret depth (pos.number + 1) (Source.strip line) s = .ok () t ∧
        sourceLines interpret depth ⟨pos.number + 1, Source.strip line⟩ more t = (pos', none, s') := by
  rw [sourceLines]
  dsimp only
  cases sourceLine interpret depth (pos.number + 1) (Source.strip line) s with
  | ok _ t => simp
  | error e t => simp

/-- What a line does that is a matter of macro definitions. -/
inductive DefinitionStep (n : Nat) (line : Text) (s : State) : State → Prop where
  | opened {name : Text} {formals : List Text}
      (hwords : Text.words line = text ".macro" :: name :: formals) (hout : s.defining = none)
      (hfresh : s.macros.contains name = false) :
      DefinitionStep n line s { s with
        macros := s.macros.insert name ⟨n + 1, formals, []⟩
        defining := some name }
  | closed (hword : (Text.words line).head? = some (text ".endm")) :
      DefinitionStep n line s { s with defining := none }
  | added {name : Text} {m : Macro} (hopen : (Text.words line).head? ≠ some (text ".macro"))
      (hclose : (Text.words line).head? ≠ some (text ".endm")) (hin : s.defining = some name)
      (hm : s.macros.get? name = some m) :
      DefinitionStep n line s
        { s with macros := s.macros.insert name { m with body := m.body ++ [line] } }
  | ignored {name : Text} (hopen : (Text.words line).head? ≠ some (text ".macro"))
      (hclose : (Text.words line).head? ≠ some (text ".endm")) (hin : s.defining = some name)
      (hm : s.macros.get? name = none) : DefinitionStep n line s s

theorem addToMacro_step {n : Nat} {line name : Text} {s : State}
    (hopen : (Text.words line).head? ≠ some (text ".macro"))
    (hclose : (Text.words line).head? ≠ some (text ".endm")) (hin : s.defining = some name) {t : State}
    (h : addToMacro name line s = .ok () t) : DefinitionStep n line s t := by
  rw [addToMacro, modify_run] at h
  cases hm : s.macros.get? name with
  | none =>
      rw [hm] at h
      cases h
      exact .ignored hopen hclose hin hm
  | some m =>
      rw [hm] at h
      cases h
      exact .added hopen hclose hin hm

/-- A line of a source that is taken in is assembled, or does a step of a definition. -/
theorem sourceLine_ok {depth n : Nat} {line : Text} {s t : State}
    (h : sourceLine interpret depth n line s = .ok () t) :
    (s.Assembles line ∧ assembleLine interpret depth n line s = .ok () t) ∨ DefinitionStep n line s t := by
  rw [sourceLine_run] at h
  split_ifs at h with hline
  · exact .inl ⟨hline, h⟩
  · right
    -- A line that is not assembled, and neither opens nor closes a definition, stands in one.
    have hin : (Text.words line).head? ≠ some (text ".macro") →
        (Text.words line).head? ≠ some (text ".endm") → ∃ name, s.defining = some name :=
      fun hopen hclose => Option.ne_none_iff_exists'.1 fun hout => hline ⟨hout, hopen, hclose⟩
    simp only [macroLine, bind_run, get_run] at h
    cases hwords : Text.words line with
    | nil =>
        rw [hwords] at h hin
        obtain ⟨name, hname⟩ := hin (by simp) (by simp)
        rw [hname] at h
        exact addToMacro_step (by simp [hwords]) (by simp [hwords]) hname h
    | cons word rest =>
        rw [hwords] at h hin
        dsimp only at h
        split_ifs at h with hopen hclose
        · cases rest with
          | nil =>
              rw [openMacro_nil_run] at h
              cases h
          | cons name formals =>
              rw [openMacro_run] at h
              split_ifs at h with hdefining hknown
              cases h
              exact .opened (hopen ▸ hwords) (by simpa using hdefining) (by simpa using hknown)
        · rw [closeMacro_run] at h
          split_ifs at h
          cases h
          exact .closed (by rw [hwords, hclose]; rfl)
        · obtain ⟨name, hname⟩ := hin (by simpa using hopen) (by simpa using hclose)
          rw [hname] at h
          exact addToMacro_step (by simpa [hwords] using hopen) (by simpa [hwords] using hclose) hname h

/-- A macro that is defined under a name, and whose definition is closed. -/
structure State.Knows (s : State) (name : Text) (m : Macro) : Prop where
  known : s.macros.get? name = some m
  closed : s.defining ≠ some name

/-- Assembling a line does not touch the macros. -/
theorem leaves_assembleLine_macros (interpret : Expression.Interpreter) (depth n : Nat) (line : Text)
    (s : State) :
    ((assembleLine interpret depth n line).leaves s).macros = s.macros ∧
      ((assembleLine interpret depth n line).leaves s).defining = s.defining := by
  have hsame : (assembleLine interpret depth n line).Respects (Unchanged fun s => (s.macros, s.defining)) :=
    assembleLine_respects (fun _ _ _ hmacros hdefining => Prod.ext hmacros hdefining) depth n line
  have hline := hsame s
  rw [Unchanged, Prod.mk.injEq] at hline
  exact hline

theorem assembleLine_macros {depth n : Nat} {line : Text} {s t : State}
    (h : assembleLine interpret depth n line s = .ok () t) :
    t.macros = s.macros ∧ t.defining = s.defining := by
  have hline := leaves_assembleLine_macros interpret depth n line s
  rwa [Asm.leaves, h] at hline

namespace State.Knows

variable {s t : State} {name : Text} {m : Macro}

/-- A macro whose definition is closed stays as it is. -/
theorem sourceLine (h : s.Knows name m) {depth n : Nat} {line : Text}
    (hline : sourceLine interpret depth n line s = .ok () t) : t.Knows name m := by
  rcases sourceLine_ok hline with ⟨_, hline⟩ | hstep
  · obtain ⟨hmacros, hdefining⟩ := assembleLine_macros hline
    exact ⟨by rw [hmacros, h.known], by rw [hdefining]; exact h.closed⟩
  · cases hstep with
    | opened hwords hout hfresh =>
        rename_i other formals
        have hne : name ≠ other := by
          rintro rfl
          rw [Bindings.contains, h.known] at hfresh
          cases hfresh
        refine ⟨?_, fun heq => hne (Option.some_inj.1 heq).symm⟩
        rw [Bindings.get?_insert_of_ne _ _ hne, h.known]
    | closed hword => exact ⟨h.known, (Option.some_ne_none name).symm⟩
    | added hopen hclose hin hm =>
        rename_i other m'
        have hne : name ≠ other := by
          rintro rfl
          exact h.closed hin
        exact ⟨by rw [Bindings.get?_insert_of_ne _ _ hne, h.known], h.closed⟩
    | ignored _ _ _ _ => exact h

theorem sourceLines (h : s.Knows name m) {depth : Nat} {pos pos' : Position} {lines : List Text}
    (hlines : sourceLines interpret depth pos lines s = (pos', none, t)) : t.Knows name m := by
  induction lines generalizing pos s with
  | nil =>
      cases hlines
      exact h
  | cons line lines ih =>
      obtain ⟨u, hline, hrest⟩ := sourceLines_cons_eq_none.1 hlines
      exact ih (h.sourceLine hline) hrest

end State.Knows

/-- The lines of a macro definition, from its header to the line that closes it. -/
structure DefinitionLines (name : Text) (formals : List Text) (header : Text) (body : List Text)
    (footer : Text) : Prop where
  header : Text.words (Source.strip header) = text ".macro" :: name :: formals
  body : ∀ line ∈ body, (Text.words (Source.strip line)).head? ≠ some (text ".macro") ∧
    (Text.words (Source.strip line)).head? ≠ some (text ".endm")
  footer : (Text.words (Source.strip footer)).head? = some (text ".endm")

theorem body_read {depth : Nat} {pos pos' : Position} {lines : List Text} {s t : State} {name : Text}
    {m : Macro} (hin : s.defining = some name) (hm : s.macros.get? name = some m)
    (hwords : ∀ line ∈ lines, (Text.words (Source.strip line)).head? ≠ some (text ".macro") ∧
      (Text.words (Source.strip line)).head? ≠ some (text ".endm"))
    (hlines : sourceLines interpret depth pos lines s = (pos', none, t)) :
    t.defining = some name ∧
      t.macros.get? name = some { m with body := m.body ++ lines.map Source.strip } := by
  induction lines generalizing pos s m with
  | nil =>
      cases hlines
      simpa using ⟨hin, hm⟩
  | cons line lines ih =>
      rw [List.forall_mem_cons] at hwords
      obtain ⟨u, hline, hrest⟩ := sourceLines_cons_eq_none.1 hlines
      have hadded : u.defining = some name ∧
          u.macros.get? name = some { m with body := m.body ++ [Source.strip line] } := by
        rcases sourceLine_ok hline with ⟨hassembles, _⟩ | hstep
        · rw [hassembles.1] at hin
          cases hin
        · cases hstep with
          | opened _ hout _ =>
              rw [hout] at hin
              cases hin
          | closed hword => exact absurd hword hwords.1.2
          | added _ _ hin' hm' =>
              rw [hin, Option.some_inj] at hin'
              subst hin'
              rw [hm, Option.some_inj] at hm'
              subst hm'
              exact ⟨hin, Bindings.get?_insert_self _ _ _⟩
          | ignored _ _ hin' hm' =>
              rw [hin, Option.some_inj] at hin'
              subst hin'
              rw [hm] at hm'
              cases hm'
      obtain ⟨hdefining, hstored⟩ := ih hadded.1 hadded.2 hwords.2 hrest
      refine ⟨hdefining, ?_⟩
      rw [hstored, List.map_cons, List.append_assoc, List.singleton_append]

/-- Once the lines of a definition are read, the macro is known with its formals and its body. -/
theorem DefinitionLines.knows {name : Text} {formals : List Text} {header : Text} {body : List Text}
    {footer : Text} (h : DefinitionLines name formals header body footer) {depth : Nat}
    {pos pos' : Position} {s t : State}
    (hlines : sourceLines interpret depth pos (header :: body ++ [footer]) s = (pos', none, t)) :
    ∃ n, t.Knows name ⟨n, formals, body.map Source.strip⟩ := by
  obtain ⟨here, u, hopened, hfooter⟩ := sourceLines_append_eq_none.1 hlines
  obtain ⟨s', hheader, hbody⟩ := sourceLines_cons_eq_none.1 hopened
  obtain ⟨t', hfooter, hend⟩ := sourceLines_cons_eq_none.1 hfooter
  cases hend
  have hopen : s'.defining = some name ∧
      s'.macros.get? name = some ⟨pos.number + 1 + 1, formals, []⟩ := by
    rcases sourceLine_ok hheader with ⟨hassembles, _⟩ | hstep
    · exact absurd (by rw [h.header]; rfl) hassembles.2.1
    · cases hstep with
      | opened hwords _ _ =>
          rw [h.header] at hwords
          cases hwords
          exact ⟨rfl, Bindings.get?_insert_self _ _ _⟩
      | closed hword =>
          rw [h.header, List.head?_cons, Option.some_inj] at hword
          exact absurd hword (by decide)
      | added hopen _ _ _ => exact absurd (by rw [h.header]; rfl) hopen
      | ignored hopen _ _ _ => exact absurd (by rw [h.header]; rfl) hopen
  obtain ⟨hdefining, hstored⟩ := body_read hopen.1 hopen.2 h.body hbody
  refine ⟨pos.number + 1 + 1, ?_⟩
  rcases sourceLine_ok hfooter with ⟨hassembles, _⟩ | hstep
  · exact absurd h.footer hassembles.2.2
  · cases hstep with
    | opened hwords _ _ =>
        have hfooter := h.footer
        rw [hwords, List.head?_cons, Option.some_inj] at hfooter
        exact absurd hfooter (by decide)
    | closed hword => exact ⟨by simpa using hstored, nofun⟩
    | added _ hclose _ _ => exact absurd h.footer hclose
    | ignored _ hclose _ _ => exact absurd h.footer hclose

end TapeMachine.Assembler
