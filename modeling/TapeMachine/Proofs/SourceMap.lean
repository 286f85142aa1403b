import TapeMachine.Expression.Eval
import TapeMachine.Proofs.EquateScope
import TapeMachine.Proofs.LabelBinding
import TapeMachine.Proofs.MacroDefinitions
import TapeMachine.Proofs.TextParts
import TapeMachine.Proofs.Visits

/-! Line numbers as a map of the source. A macro holds the lines between its header and the line that
closes its definition, and knows the number of the first. So the number a line is assembled with, in
the body of a macro as well as outside, is that of the line of the source it is; its statements carry
this number, and the equate for the line number holds it as long as the line is assembled. -/

namespace TapeMachine.Assembler

variable {interpret : Expression.Interpreter}

theorem numberedLines_append (n : Nat) (lines more : List Text) :
    numberedLines n (lines ++ more) = numberedLines n lines ++ numberedLines (n + lines.length) more := by
  induction lines generalizing n with
  | nil => rfl
  | cons raw rest ih =>
      rw [List.cons_append, numberedLines, numberedLines, ih, List.cons_append, List.length_cons,
        Nat.add_assoc, Nat.add_comm 1]

theorem le_of_mem_numberedLines {k n : Nat} {line : Text} {lines : List Text}
    (h : (n, line) ∈ numberedLines k lines) : k ≤ n := by
  induction lines generalizing k with
  | nil => cases h
  | cons raw rest ih =>
      rw [numberedLines] at h
      rcases List.mem_cons.1 h with heq | hmem
      · cases heq
        exact Nat.le_refl n
      · exact Nat.le_of_succ_le (ih hmem)

/-- A numbered line follows as many lines as its number says. -/
theorem numberedLines_split {k n : Nat} {line : Text} {lines : List Text}
    {before after : List (Nat × Text)} (h : numberedLines k lines = before ++ (n, line) :: after) :
    ∃ front raw back, lines = front ++ raw :: back ∧ before = numberedLines k front ∧
      n = k + front.length ∧ line = Source.strip raw ∧ after = numberedLines (n + 1) back := by
  induction before generalizing k lines with
  | nil =>
      cases lines with
      | nil => cases h
      | cons raw back =>
          cases h
          exact ⟨[], raw, back, rfl, rfl, rfl, rfl, rfl⟩
  | cons first before ih =>
      cases lines with
      | nil => cases h
      | cons raw lines =>
          rw [numberedLines, List.cons_append, List.cons.injEq] at h
          obtain ⟨front, raw', back, rfl, rfl, rfl, rfl, rfl⟩ := ih h.2
          refine ⟨raw :: front, raw', back, rfl, ?_, ?_, rfl, rfl⟩
          · rw [numberedLines, h.1]
          · rw [List.length_cons]
            omega

/-- A macro in numbered lines: its header stands before its first line, and its body is the lines from
there on. -/
structure Macro.WrittenAt (m : Macro) (lines : List (Nat × Text)) (name : Text) : Prop where
  header : ∃ n line, m.line = n + 1 ∧ (n, line) ∈ lines ∧
    Text.words line = text ".macro" :: name :: m.formals
  body : ∀ i l, m.body[i]? = some l → (m.line + i, l) ∈ lines ∧
    (Text.words l).head? ≠ some (text ".macro") ∧ (Text.words l).head? ≠ some (text ".endm")

/-- The line after the body of a macro closes its definition. -/
def Macro.ClosedAt (m : Macro) (lines : List (Nat × Text)) : Prop :=
  ∃ line, (m.line + m.body.length, line) ∈ lines ∧ (Text.words line).head? = some (text ".endm")

/-- A line from the header of a macro to the end of its definition. -/
def Macro.Spans (m : Macro) (n : Nat) : Prop := m.line ≤ n + 1 ∧ n ≤ m.line + m.body.length

/-- After `count` of some lines, every macro is written at its lines, and its definition is closed
among the lines so far, or reaches up to the last of them. -/
structure State.Maps (s : State) (lines : List (Nat × Text)) (count : Nat) : Prop where
  written : ∀ name m, s.macros.get? name = some m → m.WrittenAt lines name
  closed : ∀ name m, s.macros.get? name = some m → s.defining ≠ some name →
    m.ClosedAt lines ∧ m.line + m.body.length ≤ count
  growing : ∀ name m, s.macros.get? name = some m → s.defining = some name →
    m.line + m.body.length = count + 1

namespace State.Maps

variable {s t : State} {lines : List (Nat × Text)} {count : Nat}

theorem congr (h : s.Maps lines count) (hmacros : t.macros = s.macros)
    (hdefining : t.defining = s.defining) : t.Maps lines count := by
  constructor
  · rw [hmacros]
    exact h.written
  · rw [hmacros, hdefining]
    exact h.closed
  · rw [hmacros, hdefining]
    exact h.growing

theorem assembled (h : s.Maps lines count) (hout : s.defining = none) : s.Maps lines (count + 1) := by
  refine ⟨h.written, fun name m hm hdefining => ?_, fun name m hm hdefining => ?_⟩
  · obtain ⟨hclosed, hle⟩ := h.closed name m hm hdefining
    exact ⟨hclosed, by omega⟩
  · rw [hout] at hdefining
    cases hdefining

theorem opened (h : s.Maps lines count) {line name : Text} {formals : List Text}
    (hline : (count + 1, line) ∈ lines) (hwords : Text.words line = text ".macro" :: name :: formals)
    (hout : s.defining = none) :
    State.Maps
      { s with macros := s.macros.insert name ⟨count + 1 + 1, formals, []⟩, defining := some name }
      lines (count + 1) := by
  constructor
  · intro other m hm
    rw [Bindings.get?_insert] at hm
    split_ifs at hm with hname
    · cases hm
      refine ⟨⟨count + 1, line, rfl, hline, by rw [hname, hwords]⟩, fun i l hl => ?_⟩
      cases hl
    · exact h.written other m hm
  · intro other m hm hdefining
    have hname : other ≠ name := fun heq => hdefining (congrArg some heq.symm)
    rw [Bindings.get?_insert_of_ne _ _ hname] at hm
    obtain ⟨hclosed, hle⟩ := h.closed other m hm (by simp [hout])
    exact ⟨hclosed, by omega⟩
  · intro other m hm hdefining
    cases hdefining
    rw [Bindings.get?_insert_self] at hm
    cases hm
    rfl

theorem closing (h : s.Maps lines count) {line : Text} (hline : (count + 1, line) ∈ lines)
    (hword : (Text.words line).head? = some (text ".endm")) :
    State.Maps { s with defining := none } lines (count + 1) := by
  refine ⟨h.written, fun name m hm _ => ?_, fun name m hm hdefining => by simp at hdefining⟩
  by_cases hdefining : s.defining = some name
  · have hcount := h.growing name m hm hdefining
    exact ⟨⟨line, by rwa [hcount], hword⟩, Nat.le_of_eq hcount⟩
  · obtain ⟨hclosed, hle⟩ := h.closed name m hm hdefining
    exact ⟨hclosed, by omega⟩

theorem added (h : s.Maps lines count) {line name : Text} {m : Macro}
    (hline : (count + 1, line) ∈ lines) (hopen : (Text.words line).head? ≠ some (text ".macro"))
    (hclose : (Text.words line).head? ≠ some (text ".endm")) (hin : s.defining = some name)
    (hm : s.macros.get? name = some m) :
    State.Maps { s with macros := s.macros.insert name { m with body := m.body ++ [line] } }
      lines (count + 1) := by
  have hcount := h.growing name m hm hin
  have hwritten := h.written name m hm
  constructor
  · intro other m' hm'
    rw [Bindings.get?_insert] at hm'
    split_ifs at hm' with hname
    · cases hm'
      rw [hname]
      refine ⟨hwritten.header, fun i l hl => ?_⟩
      dsimp only at hl ⊢
      by_cases hi : i < m.body.length
      · rw [List.getElem?_append_left hi] at hl
        exact hwritten.body i l hl
      · -- The line just read is the last of the body.
        rw [List.getElem?_append_right (by omega), List.getElem?_singleton] at hl
        split_ifs at hl
        cases hl
        refine ⟨?_, hopen, hclose⟩
        rwa [show m.line + i = count + 1 by omega]
    · exact h.written other m' hm'
  · intro other m' hm' hdefining
    have hname : other ≠ name := fun heq => hdefining (heq ▸ hin)
    rw [Bindings.get?_insert_of_ne _ _ hname] at hm'
    obtain ⟨hclosed, hle⟩ := h.closed other m' hm' hdefining
    exact ⟨hclosed, by omega⟩
  · intro other m' hm' hdefining
    have hname : other = name := by
      rw [show s.defining = some other from hdefining, Option.some_inj] at hin
      exact hin
    rw [hname, Bindings.get?_insert_self] at hm'
    cases hm'
    simp only [List.length_append, List.length_singleton]
    omega

/-- One more line of the source keeps the macros at their lines. -/
theorem sourceLine (h : s.Maps lines count) {depth : Nat} {line : Text}
    (hline : (count + 1, line) ∈ lines) (hrun : sourceLine interpret depth (count + 1) line s = .ok () t) :
    t.Maps lines (count + 1) := by
  rcases sourceLine_ok hrun with ⟨hassembles, hrun⟩ | hstep
  · obtain ⟨hmacros, hdefining⟩ := assembleLine_macros hrun
    exact (h.assembled hassembles.1).congr hmacros hdefining
  · cases hstep with
    | opened hwords hout _ => exact h.opened hline hwords hout
    | closed hword => exact h.closing hline hword
    | added hopen hclose hin hm => exact h.added hline hopen hclose hin hm
    | ignored _ _ hin hm =>
        rename_i name
        refine ⟨h.written, fun other m hm' hdefining => ?_, fun other m hm' hdefining => ?_⟩
        · obtain ⟨hclosed, hle⟩ := h.closed other m hm' hdefining
          exact ⟨hclosed, by omega⟩
        · rw [hin, Option.some_inj] at hdefining
          rw [← hdefining, hm] at hm'
          cases hm'

/-- All lines of a source that are taken in keep the macros at their lines. -/
theorem passes {depth : Nat} {texts : List Text} (h : s.Maps lines count)
    (hmem : ∀ l ∈ numberedLines (count + 1) texts, l ∈ lines)
    (hrun : Passes (Assembler.sourceLine interpret depth) (numberedLines (count + 1) texts) s t) :
    t.Maps lines (count + texts.length) := by
  induction texts generalizing s count with
  | nil =>
      cases hrun
      exact h
  | cons raw texts ih =>
      rw [numberedLines] at hmem hrun
      rw [List.forall_mem_cons] at hmem
      cases hrun with
      | cons hline hrest =>
          have hrest := ih (h.sourceLine hmem.1 hline) hmem.2 hrest
          rwa [List.length_cons, Nat.add_comm texts.length, ← Nat.add_assoc]

end State.Maps

theorem maps_start (equates : Bindings Text) (lines : List (Nat × Text)) :
    State.Maps { equates := equates } lines 0 := by
  constructor <;> simp

/-- A call of a macro is one of its definition. -/
theorem State.callOn?_known {s t : State} {n : Nat} {line : Text} {c : Call}
    (h : s.callOn? interpret n line = some (c, t)) :
    t.macros = s.macros ∧ s.macros.get? c.name = some c.definition := by
  have hsame : t.macros = s.macros :=
    State.callOn?_respects (R := Unchanged State.macros) (fun _ _ _ hmacros _ _ => hmacros) h
  obtain ⟨_, _, _, _, _, hknown⟩ := State.callOn?_eq_some h
  exact ⟨hsame, hsame ▸ hknown⟩

theorem lineVisits_macros {depth n : Nat} {line : Text} {s : State} {v : Visit}
    (h : v ∈ lineVisits interpret depth n line s) : v.before.macros = s.macros := by
  refine lineVisits_invariant (I := fun u => u.macros = s.macros) ?_ ?_ rfl v h
  · intro depth n line u hu
    rw [(leaves_assembleLine_macros _ depth n line u).1, hu]
  · intro n line u c t hcall hu
    exact (State.callOn?_known hcall).1.trans hu

/-- Every visit of a source belongs to a line that is assembled, and those before it are taken in. -/
theorem mem_sourceVisits {depth : Nat} {a : Assembler} {source : Text} {v : Visit}
    (h : v ∈ sourceVisits depth a source) :
    ∃ front raw back u, (Source.lines source).texts = front ++ raw :: back ∧
      Passes (sourceLine a.interpret depth) (numberedLines 1 front) { equates := a.startEquates } u ∧
      u.Assembles (Source.strip raw) ∧
      v ∈ lineVisits a.interpret depth (1 + front.length) (Source.strip raw) u := by
  obtain ⟨before, n, line, after, u, hlines, hbefore, hv⟩ := mem_visitsAlong h
  obtain ⟨front, raw, back, hsplit, rfl, rfl, rfl, -⟩ := numberedLines_split hlines
  rw [sourceLineVisits] at hv
  split_ifs at hv with hassembles
  · exact ⟨front, raw, back, u, hsplit, hbefore, hassembles, hv⟩
  · cases hv

/-- The visits of a line are visits of the source, if the lines before it are taken in. -/
theorem mem_sourceVisits_of_line {depth : Nat} {a : Assembler} {source : Text} {front back : List Text}
    {raw : Text} {u : State} {v : Visit} (hsplit : (Source.lines source).texts = front ++ raw :: back)
    (hfront : Passes (sourceLine a.interpret depth) (numberedLines 1 front)
      { equates := a.startEquates } u)
    (hassembles : u.Assembles (Source.strip raw))
    (h : v ∈ lineVisits a.interpret depth (1 + front.length) (Source.strip raw) u) :
    v ∈ sourceVisits depth a source := by
  rw [sourceVisits, sourceTexts, hsplit, numberedLines_append, visitsAlong_append hfront, numberedLines,
    visitsAlong, sourceLineVisits, if_pos hassembles]
  exact List.mem_append_right _ (List.mem_append_left _ h)

/-- The macros of a source stand at their lines wherever one of its lines is taken in. -/
theorem maps_of_passes {depth : Nat} {equates : Bindings Text} {front : List Text} {u : State}
    (more : List Text)
    (h : Passes (sourceLine interpret depth) (numberedLines 1 front) { equates := equates } u) :
    u.Maps (numberedLines 1 (front ++ more)) front.length := by
  have hmem : ∀ l ∈ numberedLines 1 front, l ∈ numberedLines 1 (front ++ more) := by
    intro l hl
    rw [numberedLines_append]
    exact List.mem_append_left _ hl
  have hmaps := (maps_start equates (numberedLines 1 (front ++ more))).passes hmem h
  rwa [Nat.zero_add] at hmaps

/-- A macro after some lines was known before them, or its definition begins among them. -/
theorem macro_after_passes {depth n : Nat} {lines : List Text} {s t : State} (hout : s.defining = none)
    (h : Passes (sourceLine interpret depth) (numberedLines (n + 1) lines) s t) :
    ∀ name m, t.macros.get? name = some m → s.macros.get? name = some m ∨ n + 1 < m.line := by
  have hcases : ∀ name m, t.macros.get? name = some m →
      (s.macros.get? name = some m ∧ t.defining ≠ some name) ∨ n + 1 < m.line := by
    refine h.invariant (I := fun t => ∀ name m, t.macros.get? name = some m →
      (s.macros.get? name = some m ∧ t.defining ≠ some name) ∨ n + 1 < m.line) ?_ ?_
    · intro k line u u' hmem hrun hu
      have hk : n + 1 ≤ k := le_of_mem_numberedLines hmem
      rcases sourceLine_ok hrun with ⟨_, hline⟩ | hstep
      · obtain ⟨hmacros, hdefining⟩ := assembleLine_macros hline
        rwa [hmacros, hdefining]
      · intro name m hm
        cases hstep with
        | opened _ _ _ =>
            rw [Bindings.get?_insert] at hm
            split_ifs at hm with hname
            · cases hm
              exact .inr (by dsimp only; omega)
            · refine (hu name m hm).imp_left fun hknown => ⟨hknown.1, fun heq => hname ?_⟩
              exact (Option.some_inj.1 heq).symm
        | closed _ => exact (hu name m hm).imp_left fun hknown => ⟨hknown.1, by simp⟩
        | added _ _ hin hm' =>
            rw [Bindings.get?_insert] at hm
            split_ifs at hm with hname
            · -- A macro that grows is not one from before.
              cases hm
              rcases hu _ _ hm' with ⟨_, hclosed⟩ | hlater
              · exact absurd hin hclosed
              · exact .inr hlater
            · exact hu name m hm
        | ignored _ _ _ _ => exact hu name m hm
    · intro name m hm
      exact .inl ⟨hm, by simp [hout]⟩
  intro name m hm
  exact (hcases name m hm).imp_left And.left

/-- A line that is assembled, macro calls and all, leaves the equates as they are, but for its number and
a new one that it may define as one of its words. -/
theorem leaves_assembleWith_equates {expand : Text → Macro → List Text → Asm Unit}
    (hexpand : ∀ name m args, (expand name m args).Respects (Unchanged State.equates)) (n : Nat)
    (line : Text) (s : State) :
    ((assembleWith interpret expand n line).leaves s).equates = (s.atLine n).equates ∨
      ∃ name value, (s.atLine n).equates.contains name = false ∧ value ≠ [] ∧
        ((assembleWith interpret expand n line).leaves s).equates =
          (s.atLine n).equates.insert name value := by
  rw [Asm.leaves, assembleWith_reading]
  rcases (replaceConstants interpret (s.atLine n).equates line).text with (bad | _) | t
  · exact .inl rfl
  · exact .inl rfl
  · dsimp only
    cases hwords : Text.words t with
    | nil => exact .inl rfl
    | cons word rest =>
        by_cases hequ : word = text ".equ"
        · simp only [if_pos hequ]
          rcases rest with _ | ⟨name, _ | ⟨value, _ | ⟨_, _⟩⟩⟩
          · exact .inl rfl
          · exact .inl rfl
          · rw [defineEquate_run]
            split_ifs with hknown
            · exact .inl rfl
            · have hvalue : value ≠ [] := Text.ne_nil_of_mem_words (t := t) (by simp [hwords])
              exact .inr ⟨name, value, eq_false_of_ne_true hknown, hvalue, rfl⟩
          · exact .inl rfl
        · simp only [if_neg hequ]
          exact .inl (assembleReplaced_unchanged hexpand n _ (s.reading interpret n line))

theorem leaves_assembleLine_equates (depth n : Nat) (line : Text) (s : State) :
    ((assembleLine interpret depth n line).leaves s).equates = (s.atLine n).equates ∨
      ∃ name value, (s.atLine n).equates.contains name = false ∧ value ≠ [] ∧
        ((assembleLine interpret depth n line).leaves s).equates =
          (s.atLine n).equates.insert name value := by
  cases depth with
  | zero => exact leaves_assembleWith_equates (fun _ _ _ => Asm.Respects.throw _) n line s
  | succ depth =>
      exact leaves_assembleWith_equates (expandMacro_unchanged (assembleLine interpret depth)) n line s

/-- Once a line is assembled, the equate still holds its number, however calls are carried out that leave
the equates as they are. -/
theorem leaves_assembleWith_lineEquate {expand : Text → Macro → List Text → Asm Unit}
    (hexpand : ∀ name m args, (expand name m args).Respects (Unchanged State.equates)) (n : Nat)
    (line : Text) (s : State) :
    ((assembleWith interpret expand n line).leaves s).equates.get? lineEquate =
      some (Text.ofNat n) := by
  have hatLine : (s.atLine n).equates.get? lineEquate = some (Text.ofNat n) :=
    Visit.get?_lineEquate ⟨n, [], n, line, s⟩
  rcases leaves_assembleWith_equates hexpand n line s with hsame | ⟨name, value, hfresh, -, hnew⟩
  · rw [hsame, hatLine]
  · -- It is known before the line, so it is not what the line defines.
    have hname : lineEquate ≠ name := by
      rintro rfl
      rw [Bindings.contains, hatLine] at hfresh
      cases hfresh
    rw [hnew, Bindings.get?_insert_of_ne _ _ hname, hatLine]

theorem leaves_assembleAlone_lineEquate (n : Nat) (line : Text) (s : State) :
    ((assembleAlone interpret n line).leaves s).equates.get? lineEquate = some (Text.ofNat n) :=
  leaves_assembleWith_lineEquate (fun _ _ _ => Asm.Respects.pure _) n line s

theorem leaves_assembleLine_lineEquate (depth n : Nat) (line : Text) (s : State) :
    ((assembleLine interpret depth n line).leaves s).equates.get? lineEquate =
      some (Text.ofNat n) := by
  cases depth with
  | zero => exact leaves_assembleWith_lineEquate (fun _ _ _ => Asm.Respects.throw _) n line s
  | succ depth =>
      exact leaves_assembleWith_lineEquate (expandMacro_unchanged (assembleLine interpret depth)) n
        line s

/-! ### The source map -/

/-- A visit of a line outside of all macro definitions, by itself. -/
structure Visit.StandsOutside (v : Visit) (lines : List (Nat × Text)) (macros : Bindings Macro) :
    Prop where
  frames : v.frames = []
  origin : v.origin = v.number
  line : (v.number, v.line) ∈ lines
  outside : ∀ name m, macros.get? name = some m → ¬m.Spans v.number

/-- All lines of an accepted source are taken in, and no macro is left open. -/
theorem passes_of_accepted {depth : Nat} {a : Assembler} {source : Text} {p : Program}
    (h : (parse depth a source).verdict = .accepted p) :
    Passes (sourceLine a.interpret depth) (sourceTexts source) { equates := a.startEquates }
        (parse depth a source).state ∧
      (parse depth a source).state.defining = none := by
  rcases parse_cases depth a source with ⟨pos, hverdict, -, hpasses⟩ | ⟨_, _, _, _, _, _, _, _, hverdict⟩
  · obtain ⟨-, -, hdefining, -, -⟩ := judge_eq_accepted.1 (hverdict.symm.trans h)
    exact ⟨hpasses, hdefining⟩
  · obtain ⟨hfailure, -⟩ := judge_eq_accepted.1 (hverdict.symm.trans h)
    cases hfailure

section

variable {depth : Nat} {a : Assembler} {source : Text} {p : Program}

/-- The macros that an accepted source calls are the ones that it ends with. -/
theorem known_of_accepted (h : (parse depth a source).verdict = .accepted p) {w : Visit}
    (hw : w ∈ sourceVisits depth a source) {c : Call} {t : State}
    (hcall : w.before.callOn? a.interpret w.number w.line = some (c, t)) :
    (parse depth a source).state.macros.get? c.name = some c.definition := by
  obtain ⟨front, raw, back, u, hsplit, hfront, hassembles, hline⟩ := mem_sourceVisits hw
  have hknown := (State.callOn?_known hcall).2
  rw [lineVisits_macros hline] at hknown
  have hpasses := (passes_of_accepted h).1
  rw [sourceTexts, hsplit, numberedLines_append] at hpasses
  have hend : (parse depth a source).state.Knows c.name c.definition := by
    refine (hfront.rest hpasses).invariant (I := fun s => s.Knows c.name c.definition) ?_ ?_
    · exact fun n line s t _ hrun hs => hs.sourceLine hrun
    · exact ⟨hknown, by simp [hassembles.1]⟩
  exact hend.known

/-- A line of an accepted source that is assembled lies outside of all macro definitions. -/
theorem outside_of_accepted (h : (parse depth a source).verdict = .accepted p) {front back : List Text}
    {raw : Text} {u : State} (hsplit : (Source.lines source).texts = front ++ raw :: back)
    (hfront : Passes (sourceLine a.interpret depth) (numberedLines 1 front)
      { equates := a.startEquates } u)
    (hassembles : u.Assembles (Source.strip raw)) {name : Text} {m : Macro}
    (hm : (parse depth a source).state.macros.get? name = some m) : ¬m.Spans (1 + front.length) := by
  have hpasses := (passes_of_accepted h).1
  rw [sourceTexts, hsplit, numberedLines_append] at hpasses
  cases hfront.rest hpasses with
  | cons hline hback =>
      rename_i t
      rw [sourceLine_run, if_pos hassembles] at hline
      obtain ⟨hmacros, hdefining⟩ := assembleLine_macros hline
      rintro ⟨hheader, hfooter⟩
      rcases macro_after_passes (hdefining.trans hassembles.1) hback name m hm with hbefore | hafter
      · -- A macro known at the line is closed before it.
        rw [hmacros] at hbefore
        have hle := ((maps_of_passes [] hfront).closed name m hbefore
          (by simp [hassembles.1])).2
        omega
      · omega

end

/-- An assembly of a source that is accepted, seen as a map of it. Each macro stands at its lines. The
statements are those of the visited lines in their order. Each visited line stands outside of all
definitions and is visited by itself, or it is a line in the body of a macro that another visited line
calls, and in both cases its number is that of its statements and of the equate for the line number,
when the line itself is assembled and again after the calls that it leads to. -/
theorem line_numbers_map_the_source (depth : Nat) (a : Assembler) (source : Text) (p : Program)
    (h : (parse depth a source).verdict = .accepted p) :
    (∀ name m, (parse depth a source).state.macros.get? name = some m →
      m.WrittenAt (sourceTexts source) name ∧ m.ClosedAt (sourceTexts source)) ∧
    p.statements = (sourceVisits depth a source).flatMap (Visit.statements a.interpret) ∧
    ∀ v ∈ sourceVisits depth a source,
      (∀ st ∈ v.statements a.interpret, st.line = v.number) ∧
      ((assembleAlone a.interpret v.number v.line).leaves v.before).equates.get? lineEquate =
        some (Text.ofNat v.number) ∧
      (∀ d, ((assembleLine a.interpret d v.number v.line).leaves v.before).equates.get? lineEquate =
        some (Text.ofNat v.number)) ∧
      (v.StandsOutside (sourceTexts source) (parse depth a source).state.macros ∨
        ∃ w ∈ sourceVisits depth a source, ∃ c i, w.LeadsTo a.interpret v c i ∧
          (parse depth a source).state.macros.get? c.name = some c.definition) := by
  obtain ⟨hpasses, hclosed⟩ := passes_of_accepted h
  have hmaps := maps_of_passes [] hpasses
  rw [List.append_nil] at hmaps
  refine ⟨?_, ?_, ?_⟩
  · intro name m hm
    exact ⟨hmaps.written name m hm, (hmaps.closed name m hm (by simp [hclosed])).1⟩
  · rw [(parse_accepted h).1, sourceVisits_statements]
  · intro v hv
    refine ⟨fun st hst => line_of_mem_wordStatements hst,
      leaves_assembleAlone_lineEquate v.number v.line v.before,
      fun d => leaves_assembleLine_lineEquate d v.number v.line v.before, ?_⟩
    obtain ⟨front, raw, back, u, hsplit, hfront, hassembles, hline⟩ := mem_sourceVisits hv
    rcases lineVisits_cases hline with rfl | ⟨w, hw, c, i, hleads⟩
    · refine .inl ⟨rfl, rfl, ?_, fun name m hm => outside_of_accepted h hsplit hfront hassembles hm⟩
      rw [sourceTexts, hsplit, numberedLines_append, numberedLines]
      exact List.mem_append_cons_self
    · have hw := mem_sourceVisits_of_line hsplit hfront hassembles hw
      obtain ⟨t, l, hcall, -⟩ := hleads.called
      exact .inr ⟨w, hw, c, i, hleads, known_of_accepted h hw hcall⟩

/-- A macro called in the body of another, with a blank line in its body and comments. Every register but
the first is given the number of the line that does it. -/
def mappedSource : Text :=
  text "; numbers\n.macro inner x\n\nmov r0 x ; load\nmov r1 LINENO\n.endm\n.macro outer\ninner 3\n" ++
    text "mov r2 $(LINENO)\n.endm\nouter\nmov r3 LINENO\ninner LINENO\nmov r4 LINENO\n"

def mappedProgram : Program :=
  ⟨(parse 2 (fresh Expression.interpret) mappedSource).state.statements.toList⟩

theorem mappedSource_line_numbers :
    (parse 2 (fresh Expression.interpret) mappedSource).verdict = .accepted mappedProgram ∧
      mappedProgram.statements.map (fun st => (st.line, Text.unwords st.words)) =
        [(4, text "mov r0 3"), (5, text "mov r1 5"), (9, text "mov r2 9"), (12, text "mov r3 12"),
          (4, text "mov r0 13"), (5, text "mov r1 5"), (14, text "mov r4 14")] ∧
      mappedProgram.statements = (sourceVisits 2 (fresh Expression.interpret) mappedSource).flatMap
        (Visit.statements Expression.interpret) ∧
      ∀ v ∈ sourceVisits 2 (fresh Expression.interpret) mappedSource,
        v.StandsOutside (sourceTexts mappedSource)
            (parse 2 (fresh Expression.interpret) mappedSource).state.macros ∨
          ∃ w ∈ sourceVisits 2 (fresh Expression.interpret) mappedSource, ∃ c i,
            w.LeadsTo Expression.interpret v c i := by
  have haccepted : (parse 2 (fresh Expression.interpret) mappedSource).verdict =
      .accepted mappedProgram := by
    decide +kernel
  obtain ⟨-, hstatements, hvisits⟩ :=
    line_numbers_map_the_source 2 (fresh Expression.interpret) mappedSource mappedProgram haccepted
  refine ⟨haccepted, by decide +kernel, hstatements, fun v hv => ?_⟩
  obtain ⟨-, -, -, hplace⟩ := hvisits v hv
  exact hplace.imp_right fun ⟨w, hw, c, i, hleads, _⟩ => ⟨w, hw, c, i, hleads⟩

end TapeMachine.Assembler
