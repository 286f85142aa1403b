import TapeMachine.Proofs.Interpreters
import TapeMachine.Proofs.SpelledLines

/-! Assembling does not depend on numbers that a source does not name. The number of a line reaches
what is assembled only through the equate that holds it, and the number of an expansion only through
local names. So where neither occurs, lines taken in with other numbers, after states that are alike
but for numbers, give states that are alike again, or fail alike. -/

namespace TapeMachine

namespace Assembler

open Text

variable {interpret : Expression.Interpreter}

theorem lineEquate_letters : ∀ b ∈ lineEquate, isLetter b = true := List.all_eq_true.1 (by decide)

theorem lineEquate_ne_nil : lineEquate ≠ [] := by decide

/-- Only the expressions among segments look at the numbers. -/
theorem expandAll_congr {numbers others : Expression.Numbers} {segs : List Segment}
    (h : ∀ t, .expression t ∈ segs →
      Expression.evaluate interpret numbers t = Expression.evaluate interpret others t) :
    expandAll interpret numbers segs = expandAll interpret others segs := by
  induction segs with
  | nil => rfl
  | cons seg rest ih =>
      have hfirst : seg.expand interpret numbers = seg.expand interpret others := by
        cases seg with
        | plain b => rfl
        | expression t => simp only [Segment.expand, h t List.mem_cons_self]
      rw [expandAll, expandAll, hfirst, ih fun t ht => h t (List.mem_cons_of_mem _ ht)]

/-- Constants are replaced alike whatever the number of the line, if the line does not name it. -/
theorem replaceConstants_congr (hnames : Expression.IgnoresUnnamed interpret)
    {equates others : Bindings Text} {line : Text}
    (hsame : equates.without lineEquate = others.without lineEquate) (hline : ¬ lineEquate <:+: line) :
    replaceConstants interpret equates line = replaceConstants interpret others line := by
  have hnumbers : Expression.SameBut lineEquate (integers equates) (integers others) := by
    intro name hne
    rw [integers, integers, Bindings.get?_congr_of_without hne hsame]
  have hbody : ∀ t, .expression t ∈ segments (replaceChars 0 line) → ¬ lineEquate <:+: t := by
    intro t ht hpart
    have hchars := hpart.trans (infix_of_mem_segmentsFrom ht)
    exact hline ((rewritten_replaceChars 0 line).infix_of_letters lineEquate_ne_nil
      lineEquate_letters hchars)
  exact expandAll_congr fun t ht => hnames.evaluate_congr lineEquate_ne_nil lineEquate_letters
    (by decide) hnumbers (hbody t ht)

/-! ### States that are alike but for numbers -/

/-- A line in which no number of a line or of an expansion can show. -/
structure Numberless (line : Text) : Prop where
  noLocal : byte '@' ∉ line
  noLine : ¬ lineEquate <:+: line

/-- A macro without the place it was defined at. -/
def Macro.unplaced (m : Macro) : Macro := { m with line := 0 }

theorem Macro.unplaced_eq_iff {m m' : Macro} :
    m.unplaced = m'.unplaced ↔ m.formals = m'.formals ∧ m.body = m'.body := by
  simp [unplaced]

/-- Two states that differ in their equates, in a given way, and in numbers of lines and of expansions,
with macros in which no such number shows. -/
structure State.AlikeWith (E : Bindings Text → Bindings Text → Prop) (s s' : State) : Prop where
  entries : s.entries = s'.entries
  labels : s.labels = s'.labels
  pc : s.pc = s'.pc
  defining : s.defining = s'.defining
  equates : E s.equates s'.equates
  macros : s.macros.map Macro.unplaced = s'.macros.map Macro.unplaced
  formals : ∀ p ∈ s.macros.entries, lineEquate ∉ p.2.formals
  bodies : ∀ p ∈ s.macros.entries, ∀ line ∈ p.2.body, Numberless line

/-- Equates that are the same but for the number of the line. -/
def SameEquates (e e' : Bindings Text) : Prop := e.without lineEquate = e'.without lineEquate

/-- Two states that differ in numbers of lines and of expansions only. -/
abbrev State.Alike : State → State → Prop := State.AlikeWith SameEquates

/-- Two results of an action: both good, with the same value and states in a relation, or both
failures. -/
inductive EndsIn (R : State → State → Prop) {α : Type} :
    EStateM.Result Failure State α → EStateM.Result Failure State α → Prop where
  | ok (a : α) {s s' : State} (h : R s s') : EndsIn R (.ok a s) (.ok a s')
  | error (e e' : Failure) (s s' : State) : EndsIn R (.error e s) (.error e' s')

/-- Two results of an action: both good, with the same value and states alike, or both failures. -/
abbrev EndAlike {α : Type} : EStateM.Result Failure State α → EStateM.Result Failure State α → Prop :=
  EndsIn State.Alike

namespace EndsIn

variable {R : State → State → Prop} {α β : Type} {s s' : State}

theorem bind {x x' : Asm α} {f f' : α → Asm β} (hx : EndsIn R (x s) (x' s'))
    (hf : ∀ a t t', R t t' → EndsIn R (f a t) (f' a t')) :
    EndsIn R ((x >>= f) s) ((x' >>= f') s') := by
  rw [bind_run, bind_run]
  generalize x s = r at hx ⊢
  generalize x' s' = r' at hx ⊢
  cases hx with
  | ok a h => exact hf a _ _ h
  | error e e' t t' => exact .error e e' t t'

theorem within {x x' : Asm α} (f f' : Frame) (hx : EndsIn R (x s) (x' s')) :
    EndsIn R (Asm.within f x s) (Asm.within f' x' s') := by
  rw [Asm.within, Asm.within]
  generalize x s = r at hx ⊢
  generalize x' s' = r' at hx ⊢
  cases hx with
  | ok a h => exact .ok a h
  | error e e' t t' => exact .error _ _ t t'

end EndsIn

/-- Lines taken in by two actions end alike, whatever their numbers. -/
def TakeAlike (act act' : Nat → Text → Asm Unit) : Prop :=
  ∀ ⦃n n' : Nat⦄ ⦃line : Text⦄ ⦃s s' : State⦄, Numberless line → s.Alike s' →
    EndAlike (act n line s) (act' n' line s')

namespace State.AlikeWith

variable {E : Bindings Text → Bindings Text → Prop} {s s' t t' : State}

theorem print (h : s.AlikeWith E s') (printed printed' : Text) :
    { s with printed := printed }.AlikeWith E { s' with printed := printed' } := { h with }

theorem declare (h : s.AlikeWith E s') (n n' : Nat) (word name : Text) :
    (s.declare n word name).AlikeWith E (s'.declare n' word name) :=
  { h with
    entries := by
      change (s.push n [word] (.label name)).entries = (s'.push n' [word] (.label name)).entries
      rw [State.entries_push, State.entries_push, h.entries]
    labels := by
      change s.labels.insert name s.pc = s'.labels.insert name s'.pc
      rw [h.labels, h.pc] }

theorem emit (h : s.AlikeWith E s') (n n' : Nat) (words : List Text) (i : Instruction) :
    (s.emit n words i).AlikeWith E (s'.emit n' words i) :=
  { h with
    entries := by
      change (s.push n words (.insn i)).entries = (s'.push n' words (.insn i)).entries
      rw [State.entries_push, State.entries_push, h.entries]
    pc := congrArg (· + 1) h.pc }

/-- A name is a macro in both states or in none, and it is the same one but for its place. -/
theorem macro_cases (h : s.AlikeWith E s') (name : Text) :
    (s.macros.get? name = none ∧ s'.macros.get? name = none) ∨
      ∃ m m', s.macros.get? name = some m ∧ s'.macros.get? name = some m' ∧
        m.unplaced = m'.unplaced := by
  have hsame : (s.macros.get? name).map Macro.unplaced = (s'.macros.get? name).map Macro.unplaced := by
    rw [← Bindings.get?_map, ← Bindings.get?_map, h.macros]
  cases hm : s.macros.get? name <;> cases hm' : s'.macros.get? name <;> simp_all

end State.AlikeWith

namespace State.Alike

variable {s s' t t' : State}

theorem atLine (h : s.Alike s') (n n' : Nat) : (s.atLine n).Alike (s'.atLine n') :=
  { h with
    equates := by
      simp only [SameEquates, State.atLine, Bindings.without_insert_self]
      exact h.equates }

theorem putBack (h : s.Alike s') (ht : t.Alike t') :
    { t with equates := s.equates }.Alike { t' with equates := s'.equates } :=
  { ht with equates := h.equates }

theorem substitute (h : s.Alike s') {ws : List Text} (hws : lineEquate ∉ ws) :
    ws.map (substitute s.equates) = ws.map (Assembler.substitute s'.equates) := by
  refine List.map_congr_left fun w hw => ?_
  have hne : w ≠ lineEquate := fun heq => hws (heq ▸ hw)
  rw [Assembler.substitute, Assembler.substitute, Bindings.get?_congr_of_without hne h.equates]

theorem entering (h : s.Alike s') {m m' : Macro} (hformals : m.formals = m'.formals)
    (hline : lineEquate ∉ m.formals) (args : List Text) :
    (s.entering m args).Alike (s'.entering m' args) :=
  { h with
    equates := by
      have hpairs : ∀ p ∈ m.formals.zip args, p.1 ≠ lineEquate := by
        intro p hp heq
        exact hline (heq ▸ (List.of_mem_zip hp).1)
      simp only [SameEquates, State.entering]
      rw [← hformals, Bindings.without_insertAll hpairs, Bindings.without_insertAll hpairs, h.equates] }

end State.Alike

theorem lineEquate_not_mem_words {t : Text} (h : ¬ lineEquate <:+: t) : lineEquate ∉ words t :=
  fun hmem => h (infix_of_mem_words hmem)

section

variable {s s' : State}

theorem readWords_alike (hnames : Expression.IgnoresUnnamed interpret) {line : Text}
    (hline : Numberless line) (h : s.Alike s') :
    EndAlike (readWords interpret line s) (readWords interpret line s') := by
  simp only [readWords_run, ← replaceConstants_congr hnames h.equates hline.noLine]
  cases (replaceConstants interpret s.equates line).text with
  | ok t => exact .ok (words t) (h.print _ _)
  | error e => cases e <;> exact .error _ _ _ _

theorem lineEquate_not_mem_readWords {line : Text} (hline : Numberless line) {ws : List Text}
    {t : State} (hread : readWords interpret line s = .ok ws t) : lineEquate ∉ ws := by
  rw [readWords_run] at hread
  dsimp only at hread
  split at hread
  · rename_i htext
    cases hread
    refine lineEquate_not_mem_words fun hpart => hline.noLine ?_
    exact infix_of_replaceConstants lineEquate_ne_nil lineEquate_letters htext hpart
  · cases hread
  · cases hread

theorem defineEquate_alike {rest : List Text} (hrest : lineEquate ∉ rest) (h : s.Alike s') :
    EndAlike (defineEquate rest s) (defineEquate rest s') := by
  rcases rest with _ | ⟨name, _ | ⟨value, _ | ⟨more, rest⟩⟩⟩
  · exact .error _ _ _ _
  · exact .error _ _ _ _
  · have hne : name ≠ lineEquate := fun heq => hrest (by simp [heq])
    have hcontains : s.equates.contains name = s'.equates.contains name := by
      rw [Bindings.contains, Bindings.contains, Bindings.get?_congr_of_without hne h.equates]
    rw [defineEquate_run, defineEquate_run, hcontains]
    split_ifs
    · exact .error _ _ _ _
    · refine .ok () { h with equates := ?_ }
      rw [SameEquates, Bindings.without_insert hne, Bindings.without_insert hne, h.equates]
  · exact .error _ _ _ _

theorem declareLabels_alike {E : Bindings Text → Bindings Text → Prop} (n n' : Nat)
    (ws : List Text) (h : s.AlikeWith E s') :
    EndsIn (State.AlikeWith E) (declareLabels n ws s) (declareLabels n' ws s') := by
  induction ws generalizing s s' with
  | nil => exact .ok [] h
  | cons w ws ih =>
      unfold declareLabels
      cases declaredName? w with
      | none => exact .ok (w :: ws) h
      | some name =>
          refine EndsIn.bind ?_ fun _ t t' ht => ih ht
          rw [declareLabel_run, declareLabel_run, h.labels]
          split_ifs
          · exact .error _ _ _ _
          · exact .ok () (h.declare n n' w name)
          · exact .error _ _ _ _

theorem addInstruction_alike {E : Bindings Text → Bindings Text → Prop} (n n' : Nat) (mnemonic : Text)
    (args : List Text) (h : s.AlikeWith E s') :
    EndsIn (State.AlikeWith E) (addInstruction n mnemonic args s)
      (addInstruction n' mnemonic args s') := by
  rw [addInstruction_run, addInstruction_run]
  cases instructionOf mnemonic args with
  | ok i => exact .ok () (h.emit n n' _ i)
  | error e => exact .error _ _ _ _

/-- Macro calls carried out alike: of the same macro but for its place, on states alike. -/
def ExpandAlike (expand expand' : Text → Macro → List Text → Asm Unit) : Prop :=
  ∀ ⦃name : Text⦄ ⦃m m' : Macro⦄ (args : List Text) ⦃s s' : State⦄, s.Alike s' →
    s.macros.get? name = some m → m.unplaced = m'.unplaced →
      EndAlike (expand name m args s) (expand' name m' args s')

theorem assembleWords_alike {expand expand' : Text → Macro → List Text → Asm Unit}
    (hexpand : ExpandAlike expand expand') (n n' : Nat) (name : Text) (args : List Text)
    (h : s.Alike s') :
    EndAlike (assembleWords expand n name args s) (assembleWords expand' n' name args s') := by
  rw [assembleWords_run, assembleWords_run]
  obtain ⟨hm, hm'⟩ | ⟨m, m', hm, hm', hsame⟩ := h.macro_cases name
  · rw [hm, hm']
    exact addInstruction_alike n n' name args h
  · rw [hm, hm']
    simp only [(Macro.unplaced_eq_iff.1 hsame).1]
    split_ifs
    · exact hexpand args h hm hsame
    · exact .error _ _ _ _

theorem assembleWith_alike (hnames : Expression.IgnoresUnnamed interpret)
    {expand expand' : Text → Macro → List Text → Asm Unit} (hexpand : ExpandAlike expand expand') :
    TakeAlike (assembleWith interpret expand) (assembleWith interpret expand') := by
  intro n n' line s s' hline h
  rw [assembleWith_run, assembleWith_run]
  have hread := readWords_alike hnames hline (h.atLine n n')
  have hfree : ∀ ws t, readWords interpret line (s.atLine n) = .ok ws t → lineEquate ∉ ws :=
    fun ws t => lineEquate_not_mem_readWords hline
  generalize readWords interpret line (s.atLine n) = r at hread hfree ⊢
  generalize readWords interpret line (s'.atLine n') = r' at hread ⊢
  cases hread with
  | error e e' t t' => exact .error _ _ _ _
  | @ok ws t t' ht =>
      have hws := hfree ws t rfl
      cases ws with
      | nil => exact .ok () ht
      | cons w ws =>
          dsimp only
          split_ifs
          · exact defineEquate_alike (List.not_mem_of_not_mem_cons hws) ht
          · rw [ht.substitute hws]
            refine EndsIn.bind (declareLabels_alike n n' _ ht) fun words t t' ht => ?_
            cases words with
            | nil => exact .ok () ht
            | cons name args => exact assembleWords_alike hexpand n n' name args ht

theorem assembleBody_alike {assemble assemble' : Nat → Text → Asm Unit}
    (hassemble : TakeAlike assemble assemble') (name : Text) {lines lines' : List (Nat × Text)}
    (hlines : List.Forall₂ (fun p p' => p.2 = p'.2 ∧ Numberless p.2) lines lines')
    (h : s.Alike s') :
    EndAlike (assembleBody assemble name lines s) (assembleBody assemble' name lines' s') := by
  induction hlines generalizing s s' with
  | nil => exact .ok () h
  | @cons p p' _ _ hline _ ih =>
      obtain ⟨n, line⟩ := p
      obtain ⟨n', line'⟩ := p'
      obtain ⟨rfl : line = line', hnumberless⟩ := hline
      rw [assembleBody_cons, assembleBody_cons]
      exact EndsIn.bind ((hassemble hnumberless h).within _ _) fun _ t t' ht => ih ht

/-- Lines without local names are expanded as they stand. -/
theorem Macro.expansionLines_eq {m : Macro} (h : ∀ line ∈ m.body, byte '@' ∉ line) (name : Text)
    (expansion : Nat) :
    m.expansionLines name expansion = m.body.zipIdx.map fun p => (m.line + p.2, p.1) := by
  refine List.map_congr_left fun ⟨line, i⟩ hp => ?_
  dsimp only
  rw [replaceByte_eq_self (h line (List.fst_mem_of_mem_zipIdx hp))]

theorem expandMacro_alike {assemble assemble' : Nat → Text → Asm Unit}
    (hassemble : TakeAlike assemble assemble') :
    ExpandAlike (expandMacro assemble) (expandMacro assemble') := by
  intro name m m' args s s' h hm hsame
  obtain ⟨hformals, hbody⟩ := Macro.unplaced_eq_iff.1 hsame
  have hentry := Bindings.mem_entries_of_get? hm
  have hlines : List.Forall₂ (fun p p' : Nat × Text => p.2 = p'.2 ∧ Numberless p.2)
      (m.expansionLines name (s.expansions + 1)) (m'.expansionLines name (s'.expansions + 1)) := by
    have hnumberless := h.bodies _ hentry
    rw [Macro.expansionLines_eq (fun line hline => (hnumberless line hline).noLocal),
      Macro.expansionLines_eq (fun line hline => (hnumberless line (hbody ▸ hline)).noLocal), ← hbody,
      List.forall₂_map_left_iff, List.forall₂_map_right_iff, List.forall₂_same]
    exact fun p hp => ⟨rfl, hnumberless p.1 (List.fst_mem_of_mem_zipIdx hp)⟩
  have hrun := assembleBody_alike hassemble name hlines (h.entering hformals (h.formals _ hentry) args)
  rw [expandMacro_run, expandMacro_run]
  generalize assembleBody assemble name _ (s.entering m args) = r at hrun
  generalize assembleBody assemble' name _ (s'.entering m' args) = r' at hrun
  -- Whatever the bodies did to the equates is undone in both.
  cases hrun with
  | ok a ht => exact .ok a (h.putBack ht)
  | error e e' t t' => exact .error _ _ _ _

theorem assembleLine_alike (hnames : Expression.IgnoresUnnamed interpret) (depth : Nat) :
    TakeAlike (assembleLine interpret depth) (assembleLine interpret depth) := by
  induction depth with
  | zero => exact assembleWith_alike hnames fun _ _ _ _ _ _ _ _ _ => .error _ _ _ _
  | succ depth ih => exact assembleWith_alike hnames (expandMacro_alike ih)

theorem State.Alike.insertMacro (h : s.Alike s') (name : Text) {m m' : Macro}
    (hsame : m.unplaced = m'.unplaced) (hformals : lineEquate ∉ m.formals)
    (hbody : ∀ line ∈ m.body, Numberless line) {defining defining' : Option Text}
    (hdefining : defining = defining') :
    { s with macros := s.macros.insert name m, defining := defining }.Alike
      { s' with macros := s'.macros.insert name m', defining := defining' } :=
  { h with
    defining := hdefining
    macros := by rw [Bindings.map_insert, Bindings.map_insert, h.macros, hsame]
    formals := by
      intro p hp
      rcases Bindings.mem_entries_insert hp with rfl | hp
      · exact hformals
      · exact h.formals p hp
    bodies := by
      intro p hp
      rcases Bindings.mem_entries_insert hp with rfl | hp
      · exact hbody
      · exact h.bodies p hp }

theorem openMacro_alike (n n' : Nat) {ws : List Text} (hws : lineEquate ∉ ws) (h : s.Alike s') :
    EndAlike (openMacro n ws s) (openMacro n' ws s') := by
  cases ws with
  | nil =>
      rw [openMacro_nil_run, openMacro_nil_run]
      exact .error _ _ _ _
  | cons name formals =>
      have hknown : s.macros.contains name = s'.macros.contains name := by
        rw [← Bindings.contains_map Macro.unplaced, h.macros, Bindings.contains_map]
      rw [openMacro_run, openMacro_run, h.defining, hknown]
      split_ifs
      · exact .error _ _ _ _
      · exact .error _ _ _ _
      · have hsame : Macro.unplaced ⟨n + 1, formals, []⟩ = Macro.unplaced ⟨n' + 1, formals, []⟩ := rfl
        exact .ok () (h.insertMacro name hsame (List.not_mem_of_not_mem_cons hws)
          (fun _ hline => nomatch hline) rfl)

theorem closeMacro_alike (h : s.Alike s') : EndAlike (closeMacro s) (closeMacro s') := by
  rw [closeMacro_run, closeMacro_run, h.defining]
  split_ifs
  · exact .error _ _ _ _
  · exact .ok () { h with defining := rfl }

theorem addToMacro_alike (name : Text) {line : Text} (hline : Numberless line) (h : s.Alike s') :
    EndAlike (addToMacro name line s) (addToMacro name line s') := by
  rw [addToMacro, modify_run, modify_run]
  obtain ⟨hm, hm'⟩ | ⟨m, m', hm, hm', hsame⟩ := h.macro_cases name
  · rw [hm, hm']
    exact .ok () h
  · rw [hm, hm']
    obtain ⟨hformals, hbody⟩ := Macro.unplaced_eq_iff.1 hsame
    have hentry := Bindings.mem_entries_of_get? hm
    have hnumberless : ∀ l ∈ m.body ++ [line], Numberless l :=
      List.forall_mem_append.2 ⟨h.bodies _ hentry, List.forall_mem_singleton.2 hline⟩
    have hadded : { m with body := m.body ++ [line] }.unplaced =
        { m' with body := m'.body ++ [line] }.unplaced :=
      Macro.unplaced_eq_iff.2 ⟨hformals, by rw [hbody]⟩
    exact .ok () (h.insertMacro name hadded (h.formals _ hentry) hnumberless h.defining)

theorem macroLine_alike : TakeAlike macroLine macroLine := by
  intro n n' line s s' hline h
  have hwords := lineEquate_not_mem_words hline.noLine
  simp only [macroLine, bind_run, get_run, ← h.defining]
  cases hws : words line with
  | nil => exact addToMacro_alike _ hline h
  | cons w ws =>
      rw [hws] at hwords
      dsimp only
      split_ifs
      · exact openMacro_alike n n' (List.not_mem_of_not_mem_cons hwords) h
      · exact closeMacro_alike h
      · exact addToMacro_alike _ hline h

theorem sourceLine_alike (hnames : Expression.IgnoresUnnamed interpret) (depth : Nat) :
    TakeAlike (sourceLine interpret depth) (sourceLine interpret depth) := by
  intro n n' line s s' hline h
  have hassembles : s.Assembles line ↔ s'.Assembles line := by
    rw [State.Assembles, State.Assembles, h.defining]
  rw [sourceLine_run, sourceLine_run]
  simp only [hassembles]
  split_ifs
  · exact assembleLine_alike hnames depth hline h
  · exact macroLine_alike hline h

/-- What comes of reading lines, without the place where it ends. -/
def readResult : Position × Option Failure × State → EStateM.Result Failure State Unit
  | (_, none, s) => .ok () s
  | (_, some e, s) => .error e s

/-- Two readings of lines: both to the end, with states alike, or both up to a failure. -/
abbrev ReadAlike (r r' : Position × Option Failure × State) : Prop :=
  EndAlike (readResult r) (readResult r')

theorem sourceLines_alike (hnames : Expression.IgnoresUnnamed interpret) (depth : Nat)
    {lines : List Text} (hlines : ∀ line ∈ lines, Numberless (Source.strip line))
    (pos pos' : Position) (h : s.Alike s') :
    ReadAlike (sourceLines interpret depth pos lines s)
      (sourceLines interpret depth pos' lines s') := by
  induction lines generalizing pos pos' s s' with
  | nil => exact .ok () h
  | cons line lines ih =>
      rw [List.forall_mem_cons] at hlines
      have hline : EndAlike (sourceLine interpret depth (pos.number + 1) (Source.strip line) s)
          (sourceLine interpret depth (pos'.number + 1) (Source.strip line) s') :=
        sourceLine_alike hnames depth hlines.1 h
      rw [sourceLines, sourceLines]
      dsimp only
      generalize sourceLine interpret depth (pos.number + 1) (Source.strip line) s = r at hline
      generalize sourceLine interpret depth (pos'.number + 1) (Source.strip line) s' = r' at hline
      cases hline with
      | ok _ ht => exact ih hlines.2 _ _ ht
      | error e e' t t' => exact .error e e' t t'

theorem State.Alike.missingLabel?_eq_none (h : s.Alike s') :
    missingLabel? s = none ↔ missingLabel? s' = none := by
  rw [← Option.map_eq_none_iff, missingLabel?_map_snd, h.entries, h.labels, ← missingLabel?_map_snd,
    Option.map_eq_none_iff]

/-- Whether a source is accepted, and with which entries, is the same after two readings alike. -/
theorem ReadAlike.judge {r r' : Position × Option Failure × State} (h : ReadAlike r r')
    (overlong : Bool) (es : List Entry) :
    (∃ p, judge overlong r.1 r.2.1 r.2.2 = .accepted p ∧ p.entries = es) ↔
      ∃ p, Assembler.judge overlong r'.1 r'.2.1 r'.2.2 = .accepted p ∧ p.entries = es := by
  obtain ⟨pos, failure, t⟩ := r
  obtain ⟨pos', failure', t'⟩ := r'
  cases failure with
  | some e =>
      cases failure' with
      | some e' => simp [judge_eq_accepted]
      | none => cases h
  | none =>
      cases failure' with
      | some e' => cases h
      | none =>
          cases h with
          | ok _ h =>
              have hentries : Program.entries ⟨t.statements.toList⟩ =
                  Program.entries ⟨t'.statements.toList⟩ := h.entries
              simp [judge_eq_accepted, h.defining, h.missingLabel?_eq_none, hentries]

end

end Assembler

end TapeMachine
