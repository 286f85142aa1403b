import TapeMachine.Expression.Eval
import TapeMachine.Proofs.ConstantScan
import TapeMachine.Proofs.ExpandedWords
import TapeMachine.Proofs.Traceback

/-! Assembling does not crash. A value of an equate is never empty: an equate is defined as one of the
words of a line, a formal parameter is bound to one, and what a call binds is put back after it. So no
word of an instruction is empty, and a source whose macro calls end, and whose expressions can be
evaluated, is accepted or rejected. What is cut out of a line or a word always lies inside of it. -/

namespace TapeMachine.Assembler

variable {interpret : Expression.Interpreter}

section

variable {shallow deep : Nat → Text → Asm Unit}

/-- Lines of a macro that do not nest too deep are assembled alike by what agrees on such lines. -/
theorem assembleBody_deeper
    (hdeep : ∀ n line s, (∀ t, shallow n line s ≠ .error .tooDeep t) → deep n line s = shallow n line s)
    (name : Text) {lines : List (Nat × Text)} {s : State}
    (h : ∀ t, assembleBody shallow name lines s ≠ .error .tooDeep t) :
    assembleBody deep name lines s = assembleBody shallow name lines s := by
  induction lines generalizing s with
  | nil => rfl
  | cons l rest ih =>
      obtain ⟨n, line⟩ := l
      simp only [assembleBody_cons, bind_run, Asm.within] at h ⊢
      have hline : deep n line s = shallow n line s := by
        apply hdeep
        intro t ht
        rw [ht] at h
        exact h t rfl
      rw [hline]
      cases hrun : shallow n line s with
      | error e t => rfl
      | ok _ t =>
          rw [hrun] at h
          exact ih h

theorem expandMacro_deeper
    (hdeep : ∀ n line s, (∀ t, shallow n line s ≠ .error .tooDeep t) → deep n line s = shallow n line s)
    (name : Text) (m : Macro) (args : List Text) {s : State}
    (h : ∀ t, expandMacro shallow name m args s ≠ .error .tooDeep t) :
    expandMacro deep name m args s = expandMacro shallow name m args s := by
  rw [expandMacro_run, expandMacro_run, assembleBody_deeper hdeep]
  intro t ht
  rw [expandMacro_run, ht] at h
  exact h _ rfl

end

/-- A line whose calls do not nest too deep is assembled alike where they may nest deeper. -/
theorem assembleLine_deeper {depth n : Nat} {line : Text} {s : State}
    (h : ∀ t, assembleLine interpret depth n line s ≠ .error .tooDeep t) :
    assembleLine interpret (depth + 1) n line s = assembleLine interpret depth n line s := by
  induction depth generalizing n line s with
  | zero =>
      cases hcall : s.callOn? interpret n line with
      | none => rw [assembleLine_of_no_call _ hcall, assembleLine_of_no_call _ hcall]
      | some ct => exact absurd (assembleLine_zero_of_call hcall) (h _)
  | succ depth ih =>
      cases hcall : s.callOn? interpret n line with
      | none => rw [assembleLine_of_no_call _ hcall, assembleLine_of_no_call _ hcall]
      | some ct =>
          rw [assembleLine_succ_of_call hcall] at h
          rw [assembleLine_succ_of_call hcall, assembleLine_succ_of_call hcall]
          exact expandMacro_deeper (fun n line s => ih) _ _ _ h

theorem sourceLines_deeper {depth : Nat} {pos : Position} {lines : List Text} {s : State}
    (h : (sourceLines interpret depth pos lines s).2.1 ≠ some .tooDeep) :
    sourceLines interpret (depth + 1) pos lines s = sourceLines interpret depth pos lines s := by
  induction lines generalizing pos s with
  | nil => rfl
  | cons raw rest ih =>
      rw [sourceLines] at h ⊢
      rw [sourceLines]
      dsimp only at h ⊢
      have hline : sourceLine interpret (depth + 1) (pos.number + 1) (Source.strip raw) s =
          sourceLine interpret depth (pos.number + 1) (Source.strip raw) s := by
        rw [sourceLine_run, sourceLine_run]
        split_ifs with hassembles
        · apply assembleLine_deeper
          intro t ht
          rw [sourceLine_run, if_pos hassembles, ht] at h
          exact h rfl
        · rfl
      rw [hline]
      cases hrun : sourceLine interpret depth (pos.number + 1) (Source.strip raw) s with
      | error e t => rfl
      | ok _ t =>
          rw [hrun] at h
          exact ih h

/-- A source whose calls do not nest too deep is assembled alike where they may nest deeper. -/
theorem parse_deeper {depth : Nat} {a : Assembler} {source : Text}
    (h : (parse depth a source).verdict ≠ .tooDeep) {more : Nat} (hmore : depth ≤ more) :
    parse more a source = parse depth a source := by
  induction hmore with
  | refl => rfl
  | step _ ih =>
      rename_i more _
      rw [← ih]
      have hfailure : (sourceLines a.interpret more {} (Source.lines source).texts a.startState).2.1 ≠
          some .tooDeep := by
        intro hdeep
        rw [← ih, parse] at h
        dsimp only at h
        rw [hdeep] at h
        exact h rfl
      rw [parse, sourceLines_deeper hfailure, parse]

/-! ### Values of equates -/

/-- No value is the empty text. -/
def Filled (equates : Bindings Text) : Prop := ∀ p ∈ equates.entries, p.2 ≠ []

instance (equates : Bindings Text) : Decidable (Filled equates) :=
  inferInstanceAs (Decidable (∀ p ∈ equates.entries, p.2 ≠ []))

namespace Filled

variable {equates : Bindings Text}

theorem get? (h : Filled equates) {name value : Text} (hvalue : equates.get? name = some value) :
    value ≠ [] :=
  h (name, value) (Bindings.mem_entries_of_get? hvalue)

theorem insert (h : Filled equates) (name : Text) {value : Text} (hvalue : value ≠ []) :
    Filled (equates.insert name value) := by
  intro p hp
  rcases Bindings.mem_entries_insert hp with rfl | hp
  · exact hvalue
  · exact h p hp

theorem insertAll (h : Filled equates) {pairs : List (Text × Text)} (hpairs : ∀ p ∈ pairs, p.2 ≠ []) :
    Filled (equates.insertAll pairs) := by
  induction pairs generalizing equates with
  | nil => exact h
  | cons p pairs ih =>
      rw [List.forall_mem_cons] at hpairs
      exact ih (h.insert p.1 hpairs.1) hpairs.2

theorem substitute (h : Filled equates) {w : Text} (hw : w ≠ []) : substitute equates w ≠ [] := by
  rw [Assembler.substitute]
  cases hvalue : equates.get? w with
  | none => exact hw
  | some value => exact h.get? hvalue

end Filled

theorem filled_startEquates {a : Assembler} (h : Filled a.predefined) : Filled a.startEquates := by
  refine Filled.insertAll (Filled.insert ?_ _ (by decide)) h
  exact List.forall_mem_nil _

theorem filled_atLine {s : State} (h : Filled s.equates) (n : Nat) : Filled (s.atLine n).equates :=
  h.insert lineEquate (Text.ofNat_ne_nil n)

theorem filled_assembleLine {s : State} (h : Filled s.equates) (depth n : Nat) (line : Text) :
    Filled ((assembleLine interpret depth n line).leaves s).equates := by
  rcases leaves_assembleLine_equates depth n line s with hsame | ⟨name, value, -, hvalue, hnew⟩
  · rw [hsame]
    exact filled_atLine h n
  · rw [hnew]
    exact (filled_atLine h n).insert name hvalue

theorem declareLabels_suffix {n : Nat} {ws rest : List Text} {s t : State}
    (h : declareLabels n ws s = .ok rest t) : rest <:+ ws := by
  induction ws generalizing s with
  | nil =>
      cases h
      exact List.suffix_refl _
  | cons w ws ih =>
      rw [declareLabels] at h
      cases hname : declaredName? w with
      | none =>
          rw [hname] at h
          cases h
          exact List.suffix_refl _
      | some name =>
          rw [hname] at h
          dsimp only at h
          rw [bind_run] at h
          cases hlabel : declareLabel n w name s with
          | error e u =>
              rw [hlabel] at h
              cases h
          | ok _ u =>
              rw [hlabel] at h
              exact (ih h).trans (List.suffix_cons w ws)

theorem readWords_ok {line : Text} {ws : List Text} {s t : State}
    (h : readWords interpret line s = .ok ws t) :
    (∀ w ∈ ws, w ≠ []) ∧ t.equates = s.equates := by
  rw [readWords_run] at h
  rcases hreplaced : (replaceConstants interpret s.equates line).text with (bad | _) | replaced
  · simp only [hreplaced] at h
    cases h
  · simp only [hreplaced] at h
    cases h
  · simp only [hreplaced] at h
    cases h
    exact ⟨fun w hw => Text.ne_nil_of_mem_words hw, rfl⟩

/-- The body of a macro starts with values that are not empty, if the line that calls it does. -/
theorem filled_entering {s t : State} {n : Nat} {line : Text} {c : Call} (h : Filled s.equates)
    (hcall : s.callOn? interpret n line = some (c, t)) :
    Filled (t.entering c.definition c.args).equates := by
  obtain ⟨word, rest, s', hread, hdeclare, -⟩ := State.callOn?_eq_some hcall
  obtain ⟨hwords, hsame⟩ := readWords_ok hread
  have hs' : Filled s'.equates := by
    rw [hsame]
    exact filled_atLine h n
  have ht : t.equates = s'.equates := by
    have hkeeps := declareLabels_respects (R := Unchanged State.equates) (fun _ _ _ _ _ _ _ => rfl) n
      ((word :: rest).map (substitute s'.equates)) s'
    rwa [Unchanged, Asm.leaves, hdeclare] at hkeeps
  rw [State.entering, ht]
  apply hs'.insertAll
  intro p hp
  -- An argument is a word of the line, with its equate replaced.
  have harg : p.2 ∈ (word :: rest).map (substitute s'.equates) := by
    apply (declareLabels_suffix hdeclare).subset
    exact List.mem_cons_of_mem _ (List.of_mem_zip hp).2
  obtain ⟨w, hw, heq⟩ := List.mem_map.1 harg
  rw [← heq]
  exact hs'.substitute (hwords w hw)

theorem filled_sourceLine (interpret : Expression.Interpreter) {s : State} (h : Filled s.equates)
    (depth n : Nat) (line : Text) :
    Filled ((sourceLine interpret depth n line).leaves s).equates := by
  rw [Asm.leaves, sourceLine_run]
  split_ifs
  · exact filled_assembleLine h depth n line
  · obtain ⟨macros, defining, hleaves⟩ := macroLine_leaves n line s
    rw [Asm.leaves] at hleaves
    rw [hleaves]
    exact h

theorem filled_passes {depth : Nat} {lines : List (Nat × Text)} {s t : State}
    (h : Passes (sourceLine interpret depth) lines s t) (hs : Filled s.equates) : Filled t.equates := by
  refine h.invariant (I := fun s => Filled s.equates) ?_ hs
  intro n line s t _ hrun hs
  have hline := filled_sourceLine interpret hs depth n line
  rwa [Asm.leaves, hrun] at hline

/-- Wherever a line of a source is assembled, no value of an equate is empty. -/
theorem filled_of_mem {depth : Nat} {a : Assembler} {source : Text} (h : Filled a.predefined) {v : Visit}
    (hv : v ∈ sourceVisits depth a source) : Filled v.equates := by
  obtain ⟨front, raw, back, u, -, hfront, -, hline⟩ := mem_sourceVisits hv
  have hu : Filled u.equates := filled_passes hfront (filled_startEquates h)
  apply filled_atLine
  refine lineVisits_invariant (I := fun s => Filled s.equates) ?_ ?_ hu v hline
  · intro depth n line s hs
    exact filled_assembleLine hs depth n line
  · intro n line s c t hcall hs
    exact filled_entering hs hcall

theorem filled_state {depth : Nat} {a : Assembler} {source : Text} (h : Filled a.predefined) :
    Filled (parse depth a source).state.equates := by
  have hstart := filled_startEquates h
  rcases parse_cases depth a source with
    ⟨_, _, _, hpasses⟩ | ⟨front, raw, back, u, failure, _, hfront, hfails, _⟩
  · exact filled_passes hpasses hstart
  · have hline := filled_sourceLine a.interpret (filled_passes hfront hstart) depth (1 + front.length)
      (Source.strip raw)
    rwa [Asm.leaves, hfails] at hline

/-- No word is empty where no value of an equate is. -/
theorem Visit.words_ne_nil {v : Visit} (h : Filled v.equates) : ∀ w ∈ v.words interpret, w ≠ [] := by
  intro w hw
  rw [Visit.words] at hw
  split at hw
  · cases hw
  · split_ifs at hw
    · cases hw
    · obtain ⟨word, hword, rfl⟩ := List.mem_map.1 hw
      exact h.substitute (Text.ne_nil_of_mem_words hword)

/-- A part of a line is an expression whose evaluation crashes. -/
def Segment.Crashes (interpret : Expression.Interpreter) (numbers : Expression.Numbers) :
    Segment → Prop
  | plain _ => False
  | expression t => (Expression.evaluate interpret numbers t).number = .crashed

instance (numbers : Expression.Numbers) :
    (seg : Segment) → Decidable (seg.Crashes interpret numbers)
  | .plain _ => inferInstanceAs (Decidable False)
  | .expression t =>
      inferInstanceAs (Decidable ((Expression.evaluate interpret numbers t).number = .crashed))

/-- The evaluation of an expression on the line of a visit crashes. -/
def Visit.Crashes (interpret : Expression.Interpreter) (v : Visit) : Prop :=
  ∃ seg ∈ segments (replaceChars 0 v.line), seg.Crashes interpret (integers v.equates)

instance (v : Visit) : Decidable (v.Crashes interpret) :=
  inferInstanceAs (Decidable
    (∃ seg ∈ segments (replaceChars 0 v.line), seg.Crashes interpret (integers v.equates)))

theorem Expansion.append_text_eq_crashed {a b : Expansion} (h : (a.append b).text = .error .crashed) :
    a.text = .error .crashed ∨ b.text = .error .crashed := by
  unfold Expansion.append at h
  split at h
  · exact .inl h
  · dsimp only at h
    split at h
    · cases h
    · rename_i hb
      cases h
      exact .inr hb
    · rename_i ha _
      cases h
      exact .inl ha

theorem expandAll_crashed {numbers : Expression.Numbers} {segs : List Segment}
    (h : (expandAll interpret numbers segs).text = .error .crashed) :
    ∃ seg ∈ segs, seg.Crashes interpret numbers := by
  induction segs with
  | nil => cases h
  | cons seg segs ih =>
      rcases Expansion.append_text_eq_crashed h with hfirst | hrest
      · refine ⟨seg, List.mem_cons_self, ?_⟩
        cases seg with
        | plain b => cases hfirst
        | expression t =>
            rw [Segment.expand] at hfirst
            dsimp only at hfirst
            split at hfirst
            · cases hfirst
            · cases hfirst
            · cases hfirst
            · rename_i hcrashed
              exact hcrashed
      · obtain ⟨seg', hseg', hcrashes⟩ := ih hrest
        exact ⟨seg', List.mem_cons_of_mem _ hseg', hcrashes⟩

theorem judge_none_cases (overlong : Bool) (pos : Position) (s : State) :
    (∃ p, judge overlong pos none s = .accepted p) ∨ ∃ e, judge overlong pos none s = .rejected e := by
  unfold judge
  dsimp only
  split_ifs
  · exact .inr ⟨_, rfl⟩
  · exact .inr ⟨_, rfl⟩
  · split
    · exact .inr ⟨_, rfl⟩
    · exact .inl ⟨_, rfl⟩

/-- A source comes to a verdict proper if its calls do not nest too deep, no equate starts with an empty
value and none of its expressions crashes. -/
theorem verdict_of_safe {depth : Nat} {a : Assembler} {source : Text} (hfilled : Filled a.predefined)
    (hdeep : (parse depth a source).verdict ≠ .tooDeep)
    (hcrash : ∀ v ∈ sourceVisits depth a source, ¬v.Crashes a.interpret) :
    (∃ p, (parse depth a source).verdict = .accepted p) ∨
      ∃ e, (parse depth a source).verdict = .rejected e := by
  rcases parse_cases depth a source with
    ⟨pos, hverdict, -, -⟩ | ⟨front, raw, back, u, failure, hsplit, hfront, hfails, hverdict⟩
  · rw [hverdict]
    exact judge_none_cases _ _ _
  · right
    suffices hrejected : ∃ frames cause, failure = .rejected frames cause by
      obtain ⟨frames, cause, rfl⟩ := hrejected
      rw [hverdict]
      exact ⟨_, rfl⟩
    by_cases hassembles : u.Assembles (Source.strip raw)
    · have hfailure : failure ≠ .tooDeep := by
        rintro rfl
        exact hdeep hverdict
      obtain ⟨v, e, hlast, -, rfl⟩ := sourceLine_fails hsplit hfront hfails hassembles hfailure
      obtain ⟨t, hrun⟩ := hlast.fails
      rcases Visit.error_cases hrun with ⟨cause, rfl⟩ | ⟨-, hcrashed⟩ | ⟨-, hempty⟩
      · exact ⟨v.frames, cause, foldr_within_rejected v.frames cause⟩
      · exact absurd (expandAll_crashed hcrashed) (hcrash v hlast.mem)
      · exact absurd rfl (Visit.words_ne_nil (filled_of_mem hfilled hlast.mem) [] hempty)
    · rw [sourceLine_run, if_neg hassembles] at hfails
      obtain ⟨⟨cause, hcause⟩, -⟩ := macroLine_error hfails
      exact ⟨[], cause, hcause⟩

/-- What is cut out of a text lies inside of it, together with what marks it. -/
structure SlicesInRange : Prop where
  /-- A character constant has something between its quotes. -/
  constant : ∀ t width, constantWidth? t = some width → ∃ body rest,
    t = quote :: (body ++ quote :: rest) ∧ body.length = width ∧ body ≠ []
  expression : ∀ t body, expressionAt? t = some body → ∃ rest,
    t = text "$(" ++ body ++ text ")" ++ rest
  label : ∀ word name, declaredName? word = some name → word = name ++ text ":"
  address : ∀ word inner, bracketed? word = some inner → word = text "[" ++ inner ++ text "]"
  /-- An offset that is not empty begins with its sign. -/
  offset : ∀ t, t.dropWhile (!isSign ·) ≠ [] → ∃ sign rest, isSign sign = true ∧
    t.dropWhile (!isSign ·) = sign :: rest ∧ t = t.takeWhile (!isSign ·) ++ sign :: rest

/-- Where the part of a text that a test holds on ends, the test fails. -/
theorem dropWhile_eq_cons {p : UInt8 → Bool} {t rest : Text} {b : UInt8}
    (h : t.dropWhile p = b :: rest) : p b = false ∧ t = t.takeWhile p ++ b :: rest := by
  constructor
  · have hhead := List.head?_dropWhile_not p t
    rw [h] at hhead
    simpa using hhead
  · rw [← h, List.takeWhile_append_dropWhile]

theorem expressionAt?_eq_some {t body : Text} (h : expressionAt? t = some body) :
    ∃ rest, t = text "$(" ++ body ++ text ")" ++ rest := by
  unfold expressionAt? at h
  split at h
  · rename_i rest
    split at h
    · cases h
    · rename_i c reversed hdrop
      cases h
      obtain ⟨after, hafter⟩ := Source.prefix_before (byte '$') rest
      obtain ⟨hc, hsplit⟩ := dropWhile_eq_cons hdrop
      have hbracket : c = byte ')' := by simpa using hc
      -- Read backwards, what comes before the bracket follows it.
      have hinner : ∃ more, Text.before (byte '$') rest = reversed.reverse ++ [byte ')'] ++ more := by
        have hreversed := congrArg List.reverse hsplit
        rw [List.reverse_reverse, List.reverse_append, List.reverse_cons, hbracket] at hreversed
        exact ⟨_, hreversed⟩
      obtain ⟨more, hmore⟩ := hinner
      refine ⟨more ++ after, ?_⟩
      rw [← hafter, hmore, ← List.append_assoc]
      rfl
  · cases h

theorem slicesInRange : SlicesInRange where
  constant _ _ h := by
    obtain ⟨body, rest, heq, hlength, hbody⟩ := constantWidth?_eq_some h
    exact ⟨body, rest, heq, hlength, hbody.ne_nil⟩
  expression _ _ h := expressionAt?_eq_some h
  label _ _ h := eq_of_declaredName? h
  address _ _ h := bracketed?_eq_some.1 h
  offset t h := by
    obtain ⟨sign, rest, hoffset⟩ := List.exists_cons_of_ne_nil h
    obtain ⟨hsign, hsplit⟩ := dropWhile_eq_cons hoffset
    exact ⟨sign, rest, by simpa using hsign, hoffset, hsplit⟩

/-- Assembling never crashes, whatever the source is, if no equate is predefined as empty, macro calls end
and expressions do not crash. However much deeper macro calls may nest, the source is accepted or
rejected; wherever a line is assembled, and in the end, no equate is empty, and no word of a line is, with
its equates replaced; and what is cut out of a line or a word lies inside of it. -/
theorem assembling_never_crashes (depth : Nat) (a : Assembler) (source : Text)
    (hfilled : Filled a.predefined) (hends : (parse depth a source).verdict ≠ .tooDeep)
    (hcrash : ∀ v ∈ sourceVisits depth a source, ¬v.Crashes a.interpret) :
    (∀ more, depth ≤ more → (∃ p, (parse more a source).verdict = .accepted p) ∨
        ∃ e, (parse more a source).verdict = .rejected e) ∧
      (∀ v ∈ sourceVisits depth a source, Filled v.equates ∧ ∀ w ∈ v.words a.interpret, w ≠ []) ∧
      Filled (parse depth a source).state.equates ∧ SlicesInRange := by
  refine ⟨fun more hmore => ?_, fun v hv => ?_, filled_state hfilled, slicesInRange⟩
  · rw [parse_deeper hends hmore]
    exact verdict_of_safe hfilled hends hcrash
  · have hv := filled_of_mem hfilled hv
    exact ⟨hv, Visit.words_ne_nil hv⟩

/-- A source that is not UTF-8, with a macro whose argument is an equate, a character constant and an
expression over a predefined equate. -/
def strangeSource : Text :=
  text ".equ STEP $(START+2)\n.macro raise reg by\n@l: add reg by\njne reg 'a' @l\n.endm\nraise r1 STEP\n" ++
    [0xC3, 0x28, 0xFF, 0x27, 0xE2, 0x27, 0x5B]

def startingAssembler : Assembler :=
  predefine (fresh Expression.interpret) (text "START") (text "0x10")

theorem strangeSource_never_crashes :
    Filled startingAssembler.predefined ∧
      (parse 1 startingAssembler strangeSource).verdict ≠ .tooDeep ∧
      (∀ v ∈ sourceVisits 1 startingAssembler strangeSource, ¬v.Crashes Expression.interpret) ∧
      (∀ more, 1 ≤ more → (∃ p, (parse more startingAssembler strangeSource).verdict = .accepted p) ∨
        ∃ e, (parse more startingAssembler strangeSource).verdict = .rejected e) ∧
      Filled (parse 1 startingAssembler strangeSource).state.equates := by
  have hfilled : Filled startingAssembler.predefined := by decide
  have hends : (parse 1 startingAssembler strangeSource).verdict ≠ .tooDeep := by decide +kernel
  have hcrash : ∀ v ∈ sourceVisits 1 startingAssembler strangeSource,
      ¬v.Crashes Expression.interpret := by
    decide +kernel
  obtain ⟨hverdict, -, hstate, -⟩ :=
    assembling_never_crashes 1 startingAssembler strangeSource hfilled hends hcrash
  exact ⟨hfilled, hends, hcrash, hverdict, hstate⟩

end TapeMachine.Assembler
