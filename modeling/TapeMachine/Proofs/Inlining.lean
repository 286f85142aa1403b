import TapeMachine.Expression.Eval
import TapeMachine.Proofs.CallSites
import TapeMachine.Proofs.UnreadNumbers

/-! Macro calls mean their inlined bodies. The lines of a macro with the arguments of a call put in are
taken in as the body is in the call, and what follows them does not see the difference. So a call can
be replaced in the source by the lines of the macro, as long as it can be read. -/

namespace TapeMachine.Assembler

open Text

variable {interpret : Expression.Interpreter}

namespace CallSite

variable {c : CallSite}

/-- Lines of the body in a call and the lines inlined for them are taken in alike. -/
theorem WellFormed.body_alike (interpret : Expression.Interpreter) (hc : c.WellFormed) {s : State}
    (hs : c.Undisturbed s) (hfree : lineEquate ∉ c.args)
    (hnumberless : ∀ line ∈ c.body, Numberless (Source.strip line)) (depth : Nat)
    {body expansion : List Text} (hbody : ∀ line ∈ body, line ∈ c.body)
    (hexpands : List.Forall₂ (fun line new => words (Source.strip new) =
      (words (Source.strip line)).map (filled c.formals c.args)) body expansion)
    {lines : List (Nat × Text)} (hlines : lines.map Prod.snd = body.map Source.strip) {t t' : State}
    (h : t.AlikeWith (Bound (c.formals.zip c.args) s.equates) t') (hmacros : t.macros = s.macros)
    (hout : t'.defining = none) (pos : Position) :
    EndsIn (State.AlikeWith (Bound (c.formals.zip c.args) s.equates))
      (assembleBody (assembleLine interpret depth) c.name lines t)
      (readResult (sourceLines interpret (depth + 1) pos expansion t')) := by
  -- Along the lines the two states differ only in that the first has the arguments bound, and no line
  -- touches the macros, so that none of them gets to be called.
  induction hexpands generalizing lines t t' pos with
  | nil =>
      rw [List.map_nil, List.map_eq_nil_iff] at hlines
      rw [hlines]
      exact .ok () h
  | @cons line new body expansion hnew _ ih =>
      rw [List.forall_mem_cons] at hbody
      obtain ⟨⟨n, _⟩, lines, rfl, rfl, hrest⟩ := List.map_eq_cons_iff.1 hlines
      have hone := hc.line_alike interpret hs hfree hbody.1 (hnumberless line hbody.1) hnew h hmacros
        hout depth n (pos.number + 1)
      have hkept : ∀ u, assembleLine interpret depth n (Source.strip line) t = .ok () u →
          u.macros = t.macros ∧ u.defining = t.defining := fun u => assembleLine_macros
      rw [assembleBody_cons, bind_run, Asm.within, sourceLines]
      dsimp only
      generalize assembleLine interpret depth n (Source.strip line) t = r at hone hkept
      generalize sourceLine interpret (depth + 1) (pos.number + 1) (Source.strip new) t' = r' at hone
      cases hone with
      | error e e' u u' => exact .error _ _ _ _
      | @ok _ u u' hu =>
          obtain ⟨hmacros', hdefining⟩ := hkept u rfl
          refine ih hbody.2 hrest hu (hmacros'.trans hmacros) ?_ _
          rw [← hu.defining, hdefining, h.defining, hout]

/-- A call line comes to the expansion of its macro. -/
theorem WellFormed.call_run (hc : c.WellFormed) {s : State} (hs : c.Undisturbed s)
    (hfree : lineEquate ∉ c.name :: c.args) {m : Macro} (hm : s.macros.get? c.name = some m)
    (hformals : m.formals = c.formals) (depth n : Nat) :
    sourceLine interpret (depth + 1) n (Source.strip c.call) s =
      expandMacro (assembleLine interpret depth) c.name m c.args (s.atLine n) := by
  have hplain : ∀ w ∈ c.name :: c.args, IsPlainWord w :=
    List.forall_mem_cons.2 ⟨isPlainWord_of_isLabelName hc.name, fun a ha => (hc.args a ha).plain⟩
  have hbytes : ∀ b, isGraphic b = true → isPlain b = false → b ∉ Source.strip c.call := by
    intro b hgraphic hb hmem
    obtain ⟨w, hw, hbw⟩ := exists_word_of_mem hgraphic hmem
    rw [hc.call] at hw
    rw [(hplain w hw).plain b hbw] at hb
    cases hb
  have hdirective : ∀ w ∈ directives, (words (Source.strip c.call)).head? ≠ some w := by
    intro w hw
    rw [hc.call, List.head?_cons, ne_eq, Option.some_inj]
    exact fun heq => isLabelName_not_directive hc.name (heq ▸ hw)
  have hself : (words (Source.strip c.call)).map (substitute (s.atLine n).equates) =
      c.name :: c.args := by
    have hunbound : ∀ w ∈ c.name :: c.args, s.equates.contains w = false :=
      List.forall_mem_cons.2 ⟨hs.name, hs.args⟩
    rw [hc.call]
    refine (List.map_congr_left fun w hw => ?_).trans (List.map_id' _)
    have hne : w ≠ lineEquate := fun heq => hfree (heq ▸ hw)
    have hnone : s.equates.get? w = none := by simpa [Bindings.contains] using hunbound w hw
    rw [substitute, State.atLine, Bindings.get?_insert_of_ne _ _ hne, hnone, Option.getD_none]
  have hassembles : s.Assembles (Source.strip c.call) :=
    ⟨hs.outside, hdirective _ (by decide), hdirective _ (by decide)⟩
  have hm' : (s.atLine n).macros.get? c.name = some m := hm
  rw [sourceLine_run, if_pos hassembles, assembleLine,
    assembleWith_plain _ n (hbytes _ (by decide) (by decide)) (hbytes _ (by decide) (by decide))
      (hdirective _ (by decide)), hself, assembleReplaced_run]
  simp only [declareLabels, declaredName?_of_isLabelName hc.name, pure_run, assembleWords_run, hm',
    hformals, if_pos hc.arity]

/-- A call and the lines that are inlined for it are read alike. -/
theorem WellFormed.call_alike (hc : c.WellFormed) {s : State} (hs : c.Undisturbed s)
    (halike : s.Alike s) (hfree : lineEquate ∉ c.name :: c.args) {k : Nat}
    (hm : s.macros.get? c.name = some ⟨k, c.formals, c.body.map Source.strip⟩) {expansion : List Text}
    (hexpands : c.Expands expansion) (depth : Nat) (pos : Position) :
    ReadAlike (sourceLines interpret (depth + 1) pos [c.call] s)
      (sourceLines interpret (depth + 1) pos expansion s) := by
  have hentry := Bindings.mem_entries_of_get? hm
  have hnumberless : ∀ line ∈ c.body, Numberless (Source.strip line) :=
    fun line hline => halike.bodies _ hentry _ (List.mem_map_of_mem hline)
  generalize hdefinition : (⟨k, c.formals, c.body.map Source.strip⟩ : Macro) = m at hm hentry
  have hformals : m.formals = c.formals := by rw [← hdefinition]
  have hbody : m.body = c.body.map Source.strip := by rw [← hdefinition]
  have hlines : ∀ i, (m.expansionLines c.name i).map Prod.snd = c.body.map Source.strip := by
    intro i
    rw [Macro.expansionLines_eq fun line hline => (halike.bodies _ hentry line hline).noLocal,
      List.map_map, ← hbody]
    exact List.zipIdx_map_fst ..
  -- The call enters its body with the arguments bound; the inlined lines start from the state itself.
  have hbound : ((s.atLine (pos.number + 1)).entering m c.args).AlikeWith
      (Bound (c.formals.zip c.args) s.equates) s :=
    { halike with
      equates := by
        have hpairs : ∀ p ∈ c.formals.zip c.args, p.1 ≠ lineEquate := by
          intro p hp heq
          refine halike.formals _ hentry ?_
          rw [hformals, ← heq]
          exact (List.of_mem_zip hp).1
        refine ⟨?_, rfl⟩
        simp only [State.entering, State.atLine, hformals]
        rw [Bindings.without_insertAll hpairs, Bindings.without_insertAll hpairs,
          Bindings.without_insert_self] }
  have hread := hc.body_alike interpret hs (List.not_mem_of_not_mem_cons hfree) hnumberless depth
    (fun line hline => hline) hexpands (hlines ((s.atLine (pos.number + 1)).expansions + 1)) hbound rfl
    hs.outside pos
  rw [ReadAlike, sourceLines, hc.call_run hs hfree hm hformals depth (pos.number + 1), expandMacro_run]
  generalize assembleBody (assembleLine interpret depth) c.name _ _ = r at hread
  generalize readResult (sourceLines interpret (depth + 1) pos expansion s) = r' at hread
  cases hread with
  | error e e' t t' =>
      dsimp only [readResult]
      exact .error _ _ _ _
  | @ok _ t t' h =>
      dsimp only [readResult, sourceLines]
      refine .ok () { h with equates := ?_ }
      rw [SameEquates, h.equates.2]
      exact Bindings.without_insert_self _ _ _

end CallSite

/-! ### Sources -/

/-- Lines read alike are read alike with more lines behind them. -/
theorem ReadAlike.append (hnames : Expression.IgnoresUnnamed interpret) {depth : Nat}
    {pos pos' : Position} {lines lines' : List Text} {s s' : State}
    (h : ReadAlike (sourceLines interpret depth pos lines s) (sourceLines interpret depth pos' lines' s'))
    {more : List Text} (hmore : ∀ line ∈ more, Numberless (Source.strip line)) :
    ReadAlike (sourceLines interpret depth pos (lines ++ more) s)
      (sourceLines interpret depth pos' (lines' ++ more) s') := by
  rw [sourceLines_append, sourceLines_append]
  generalize sourceLines interpret depth pos lines s = r at h ⊢
  generalize sourceLines interpret depth pos' lines' s' = r' at h ⊢
  obtain ⟨here, _ | e, t⟩ := r <;> obtain ⟨here', _ | e', t'⟩ := r' <;> cases h
  · exact sourceLines_alike hnames depth hmore here here' ‹_›
  · exact .error e e' t t'

theorem State.Alike.start (interpret : Expression.Interpreter) :
    State.Alike { equates := startEquates (fresh interpret) }
      { equates := startEquates (fresh interpret) } :=
  ⟨rfl, rfl, rfl, rfl, rfl, rfl, (fun _ hp => nomatch hp), fun _ hp => nomatch hp⟩

/-- Before the call, both sources are the same; a call of a known macro and its inlined lines are read
alike, and so is what follows them. -/
theorem CallSite.WellFormed.read_alike (hnames : Expression.IgnoresUnnamed interpret) {c : CallSite}
    (hc : c.WellFormed) {depth : Nat}
    (hnumberless : ∀ line ∈ c.lines, Numberless (Source.strip line)) {expansion : List Text}
    (hexpands : c.Expands expansion)
    (hundisturbed : ∀ pos s,
      sourceLines interpret (depth + 1) {} c.leading { equates := startEquates (fresh interpret) } =
        (pos, none, s) → c.Undisturbed s) :
    ReadAlike (sourceLines interpret (depth + 1) {} c.lines { equates := startEquates (fresh interpret) })
      (sourceLines interpret (depth + 1) {} (c.inlined expansion)
        { equates := startEquates (fresh interpret) }) := by
  rw [CallSite.lines, List.forall_mem_append, List.forall_mem_cons] at hnumberless
  obtain ⟨hleading, hcall, hback⟩ := hnumberless
  have hself := sourceLines_alike hnames (depth + 1) hleading {} {} (.start interpret)
  rw [CallSite.lines, CallSite.inlined, List.append_assoc, sourceLines_append,
    sourceLines_append _ _ _ c.leading]
  -- Up to the call both sources are the same, and so is a failure there.
  rcases hread : sourceLines interpret (depth + 1) {} c.leading
    { equates := startEquates (fresh interpret) } with ⟨pos, _ | e, s⟩
  · rw [hread] at hself
    -- The lines read so far are numberless, so the macros they define are.
    have halike : s.Alike s := by
      cases hself with
      | ok _ h => exact h
    have hs := hundisturbed pos s hread
    have hfree : lineEquate ∉ c.name :: c.args := by
      rw [← hc.call]
      exact lineEquate_not_mem_words hcall.noLine
    obtain ⟨k, hknows⟩ : ∃ k, s.Knows c.name ⟨k, c.formals, c.body.map Source.strip⟩ := by
      obtain ⟨here, t, hfront, hmiddle⟩ := sourceLines_append_eq_none.1 hread
      obtain ⟨there, u, -, hdefined⟩ := sourceLines_append_eq_none.1 hfront
      obtain ⟨k, hknows⟩ := hc.definition.knows hdefined
      exact ⟨k, hknows.sourceLines hmiddle⟩
    exact (hc.call_alike hs halike hfree hknows.known hexpands depth pos).append hnames hback
  · exact .error _ _ _ _

/-- A call means its inlined body. Take a source, assembled without predefined equates, in which no
number of a line or of an expansion shows, and the source with the lines of a macro, the arguments of a
call put in, where the first has that call. If the lines can be read in both, one is accepted with some
entries exactly if the other is accepted with the same. -/
theorem parse_inlined (interpret : Expression.Interpreter)
    (hnames : Expression.IgnoresUnnamed interpret) (depth : Nat) (c : CallSite)
    (expansion : List Text) (source new : Text) (overlong : Bool) (hsource : Source.lines source = ⟨c.lines, overlong⟩)
    (hnew : Source.lines new = ⟨c.inlined expansion, overlong⟩) (hlocal : byte '@' ∉ source)
    (hline : ¬ lineEquate <:+: source) (hc : c.WellFormed) (hexpands : c.Expands expansion)
    (hundisturbed : ∀ pos s,
      sourceLines interpret (depth + 1) {} c.leading { equates := startEquates (fresh interpret) } =
        (pos, none, s) → c.Undisturbed s) (es : List Entry) :
    (∃ p, (parse (depth + 1) (fresh interpret) source).verdict = .accepted p ∧ p.entries = es) ↔
      ∃ p, (parse (depth + 1) (fresh interpret) new).verdict = .accepted p ∧ p.entries = es := by
  have hnumberless : ∀ line ∈ c.lines, Numberless (Source.strip line) := by
    intro line hmem
    have hpart : Source.strip line <:+: source := by
      refine (Source.infix_strip line).trans (Source.infix_of_mem_lines ?_)
      rwa [hsource]
    exact ⟨fun hat => hlocal (hpart.subset hat), fun hnumber => hline (hnumber.trans hpart)⟩
  have hread := hc.read_alike hnames hnumberless hexpands hundisturbed
  have hverdict := hread.judge overlong es
  rw [parse, parse, hsource, hnew]
  exact hverdict

/-- A macro with a label of its own and a formal for a mnemonic. One of its formals hides an equate,
and numbers of lines differ behind the call. -/
def bumpSite : CallSite where
  name := text "bump"
  formals := [text "op", text "dst", text "by"]
  args := [text "add", text "r2", text "-7"]
  front := [text ".equ limit 28", text ".equ dst 9"]
  header := text ".macro bump op dst by ; until the limit"
  body := [text "again: op dst by", text "jne dst limit again"]
  footer := text ".endm"
  middle := [text "mov r2 dst"]
  call := text "bump add r2 -7"
  back := [text ".equ twice $(2*limit)", text "mov r1 twice", text "ja again"]

def bumpLines : List Text := [text "again: add r2 -7", text "  jne r2 limit again ; inlined"]

theorem bumpSite_parse_inlined :
    bumpSite.WellFormed ∧ bumpSite.Expands bumpLines ∧
      ∃ p p', (parse 1 (fresh Expression.interpret) (Source.unlines bumpSite.lines)).verdict =
          .accepted p ∧
        (parse 1 (fresh Expression.interpret) (Source.unlines (bumpSite.inlined bumpLines))).verdict =
          .accepted p' ∧
        p'.entries = p.entries := by
  have hargs : ∀ a ∈ bumpSite.args, IsArgument a := by
    have hlabel : IsArgument (text "add") := .inl ⟨_, rfl⟩
    have hregister : IsArgument (text "r2") := .inl ⟨_, rfl⟩
    have hnumber : IsArgument (text "-7") := .inr ⟨-7, by decide⟩
    exact List.forall_mem_cons.2
      ⟨hlabel, List.forall_mem_cons.2 ⟨hregister, List.forall_mem_singleton.2 hnumber⟩⟩
  have hc : bumpSite.WellFormed :=
    ⟨by decide, by decide, ⟨by decide, by decide, by decide⟩, by decide, by decide, by decide, by decide,
      rfl, hargs⟩
  have hexpands : bumpSite.Expands bumpLines := .cons (by decide) (.cons (by decide) .nil)
  have hundisturbed : ∀ pos s,
      sourceLines Expression.interpret (0 + 1) {} bumpSite.leading
          { equates := startEquates (fresh Expression.interpret) } = (pos, none, s) →
        bumpSite.Undisturbed s := by
    intro pos s hread
    have hs : bumpSite.Undisturbed
        (sourceLines Expression.interpret (0 + 1) {} bumpSite.leading
          { equates := startEquates (fresh Expression.interpret) }).2.2 := by
      constructor <;> decide +kernel
    rw [hread] at hs
    exact hs
  have haccepted : (parse 1 (fresh Expression.interpret) (Source.unlines bumpSite.lines)).verdict =
      .accepted ⟨(parse 1 (fresh Expression.interpret)
        (Source.unlines bumpSite.lines)).state.statements.toList⟩ := by
    decide +kernel
  obtain ⟨p', hp', hentries⟩ := (parse_inlined Expression.interpret
    Expression.ignoresUnnamed_interpret 0 bumpSite bumpLines (Source.unlines bumpSite.lines)
    (Source.unlines (bumpSite.inlined bumpLines)) false
    (Source.lines_unlines (by decide) (by decide) (by decide))
    (Source.lines_unlines (by decide) (by decide) (by decide)) (by decide) (by decide +kernel) hc hexpands
    hundisturbed _).1 ⟨_, haccepted, rfl⟩
  exact ⟨hc, hexpands, _, p', haccepted, hp', hentries⟩

/-- A label of as many bytes as no line has. -/
def longName : Text := List.replicate Source.lineLimit (byte 'a')

/-- A macro that does not use its formal, called with an argument so long that the call cannot be
read. -/
def longSite : CallSite where
  name := text "m"
  formals := [text "x"]
  args := [longName]
  front := []
  header := text ".macro m x"
  body := [text "stop"]
  footer := text ".endm"
  middle := []
  call := Text.unwords [text "m", longName]
  back := []

theorem isLabelName_longName : isLabelName longName = true := by
  have hall : ∀ n, isLabelName (List.replicate (n + 1) (byte 'a')) = true := by
    intro n
    rw [List.replicate_succ, isLabelName, Bool.and_eq_true, List.all_eq_true]
    refine ⟨by decide, fun b hb => ?_⟩
    rw [List.eq_of_mem_replicate hb]
    decide
  exact hall 65535

theorem longName_ne {w : Text} (hw : w.head? ≠ some (byte 'a')) : longName ≠ w := by
  rintro rfl
  exact hw List.head?_replicate

theorem longSite_plain : ∀ w ∈ [text "m", longName], IsPlainWord w :=
  List.forall_mem_cons.2 ⟨isPlainWord_of_isLabelName (by decide),
    List.forall_mem_singleton.2 (isPlainWord_of_isLabelName isLabelName_longName)⟩

theorem longSite_wellFormed : longSite.WellFormed := by
  have hargument : IsArgument longName := by
    refine .inl ⟨_, operandOf_label isLabelName_longName fun r hr => longName_ne ?_⟩
    rw [Register.head?_name hr]
    decide
  have hcall : words (Source.strip longSite.call) = [text "m", longName] := by
    rw [longSite, Source.strip_unwords longSite_plain,
      words_unwords fun w hw => (longSite_plain w hw).isWord.unbroken]
  exact ⟨by decide, by decide, ⟨by decide, by decide, by decide⟩, by decide, by decide, by decide, hcall,
    rfl, List.forall_mem_singleton.2 hargument⟩

theorem lines_longSite : Source.lines (Source.unlines longSite.lines) = ⟨longSite.leading, true⟩ := by
  have hlong : Source.fits longSite.call = false := by
    have hle : Source.lineLimit ≤ longSite.call.length := by
      rw [longSite, unwords_cons_cons, unwords_singleton, List.length_append, List.length_cons, longName,
        List.length_replicate]
      omega
    exact decide_eq_false (Nat.not_lt.2 hle)
  have hfits : ∀ line ∈ longSite.leading, Source.fits line = true := by decide
  have hfeed : ∀ line ∈ longSite.lines, 10 ∉ line :=
    List.forall_mem_append.2 ⟨by decide,
      List.forall_mem_singleton.2 (not_mem_unwords longSite_plain (by decide) (by decide))⟩
  have hreturn : ∀ line ∈ longSite.lines, 13 ∉ line :=
    List.forall_mem_append.2 ⟨by decide,
      List.forall_mem_singleton.2 (not_mem_unwords longSite_plain (by decide) (by decide))⟩
  have hread : longSite.lines.takeWhile Source.fits = longSite.leading := by
    rw [CallSite.lines, List.takeWhile_append_of_pos hfits, List.takeWhile_cons, hlong]
    exact List.append_nil _
  have hoverlong : longSite.lines.any (!Source.fits ·) = true := by
    rw [List.any_eq_true]
    exact ⟨longSite.call, List.mem_append_right _ List.mem_cons_self, by rw [hlong]; rfl⟩
  rw [Source.lines_eq_takeWhile hfeed hreturn, hread, hoverlong]

theorem not_mem_longSite {b : UInt8} (hleading : b ∉ Source.unlines longSite.leading)
    (hcall : b ∉ text "m a\n") : b ∉ Source.unlines longSite.lines := by
  have hne : ∀ c ∈ text "m a\n", b ≠ c := fun c hc heq => hcall (heq ▸ hc)
  have hunwords : b ∉ unwords [text "m", longName] := by
    intro hmem
    rcases mem_unwords hmem with heq | ⟨w, hw, hb⟩
    · exact hne _ (by decide) heq
    · rw [List.mem_pair] at hw
      rcases hw with rfl | rfl
      · exact hne _ (by decide) (List.mem_singleton.1 hb)
      · exact hne _ (by decide) (List.eq_of_mem_replicate hb)
  intro hmem
  rw [CallSite.lines, Source.unlines, List.flatMap_append, List.mem_append] at hmem
  rcases hmem with hmem | hmem
  · exact hleading hmem
  · rcases List.mem_append.1 (List.flatMap_singleton _ longSite.call ▸ hmem) with hmem | hmem
    · exact hunwords hmem
    · exact hne _ (by decide) (List.mem_singleton.1 hmem)

/-- All lines that come of inlining a call can be short while the call itself is too long to be read,
and then only the inlined source is accepted. -/
theorem longSite_call_unread :
    longSite.WellFormed ∧ longSite.Expands [text "stop"] ∧
      (∀ line ∈ longSite.inlined [text "stop"], Source.fits line = true) ∧
      byte '@' ∉ Source.unlines longSite.lines ∧ ¬ lineEquate <:+: Source.unlines longSite.lines ∧
      longSite.Undisturbed (sourceLines Expression.interpret 1 {} longSite.leading
        { equates := startEquates (fresh Expression.interpret) }).2.2 ∧
      (parse 1 (fresh Expression.interpret) (Source.unlines longSite.lines)).verdict =
        .rejected ⟨3, text ".endm", [], .lineTooLong⟩ ∧
      ∃ p, (parse 1 (fresh Expression.interpret)
        (Source.unlines (longSite.inlined [text "stop"]))).verdict = .accepted p := by
  refine ⟨longSite_wellFormed, .cons (by decide) .nil, by decide, not_mem_longSite (by decide) (by decide),
    ?_, ?_, ?_, ?_⟩
  · have hletter : byte 'L' ∉ Source.unlines longSite.lines := not_mem_longSite (by decide) (by decide)
    exact fun hpart => hletter (hpart.subset (by decide))
  · have hequates : (sourceLines Expression.interpret 1 {} longSite.leading
        { equates := startEquates (fresh Expression.interpret) }).2.2.equates =
        ⟨[(lineEquate, text "0")]⟩ := by decide +kernel
    have hfree : ∀ a ∈ longSite.args, (⟨[(lineEquate, text "0")]⟩ : Bindings Text).contains a = false := by
      refine List.forall_mem_singleton.2 (Bool.eq_false_iff.2 fun hmem => ?_)
      rw [Bindings.contains_iff_mem_names] at hmem
      exact longName_ne (by decide) (List.mem_singleton.1 hmem)
    exact ⟨by decide +kernel, by decide +kernel, hequates ▸ hfree, by decide +kernel, by decide +kernel⟩
  · rw [parse, lines_longSite]
    decide +kernel
  · refine ⟨⟨(parse 1 (fresh Expression.interpret)
      (Source.unlines (longSite.inlined [text "stop"]))).state.statements.toList⟩, ?_⟩
    decide +kernel

end TapeMachine.Assembler
