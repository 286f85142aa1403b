import TapeMachine.Expression.Eval
import TapeMachine.Proofs.SpelledLines

/-! Expanded programs. The words kept with a statement are those it was made from, with macros
carried out and equates and constants replaced. They spell the statement, so the words of all
statements, one statement a line, make a source of their own: it calls no macro, needs no equate and
gives the same entries. -/

namespace TapeMachine.Assembler

/-- The words of a program as a source, one statement a line. -/
def expandedText (p : Program) : Text := wordsText (p.statements.map Statement.words)

/-- A word declares a name by a colon behind it. -/
theorem eq_of_declaredName? {word name : Text} (h : declaredName? word = some name) :
    word = name ++ text ":" := by
  rw [declaredName?] at h
  split_ifs at h with hlast
  injection h with h
  rw [← h]
  exact (List.dropLast_append_getLast? (byte ':') hlast).symm

/-- All statements are spelled by their words. -/
def State.SpelledOut (s : State) : Prop := ∀ st ∈ s.statements.toList, Spells st.words st.entry

theorem State.SpelledOut.push {s : State} (h : s.SpelledOut) (n : Nat) {words : List Text}
    {entry : Entry} (hspells : Spells words entry) : (s.push n words entry).SpelledOut := by
  intro st hst
  rw [State.push, Array.toList_push, List.mem_append, List.mem_singleton] at hst
  obtain hst | rfl := hst
  · exact h st hst
  · exact hspells

theorem State.SpelledOut.edit {s s' : State} (hedit : Edit s s') (h : s.SpelledOut) :
    s'.SpelledOut := by
  cases hedit with
  | declare n word name hword hname _ =>
      rw [eq_of_declaredName? hword]
      exact h.push n (.label hname)
  | emit n mnemonic args i hi => exact h.push n (.insn hi)
  | _ => exact h

/-- Whatever comes of a source, its statements are spelled by their words. -/
theorem parse_spelledOut (depth : Nat) (a : Assembler) (source : Text) :
    (parse depth a source).state.SpelledOut :=
  (parse_edits depth a source).invariant (fun _ _ hedit h => h.edit hedit) fun _ hst => by cases hst

/-- The statements of an accepted source, as lines, spell its entries. -/
theorem spelled_of_accepted {depth : Nat} {a : Assembler} {source : Text} {p : Program}
    (haccepted : (parse depth a source).verdict = .accepted p)
    (hline : ∀ st ∈ p.statements, lineEquate ∉ st.words)
    (hshort : ∀ st ∈ p.statements, (Text.unwords st.words).length < Source.lineLimit) :
    Spelled (p.statements.map fun st => (st.words, st.entry)) := by
  obtain ⟨hstatements, hmissing⟩ := parse_accepted haccepted
  have hcoherent := parse_coherent depth a source
  have hentries : (p.statements.map fun st => (st.words, st.entry)).map Prod.snd
      = (parse depth a source).state.entries := by
    rw [List.map_map, hstatements]
    rfl
  constructor
  · refine List.forall_mem_map.2 fun st hst => ?_
    exact parse_spelledOut depth a source st (hstatements ▸ hst)
  · refine List.forall_mem_map.2 fun st hst w hw => ?_
    exact fun heq => hline st hst (heq ▸ hw)
  · rw [hentries, ← hcoherent.labels_names]
    exact hcoherent.labels_entries.2
  · rw [hentries]
    exact hcoherent.missingLabel?_eq_none.1 hmissing
  · exact List.forall_mem_map.2 hshort

/-- The words of an accepted source are a program of their own: read again by an assembler with
nothing predefined, they are accepted, and give the same entries. -/
theorem parse_expandedText (interpret : Expression.Interpreter) (depth again : Nat) (a : Assembler)
    (source : Text) (p : Program) (haccepted : (parse depth a source).verdict = .accepted p)
    (hline : ∀ st ∈ p.statements, lineEquate ∉ st.words)
    (hshort : ∀ st ∈ p.statements, (Text.unwords st.words).length < Source.lineLimit) :
    ∃ p', (parse again (fresh interpret) (expandedText p)).verdict = .accepted p' ∧
      p'.entries = p.entries := by
  have hspelled := spelled_of_accepted haccepted hline hshort
  obtain ⟨p', hverdict, hentries⟩ := hspelled.parse_accepted again
  rw [List.map_map] at hverdict hentries
  exact ⟨p', hverdict, hentries⟩

/-- An assembler with an equate in an unusual spelling. -/
def offsetAssembler : Assembler :=
  predefine (fresh Expression.interpret) (text "OFFSET") (text "+0x0f")

/-- A source with an expression over the predefined equate, a character, a macro called twice with a
label of its own, a comment, and numbers in several spellings. -/
def variedSource : Text :=
  text ".equ LAST $(2*3+OFFSET)\n.macro count reg by\n@l: add reg by ; again\njne reg LAST @l\n" ++
    text ".endm\nstart: again: mov r1 'A'\ncount r1 OFFSET\nldxb r2 [r1+-0x2]\ncount r2 0b1_1\nja start\n"

def variedProgram : Program := ⟨(parse 1 offsetAssembler variedSource).state.statements.toList⟩

theorem variedSource_parse_expandedText :
    (parse 1 offsetAssembler variedSource).verdict = .accepted variedProgram ∧
      (∀ st ∈ variedProgram.statements, lineEquate ∉ st.words) ∧
      (∀ st ∈ variedProgram.statements, (Text.unwords st.words).length < Source.lineLimit) ∧
      ∃ p', (parse 0 (fresh Expression.interpret) (expandedText variedProgram)).verdict = .accepted p' ∧
        p'.entries = variedProgram.entries := by
  have haccepted : (parse 1 offsetAssembler variedSource).verdict = .accepted variedProgram := by
    decide +kernel
  have hline : ∀ st ∈ variedProgram.statements, lineEquate ∉ st.words := by decide +kernel
  have hshort : ∀ st ∈ variedProgram.statements,
      (Text.unwords st.words).length < Source.lineLimit := by decide +kernel
  exact ⟨haccepted, hline, hshort,
    parse_expandedText Expression.interpret 1 0 offsetAssembler variedSource variedProgram haccepted
      hline hshort⟩

end TapeMachine.Assembler
