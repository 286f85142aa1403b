import Mathlib.Algebra.Group.Nat.Defs
import TapeMachine.Proofs.JumpTargets
import TapeMachine.Proofs.TickLimit

/-! Programs that only jump forward. Every instruction but a stop then moves the program counter
towards the end of the tape, so a run visits no place twice: it ends, and it executes no more
instructions than there are between its start and the end of the tape. -/

namespace TapeMachine.Machine

variable {m : Machine}

/-- The tape is short, and every jump goes by a number that is not negative or to a label behind the
jump, at a place that fits a word. -/
structure JumpsForward (m : Machine) : Prop where
  short : m.tape.size < 2 ^ 31
  jumps : ∀ place i, m.tape[place]? = some i → i.op.kind = .jump →
    (i.off.kind = .imm ∧ 0 ≤ i.off.imm.toInt) ∨
      (i.off.kind = .label ∧
        ∃ target, m.labels.get? i.off.label = some target ∧ place < target ∧ target < 2 ^ 63)

namespace JumpsForward

theorem after (h : m.JumpsForward) (n : Nat) : (m.after n).JumpsForward := by
  obtain ⟨short, jumps⟩ := h
  constructor
  · rwa [after_tape]
  · rwa [after_tape, after_labels]

/-- An instruction that does not stop the program moves on. -/
theorem pc_lt_apply (h : m.JumpsForward) {i : Instruction} {e : Effect} (hi : m.Fetches i)
    (heffect : m.effectOf i = .ok e) (hstop : e ≠ .stop) :
    m.pc.toInt < (m.apply e).pc.toInt := by
  have hshort := h.short
  have hnext : m.pc.toInt < (m.pc + 1).toInt := by
    rw [hi.succ_toInt (by omega)]
    omega
  cases e with
  | stop => exact absurd rfl hstop
  | write slot value => exact hnext
  | store cell value => exact hnext
  | next => exact hnext
  | jump displacement =>
      obtain ⟨hop, hvalue⟩ := effectOf_jump heffect
      rcases h.jumps _ i hi.found hop with ⟨hkind, hnonneg⟩ | ⟨hkind, target, htarget, hlt, hfits⟩
      · obtain rfl := valueOf_imm hkind hvalue
        change m.pc.toInt < (m.pc + i.off.imm.signExtend 64 + 1).toInt
        rw [hi.jump_toInt hshort]
        omega
      · obtain ⟨place, hplace, hpc⟩ := apply_jump_pc hkind heffect
        obtain rfl : target = place := Option.some.inj (htarget.symm.trans hplace)
        rw [hpc, ofNat_toInt hfits, hi.toInt_eq]
        omega

/-- Steps that go on move the program counter by one place each, at least. -/
theorem add_le_pc (h : m.JumpsForward) {k : Nat} (hcontinues : m.Continues k) :
    m.pc.toInt + k ≤ (m.after k).pc.toInt := by
  induction k with
  | zero => simp
  | succ k ih =>
      obtain ⟨hbefore, hlast⟩ := continues_succ.1 hcontinues
      obtain ⟨i, e, hi, heffect, hstop, hmachine⟩ := step_goes_on hlast
      have hmoves := (h.after k).pc_lt_apply hi heffect hstop
      have hreached := ih hbefore
      rw [after_succ, hmachine]
      omega

theorem add_lt_size (h : m.JumpsForward) {k : Nat} (hcontinues : m.Continues k)
    (hdone : (m.after k).isDone = false) : m.pc.toInt + k < m.tape.size := by
  have hreached := h.add_le_pc hcontinues
  rw [isDone, decide_eq_false_iff_not, after_tape] at hdone
  omega

theorem add_le_size (h : m.JumpsForward) (hhigh : m.pc.toInt ≤ m.tape.size) {k : Nat}
    (hcontinues : m.Continues k) : m.pc.toInt + k ≤ m.tape.size := by
  cases k with
  | zero => simpa using hhigh
  | succ k =>
      obtain ⟨hbefore, hlast⟩ := continues_succ.1 hcontinues
      obtain ⟨i, -, hi, -⟩ := step_goes_on hlast
      have hlt := h.add_lt_size hbefore hi.isDone_eq
      omega

/-- A run cannot go on for more steps than there are places left. -/
theorem endsAfter (h : m.JumpsForward) (hhigh : m.pc.toInt ≤ m.tape.size) :
    ∃ k, m.EndsAfter k := by
  rcases m.continues_or_endsAfter ((m.tape.size - m.pc.toInt).toNat + 1) with
    hcontinues | ⟨k, -, hends⟩
  · have hle := h.add_le_size hhigh hcontinues
    omega
  · exact ⟨k, hends⟩

end JumpsForward

/-- From any place up to the end of the tape, a program that only jumps forward ends its run, with
any fuel beyond the number of places left, and executes no more instructions than that, which is
what the count of ticks grows by; where the run fails, the instruction that fails is within that
number too. -/
theorem forward_runs_end (m : Machine) (h : m.JumpsForward) (hhigh : m.pc.toInt ≤ m.tape.size) :
    ∃ n o, m.RunsIn n o ∧
      (∀ fuel : Nat, m.tape.size - m.pc.toInt < fuel → m.run fuel = o) ∧
      o.machine.ticks = m.ticks + BitVec.ofNat 64 n ∧
      n ≤ m.tape.size - m.pc.toInt ∧
      ∀ t, o.ending = .failed t → n < m.tape.size - m.pc.toInt := by
  obtain ⟨k, hk⟩ := h.endsAfter hhigh
  have hle := h.add_le_size hhigh hk.continues
  have hruns : m.RunsIn (m.executedIn (k + 1)) (m.outcomeAt k) := ⟨k, hk, rfl, rfl⟩
  refine ⟨_, _, hruns, fun fuel hfuel => hk.run_eq (by omega), hruns.ticks, ?_⟩
  rcases hk.executedIn_cases with
    ⟨hending, -, hn⟩ | ⟨hending, hdone, hn⟩ | ⟨t, hending, hdone, hn⟩
  · rw [hending, hn]
    exact ⟨by omega, by simp⟩
  · have hlt := h.add_lt_size hk.continues hdone
    rw [hending, hn]
    exact ⟨by omega, by simp⟩
  · have hlt := h.add_lt_size hk.continues hdone
    rw [hn]
    exact ⟨by omega, fun _ _ => by omega⟩

/-- Jumps over a division to a label, and from there past the end of the tape. -/
def skippingEntries : List Entry :=
  [.insn (.jump .eq ⟨0⟩ (.ofImm 0) (.ofLabel (text "skip"))),
    .insn (.alu .div ⟨1⟩ (.ofReg ⟨0⟩)),
    .label (text "skip"),
    .insn (.ja (.ofImm 100))]

def skipping : Machine := start (resolve skippingEntries).tape (resolve skippingEntries).labels

theorem skipping_runs_end :
    skipping.JumpsForward ∧
      ∃ n o, skipping.RunsIn n o ∧ n ≤ 3 ∧ skipping.run 4 = o := by
  have hforward : skipping.JumpsForward := by
    refine ⟨by decide, fun place i hfound hop => ?_⟩
    rcases place with _ | _ | _ | place
    · cases hfound
      exact Or.inr ⟨rfl, 2, by decide, by decide, by decide⟩
    · cases hfound
      cases hop
    · cases hfound
      exact Or.inl ⟨rfl, by decide⟩
    · cases hfound
  obtain ⟨n, o, hruns, hfuel, -, hle, -⟩ := forward_runs_end skipping hforward (by decide)
  have hleft : (skipping.tape.size - skipping.pc.toInt : Int) = 3 := by decide
  exact ⟨hforward, n, o, hruns, by omega, hfuel 4 (by decide)⟩

end TapeMachine.Machine
