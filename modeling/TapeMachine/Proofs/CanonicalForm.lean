import Mathlib.Data.List.Forall2
import TapeMachine.Proofs.Execution
import TapeMachine.Proofs.Placement

/-! The instructions that the assembler makes. Their operands are numbers, labels, or registers of
the bank with or without an offset; they leave every field alone that their opcode does not use, take
their source from an address only in loads, and jump by a number or to a label. The other way round,
building puts every such instruction together from its own operands. -/

namespace TapeMachine

theorem except_mapM_eq_ok {ε α β : Type} {f : α → Except ε β} {as : List α} {bs : List β} :
    as.mapM f = .ok bs ↔ List.Forall₂ (fun a b => f a = .ok b) as bs := by
  induction as generalizing bs with
  | nil =>
      rw [List.mapM_nil]
      constructor
      · intro h
        cases h
        exact .nil
      · intro h
        cases h
        rfl
  | cons a as ih =>
      rw [List.mapM_cons, except_bind_eq_ok]
      constructor
      · rintro ⟨b, hb, hrest⟩
        obtain ⟨bs', hbs, heq⟩ := except_bind_eq_ok.1 hrest
        cases heq
        exact .cons hb (ih.1 hbs)
      · intro h
        cases h with
        | cons hb hbs => exact ⟨_, hb, except_bind_eq_ok.2 ⟨_, ih.2 hbs, rfl⟩⟩

theorem Register.mem_bank {r : Register} : r ∈ bank ↔ r.IsValid := by
  obtain ⟨index⟩ := r
  rw [bank, List.mem_map]
  constructor
  · rintro ⟨n, hn, heq⟩
    cases heq
    rw [List.mem_range] at hn
    exact ⟨Int.natCast_nonneg n, Int.ofNat_lt.2 hn⟩
  · rintro ⟨hnonneg, hlt⟩
    simp only at hnonneg hlt
    refine ⟨index.toNat, List.mem_range.2 (by omega), ?_⟩
    rw [Int.toNat_of_nonneg hnonneg]

theorem Register.isValid_of_ofName? {word : Text} {r : Register} (h : ofName? word = some r) :
    r.IsValid := mem_bank.1 (List.mem_of_find?_eq_some h)

/-- An operand of one of the four kinds, with nothing in the fields its kind does not use and with
a register of the bank if it has one. -/
inductive Operand.Canonical : Operand → Prop where
  | imm (value : BitVec 32) : Canonical (.ofImm value)
  | label (name : Text) : Canonical (.ofLabel name)
  | reg {r : Register} (hr : r.IsValid) : Canonical (.ofReg r)
  | ind {r : Register} (hr : r.IsValid) (offset : BitVec 32) : Canonical (.ofInd r offset)

theorem Operand.canonical_iff {o : Operand} :
    o.Canonical ↔
      o = .ofImm o.imm ∨ o = .ofLabel o.label ∨ (o = .ofReg o.reg ∧ o.reg.IsValid) ∨
        (o = .ofInd o.reg o.imm ∧ o.reg.IsValid) := by
  constructor
  · intro h
    cases h with
    | imm value => exact Or.inl rfl
    | label name => exact Or.inr (Or.inl rfl)
    | reg hr => exact Or.inr (Or.inr (Or.inl ⟨rfl, hr⟩))
    | ind hr offset => exact Or.inr (Or.inr (Or.inr ⟨rfl, hr⟩))
  · rintro (h | h | ⟨h, hr⟩ | ⟨h, hr⟩) <;> rw [h]
    · exact .imm _
    · exact .label _
    · exact .reg hr
    · exact .ind hr _

instance (o : Operand) : Decidable o.Canonical := decidable_of_iff _ Operand.canonical_iff.symm

/-- An instruction with a valid opcode that sets only the fields of its opcode, with canonical
operands where the opcode allows them. -/
inductive Instruction.Canonical : Instruction → Prop where
  | alu (op : AluOp) {dst : Register} {src : Operand} (hdst : dst.IsValid) (hsrc : src.Canonical)
      (hdirect : src.kind ≠ .ind) : Canonical (.alu op dst src)
  | neg {dst : Register} (hdst : dst.IsValid) : Canonical (.neg dst)
  | lddw {dst : Register} {src : Operand} (hdst : dst.IsValid) (hsrc : src.Canonical)
      (hdirect : src.kind ≠ .ind) : Canonical (.lddw dst src)
  | load (width : Width) {dst : Register} {src : Operand} (hdst : dst.IsValid)
      (hsrc : src.Canonical) : Canonical (.load width dst src)
  | store (width : Width) {addr src : Operand} (haddr : addr.Canonical) (hsrc : src.Canonical)
      (hdirect : src.kind ≠ .ind) : Canonical (.store width addr src)
  | ja {off : Operand} (hoff : off.Canonical) (hjump : off.kind = .imm ∨ off.kind = .label) :
      Canonical (.ja off)
  | jump (cond : Cond) {dst : Register} {src off : Operand} (hdst : dst.IsValid)
      (hsrc : src.Canonical) (hdirect : src.kind ≠ .ind) (hoff : off.Canonical)
      (hjump : off.kind = .imm ∨ off.kind = .label) : Canonical (.jump cond dst src off)
  | stop : Canonical .stop

theorem Instruction.Canonical.dst_isValid {i : Instruction} (h : i.Canonical) : i.dst.IsValid := by
  cases h with
  | alu _ hdst | neg hdst | lddw hdst | load _ hdst | jump _ hdst => exact hdst
  | store | ja | stop => exact (by decide : Register.IsValid ⟨0⟩)

theorem Instruction.Canonical.operands {i : Instruction} (h : i.Canonical) :
    ∀ o ∈ i.operands, o.Canonical := by
  cases h with
  | alu op hdst hsrc => exact List.forall_mem_cons.2 ⟨.reg hdst, List.forall_mem_singleton.2 hsrc⟩
  | neg hdst => exact List.forall_mem_singleton.2 (.reg hdst)
  | lddw hdst hsrc => exact List.forall_mem_cons.2 ⟨.reg hdst, List.forall_mem_singleton.2 hsrc⟩
  | load width hdst hsrc =>
      exact List.forall_mem_cons.2 ⟨.reg hdst, List.forall_mem_singleton.2 hsrc⟩
  | store width haddr hsrc =>
      exact List.forall_mem_cons.2 ⟨haddr, List.forall_mem_singleton.2 hsrc⟩
  | ja hoff => exact List.forall_mem_singleton.2 hoff
  | jump cond hdst hsrc hdirect hoff =>
      exact List.forall_mem_cons.2
        ⟨.reg hdst, List.forall_mem_cons.2 ⟨hsrc, List.forall_mem_singleton.2 hoff⟩⟩
  | stop => exact fun o ho => nomatch ho

namespace Assembler

/-- A word denotes a register, an address, a number or a label, and a label only by its own name. -/
theorem operandOf_ok {word : Text} {o : Operand} (h : operandOf word = .ok o) :
    o.Canonical ∧
      (o.kind = .label →
        o.label = word ∧ isLabelName word = true ∧ Register.ofName? word = none) := by
  unfold operandOf at h
  split at h
  · rename_i r hr
    cases h
    exact ⟨.reg (Register.isValid_of_ofName? hr), fun hkind => by cases hkind⟩
  · rename_i hname
    split at h
    · split at h
      · rename_i inner _ _ hinner
        cases h
        obtain ⟨r, hr, hrest⟩ := Option.bind_eq_some_iff.1 hinner
        obtain ⟨offset, _, heq⟩ := Option.bind_eq_some_iff.1 hrest
        cases heq
        exact ⟨.ind (Register.isValid_of_ofName? hr) offset, fun hkind => by cases hkind⟩
      · cases h
    · split at h
      · cases h
      · split_ifs at h with hnumber hlabel
        · split at h
          · cases h
            exact ⟨.imm _, fun hkind => by cases hkind⟩
          · cases h
        · cases h
          exact ⟨.label _, fun _ => ⟨rfl, hlabel, hname⟩⟩

theorem target_ok {o : Operand} {r : Register} (ho : o.Canonical) (h : target o = .ok r) :
    o = .ofReg r ∧ r.IsValid := by
  cases ho with
  | imm | label => cases h
  | ind hr => cases h
  | reg hr =>
      cases h
      exact ⟨rfl, hr⟩

theorem checkSource_ok {o o' : Operand} (h : checkSource o = .ok o') : o' = o ∧ o.kind ≠ .ind := by
  rw [checkSource] at h
  split_ifs at h with hkind
  cases h
  exact ⟨rfl, hkind⟩

theorem checkOffset_ok {o o' : Operand} (h : checkOffset o = .ok o') :
    o' = o ∧ (o.kind = .imm ∨ o.kind = .label) := by
  rw [checkOffset] at h
  split_ifs at h with hkind
  cases h
  exact ⟨rfl, by simpa using hkind⟩

/-- What is built of canonical operands is canonical, and has these operands. -/
theorem build_ok {op : Opcode} {os : List Operand} {i : Instruction}
    (h : build op os = .ok i) (hos : ∀ o ∈ os, o.Canonical) : i.Canonical ∧ i.operands = os := by
  unfold build at h
  split at h
  · obtain ⟨dst, hdst, hrest⟩ := except_bind_eq_ok.1 h
    obtain ⟨src, hsrc, heq⟩ := except_bind_eq_ok.1 hrest
    obtain ⟨rfl, hvalid⟩ := target_ok (hos _ (by simp)) hdst
    obtain ⟨rfl, hdirect⟩ := checkSource_ok hsrc
    cases heq
    exact ⟨.alu _ hvalid (hos _ (by simp)) hdirect, rfl⟩
  · obtain ⟨dst, hdst, heq⟩ := except_bind_eq_ok.1 h
    obtain ⟨rfl, hvalid⟩ := target_ok (hos _ (by simp)) hdst
    cases heq
    exact ⟨.neg hvalid, rfl⟩
  · obtain ⟨dst, hdst, hrest⟩ := except_bind_eq_ok.1 h
    obtain ⟨src, hsrc, heq⟩ := except_bind_eq_ok.1 hrest
    obtain ⟨rfl, hvalid⟩ := target_ok (hos _ (by simp)) hdst
    obtain ⟨rfl, hdirect⟩ := checkSource_ok hsrc
    cases heq
    exact ⟨.lddw hvalid (hos _ (by simp)) hdirect, rfl⟩
  · obtain ⟨dst, hdst, heq⟩ := except_bind_eq_ok.1 h
    obtain ⟨rfl, hvalid⟩ := target_ok (hos _ (by simp)) hdst
    cases heq
    exact ⟨.load _ hvalid (hos _ (by simp)), rfl⟩
  · obtain ⟨src, hsrc, heq⟩ := except_bind_eq_ok.1 h
    obtain ⟨rfl, hdirect⟩ := checkSource_ok hsrc
    cases heq
    exact ⟨.store _ (hos _ (by simp)) (hos _ (by simp)) hdirect, rfl⟩
  · obtain ⟨off, hoff, heq⟩ := except_bind_eq_ok.1 h
    obtain ⟨rfl, hjump⟩ := checkOffset_ok hoff
    cases heq
    exact ⟨.ja (hos _ (by simp)) hjump, rfl⟩
  · obtain ⟨dst, hdst, hrest⟩ := except_bind_eq_ok.1 h
    obtain ⟨off, hoff, hlast⟩ := except_bind_eq_ok.1 hrest
    obtain ⟨src, hsrc, heq⟩ := except_bind_eq_ok.1 hlast
    obtain ⟨rfl, hvalid⟩ := target_ok (hos _ (by simp)) hdst
    obtain ⟨rfl, hdirect⟩ := checkSource_ok hsrc
    obtain ⟨rfl, hjump⟩ := checkOffset_ok hoff
    cases heq
    exact ⟨.jump _ hvalid (hos _ (by simp)) hdirect (hos _ (by simp)) hjump, rfl⟩
  · cases h
    exact ⟨.stop, rfl⟩
  · cases h

/-- An instruction in words is a mnemonic and operands that can be put together. -/
theorem instructionOf_ok {mnemonic : Text} {args : List Text} {i : Instruction}
    (h : instructionOf mnemonic args = .ok i) :
    ∃ op os, Opcode.ofMnemonic? mnemonic = some op ∧
      List.Forall₂ (fun word o => operandOf word = .ok o) args os ∧ build op os = .ok i := by
  unfold instructionOf at h
  split at h
  · cases h
  · rename_i op hop
    split_ifs at h
    obtain ⟨os, hos, hbuild⟩ := except_bind_eq_ok.1 h
    refine ⟨op, os, hop, except_mapM_eq_ok.1 hos, ?_⟩
    cases hbuilt : build op os with
    | error c =>
        rw [hbuilt] at hbuild
        cases hbuild
    | ok j =>
        rw [hbuilt] at hbuild
        cases hbuild
        rfl

/-- An instruction in words is canonical, and words denote its operands. -/
theorem instructionOf_operands {mnemonic : Text} {args : List Text} {i : Instruction}
    (h : instructionOf mnemonic args = .ok i) :
    i.Canonical ∧ ∀ o ∈ i.operands, ∃ word, operandOf word = .ok o := by
  obtain ⟨op, os, _, hpairs, hbuild⟩ := instructionOf_ok h
  have hos : ∀ o ∈ os, ∃ word, operandOf word = .ok o := by
    intro o ho
    obtain ⟨k, hk, rfl⟩ := List.getElem_of_mem ho
    exact ⟨_, hpairs.get (hpairs.length_eq ▸ hk) hk⟩
  obtain ⟨hcanonical, hoperands⟩ :=
    build_ok hbuild fun o ho => (hos o ho).elim fun _ hword => (operandOf_ok hword).1
  exact ⟨hcanonical, hoperands.symm ▸ hos⟩

theorem instructionOf_canonical {mnemonic : Text} {args : List Text} {i : Instruction}
    (h : instructionOf mnemonic args = .ok i) : i.Canonical := (instructionOf_operands h).1

/-- All instructions that assembling makes of any source are canonical. -/
theorem parse_canonical (depth : Nat) (a : Assembler) (source : Text) :
    ∀ i ∈ Entry.instructions (parse depth a source).state.entries, i.Canonical := by
  refine (parse_edits depth a source).invariant
    (I := fun s => ∀ i ∈ Entry.instructions s.entries, i.Canonical) ?_ (fun i hi => nomatch hi)
  intro s s' hedit h
  cases hedit with
  | declare n word name =>
      change ∀ i ∈ Entry.instructions (s.push n [word] (.label name)).entries, i.Canonical
      rw [State.entries_push, Entry.instructions_append]
      simpa using h
  | emit n mnemonic args j hj =>
      change ∀ i ∈ Entry.instructions (s.push n (mnemonic :: args) (.insn j)).entries, i.Canonical
      rw [State.entries_push, Entry.instructions_append]
      intro i hi
      rcases List.mem_append.1 hi with hold | hnew
      · exact h i hold
      · rw [List.mem_singleton.1 hnew]
        exact instructionOf_canonical hj
  | _ => exact h

theorem target_ofReg (r : Register) : target (.ofReg r) = .ok r := rfl

theorem checkSource_of_ne {o : Operand} (h : o.kind ≠ .ind) : checkSource o = .ok o := if_neg h

theorem checkOffset_of_jump {o : Operand} (h : o.kind = .imm ∨ o.kind = .label) :
    checkOffset o = .ok o := if_pos (by simpa using h)

/-- A canonical instruction is built from its opcode and its operands. -/
theorem build_operands {i : Instruction} (h : i.Canonical) : build i.op i.operands = .ok i := by
  cases h with
  | alu op hdst hsrc hdirect =>
      simp only [Instruction.alu, Instruction.operands, build, target_ofReg,
        checkSource_of_ne hdirect]
      rfl
  | neg hdst => rfl
  | lddw hdst hsrc hdirect =>
      simp only [Instruction.lddw, Instruction.operands, build, target_ofReg,
        checkSource_of_ne hdirect]
      rfl
  | load width hdst hsrc => rfl
  | store width haddr hsrc hdirect =>
      simp only [Instruction.store, Instruction.operands, build, checkSource_of_ne hdirect]
      rfl
  | ja hoff hjump =>
      simp only [Instruction.ja, Instruction.operands, build, checkOffset_of_jump hjump]
      rfl
  | jump cond hdst hsrc hdirect hoff hjump =>
      simp only [Instruction.jump, Instruction.operands, build, target_ofReg,
        checkSource_of_ne hdirect, checkOffset_of_jump hjump]
      rfl
  | stop => rfl

end Assembler

theorem Instruction.canonical_iff {i : Instruction} :
    i.Canonical ↔ Assembler.build i.op i.operands = .ok i ∧ ∀ o ∈ i.operands, o.Canonical :=
  ⟨fun h => ⟨Assembler.build_operands h, h.operands⟩, fun h => (Assembler.build_ok h.1 h.2).1⟩

instance (i : Instruction) : Decidable i.Canonical :=
  decidable_of_iff _ Instruction.canonical_iff.symm

end TapeMachine
