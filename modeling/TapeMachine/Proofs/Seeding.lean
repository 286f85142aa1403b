import TapeMachine.Emulator.Seed
import TapeMachine.Proofs.InstructionRules
import TapeMachine.Proofs.TextParts

/-! Seeds, one after the other. What a seed sets, or why it fails, is told by its text alone and not
by the machine it is applied to. So a list of seeds leaves at every place the value of the last seed
that names the place, however the place is spelled; seeds that fail are as good as absent, and each of
them is reported, in order. -/

namespace TapeMachine

namespace Emulator

/-- The seed is `NAME=VALUE` with this value, and its name, without the blanks around it, is one of
`names`. -/
def Assigns (names : Text → Prop) (seed : Text) (value : Word) : Prop :=
  ∃ name numeral n, seed = name ++ byte '=' :: numeral ∧ byte '=' ∉ name ∧ names (Text.trim name) ∧
    Text.readSigned (Text.trim numeral) = .ok n ∧ value = BitVec.ofInt 64 n

/-- The name is an `r` and the number of the register in decimal, with a sign or zeros in front or
without. -/
def NamesRegister (slot : Fin registerCount) (name : Text) : Prop :=
  ∃ index, name = byte 'r' :: index ∧ Text.readDecimal? index = some (slot.1 : Int)

/-- The name is the number of the cell, in any base. -/
def NamesCell (cell : Fin memorySize) (name : Text) : Prop := Text.readUnsigned name = .ok cell.1

theorem splitSeed?_eq_some {seed name : Text} {value : Word} :
    splitSeed? seed = some (name, value) ↔ Assigns (· = name) seed value := by
  constructor
  · intro h
    obtain ⟨⟨left, right⟩, hcut, hread⟩ := Option.bind_eq_some_iff.1 h
    obtain ⟨hseed, hleft⟩ := Text.cut?_eq_some.1 hcut
    cases hvalue : Text.readSigned (Text.trim right) with
    | error err =>
        simp only [hvalue] at hread
        cases hread
    | ok n =>
        simp only [hvalue] at hread
        cases hread
        exact ⟨left, right, n, hseed, hleft, rfl, hvalue, rfl⟩
  · rintro ⟨left, right, n, hseed, hleft, rfl, hvalue, rfl⟩
    refine Option.bind_eq_some_iff.2 ⟨(left, right), Text.cut?_eq_some.2 ⟨hseed, hleft⟩, ?_⟩
    simp only [hvalue]
    rfl

theorem assigns_iff {names : Text → Prop} {seed : Text} {value : Word} :
    Assigns names seed value ↔ ∃ name, splitSeed? seed = some (name, value) ∧ names name := by
  simp only [splitSeed?_eq_some]
  constructor
  · rintro ⟨left, right, n, hseed, hleft, hname, hvalue, rfl⟩
    exact ⟨_, ⟨left, right, n, hseed, hleft, rfl, hvalue, rfl⟩, hname⟩
  · rintro ⟨name, ⟨left, right, n, hseed, hleft, rfl, hvalue, rfl⟩, hname⟩
    exact ⟨left, right, n, hseed, hleft, hname, hvalue, rfl⟩

theorem registerOf?_eq_some {name : Text} {r : Register} :
    registerOf? name = some r ↔
      ∃ index, name = byte 'r' :: index ∧ Text.readDecimal? index = some r.index := by
  constructor
  · intro h
    obtain ⟨index, hlead, hread⟩ := Option.bind_eq_some_iff.1 h
    obtain ⟨n, hn, hr⟩ := Option.bind_eq_some_iff.1 hread
    cases hr
    obtain ⟨hlead, hdrop⟩ := Option.ite_none_right_eq_some.1 hlead
    obtain ⟨rest, rfl⟩ := List.isPrefixOf_iff_prefix.1 hlead
    cases hdrop
    exact ⟨rest, rfl, hn⟩
  · rintro ⟨index, rfl, hread⟩
    have hlead : Text.dropLead? (text "r") (byte 'r' :: index) = some index := rfl
    simp only [registerOf?, hlead, hread, Option.bind_eq_bind, Option.bind_some, Option.pure_def]

/-- The register that a seed sets, and the value, or why it fails. -/
def registerTarget (seed : Text) : Except SeedError (Fin registerCount × Word) :=
  match splitSeed? seed with
  | none => .error (.malformed seed)
  | some (name, value) =>
      match registerOf? name with
      | none => .error (.malformed seed)
      | some r =>
          match r.slot? with
          | none => .error (.registerRange seed)
          | some slot => .ok (slot, value)

/-- The cell that a seed sets, and the value, or why it fails. -/
def cellTarget (seed : Text) : Except SeedError (Fin memorySize × Word) :=
  match splitSeed? seed with
  | none => .error (.malformed seed)
  | some (name, value) =>
      match Text.readUnsigned name with
      | .error _ => .error (.malformed seed)
      | .ok index =>
          if h : index < memorySize then .ok (⟨index, h⟩, value) else .error (.address index)

theorem registerTarget_eq_ok {seed : Text} {slot : Fin registerCount} {value : Word} :
    registerTarget seed = .ok (slot, value) ↔ Assigns (NamesRegister slot) seed value := by
  rw [assigns_iff]
  constructor
  · intro h
    unfold registerTarget at h
    split at h
    · cases h
    next name v hsplit =>
      split at h
      · cases h
      next r hname =>
        split at h
        · cases h
        next hslot =>
          cases h
          obtain ⟨index, hindex, hread⟩ := registerOf?_eq_some.1 hname
          exact ⟨name, hsplit, index, hindex, by rw [hread, Register.slot?_eq_some.1 hslot]⟩
  · rintro ⟨name, hsplit, index, hindex, hread⟩
    have hname : registerOf? name = some ⟨slot.1⟩ := registerOf?_eq_some.2 ⟨index, hindex, hread⟩
    have hslot : (Register.mk slot.1).slot? = some slot := Register.slot?_eq_some.2 rfl
    simp only [registerTarget, hsplit, hname, hslot]

theorem cellTarget_eq_ok {seed : Text} {cell : Fin memorySize} {value : Word} :
    cellTarget seed = .ok (cell, value) ↔ Assigns (NamesCell cell) seed value := by
  rw [assigns_iff]
  constructor
  · intro h
    unfold cellTarget at h
    split at h
    · cases h
    next name v hsplit =>
      split at h
      · cases h
      next index hread =>
        split_ifs at h with hlt
        cases h
        exact ⟨name, hsplit, hread⟩
  · rintro ⟨name, hsplit, hread⟩
    have hread : Text.readUnsigned name = .ok cell.1 := hread
    simp only [cellTarget, hsplit, hread, dif_pos cell.2]

/-! ### Seeds in turn

A kind of seed sets one of its places to a value, or fails, as its text says. -/

/-- The value at a place after some seeds: that of the last seed which assigns one to the place, or
the former one if there is none. -/
def HoldsLast (assigns : Text → Word → Prop) (seeds : List Text) (former value : Word) : Prop :=
  (∃ before seed after, seeds = before ++ seed :: after ∧ assigns seed value ∧
      ∀ later ∈ after, ∀ v, ¬assigns later v) ∨
    (value = former ∧ ∀ seed ∈ seeds, ∀ v, ¬assigns seed v)

/-- The error of an attempt, if it failed. -/
def failure? {α : Type} : Except SeedError α → Option SeedError
  | .ok _ => none
  | .error err => some err

/-- A seed that assigns nothing to a place may stand before the others. -/
theorem HoldsLast.cons {assigns : Text → Word → Prop} {seeds : List Text} {former value : Word}
    (h : HoldsLast assigns seeds former value) {seed : Text} (hseed : ∀ v, ¬assigns seed v) :
    HoldsLast assigns (seed :: seeds) former value := by
  rcases h with ⟨before, last, after, rfl, hlast, hafter⟩ | ⟨hformer, hnone⟩
  · exact Or.inl ⟨seed :: before, last, after, rfl, hlast, hafter⟩
  · exact Or.inr ⟨hformer, List.forall_mem_cons.2 ⟨hseed, hnone⟩⟩

/-- A seed gives its value to its place unless a later one does. -/
theorem HoldsLast.cons_self {assigns : Text → Word → Prop} {seeds : List Text} {former value v : Word}
    (h : HoldsLast assigns seeds v value) {seed : Text} (hseed : assigns seed v) :
    HoldsLast assigns (seed :: seeds) former value := by
  rcases h with ⟨before, last, after, rfl, hlast, hafter⟩ | ⟨rfl, hnone⟩
  · exact Or.inl ⟨seed :: before, last, after, rfl, hlast, hafter⟩
  · exact Or.inl ⟨[], seed, seeds, rfl, hseed, hnone⟩

section Kind

variable {ι : Type} {set : Machine → Text → Except SeedError Machine}
  {target : Text → Except SeedError (ι × Word)} {put : Machine → ι × Word → Machine}

theorem applySeeds_of_ok {m m' : Machine} {seed : Text} (h : set m seed = .ok m')
    (seeds : List Text) : applySeeds set m (seed :: seeds) = applySeeds set m' seeds := by
  simp only [applySeeds, h]

theorem applySeeds_of_error {m : Machine} {seed : Text} {err : SeedError}
    (h : set m seed = .error err) (seeds : List Text) :
    applySeeds set m (seed :: seeds) =
      ((applySeeds set m seeds).1, err :: (applySeeds set m seeds).2) := by
  simp only [applySeeds, h]

theorem applySeeds_append (m : Machine) (before after : List Text) :
    applySeeds set m (before ++ after) =
      ((applySeeds set (applySeeds set m before).1 after).1,
        (applySeeds set m before).2 ++ (applySeeds set (applySeeds set m before).1 after).2) := by
  induction before generalizing m with
  | nil => rfl
  | cons seed rest ih =>
      cases hseed : set m seed with
      | ok m' => rw [List.cons_append, applySeeds_of_ok hseed, applySeeds_of_ok hseed, ih]
      | error err =>
          rw [List.cons_append, applySeeds_of_error hseed, applySeeds_of_error hseed, ih]
          rfl

variable (hset : ∀ m seed, set m seed = (target seed).map (put m))

include hset

/-- What seeds do not write, they keep. -/
theorem applySeeds_keeps {β : Type} {f : Machine → β} (hput : ∀ m p, f (put m p) = f m)
    (m : Machine) (seeds : List Text) : f (applySeeds set m seeds).1 = f m := by
  induction seeds generalizing m with
  | nil => rfl
  | cons seed rest ih =>
      have hseed := hset m seed
      cases htarget : target seed with
      | error err =>
          rw [htarget] at hseed
          rw [applySeeds_of_error hseed, ih]
      | ok p =>
          rw [htarget] at hseed
          rw [applySeeds_of_ok hseed, ih, hput]

theorem applySeeds_holdsLast [DecidableEq ι] (get : Machine → ι → Word)
    (hget : ∀ m i v j, get (put m (i, v)) j = if i = j then v else get m j) (m : Machine)
    (seeds : List Text) (j : ι) :
    HoldsLast (fun seed v => target seed = .ok (j, v)) seeds (get m j)
      (get (applySeeds set m seeds).1 j) := by
  induction seeds generalizing m with
  | nil => exact Or.inr ⟨rfl, List.forall_mem_nil _⟩
  | cons seed rest ih =>
      have hseed := hset m seed
      cases htarget : target seed with
      | error err =>
          rw [htarget] at hseed
          rw [applySeeds_of_error hseed]
          exact (ih m).cons (by simp [htarget])
      | ok p =>
          obtain ⟨i, v⟩ := p
          rw [htarget] at hseed
          rw [applySeeds_of_ok hseed]
          have hrest := ih (put m (i, v))
          rw [hget] at hrest
          by_cases hij : i = j
          · rw [if_pos hij] at hrest
            exact hrest.cons_self (by rw [htarget, hij])
          · rw [if_neg hij] at hrest
            exact hrest.cons (by simp [htarget, hij])

/-- Whether a seed fails, and how, does not depend on the machine. -/
theorem failure?_set (m m' : Machine) (seed : Text) :
    failure? (set m seed) = failure? (set m' seed) := by
  rw [hset, hset]
  cases target seed <;> rfl

theorem applySeeds_errors (m m' : Machine) (seeds : List Text) :
    (applySeeds set m seeds).2 = seeds.filterMap fun seed => failure? (set m' seed) := by
  induction seeds generalizing m with
  | nil => rfl
  | cons seed rest ih =>
      rw [List.filterMap_cons, failure?_set hset m' m seed]
      cases hseed : set m seed with
      | ok next => rw [applySeeds_of_ok hseed, ih, failure?]
      | error err => rw [applySeeds_of_error hseed, ih, failure?]

/-- A seed that fails can be left out, wherever it stands. -/
theorem applySeeds_without {m' : Machine} {seed : Text} {err : SeedError}
    (hfails : set m' seed = .error err) (m : Machine) (before after : List Text) :
    (applySeeds set m (before ++ seed :: after)).1 = (applySeeds set m (before ++ after)).1 := by
  have hfails : set (applySeeds set m before).1 seed = .error err := by
    have hsame := failure?_set hset (applySeeds set m before).1 m' seed
    cases hseed : set (applySeeds set m before).1 seed with
    | ok next =>
        rw [hseed, hfails] at hsame
        cases hsame
    | error err' =>
        rw [hseed, hfails] at hsame
        cases hsame
        rfl
  rw [applySeeds_append, applySeeds_append, applySeeds_of_error hfails]

end Kind

theorem seedRegister_eq (m : Machine) (seed : Text) :
    seedRegister m seed = (registerTarget seed).map fun p =>
      { m with registers := m.registers.set p.1.1 p.2 p.1.2 } := by
  unfold seedRegister registerTarget
  cases splitSeed? seed with
  | none => rfl
  | some p =>
      simp only
      cases registerOf? p.1 with
      | none => rfl
      | some r =>
          simp only [Machine.setReg?]
          cases r.slot? <;> rfl

theorem seedMemory_eq (m : Machine) (seed : Text) :
    seedMemory m seed = (cellTarget seed).map fun p => m.setCell p.1 p.2 := by
  unfold seedMemory cellTarget
  cases splitSeed? seed with
  | none => rfl
  | some p =>
      simp only
      cases Text.readUnsigned p.1 with
      | error err => rfl
      | ok index =>
          simp only
          split_ifs <;> rfl

theorem seedRegister_succeeds {m : Machine} {seed : Text} :
    (∃ m', seedRegister m seed = .ok m') ↔
      ∃ slot value, Assigns (NamesRegister slot) seed value := by
  simp only [← registerTarget_eq_ok]
  rw [seedRegister_eq]
  cases registerTarget seed <;> simp [Except.map, Prod.ext_iff]

theorem seedMemory_succeeds {m : Machine} {seed : Text} :
    (∃ m', seedMemory m seed = .ok m') ↔ ∃ cell value, Assigns (NamesCell cell) seed value := by
  simp only [← cellTarget_eq_ok]
  rw [seedMemory_eq]
  cases cellTarget seed <;> simp [Except.map, Prod.ext_iff]

theorem failure?_eq_none {α : Type} {x : Except SeedError α} :
    failure? x = none ↔ ∃ a, x = .ok a := by
  cases x <;> simp [failure?]

theorem filterMap_failure?_eq_nil {α : Type} {attempt : Text → Except SeedError α}
    {seeds : List Text} :
    (seeds.filterMap fun seed => failure? (attempt seed)) = [] ↔
      ∀ seed ∈ seeds, ∃ a, attempt seed = .ok a := by
  simp only [List.filterMap_eq_nil_iff, failure?_eq_none]

/-- Every register and every cell holds the value of the last seed that sets it, and nothing else of
the emulator changes. -/
structure Seeded (e : Emulator) (regs mems : List Text) (e' : Emulator) : Prop where
  registers : ∀ slot, HoldsLast (Assigns (NamesRegister slot)) regs
    (e.machine.registers.get slot) (e'.machine.registers.get slot)
  cells : ∀ cell, HoldsLast (Assigns (NamesCell cell)) mems
    (e.machine.memory.get cell) (e'.machine.memory.get cell)
  rest : e' =
    { e with
      machine := { e.machine with
        registers := e'.machine.registers
        memory := e'.machine.memory } }

/-- What no seed writes. -/
def untouched (m : Machine) : Array Instruction × Bindings Nat × Word × Word × Bool :=
  (m.tape, m.labels, m.pc, m.ticks, m.verbose)

theorem seeded_seed (e : Emulator) (regs mems : List Text) :
    Seeded e regs mems (e.seed regs mems).1 := by
  have hseed : (e.seed regs mems).1 =
      { e with
        machine := (applySeeds seedMemory (applySeeds seedRegister e.machine regs).1 mems).1 } :=
    rfl
  generalize hregs : (applySeeds seedRegister e.machine regs).1 = m at hseed
  -- Register seeds write registers only, and memory seeds cells only.
  have hregsKeep : ∀ {β : Type} (f : Machine → β),
      (∀ n r, f { n with registers := r } = f n) → f m = f e.machine := by
    intro β f hf
    rw [← hregs]
    exact applySeeds_keeps seedRegister_eq (fun n p => hf n _) e.machine regs
  have hmemsKeep : ∀ {β : Type} (f : Machine → β), (∀ n c, f { n with memory := c } = f n) →
      f (applySeeds seedMemory m mems).1 = f m :=
    fun f hf => applySeeds_keeps seedMemory_eq (fun n p => hf n _) m mems
  rw [hseed]
  refine ⟨fun slot => ?_, fun cell => ?_, ?_⟩
  · have hlast := applySeeds_holdsLast seedRegister_eq (fun n slot => n.registers.get slot)
      (fun n i v j => vector_get_set n.registers i j v) e.machine regs slot
    simp only [registerTarget_eq_ok] at hlast
    rw [hregs] at hlast
    rw [hmemsKeep (fun n => n.registers) fun _ _ => rfl]
    exact hlast
  · have hlast := applySeeds_holdsLast seedMemory_eq (fun n cell => n.memory.get cell)
      (fun n i v j => vector_get_set n.memory i j v) m mems cell
    simp only [cellTarget_eq_ok] at hlast
    rw [hregsKeep (fun n => n.memory) fun _ _ => rfl] at hlast
    exact hlast
  · have huntouched : untouched (applySeeds seedMemory m mems).1 = untouched e.machine :=
      (hmemsKeep untouched fun _ _ => rfl).trans (hregsKeep untouched fun _ _ => rfl)
    simp only [untouched, Prod.mk.injEq] at huntouched
    obtain ⟨htape, hlabels, hpc, hticks, hverbose⟩ := huntouched
    simp only [← htape, ← hlabels, ← hpc, ← hticks, ← hverbose]

/-- Seeds apply one by one: every register and every cell holds the value of the last seed that sets
it, and nothing else changes. A seed sets a register or a cell exactly if it succeeds on its own; one
that fails makes no difference to the others, wherever it stands. The errors are those that the failing
seeds give on their own, register seeds first, in order, so there are none exactly if all succeed. -/
theorem seeds_apply_and_report (e : Emulator) (regs mems : List Text) :
    Seeded e regs mems (e.seed regs mems).1 ∧
      (∀ seed, (∃ m, seedRegister e.machine seed = .ok m) ↔
        ∃ slot value, Assigns (NamesRegister slot) seed value) ∧
      (∀ seed, (∃ m, seedMemory e.machine seed = .ok m) ↔
        ∃ cell value, Assigns (NamesCell cell) seed value) ∧
      (∀ before seed after err, seedRegister e.machine seed = .error err →
        (e.seed (before ++ seed :: after) mems).1 = (e.seed (before ++ after) mems).1) ∧
      (∀ before seed after err, seedMemory e.machine seed = .error err →
        (e.seed regs (before ++ seed :: after)).1 = (e.seed regs (before ++ after)).1) ∧
      (e.seed regs mems).2 =
        (regs.filterMap fun seed => failure? (seedRegister e.machine seed)) ++
          mems.filterMap (fun seed => failure? (seedMemory e.machine seed)) ∧
      ((e.seed regs mems).2 = [] ↔
        (∀ seed ∈ regs, ∃ m, seedRegister e.machine seed = .ok m) ∧
          ∀ seed ∈ mems, ∃ m, seedMemory e.machine seed = .ok m) := by
  have herrors : (e.seed regs mems).2 =
      (regs.filterMap fun seed => failure? (seedRegister e.machine seed)) ++
        mems.filterMap (fun seed => failure? (seedMemory e.machine seed)) := by
    rw [← applySeeds_errors seedRegister_eq e.machine e.machine regs,
      ← applySeeds_errors seedMemory_eq (applySeeds seedRegister e.machine regs).1 e.machine mems]
    rfl
  refine ⟨seeded_seed e regs mems, fun _ => seedRegister_succeeds, fun _ => seedMemory_succeeds,
    fun before seed after err hfails => ?_, fun before seed after err hfails => ?_, herrors, ?_⟩
  · have hwithout := applySeeds_without seedRegister_eq hfails e.machine before after
    simp only [Emulator.seed, hwithout]
  · have hwithout := applySeeds_without seedMemory_eq hfails
      (applySeeds seedRegister e.machine regs).1 before after
    simp only [Emulator.seed, hwithout]
  · rw [herrors, List.append_eq_nil_iff, filterMap_failure?_eq_nil, filterMap_failure?_eq_nil]

/-- Register seeds in several spellings, with two that fail between them. -/
def mixedRegisterSeeds : List Text :=
  [text "r1=1", text "r12=1", text " r01 = 0x2 ", text "r1", text "r-0=-7"]

/-- Memory seeds in several spellings, with two that fail between them. -/
def mixedMemorySeeds : List Text := [text "3=4", text "9000=1", text "0x3=5", text "3=x"]

theorem mixedSeeds_apply_and_report :
    let e' := (Emulator.seed {} mixedRegisterSeeds mixedMemorySeeds).1
    Seeded {} mixedRegisterSeeds mixedMemorySeeds e' ∧
      e'.machine.reg ⟨1⟩ = 2 ∧ e'.machine.reg ⟨0⟩ = -7 ∧
      e'.machine.memory[3]? = some 5 ∧
      (Emulator.seed {} [text "r1=1", text " r01 = 0x2 ", text "r1", text "r-0=-7"]
        mixedMemorySeeds).1 = e' ∧
      (Emulator.seed {} mixedRegisterSeeds [text "3=4", text "0x3=5", text "3=x"]).1 = e' ∧
      (Emulator.seed {} mixedRegisterSeeds mixedMemorySeeds).2 =
        [.registerRange (text "r12=1"), .malformed (text "r1"), .address 9000,
          .malformed (text "3=x")] := by
  obtain ⟨hseeded, -, -, hregs, hmems, herrors, -⟩ :=
    seeds_apply_and_report {} mixedRegisterSeeds mixedMemorySeeds
  refine ⟨hseeded, rfl, rfl, rfl, ?_, ?_, ?_⟩
  · exact (hregs [text "r1=1"] (text "r12=1") _ (.registerRange (text "r12=1")) rfl).symm
  · exact (hmems [text "3=4"] (text "9000=1") _ (.address 9000) rfl).symm
  · rw [herrors]
    rfl

end Emulator

end TapeMachine
