import TapeMachine.Expression.Eval
import TapeMachine.Proofs.Interpreters
import TapeMachine.Proofs.Numerals

/-! Expressions of one part. A decimal numeral is one token, with a minus sign before it if it is
negative, and a name that is no keyword is one token too. So the numeral of a number gives this number
however large it is, and a name gives the number it is bound to, or no number at all. -/

namespace TapeMachine.Expression

open Text

theorem valueOfDigits_append_digit (ds : Text) {d : Nat} (h : d < 10) :
    valueOfDigits 10 (ds ++ [digitByte d]) = valueOfDigits 10 ds * 10 + d := by
  rw [valueOfDigits, List.foldl_append, List.foldl_cons, List.foldl_nil, digitValue?_digitByte h]
  rfl

theorem valueOfDigits_ofNat (n : Nat) : valueOfDigits 10 (ofNat n) = n := by
  induction n using Nat.strongRecOn with
  | ind n ih =>
      rcases Nat.lt_or_ge n 10 with hlt | hge
      · rw [ofNat_of_lt hlt, ← List.nil_append [digitByte n], valueOfDigits_append_digit [] hlt]
        exact Nat.zero_add n
      · rw [ofNat_of_ge hge, valueOfDigits_append_digit _ (Nat.mod_lt n (by decide)),
          ih (n / 10) (by omega)]
        omega

namespace Literal

theorem spanDigits_ofNat (n : Nat) (t : Text) (ht : (t.head?.bind digitValue?).isNone = true) :
    spanDigits 10 (ofNat n ++ t) = (ofNat n, t) := by
  have hdigit : ∀ b : UInt8, isDigit b = true → (digitValue? b).any (· < 10) = true :=
    forall_byte (by decide +kernel)
  have hall : ∀ b ∈ ofNat n, (digitValue? b).any (· < 10) = true :=
    fun b hb => hdigit b (isDigit_of_mem_ofNat b hb)
  rw [spanDigits, List.span_eq_takeWhile_dropWhile, List.takeWhile_append_of_pos hall,
    List.dropWhile_append_of_pos hall]
  cases t with
  | nil => rw [List.takeWhile_nil, List.dropWhile_nil, List.append_nil]
  | cons b t =>
      have hnone : digitValue? b = none := Option.isNone_iff_eq_none.1 ht
      rw [List.takeWhile_cons, List.dropWhile_cons, hnone]
      exact congrArg (·, b :: t) (List.append_nil _)

/-- The numeral of a number is read to the end of its line, however long it is. -/
theorem number?_ofNat (n : Nat) : number? (ofNat n ++ [10]) = some (.int n, [10]) := by
  rcases Nat.eq_zero_or_pos n with rfl | hpos
  · rfl
  · have hhead := head?_ofNat_ne_zero hpos
    have hdecimal : number? (ofNat n ++ [10]) = decimal? (ofNat n ++ [10]) := by
      unfold number?
      split
      · rename_i heq
        have hsame : (ofNat n ++ [10]).head? = (ofNat n).head? :=
          List.head?_append_of_ne_nil _ (ofNat_ne_nil n)
        rw [heq] at hsame
        exact absurd hsame.symm hhead
      · rfl
    have hwhole : ¬(((ofNat n).head? = some (byte '0') && (ofNat n).any (· ≠ byte '0')) = true) := by
      rw [Bool.and_eq_true, decide_eq_true_iff]
      exact fun hboth => hhead hboth.1
    rw [hdecimal, decimal?, spanDigits_ofNat n [10] rfl]
    change whole? (ofNat n) [10] = _
    rw [whole?, if_neg hwhole, valueOfDigits_ofNat]

theorem opening?_eq_none {t : Text} (h : ∀ b ∈ t, isQuote b = false) : opening? t = none := by
  unfold opening?
  split
  all_goals first
    | rfl
    | exact if_neg (by rw [h _ (by simp)]; exact Bool.false_ne_true)

end Literal

namespace Token

/-- A byte that a token may start with. -/
def startsToken (b : UInt8) : Bool :=
  !(b = 0 || b = byte ' ' || b = 9 || b = byte '#' || b = 10 || b = byte '\\')

/-- The layout inside of a line that is not nested. -/
def onLine : Layout := { start := false }

/-- One token of a line, which opens and closes no bracket. -/
theorem scan?_token {b : UInt8} {t left : Text} {tok : Token} (fuel : Nat) (hb : startsToken b = true)
    (hfirst : first? b t = some (tok, left)) (hdepth : depthAfter? 0 tok = some 0) :
    scan? (fuel + 1) onLine (b :: t) = (scan? fuel onLine left).map (tok :: ·) := by
  simp only [startsToken, Bool.not_eq_true', Bool.or_eq_false_iff, decide_eq_false_iff_not] at hb
  obtain ⟨⟨⟨⟨⟨hzero, hspace⟩, htab⟩, hcomment⟩, hfeed⟩, hslash⟩ := hb
  simp [scan?, onLine, hzero, hspace, htab, hcomment, hfeed, hslash, hfirst, hdepth]

theorem scan?_lineEnd (fuel : Nat) : scan? (fuel + 3) onLine [10] = some [.lineEnd] := rfl

theorem first?_assign {b : UInt8} (t : Text) (hb : b ≠ byte '=') :
    first? (byte '=') (b :: t) = some (.symbol .assign, b :: t) := by
  have hmark : mark? (0x3D :: b :: t) = some (.assign, b :: t) := by
    rw [mark?]
    intro rest heq
    exact hb (List.cons.inj heq).1
  change (mark? (0x3D :: b :: t)).map (fun r => (Token.symbol r.1, r.2)) = _
  rw [hmark, Option.map_some]

/-- The tokens of an assignment to the result name. -/
theorem scan?_assignment {b : UInt8} (t : Text) (fuel : Nat) (hb : b ≠ byte '=') :
    scan? (fuel + 3) {} (resultName ++ byte '=' :: b :: t) =
      (scan? fuel onLine (b :: t)).map fun ts => .name resultName :: .symbol .assign :: ts := by
  have hresult : first? (byte 'r') (byte 'c' :: byte '=' :: b :: t) =
      some (.name resultName, byte '=' :: b :: t) := rfl
  change (scan? (fuel + 2) onLine (byte 'r' :: byte 'c' :: byte '=' :: b :: t)).map ([] ++ ·) = _
  rw [scan?_token (fuel + 1) rfl hresult rfl, scan?_token fuel rfl (first?_assign t hb) rfl,
    Option.map_map, Option.map_map]
  rfl

theorem unixLines_eq_self {t : Text} (h : 13 ∉ t) : unixLines t = t := by
  induction t with
  | nil => rfl
  | cons b t ih =>
      rw [List.mem_cons, not_or] at h
      rw [unixLines, ih h.2]
      · exact fun _ heq => absurd heq.symm h.1
      · exact fun heq => absurd heq.symm h.1

/-- The tokens of an expression that is a line by itself, behind those of the assignment. -/
theorem tokens?_assignment {b : UInt8} {t : Text} {ts : List Token} (hb : b ≠ byte '=')
    (hrepaired : repaired (b :: t ++ [10]) = b :: t ++ [10]) (hreturn : 13 ∉ b :: t)
    (hscan : ∀ fuel, scan? (fuel + 5) onLine (b :: t ++ [10]) = some ts) :
    tokens? (assignment (b :: t)) = some (.name resultName :: .symbol .assign :: ts) := by
  have hassignment : assignment (b :: t) = (resultName ++ [byte '=']) ++ (b :: t ++ [10]) := rfl
  have hsame : unixLines (repaired (assignment (b :: t))) = assignment (b :: t) := by
    rw [hassignment, repaired_append_of_ascii (by decide), hrepaired, unixLines_eq_self]
    simp only [List.mem_append, not_or]
    exact ⟨by decide, hreturn, by decide⟩
  have hfuel : 2 * (assignment (b :: t)).length + 2 = (2 * t.length + 4 + 5) + 3 := by
    rw [hassignment]
    simp only [List.length_append, List.length_cons, List.length_nil, resultName]
    change 2 * (2 + 1 + (t.length + 1 + 1)) + 2 = _
    omega
  rw [tokens?, hsame, hfuel, hassignment]
  change scan? _ {} (resultName ++ byte '=' :: b :: (t ++ [10])) = _
  rw [scan?_assignment _ _ hb]
  exact congrArg (Option.map _) (hscan (2 * t.length + 4))

theorem startsToken_of_name : ∀ b : UInt8, isNameByte b = true ∨ ¬b < 0x80 →
    startsToken b = true ∧ b ≠ byte '=' ∧ b ≠ byte '.' ∧ Literal.isQuote b = false ∧ b ≠ 13 :=
  forall_byte (by decide +kernel)

/-- A word of the language, which cannot name a number. -/
def isReserved (x : Text) : Bool := (keywords.lookup x).isSome || reservedWords.contains x

theorem ofWord_of_not_isReserved {x : Text} (h : isReserved x = false) : ofWord x = .name x := by
  rw [isReserved, Bool.or_eq_false_iff, Option.isSome_eq_false_iff, Option.isNone_iff_eq_none] at h
  rw [ofWord, h.1]
  exact if_neg (by rw [h.2]; exact Bool.false_ne_true)

theorem tokens?_name {x : Text} (h : isName unicodeLetters x = true) (hfree : isReserved x = false) :
    tokens? (assignment x) = some [.name resultName, .symbol .assign, .name x, .lineEnd] := by
  have hbytes := fun c hc => startsToken_of_name c ((isNameTail_of_isName h).bytes c hc)
  have hleading : leadingName (x ++ [10]) = x := leadingName_append h rfl
  have hopening : Literal.opening? (x ++ [10]) = none := by
    refine Literal.opening?_eq_none fun c hc => ?_
    rcases List.mem_append.1 hc with hc | hc
    · exact (hbytes c hc).2.2.2.1
    · rw [List.mem_singleton.1 hc]
      rfl
  have hrepaired : repaired (x ++ [10]) = x ++ [10] := (isNameTail_of_isName h).repaired_append [10]
  have hreturn : 13 ∉ x := fun hc => (hbytes 13 hc).2.2.2.2 rfl
  obtain ⟨b, t, rfl⟩ := List.exists_cons_of_ne_nil (unbroken_of_isName h).ne_nil
  obtain ⟨hstarts, hassign, hpoint, -, -⟩ := hbytes b List.mem_cons_self
  have hfirst : first? b (t ++ [10]) = some (.name (b :: t), [10]) := by
    have hnumber : ¬((isDigit b || (b = byte '.' && (t ++ [10]).head?.any isDigit)) = true) := by
      rw [not_isDigit_of_isName h, decide_eq_false hpoint]
      exact Bool.false_ne_true
    rw [List.cons_append] at hleading hopening
    rw [first?, if_neg hnumber, hopening, hleading]
    change some (ofWord (b :: t), ((b :: t) ++ [10]).drop (b :: t).length) = _
    rw [ofWord_of_not_isReserved hfree, List.drop_left]
  have hscan : ∀ fuel, scan? (fuel + 5) onLine (b :: t ++ [10]) = some [.name (b :: t), .lineEnd] := by
    intro fuel
    rw [List.cons_append, scan?_token (fuel + 4) hstarts hfirst rfl, scan?_lineEnd (fuel + 1),
      Option.map_some]
  exact tokens?_assignment hassign hrepaired hreturn hscan

theorem startsToken_of_isDigit : ∀ b : UInt8, isDigit b = true →
    startsToken b = true ∧ b ≠ byte '=' ∧ b < 0x80 ∧ b ≠ 13 :=
  forall_byte (by decide +kernel)

theorem repaired_ofNat (n : Nat) : repaired (ofNat n ++ [10]) = ofNat n ++ [10] := by
  refine repaired_append_of_ascii (List.all_eq_true.2 fun b hb => decide_eq_true ?_) [10]
  exact (startsToken_of_isDigit b (isDigit_of_mem_ofNat b hb)).2.2.1

theorem scan?_ofNat (n fuel : Nat) : scan? (fuel + 4) onLine (ofNat n ++ [10]) = some [.int n, .lineEnd] := by
  have hnumber := Literal.number?_ofNat n
  have hdigits : ∀ b ∈ ofNat n, isDigit b = true := isDigit_of_mem_ofNat
  obtain ⟨b, t, heq⟩ := List.exists_cons_of_ne_nil (ofNat_ne_nil n)
  rw [heq] at hnumber hdigits ⊢
  have hb := hdigits b List.mem_cons_self
  have hfirst : first? b (t ++ [10]) = some (.int n, [10]) := by
    rw [first?, hb, Bool.true_or, if_pos rfl]
    exact congrArg (Option.map _) hnumber
  rw [List.cons_append, scan?_token (fuel + 3) (startsToken_of_isDigit b hb).1 hfirst rfl,
    scan?_lineEnd fuel, Option.map_some]

theorem tokens?_ofNat (n : Nat) :
    tokens? (assignment (ofNat n)) = some [.name resultName, .symbol .assign, .int n, .lineEnd] := by
  have hrepaired := repaired_ofNat n
  have hscan := fun fuel => scan?_ofNat n (fuel + 1)
  have hdigits : ∀ b ∈ ofNat n, isDigit b = true := isDigit_of_mem_ofNat
  obtain ⟨b, t, heq⟩ := List.exists_cons_of_ne_nil (ofNat_ne_nil n)
  rw [heq] at hrepaired hscan hdigits ⊢
  have hbytes := fun c hc => startsToken_of_isDigit c (hdigits c hc)
  exact tokens?_assignment (hbytes b List.mem_cons_self).2.1 hrepaired (fun hc => (hbytes 13 hc).2.2.2 rfl)
    hscan

theorem first?_minus {b : UInt8} (t : Text) (hb : b ≠ byte '=') :
    first? (byte '-') (b :: t) = some (.symbol .minus, b :: t) := by
  have hstars : ¬([0x2A, 0x2A].isPrefixOf (byte '-' :: b :: t) = true) := nofun
  change symbol? (byte '-' :: b :: t) = _
  rw [symbol?, if_neg hstars, show operator? (byte '-' :: b :: t) = some (.minus, b :: t) from rfl]
  split
  · rename_i heq
    cases heq
    exact absurd rfl hb
  · rename_i heq
    cases heq
    rfl
  · rename_i heq
    cases heq

theorem tokens?_minus (n : Nat) :
    tokens? (assignment (byte '-' :: ofNat n)) =
      some [.name resultName, .symbol .assign, .symbol .minus, .int n, .lineEnd] := by
  have hfirst : first? (byte '-') (ofNat n ++ [10]) = some (.symbol .minus, ofNat n ++ [10]) := by
    have hdigits : ∀ b ∈ ofNat n, isDigit b = true := isDigit_of_mem_ofNat
    obtain ⟨b, t, heq⟩ := List.exists_cons_of_ne_nil (ofNat_ne_nil n)
    rw [heq] at hdigits ⊢
    exact first?_minus _ (startsToken_of_isDigit b (hdigits b List.mem_cons_self)).2.1
  have hrepaired : repaired (byte '-' :: ofNat n ++ [10]) = byte '-' :: ofNat n ++ [10] := by
    have hsign := repaired_append_of_ascii (x := [byte '-']) (by decide) (ofNat n ++ [10])
    rwa [repaired_ofNat] at hsign
  have hreturn : 13 ∉ byte '-' :: ofNat n :=
    List.not_mem_cons_of_ne_of_not_mem (by decide) (not_mem_ofNat (by decide) n)
  have hscan : ∀ fuel, scan? (fuel + 5) onLine (byte '-' :: ofNat n ++ [10]) =
      some [.symbol .minus, .int n, .lineEnd] := by
    intro fuel
    rw [List.cons_append, scan?_token (fuel + 4) rfl hfirst rfl, scan?_ofNat n fuel, Option.map_some]
  exact tokens?_assignment (by decide) hrepaired hreturn hscan

end Token

/-! ### Values -/

/-- The script of an expression that needs no variables of its own. -/
def resultScript (e : Expr Slot) : Script := ⟨[.assign (.name ⟨0, 0⟩) e], 1, [(resultName, 0)], false⟩

/-- The names in force in the script of an expression. -/
def resultScope (numbers : Numbers) : Scope := ⟨numbers, [[(resultName, 0)]]⟩

theorem Script.of?_assign {numbers : Numbers} {fuel : Nat} {e : Expr Text} {r : Option (Expr Slot)}
    (h : (Scope.expr (fuel + 1) (resultScope numbers) e).run { slots := 1 } = r.map (·, { slots := 1 })) :
    Script.of? (fuel + 2) numbers [.assign (.name resultName) e] = r.map resultScript := by
  have hnames : [Statement.assign (.name resultName) e].flatMap (Statement.names (fuel + 2)) =
      [resultName] := rfl
  have hbind : (Scope.bind ⟨numbers, [[]]⟩ [resultName]).run {} =
      some (resultScope numbers, { slots := 1 }) := rfl
  have htarget : (Scope.target (fuel + 1) (resultScope numbers) (.name resultName)).run { slots := 1 } =
      some (.name ⟨0, 0⟩, { slots := 1 }) := rfl
  have hstatement : (Scope.statement (fuel + 2) (resultScope numbers) {} (.assign (.name resultName) e)).run
      { slots := 1 } = r.map fun e => (.assign (.name ⟨0, 0⟩) e, { slots := 1 }) := by
    cases r <;> simp [Scope.statement, h, htarget]
  have honce : [resultName].eraseDups = [resultName] := rfl
  rw [Script.of?, hnames]
  dsimp only
  rw [hbind, honce]
  cases r with
  | none => simp [hstatement]
  | some e =>
      simp [hstatement]
      rfl

theorem resultOf_interpret {numbers : Numbers} {t : Text} {fuel : Nat} {p : Script}
    {fs : Frames} {s : Store} {v : Value} (hscript : script? numbers (assignment t) = some (fuel, p))
    (hrun : p.run fuel {} = (.done fs, s)) (hvalue : p.valueOf? s fs resultName = some v) :
    resultOf interpret numbers t = .done (some v.global) := by
  simp only [resultOf, interpret, hscript, hrun, Outcome.map, hvalue, Option.map_some]

theorem script?_of_tokens (numbers : Numbers) {t : Text} {ts : List Token} {ss : List (Statement Text)}
    (htokens : Token.tokens? t = some ts) (hparse : parse? ts = some ss) :
    script? numbers t = (Script.of? (parseFuel ts) numbers ss).map (parseFuel ts, ·) := by
  rw [script?, htokens]
  simp only [Option.bind_eq_bind, Option.bind_some, hparse, Option.pure_def]
  cases Script.of? (parseFuel ts) numbers ss <;> rfl

theorem script?_ofNat (numbers : Numbers) (n : Nat) :
    script? numbers (assignment (ofNat n)) = some (160, resultScript (.constant (.int n))) := by
  have hparse : parse? [.name resultName, .symbol .assign, .int n, .lineEnd] =
      some [.assign (.name resultName) (.constant (.int n))] := rfl
  have hexpr : (Scope.expr 159 (resultScope numbers) (.constant (.int n))).run { slots := 1 } =
      (some (Expr.constant (.int n))).map (·, { slots := 1 }) := rfl
  rw [script?_of_tokens numbers (Token.tokens?_ofNat n) hparse]
  exact congrArg (Option.map _) (Script.of?_assign hexpr)

theorem script?_minus (numbers : Numbers) (n : Nat) :
    script? numbers (assignment (byte '-' :: ofNat n)) =
      some (192, resultScript (.unary .minus (.constant (.int n)))) := by
  have hparse : parse? [.name resultName, .symbol .assign, .symbol .minus, .int n, .lineEnd] =
      some [.assign (.name resultName) (.unary .minus (.constant (.int n)))] := rfl
  have hexpr : (Scope.expr 191 (resultScope numbers) (.unary .minus (.constant (.int n)))).run
      { slots := 1 } = (some (Expr.unary .minus (.constant (.int n)))).map (·, { slots := 1 }) := rfl
  rw [script?_of_tokens numbers (Token.tokens?_minus n) hparse]
  exact congrArg (Option.map _) (Script.of?_assign hexpr)

/-- The numeral of a number gives the number, of whatever size. -/
theorem resultOf_ofInt (numbers : Numbers) (v : Int) :
    resultOf interpret numbers (ofInt v) = .done (some (.integer v)) := by
  rw [ofInt, signed]
  by_cases hneg : v < 0
  · rw [if_pos hneg, resultOf_interpret (script?_minus numbers v.natAbs) rfl rfl]
    change Outcome.done (some (Global.integer (-(v.natAbs : Int)))) = _
    rw [Int.ofNat_natAbs_of_nonpos (Int.le_of_lt hneg), Int.neg_neg]
  · rw [if_neg hneg, resultOf_interpret (script?_ofNat numbers v.natAbs) rfl rfl]
    change Outcome.done (some (Global.integer (v.natAbs : Int))) = _
    rw [Int.natAbs_of_nonneg (Int.not_lt.1 hneg)]

theorem script?_name (numbers : Numbers) {x : Text} (h : isName unicodeLetters x = true)
    (hfree : Token.isReserved x = false) (hne : x ≠ resultName) :
    script? numbers (assignment x) =
      ((resultScope numbers).constant? x).map fun c => (160, resultScript (.constant c)) := by
  have hslot : (resultScope numbers).slot? x = none := by
    rw [Scope.slot?, resultScope, Scope.slotFrom?, List.lookup_cons, beq_eq_false_iff_ne.2 hne]
    rfl
  have hexpr : (Scope.expr 159 (resultScope numbers) (.name x)).run { slots := 1 } =
      (((resultScope numbers).constant? x).map Expr.constant).map (·, { slots := 1 }) := by
    rw [Scope.expr, hslot]
    rcases (resultScope numbers).constant? x with _ | c <;> rfl
  have hparse : parse? [.name resultName, .symbol .assign, .name x, .lineEnd] =
      some [.assign (.name resultName) (.name x)] := rfl
  rw [script?_of_tokens numbers (Token.tokens?_name h hfree) hparse]
  refine (congrArg (Option.map _) (Script.of?_assign hexpr)).trans ?_
  rw [Option.map_map, Option.map_map]
  rfl

/-- No name of the language stands for a number. -/
theorem global_of_named {x : Text} {c : Constant} (h : Constant.named? x = some c) :
    (Value.ofConstant c).global = .other := by
  rw [Constant.named?] at h
  split_ifs at h
  · cases h
    rfl
  · cases h
    rfl
  · cases h
    rfl
  · obtain ⟨f, -, rfl⟩ := Option.map_eq_some_iff.1 h
    rfl

theorem readsNumbers_interpret :
    ReadsNumbers interpret unicodeLetters Token.isReserved where
  numeral := resultOf_ofInt
  bound := by
    intro numbers x n hname hfree hne hget
    have hscript := script?_name numbers hname hfree hne
    simp only [Scope.constant?, resultScope, hget] at hscript
    exact resultOf_interpret hscript rfl rfl
  unbound := by
    intro numbers x hname hfree hne hget
    have hscript := script?_name numbers hname hfree hne
    simp only [Scope.constant?, resultScope, hget] at hscript
    cases hnamed : Constant.named? x with
    | none =>
        rw [hnamed, Option.map_none] at hscript
        exact .inl (by rw [resultOf, interpret, hscript]; rfl)
    | some c =>
        rw [hnamed, Option.map_some] at hscript
        refine .inr ?_
        rw [resultOf_interpret hscript rfl rfl, global_of_named hnamed]

end TapeMachine.Expression
