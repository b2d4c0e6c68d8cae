import CircuitWorks.Proofs.Circuit.Readings
import CircuitWorks.Proofs.Qasm.Faithful

/-! Comparisons and range predicates on their way into a program, and when they keep their meaning. -/

namespace CircuitWorks.Logic

def RegBinary.Compares : RegBinary → Int → Int → Prop
  | .eq, x, y => x = y
  | .neq, x, y => x ≠ y
  | .lt, x, y => x < y
  | .gt, x, y => y < x
  | .leq, x, y => x ≤ y
  | .geq, x, y => y ≤ x
  | .and, _, _ | .or, _, _ | .xor, _, _ => False

lemma RegBinary.holds_iff_compares {op : RegBinary}
    (comparison : Term.RegBinary.isComparison op = true) (x : Int) (v : Constant) :
    op.Holds x v ↔ op.Compares x v.toInt := by
  cases op with
  | and | or | xor => cases comparison
  | neq => exact (falsity_ne_zero _).trans decide_eq_false_iff_not
  | eq | lt | gt | leq | geq => exact (truth_ne_zero _).trans decide_eq_true_iff

end CircuitWorks.Logic

namespace CircuitWorks.Qasm

section

open Logic Condition

section

variable {op : RegBinary} {comparator : Comparator} {bound : Int}

def Comparator.under (value : Nat) (comparator : Comparator) : Comparator :=
  if value = 0 ∧ comparator = .eq then .neq else comparator

lemma bounds_one_sided (comparison : Term.RegBinary.isComparison op = true) (value : Int) :
    (bounds op value).1 = (bounds op value).2 ∨ (bounds op value).1 = 0 ∨ (bounds op value).2 = greatest := by
  cases op with
  | and | or | xor => cases comparison
  | eq | neq => exact .inl rfl
  | lt | leq => exact .inr (.inl rfl)
  | gt | geq => exact .inr (.inr rfl)

lemma rangeTest_ok {lower upper : Int} (oneSided : lower = upper ∨ lower = 0 ∨ upper = greatest) :
    ∃ comparator bound, rangeTest lower upper = .ok (comparator, bound) := by
  unfold rangeTest
  split_ifs with same zero top
  · exact ⟨_, _, rfl⟩
  · exact ⟨_, _, rfl⟩
  · exact ⟨_, _, rfl⟩
  · rcases oneSided with eq | eq | eq
    · exact absurd eq same
    · exact absurd eq zero
    · exact absurd eq top

lemma rangeTest_mem {lower upper : Int} (read : rangeTest lower upper = .ok (comparator, bound))
    (nonneg : 0 ≤ x) (small : x ≤ greatest) :
    comparator.holds x bound = decide (lower ≤ x ∧ x ≤ upper) ∧ (comparator = .eq ↔ lower = upper) := by
  have top : greatest = 4294967295 := rfl
  unfold rangeTest at read
  split_ifs at read with same zero last
  all_goals
    cases read
    refine ⟨?_, by simpa using same⟩
    rw [Comparator.holds, decide_eq_decide]
    omega

lemma under_holds (comparison : Term.RegBinary.isComparison op = true) (v : Constant)
    (read : rangeTest (bounds op v.toInt).1 (bounds op v.toInt).2 = .ok (comparator, bound))
    (nonneg : 0 ≤ x) (small : x ≤ greatest) :
    (comparator.under (boundsValue op).toNat).holds x bound = true ↔ op.Holds x v := by
  obtain ⟨inside, equation⟩ := rangeTest_mem read nonneg small
  rw [← bounds_holds comparison v nonneg small, ← inside]
  cases value : boundsValue op with
  | true => rfl
  | false =>
    -- only an inequation asks for the other value, and its bounds coincide
    obtain rfl : op = .neq := of_not_not (of_decide_eq_false value)
    obtain rfl : comparator = .eq := equation.mpr rfl
    change decide (x ≠ bound) = true ↔ decide (x = bound) = false
    rw [decide_eq_true_iff, decide_eq_false_iff_not]

end

section

variable {c d : Circuit} {op : RegBinary} {e : RegExp} {v : Constant} {g : Op} {args : List UnitId}

lemma addOp_comparison
    (done : (addOp g args { exp := some (.reg (.binary op e (.const v))) }).run c = (.ok (), d)) :
    InRange op v.toInt ∧ ∃ before source bit, (∀ r, e = .var r → source = r.bits) ∧
    d.commands = before ++ [⟨.range (bounds op v.toInt).1.toNat (bounds op v.toInt).2.toNat source.length,
    source ++ [bit]⟩, ⟨.conditional 1 (boundsValue op).toNat g, bit :: args⟩] := by
  obtain ⟨⟨bit, value⟩, f, compared, done⟩ := run_bind_eq_ok.mp done
  obtain _ | _ | @⟨_, _, _, _, _, h, _, _, source, _, _, selects, ranged⟩ := (leads_add _ c).of_ok compared
  obtain ⟨inRange, rfl⟩ := addRange_inRange ranged
  obtain ⟨n, _, rfl, number⟩ := Decompose.addConditional_eq_ok (run_step_eq_ok.mp done)
  have digit : n = (boundsValue op).toNat := by
    rw [number _ rfl]
    cases boundsValue op <;> rfl
  refine ⟨inRange, h.commands, source, bit, ?_, ?_⟩
  · rintro r rfl
    cases selects with
    | register => rfl
    | box node => cases node
  · rw [← digit]
    exact List.append_assoc _ _ _

lemma statements_pending (ctx : Context) (pending : List (UnitId × Nat × Nat × List UnitId))
    (g : Op) (args : List UnitId) : statements { ctx with pending := pending } g args = statements ctx g args := by
  cases g <;> rfl

lemma allLines_range {ctx : Context} (extended : ctx.header = "hqslib1") {lower upper : Nat}
    {source : List UnitId} {bit : UnitId} {value : Bool} {comparator : Comparator} {bound : Int}
    (read : rangeTest lower upper = .ok (comparator, bound)) {first : Statement}
    {rest : List Statement} (written : statements ctx g args = .ok (first :: rest)) :
    allLines ctx [⟨.range lower upper source.length, source ++ [bit]⟩, ⟨.conditional 1 value.toNat g, bit :: args⟩] =
    .ok (⟨some ⟨.register (source.headD bit).register, comparator.under value.toNat, bound⟩, first⟩ ::
    rest.map (⟨none, ·⟩)) := by
  let waiting : Context :=
    { ctx with pending := (bit, lower, upper, source) :: ctx.pending.filter (·.1 ≠ bit) }
  let after : Context := { waiting with pending := waiting.pending.filter (·.1 ≠ bit) }
  have range : commandLines ctx ⟨.range lower upper source.length, source ++ [bit]⟩ =
      .ok ([], waiting) := by
    simp only [commandLines, List.getLast?_append, List.getLast?_singleton, Option.some_or,
      List.dropLast_concat]
    rfl
  have found : waiting.pending.lookup bit = some (lower, upper, source) := by simp [waiting]
  have wide : after.extended = true := by simp [after, waiting, Context.extended, extended]
  have digit : ¬(1 ≠ 1 ∨ 1 < value.toNat) := by cases value <;> decide
  have tested : conditionTest waiting 1 value.toNat [bit] =
      .ok (⟨.register (source.headD bit).register, comparator.under value.toNat, bound⟩, after) := by
    unfold conditionTest
    dsimp only
    rw [found]
    dsimp only
    rw [read]
    change (if after.extended = true then _ else _) = _
    rw [if_pos wide, if_neg digit]
    rfl
  have same : statements after g args = .ok (first :: rest) := by
    rw [← written]
    exact statements_pending ctx _ g args
  have conditional : commandLines waiting ⟨.conditional 1 value.toNat g, bit :: args⟩ =
      .ok (⟨some ⟨.register (source.headD bit).register, comparator.under value.toNat, bound⟩, first⟩ ::
        rest.map (⟨none, ·⟩), after) := by
    refine bind_eq_ok.mpr ⟨_, tested, ?_⟩
    exact bind_eq_ok.mpr ⟨_, same, rfl⟩
  refine bind_eq_ok.mpr ⟨_, range, bind_eq_ok.mpr ⟨_, ?_, rfl⟩⟩
  refine bind_eq_ok.mpr ⟨_, conditional, bind_eq_ok.mpr ⟨[], rfl, ?_⟩⟩
  exact congrArg Except.ok (List.append_nil _)

end

/-- A comparison, the range that it sets, and the test that is written for the range hold of the same
numbers of 32 bits. -/
theorem comparison_encodings {op : RegBinary} (comparison : Term.RegBinary.isComparison op = true)
    (v : Constant) :
    (∃ comparator bound,
      rangeTest (bounds op v.toInt).1 (bounds op v.toInt).2 = .ok (comparator, bound) ∧
      ∀ x : Int, 0 ≤ x → x < 2 ^ 32 →
        (op.Holds x v ↔ op.Compares x v.toInt) ∧
        (decide ((bounds op v.toInt).1 ≤ x ∧ x ≤ (bounds op v.toInt).2) = boundsValue op ↔
          op.Compares x v.toInt) ∧
        ((comparator.under (boundsValue op).toNat).holds x bound = true ↔ op.Compares x v.toInt)) ∧
    ∀ (c d : Circuit) (e : RegExp) (g : Op) (args : List UnitId),
      (Condition.addOp g args { exp := some (.reg (.binary op e (.const v))) }).run c = (.ok (), d) →
      ∃ before range gate source bit, d.commands = before ++ [range, gate] ∧
        range = ⟨.range (bounds op v.toInt).1.toNat (bounds op v.toInt).2.toNat source.length,
          source ++ [bit]⟩ ∧
        gate = ⟨.conditional 1 (boundsValue op).toNat g, bit :: args⟩ ∧
        (∀ r, e = .var r → source = r.bits) ∧
        ∀ ctx first rest, ctx.header = "hqslib1" → statements ctx g args = .ok (first :: rest) →
          ∃ test, allLines ctx [range, gate] = .ok (⟨some test, first⟩ :: rest.map (⟨none, ·⟩)) ∧
            test.subject = .register (source.headD bit).register ∧
            ∀ x : Nat, x < 2 ^ 32 →
              (test.comparator.holds x test.value = true ↔ op.Compares x v.toInt) := by
  obtain ⟨comparator, bound, read⟩ := rangeTest_ok (bounds_one_sided comparison v.toInt)
  have top : greatest = 2 ^ 32 - 1 := rfl
  have printed (x : Int) (nonneg : 0 ≤ x) (small : x < 2 ^ 32) :
      (comparator.under (boundsValue op).toNat).holds x bound = true ↔ op.Compares x v.toInt :=
    (under_holds comparison v read nonneg (by omega)).trans
      (RegBinary.holds_iff_compares comparison x v)
  constructor
  · refine ⟨comparator, bound, read, fun x nonneg small => ⟨?_, ?_, printed x nonneg small⟩⟩
    · exact RegBinary.holds_iff_compares comparison x v
    · exact (Condition.bounds_holds comparison v nonneg (by omega)).trans
        (RegBinary.holds_iff_compares comparison x v)
  · intro c d e g args done
    obtain ⟨inRange, before, source, bit, whole, commands⟩ := addOp_comparison done
    refine ⟨before, _, _, source, bit, commands, rfl, rfl, whole, ?_⟩
    intro ctx first rest extended written
    obtain ⟨lower, _, upper, _⟩ := inRange
    -- the bounds that reach the circuit are those that were computed
    rw [← Int.toNat_of_nonneg lower, ← Int.toNat_of_nonneg upper] at read
    exact ⟨_, allLines_range extended read written, rfl,
      fun x small => printed x (Int.natCast_nonneg x) (by exact_mod_cast small)⟩

/-- An inequation of a register of two bits. -/
theorem comparison_encodings_neq :
    let d := ((Condition.addOp (.gate .x []) [.qubit 0]
      { exp := some (.reg (.binary .neq (.var ⟨"c", 2⟩) (.const (.int 3)))) }).run
        (Circuit.blank 1 2)).2
    Term.RegBinary.isComparison .neq = true ∧ ∃ before range gate test first,
      d.commands = before ++ [range, gate] ∧
      allLines ⟨"hqslib1", [⟨"c", 2⟩], []⟩ [range, gate] = .ok [⟨some test, first⟩] ∧
      test.subject = .register "c" ∧
      ∀ x : Nat, x < 2 ^ 32 → (test.comparator.holds x test.value = true ↔ (x : Int) ≠ 3) := by
  intro d
  have done : (Condition.addOp (.gate .x []) [.qubit 0]
      { exp := some (.reg (.binary .neq (.var ⟨"c", 2⟩) (.const (.int 3)))) }).run
        (Circuit.blank 1 2) = (.ok (), d) := rfl
  obtain ⟨before, range, gate, source, bit, commands, _, _, whole, lines⟩ :=
    (@comparison_encodings .neq rfl (.int 3)).2 _ _ _ _ _ done
  obtain ⟨test, written, subject, holds⟩ :=
    lines ⟨"hqslib1", [⟨"c", 2⟩], []⟩ (.gate "x" none [.qubit 0]) [] rfl rfl
  refine ⟨rfl, before, range, gate, test, _, commands, written, ?_, holds⟩
  rw [subject, whole _ rfl]
  rfl

end

open List Execution Memory Program

variable {r : Register} {lower upper : Nat}

section

variable {ctx ctx' : Context} {value : Nat} {test : Test}

lemma toNat_injective {x y : Bool} (same : x.toNat = y.toNat) : x = y := by
  cases x <;> cases y <;> simp_all

lemma not_toNat_not (x : Bool) (small : n ≤ 1) : ¬((!x).toNat = n ↔ x.toNat = n) := by
  cases x <;> simp only [Bool.not_false, Bool.not_true, Bool.toNat_false, Bool.toNat_true] <;> omega

lemma number_clear (bits : List UnitId) : number (fun _ => false) bits = 0 := by
  induction bits with
  | nil => rfl
  | cons b rest ih => simp [number, ih]

lemma exists_unlike {bits : List UnitId} (outside : b ∉ bits) (lower upper : Nat)
    (small : n ≤ 1) : ∃ m : Memory, ¬((m b).toNat = n ↔
    (decide (lower ≤ m.number bits ∧ m.number bits ≤ upper)).toNat = n) := by
  let clear : Memory := fun _ => false
  let value := decide (lower ≤ clear.number bits ∧ clear.number bits ≤ upper)
  have same : (clear.write b !value).number bits = clear.number bits := by
    apply number_congr
    intro u mem
    exact write_of_ne _ _ fun own => outside (own ▸ mem)
  refine ⟨clear.write b !value, ?_⟩
  rw [write_same, same]
  exact not_toNat_not value small

/-- The test of a predicate on a whole register is right in every memory just if it need not be
negated, or is an equation. -/
lemma holds_range_iff (extended : ctx.header = "hqslib1") {control : UnitId}
    (waits : ctx.pending.lookup control = some (lower, upper, r.bits))
    (declared : registerBits ctx.cregs r.name = r.bits) (positive : 0 < r.size) (narrow : r.size ≤ 32)
    (printed : conditionTest ctx 1 value [control] = .ok (test, ctx')) : (∀ m : Memory, test.holds ctx.cregs m =
    decide ((decide (lower ≤ m.number r.bits ∧ m.number r.bits ≤ upper)).toNat = value)) ↔
    value = 1 ∨ lower = upper := by
  obtain ⟨_, small, first, _, same, form⟩ := conditionTest_eq_ok extended printed
  obtain ⟨rfl, _⟩ : control = first ∧ _ := cons.inj same
  rcases form with ⟨absent, _⟩ | ⟨low, high, source, comparator, bound, found, read, rfl, _⟩
  · rw [waits] at absent
    cases absent
  rw [waits] at found
  cases found
  have whole : registerBits ctx.cregs (r.bits.headD control).register = r.bits := by
    have named : (r.bits.headD control).register = r.name := by
      obtain ⟨name, size⟩ := r
      obtain ⟨n, rfl⟩ : ∃ n, size = n + 1 := ⟨size - 1, by dsimp only at positive; omega⟩
      simp [Register.bits, range_succ_eq_map]
    rw [named, declared]
  constructor
  · intro right
    by_contra wrong
    obtain ⟨other, proper⟩ := not_or.mp wrong
    obtain rfl : value = 0 := by omega
    have start := right fun _ => false
    obtain ⟨meaning, equation⟩ := @rangeTest_holds lower upper comparator bound read 0 (by omega)
    have kept : ¬(0 = 0 ∧ comparator = .eq) := by
      rintro ⟨_, same⟩
      exact proper (equation.mp same)
    rw [if_neg kept] at start
    simp only [Test.holds, Subject.bits, whole, number_clear] at start
    have flipped := meaning.symm.trans start
    revert flipped
    cases decide (lower ≤ 0 ∧ 0 ≤ upper) <;> decide
  · intro right m
    exact holds_range whole small right (.inr (by simpa [Register.bits] using narrow)) read rfl

def onBit (b : UnitId) (g : Nat × Op × List UnitId) : Command :=
  ⟨.conditional 1 g.1 g.2.1, b :: g.2.2⟩

def onPredicate (lower upper : Nat) (r : Register) (b : UnitId)
    (gates : List (Nat × Op × List UnitId)) : List Command :=
  ⟨.range lower upper r.size, r.bits ++ [b]⟩ :: gates.map (onBit b)

def IsSilent (op : Op) (args : List UnitId) : Prop :=
  ((∃ type params, op = .gate type params) ∨ ∃ signature, op = .barrier signature) ∧
    opOutputs op args = []

variable
  {gates : List (Nat × Op × List UnitId)} (outcome : Nat → Bool) {lines : List Line}

lemma observe_silent (s : Machine) (silent : ∀ g ∈ gates, IsSilent g.2.1 g.2.2) :
    observe firing outcome (gates.map (onBit b)) s = gates.map fun g => (decide ((s.memory b).toNat = g.1)).toNat := by
  induction gates generalizing s with
  | nil => rfl
  | cons g rest ih =>
    have memory : (perform outcome (onBit b g).op (onBit b g).args s).memory = s.memory := by
      obtain ⟨shape, none⟩ := silent g (by simp)
      simp only [onBit, perform]
      split_ifs
      · rw [drop_succ_cons, drop_zero, perform_gate outcome s shape, none]
        rfl
      · rfl
    have later := ih (perform outcome (onBit b g).op (onBit b g).args s)
      fun g mem => silent g (.tail _ mem)
    rw [memory] at later
    rw [map_cons, observe, later]
    simp [onBit, firing, number]

lemma silent_line (suits : Suits c ctx) (sits : Sits c (onBit b g)) (silent : IsSilent g.2.1 g.2.2)
    (printed : commandLines ctx (onBit b g) = .ok (lines, ctx')) :
    ∃ test st, conditionTest ctx 1 g.1 [b] = .ok (test, ctx') ∧ lines = [⟨some test, st⟩] ∧
    ∀ outcome t, (Line.perform ctx.cregs outcome t ⟨some test, st⟩).memory = t.memory := by
  obtain ⟨⟨test, next⟩, condition, printed⟩ := bind_eq_ok.mp printed
  obtain ⟨sts, written, printed⟩ := bind_eq_ok.mp printed
  have fits := sits.conditional
  rw [drop_succ_cons, drop_zero] at fits
  have plain : isLogic g.2.1 = false := by
    rcases silent.1 with ⟨_, _, shape⟩ | ⟨_, shape⟩ <;> rw [shape] <;> rfl
  rw [statements_eq_gateLine plain] at written
  obtain ⟨header, cregs⟩ : next.header = ctx.header ∧ next.cregs = ctx.cregs := by
    obtain ⟨_, _, _, _, _, form⟩ := conditionTest_eq_ok suits.header condition
    rcases form with ⟨_, _, rfl⟩ | ⟨_, _, _, _, _, _, _, _, rfl⟩ <;> exact ⟨rfl, rfl⟩
  have done (outcome : Nat → Bool) (t : Player) :
      (performAll ctx.cregs outcome sts t).memory = t.memory := by
    rw [← cregs, performAll_gate fits (suits.next header cregs) written, silent.2]
    rfl
  obtain ⟨st, rfl⟩ : ∃ st, sts = [st] := by
    rcases (gateLine_eq_ok written).2 with ⟨_, _, rfl⟩ | ⟨_, _, _, _, rfl⟩ <;> exact ⟨_, rfl⟩
  cases printed
  refine ⟨test, st, condition, rfl, ?_⟩
  intro outcome t
  rw [Line.perform]
  dsimp only
  split_ifs
  · exact done outcome t
  · rfl

lemma tests_silent (suits : Suits c ctx) (sits : ∀ g ∈ gates, Sits c (onBit b g))
    (silent : ∀ g ∈ gates, IsSilent g.2.1 g.2.2) (absent : ctx.pending.lookup b = none)
    (printed : allLines ctx (gates.map (onBit b)) = .ok lines) (t : Player) :
    testsAlong ctx.cregs outcome lines t = gates.map (fun g => (decide ((t.memory b).toNat = g.1)).toNat) ∧
    ∀ g ∈ gates, g.1 ≤ 1 := by
  induction gates generalizing t lines with
  | nil =>
    cases printed
    exact ⟨rfl, nofun⟩
  | cons g rest ih =>
    obtain ⟨⟨first, next⟩, written, printed⟩ := bind_eq_ok.mp printed
    obtain ⟨later, remaining, same⟩ := bind_eq_ok.mp printed
    cases same
    obtain ⟨test, st, condition, rfl, memory⟩ :=
      silent_line suits (sits g (by simp)) (silent g (by simp)) written
    obtain ⟨_, small, control, _, own, form⟩ := conditionTest_eq_ok suits.header condition
    obtain ⟨rfl, _⟩ : b = control ∧ _ := cons.inj own
    rcases form with ⟨_, rfl, rfl⟩ | ⟨_, _, _, _, _, found, _⟩
    · obtain ⟨tests, bounds⟩ := ih (fun g mem => sits g (.tail _ mem))
        (fun g mem => silent g (.tail _ mem)) remaining
        (Line.perform next.cregs outcome t ⟨some ⟨.bit b, .eq, g.1⟩, st⟩)
      rw [memory outcome t] at tests
      refine ⟨?_, forall_mem_cons.mpr ⟨small, bounds⟩⟩
      rw [singleton_append, testsAlong, tests, map_cons]
      simp [Test.holds, Comparator.holds, Subject.bits, number]
    · rw [absent] at found
      cases found

lemma commandLines_range (ctx : Context) (lower upper count : Nat) (source : List UnitId)
    (b : UnitId) : commandLines ctx ⟨.range lower upper count, source ++ [b]⟩ = .ok ([], { ctx with
    pending := (b, lower, upper, source) :: ctx.pending.filter (·.1 ≠ b) }) := by
  simp only [commandLines, getLast?_append, getLast?_singleton, Option.some_or, dropLast_concat]
  rfl

lemma tests_onPredicate (formed : IsFormed c)
    (commands : c.commands = onPredicate lower upper r b (g :: gates))
    (silent : ∀ h ∈ g :: gates, IsSilent h.2.1 h.2.2) (printed : ofCircuit c "hqslib1" = .ok p) :
    (∀ h ∈ gates, h.1 ≤ 1) ∧ ∃ ctx ctx' test, ctx.header = "hqslib1" ∧ ctx.cregs = p.cregs ∧
    ctx.pending.lookup b = some (lower, upper, r.bits) ∧ conditionTest ctx 1 g.1 [b] = .ok (test, ctx') ∧
    ∀ outcome m, p.tests outcome m = (test.holds p.cregs m).toNat ::
    gates.map fun h => (decide ((m b).toNat = h.1)).toNat := by
  have sits : ∀ h ∈ g :: gates, Sits c (onBit b h) := by
    intro h mem
    apply formed.sits
    rw [commands]
    exact .tail _ (mem_map_of_mem mem)
  obtain ⟨suits, written⟩ := ofCircuit_eq_ok formed printed
  rw [commands] at written
  let waiting : Context := ⟨"hqslib1", p.cregs, [(b, lower, upper, r.bits)]⟩
  have first : commandLines ⟨"hqslib1", p.cregs, []⟩ ⟨.range lower upper r.size, r.bits ++ [b]⟩ =
      .ok ([], waiting) := commandLines_range _ lower upper r.size r.bits b
  obtain ⟨⟨_, next⟩, range, written⟩ := bind_eq_ok.mp written
  rw [first] at range
  cases range
  obtain ⟨later, written, same⟩ := bind_eq_ok.mp written
  obtain ⟨⟨lines, next⟩, own, written⟩ := bind_eq_ok.mp written
  obtain ⟨rest, remaining, same'⟩ := bind_eq_ok.mp written
  cases same'
  have all : p.lines = lines ++ rest := (Except.ok.inj same).symm
  have waitingSuits : Suits c waiting := suits.next rfl rfl
  obtain ⟨test, st, condition, rfl, memory⟩ :=
    silent_line waitingSuits (sits g (by simp)) (silent g (by simp)) own
  have waits : waiting.pending.lookup b = some (lower, upper, r.bits) := by simp [waiting]
  obtain ⟨_, _, control, _, single, form⟩ := conditionTest_eq_ok rfl condition
  obtain ⟨rfl, _⟩ : b = control ∧ _ := cons.inj single
  rcases form with ⟨absent, _⟩ | ⟨_, _, _, _, _, _, _, _, rfl⟩
  · rw [waits] at absent
    cases absent
  have absent : (waiting.pending.filter (·.1 ≠ b)).lookup b = none := by rw [lookup_filter_ne, if_pos rfl]
  have forgotten : Suits c { waiting with pending := waiting.pending.filter (·.1 ≠ b) } :=
    waitingSuits.next rfl rfl
  have tail (outcome : Nat → Bool) (t : Player) := tests_silent outcome forgotten
    (fun h mem => sits h (.tail _ mem)) (fun h mem => silent h (.tail _ mem)) absent
    remaining t
  have bounds := (tail (fun _ => false) (.start fun _ => false)).2
  refine ⟨bounds, waiting, _, test, rfl, rfl, waits, condition, ?_⟩
  intro outcome m
  rw [tests, all, singleton_append, testsAlong, (tail outcome _).1, memory outcome]
  rfl

lemma observe_onPredicate (silent : ∀ g ∈ gates, IsSilent g.2.1 g.2.2) (m : Memory) :
    observe firing outcome (onPredicate lower upper r b gates) (.start m) = gates.map fun g =>
    (decide ((decide (lower ≤ m.number r.bits ∧ m.number r.bits ≤ upper)).toNat = g.1)).toNat := by
  have length : r.bits.length = r.size := by simp [Register.bits]
  have written : (perform outcome (.range lower upper r.size) (r.bits ++ [b]) (.start m)).memory b =
      decide (lower ≤ m.number r.bits ∧ m.number r.bits ≤ upper) := by
    rw [perform_classical outcome _ rfl, ← length]
    simp only [effect, take_left, drop_left, writeAll, Machine.start]
    exact write_same _ _ _
  rw [onPredicate, observe, observe_silent outcome _ silent, written]
  rfl

/-- A predicate on a whole register and gates on its bit are written with their meaning just if there
is at most one gate, and the test in front of it need not be negated or is an equation. -/
lemma onPredicate_iff {p : Program} (formed : IsFormed c) (commands : c.commands = onPredicate lower upper r b gates)
    (silent : ∀ g ∈ gates, IsSilent g.2.1 g.2.2) (printed : ofCircuit c "hqslib1" = .ok p)
    (declared : registerBits p.cregs r.name = r.bits) (positive : 0 < r.size) (narrow : r.size ≤ 32)
    (outside : b ∉ r.bits) : (∀ outcome m, p.tests outcome m = observe firing outcome c.commands (.start m)) ↔
    gates.length ≤ 1 ∧ ∀ g ∈ gates, g.1 = 1 ∨ lower = upper := by
  simp only [commands, observe_onPredicate _ silent]
  cases gates with
  | nil =>
    obtain ⟨_, written⟩ := ofCircuit_eq_ok formed printed
    rw [commands] at written
    obtain ⟨_, range, written⟩ := bind_eq_ok.mp written
    rw [commandLines_range] at range
    cases range
    have empty : p.lines = [] := (Except.ok.inj written).symm
    simp [tests, empty, testsAlong]
  | cons g rest =>
    obtain ⟨small, ctx, ctx', test, extended, cregs, waits, tested, tests⟩ :=
      tests_onPredicate formed commands silent printed
    rw [← cregs] at declared
    have sharp := holds_range_iff extended waits declared positive narrow tested
    rw [cregs] at sharp
    simp only [tests, map_cons, cons.injEq]
    constructor
    · intro right
      have first : g.1 = 1 ∨ lower = upper := by
        apply sharp.mp
        intro m
        exact toNat_injective (right (fun _ => false) m).1
      cases rest with
      | nil => simpa using first
      | cons h more =>
        -- the second gate finds the value that the bit had at the start
        obtain ⟨m, unlike⟩ := exists_unlike outside lower upper (small h (by simp))
        have later := (right (fun _ => false) m).2
        have second := toNat_injective (cons.inj later).1
        exact absurd (decide_eq_decide.mp second) unlike
    · rintro ⟨one, each⟩ outcome m
      have none : rest = [] := by simpa using one
      subst none
      refine ⟨?_, rfl⟩
      rw [sharp.mpr (each g (by simp)) m]

end

/-- Where the watch admits every command, the program of a circuit with range predicates makes its
tests with the results of the conditions, executes the same gates, and leaves the same values in the
bits that are not stale. A predicate on a whole register and gates on its bit are written with their
meaning just if there is at most one gate, on the value 1 or under an equation. -/
theorem ofCircuit_conditions {c : Circuit} (formed : IsFormed c) {p : Program}
    (printed : Program.ofCircuit c "hqslib1" = .ok p) :
    (Watch.start.admitsAll p.cregs c.commands = true → ∀ (outcome : Nat → Bool) (m : Memory),
      p.tests outcome m = Execution.observe firing outcome c.commands (.start m) ∧
      (p.run outcome m).trace = (Execution.run outcome c.commands (.start m)).trace.flatMap spelled ∧
      ∀ b, (Watch.start.after p.cregs c.commands).stale b = false →
        (p.run outcome m).memory b = (Execution.run outcome c.commands (.start m)).memory b) ∧
    ∀ (lower upper : Nat) (r : Register) (b : UnitId) (gates : List (Nat × Op × List UnitId)),
      c.commands = onPredicate lower upper r b gates → (∀ g ∈ gates, IsSilent g.2.1 g.2.2) →
      registerBits p.cregs r.name = r.bits → 0 < r.size → r.size ≤ 32 → b ∉ r.bits →
      ((∀ outcome m, p.tests outcome m = Execution.observe firing outcome c.commands (.start m)) ↔
        gates.length ≤ 1 ∧ ∀ g ∈ gates, g.1 = 1 ∨ lower = upper) := by
  constructor
  · intro admitted outcome m
    exact run_of_admitted formed printed admitted outcome m
  · intro lower upper r b gates commands silent declared positive narrow outside
    exact onPredicate_iff formed commands silent printed declared positive narrow outside

def withPredicateBit (commands : List Command) : Circuit :=
  { Circuit.empty with qubits := [.qubit 0], bits := [.bit 0, .bit 1, ⟨"p", [0]⟩], commands }

def testedTwice : Circuit :=
  withPredicateBit
    [⟨.gate .measure [], [.qubit 0, .bit 0]⟩, ⟨.range 1 1 2, [.bit 0, .bit 1, ⟨"p", [0]⟩]⟩,
     ⟨.conditional 1 0 (.gate .x []), [⟨"p", [0]⟩, .qubit 0]⟩,
     ⟨.conditional 1 1 (.gate .measure []), [.bit 0, .qubit 0, .bit 1]⟩,
     ⟨.range 0 2 2, [.bit 0, .bit 1, ⟨"p", [0]⟩]⟩,
     ⟨.conditional 1 1 (.gate .y []), [⟨"p", [0]⟩, .qubit 0]⟩]

def usedTwice : Circuit :=
  withPredicateBit (onPredicate 1 1 ⟨"c", 2⟩ ⟨"p", [0]⟩
    [(1, .gate .x [], [.qubit 0]), (1, .gate .y [], [.qubit 0])])

lemma isFormed_withPredicateBit {commands : List Command}
    (gates : ∀ cmd ∈ commands, ∀ signature, bareOp cmd.op ≠ .barrier signature)
    (added : commands.foldlM (fun c cmd => c.addOp cmd.op cmd.args) (withPredicateBit []) =
    .ok (withPredicateBit commands)) : IsFormed (withPredicateBit commands) := by
  have blank : IsFormed (Circuit.blank 1 2) := by
    refine ⟨nofun, ?_⟩
    simp [Decompose.KindsApart, Circuit.blank, UnitId.qubit, UnitId.bit]
  have start : IsFormed (withPredicateBit []) :=
    blank.addUnit (show (Circuit.blank 1 2).addUnit .bit ⟨"p", [0]⟩ = _ from rfl)
  exact start.addOps (fun cmd mem signature barrier => absurd barrier (gates cmd mem signature))
    added

lemma isFormed_testedTwice : IsFormed testedTwice := by
  refine isFormed_withPredicateBit ?_ rfl
  intro cmd mem
  simp only [mem_cons, not_mem_nil, or_false] at mem
  rcases mem with rfl | rfl | rfl | rfl | rfl | rfl <;> nofun

lemma isFormed_usedTwice : IsFormed usedTwice := by
  refine isFormed_withPredicateBit ?_ rfl
  intro cmd mem
  simp only [onPredicate, map_cons, map_nil, mem_cons, not_mem_nil, or_false] at mem
  rcases mem with rfl | rfl | rfl <;> nofun

theorem ofCircuit_conditions_twice :
    (∃ p, Program.ofCircuit testedTwice "hqslib1" = .ok p ∧ ∀ (outcome : Nat → Bool) (m : Memory),
      p.tests outcome m = Execution.observe firing outcome testedTwice.commands (.start m)) ∧
    ∃ p, Program.ofCircuit usedTwice "hqslib1" = .ok p ∧ ¬∀ (outcome : Nat → Bool) (m : Memory),
      p.tests outcome m = Execution.observe firing outcome usedTwice.commands (.start m) := by
  constructor
  · refine ⟨_, rfl, ?_⟩
    intro outcome m
    exact ((ofCircuit_conditions isFormed_testedTwice rfl).1 (by decide) outcome m).1
  · refine ⟨_, rfl, ?_⟩
    intro right
    have silent : ∀ g ∈ [((1 : Nat), Op.gate .x [], [UnitId.qubit 0]),
        (1, Op.gate .y [], [UnitId.qubit 0])], IsSilent g.2.1 g.2.2 := by
      intro g member
      simp only [List.mem_cons, List.not_mem_nil, or_false] at member
      rcases member with rfl | rfl <;> exact ⟨.inl ⟨_, _, rfl⟩, rfl⟩
    have sharp := (ofCircuit_conditions isFormed_usedTwice rfl).2 1 1 ⟨"c", 2⟩ ⟨"p", [0]⟩ _ rfl
      silent (by decide) (by decide) (by decide) (by decide)
    exact absurd (sharp.mp right).1 (by decide)

end CircuitWorks.Qasm
