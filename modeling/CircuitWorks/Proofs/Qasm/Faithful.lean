import CircuitWorks.Proofs.Qasm.Statements
import Mathlib

/-!
Conditions under a header that compares whole registers only.
-/

namespace CircuitWorks.Qasm

section

open List Comparator Execution Watch

variable {cregs : List Register}

section

lemma rangeTest_holds {lower upper : Nat} {comparator : Comparator} {bound : Int}
    (read : rangeTest lower upper = .ok (comparator, bound)) {n : Nat}
    (room : lower = upper ∨ lower = 0 ∨ n < 4294967296) :
    comparator.holds n bound = decide (lower ≤ n ∧ n ≤ upper) ∧ (comparator = .eq ↔ lower = upper) := by
  unfold rangeTest at read
  split_ifs at read with same zero top
  · cases read
    refine ⟨?_, by simpa using same⟩
    rw [holds, decide_eq_decide]
    omega
  · cases read
    refine ⟨?_, by simpa using same⟩
    rw [holds, decide_eq_decide]
    omega
  · cases read
    refine ⟨?_, by simpa using same⟩
    rw [holds, decide_eq_decide]
    omega

variable {ctx ctx' : Context} {width value : Nat} {bits : List UnitId} {test : Test} {control : UnitId}

lemma conditionTest_eq_ok (extended : ctx.header = "hqslib1")
    (printed : conditionTest ctx width value bits = .ok (test, ctx')) :
    width = 1 ∧ value ≤ 1 ∧ ∃ control rest, bits = control :: rest ∧
    ((ctx.pending.lookup control = none ∧ test = ⟨.bit control, .eq, value⟩ ∧ ctx' = ctx) ∨
    ∃ lower upper source comparator bound, ctx.pending.lookup control = some (lower, upper, source) ∧
    rangeTest lower upper = .ok (comparator, bound) ∧ test = ⟨.register (source.headD control).register,
    if value = 0 ∧ comparator = .eq then .neq else comparator, bound⟩ ∧
    ctx' = { ctx with pending := ctx.pending.filter (·.1 ≠ control) }) := by
  have wide : ctx.extended = true := by simp [Context.extended, extended]
  -- whichever test is chosen, one bit must be compared with 0 or 1
  have single (found : Test × Context) (passed : (if width ≠ 1 ∨ 1 < value then
      (do throw .oneBit; pure found) else pure found : Except ExportError (Test × Context)) =
      .ok (test, ctx')) : width = 1 ∧ value ≤ 1 ∧ found = (test, ctx') := by
    split_ifs at passed with wrong
    · cases passed
    · cases passed
      exact ⟨by omega, by omega, rfl⟩
  cases bits with
  | nil => cases printed
  | cons control rest =>
    unfold conditionTest at printed
    dsimp only at printed
    cases found : ctx.pending.lookup control with
    | none =>
      rw [found] at printed
      simp only [pure_bind, wide, if_true] at printed
      obtain ⟨one, small, same⟩ := single _ printed
      cases same
      exact ⟨one, small, control, rest, rfl, .inl ⟨found, rfl, rfl⟩⟩
    | some entry =>
      obtain ⟨lower, upper, source⟩ := entry
      rw [found] at printed
      obtain ⟨⟨comparator, bound⟩, read, tested⟩ := bind_eq_ok.mp printed
      have kept : Context.extended { ctx with
        pending := ctx.pending.filter fun e => decide (e.1 ≠ control) } = true := wide
      simp only [pure_bind, kept, if_true] at tested
      obtain ⟨one, small, same⟩ := single _ tested
      cases same
      exact ⟨one, small, control, rest, rfl,
        .inr ⟨lower, upper, source, comparator, bound, found, read, rfl, rfl⟩⟩

lemma holds_range {lower upper : Nat} {source : List UnitId}
    (whole : registerBits cregs (source.headD control).register = source) (small : value ≤ 1)
    (right : value = 1 ∨ lower = upper) (narrow : (lower = upper ∨ lower = 0) ∨ source.length ≤ 32)
    {comparator : Comparator} {bound : Int} (read : rangeTest lower upper = .ok (comparator, bound))
    {m : Memory} (given : b = decide (lower ≤ m.number source ∧ m.number source ≤ upper)) :
    Test.holds cregs m ⟨.register (source.headD control).register,
    if value = 0 ∧ comparator = .eq then .neq else comparator, bound⟩ = decide (b.toNat = value) := by
  have room : lower = upper ∨ lower = 0 ∨ m.number source < 4294967296 := by
    rcases narrow with bounded | short
    · rcases bounded with same | zero
      · exact .inl same
      · exact .inr (.inl zero)
    · have below := m.number_lt source
      have top : 2 ^ source.length ≤ 2 ^ 32 := Nat.pow_le_pow_right (by omega) short
      exact .inr (.inr (by omega))
  obtain ⟨meaning, equation⟩ := rangeTest_holds read room
  rw [← given] at meaning
  simp only [Test.holds, Subject.bits, whole]
  by_cases zero : value = 0
  · -- only an equation is negated
    have same : comparator = .eq := equation.mpr (by omega)
    have negated : neq.holds (m.number source) bound =
        !Comparator.eq.holds (m.number source) bound := by simp [holds]
    subst zero same
    rw [if_pos ⟨rfl, rfl⟩, negated, meaning]
    cases b <;> rfl
  · obtain rfl : value = 1 := by omega
    rw [if_neg (by omega), meaning]
    cases b <;> rfl

/-- Where the watch tells so, the test for a condition has the right result. -/
lemma Follows.tested (follows : Follows ctx.pending w s t)
    (extended : ctx.header = "hqslib1") {rest : List UnitId}
    (printed : conditionTest ctx width value ((control :: rest).take width) = .ok (test, ctx'))
    (told : w.tells ctx.cregs value control = true) :
    width = 1 ∧ (ctx'.header = ctx.header ∧ ctx'.cregs = ctx.cregs) ∧ Follows ctx'.pending (w.used control) s t ∧
    test.holds ctx.cregs t.memory = decide (s.memory.number [control] = value) := by
  obtain ⟨rfl, small, first, _, same, form⟩ := conditionTest_eq_ok extended printed
  obtain ⟨rfl, _⟩ : control = first ∧ _ := List.cons.inj same
  have digit : s.memory.number [control] = (s.memory control).toNat := by simp [Memory.number]
  have note := follows.notes control
  unfold tells at told
  rcases form with ⟨absent, rfl, rfl⟩ | ⟨_, _, _, _, _, found, read, rfl, rfl⟩
  · refine ⟨rfl, ⟨rfl, rfl⟩, follows.unused absent, ?_⟩
    cases known : w.note control with
    | absent =>
      rw [known] at told
      have fresh := follows.memory control (by simpa using told)
      simp [Test.holds, holds, Subject.bits, Memory.number, fresh]
    | kept lower upper source =>
      rw [known] at note
      rw [note.1] at absent
      cases absent
    | lost => simp [known] at told
  · refine ⟨rfl, ⟨rfl, rfl⟩, follows.used control, ?_⟩
    cases known : w.note control with
    | absent =>
      rw [known] at note
      rw [note] at found
      cases found
    | lost => simp [known] at told
    | kept low high bits =>
      rw [known] at note told
      rw [note.1] at found
      cases found
      simp only [Bool.and_eq_true, Bool.or_eq_true, decide_eq_true_eq] at told
      obtain ⟨⟨right, whole⟩, narrow⟩ := told
      exact (holds_range whole.symm small right narrow read note.2).trans (by rw [digit])

end

variable {commands : List Command} {args : List UnitId}

section

structure IsFormed (c : Circuit) : Prop where
  sits : ∀ cmd ∈ c.commands, Sits c cmd
  apart : Decompose.KindsApart c

variable {c : Circuit}

lemma IsFormed.addUnit (formed : IsFormed c) {kind : UnitKind}
    (added : c.addUnit kind u = .ok d) : IsFormed d := by
  obtain ⟨apart, grows⟩ := formed.apart.addUnit added
  have commands : d.commands = c.commands := by
    obtain ⟨_, rfl, _⟩ := Decompose.addUnit_eq_ok added
    cases kind <;> rfl
  refine ⟨?_, apart⟩
  rw [commands]
  intro cmd mem
  have sits := formed.sits cmd mem
  exact ⟨grows.accepts apart sits.accepts, sits.barrier⟩

lemma IsFormed.addOp (formed : IsFormed c) {op : Op}
    (barrier : ∀ signature, bareOp op = .barrier signature → .boolean ∉ signature)
    (added : c.addOp op args = .ok d) : IsFormed d := by
  obtain ⟨accepts, rfl⟩ := Circuit.addOp_eq_ok added
  -- a command changes no units, so what was accepted still is
  have same : ∀ old, Sits c old → Sits (c.withCommand op args) old :=
    fun old sits => ⟨sits.accepts.mono fun _ _ _ known => known, sits.barrier⟩
  refine ⟨?_, formed.apart⟩
  intro old mem
  rcases mem_append.mp mem with earlier | last
  · exact same old (formed.sits old earlier)
  · obtain rfl := mem_singleton.mp last
    exact same _ ⟨accepts, barrier⟩

lemma IsFormed.addOps (formed : IsFormed c)
    (barriers : ∀ cmd ∈ commands, ∀ signature, bareOp cmd.op = .barrier signature → .boolean ∉ signature)
    (added : commands.foldlM (fun c cmd => c.addOp cmd.op cmd.args) c = .ok d) : IsFormed d := by
  induction commands generalizing c with
  | nil =>
    cases added
    exact formed
  | cons cmd rest ih =>
    obtain ⟨next, first, later⟩ := bind_eq_ok.mp added
    exact ih (formed.addOp (barriers cmd (by simp)) first)
      (fun cmd mem => barriers cmd (.tail _ mem)) later

end

section

variable {c : Circuit} {ctx ctx' : Context} {cmd : Command} {lines : List Line} {w : Watch}
  {s : Machine} {t : Player}

/-- Operations that are written where they stand, without a condition. -/
def isDirect : Op → Bool
  | .range .. | .conditional .. => false
  | _ => true

lemma direct_forms {op : Op} {args : List UnitId} (plain : isDirect op = true) :
    commandLines ctx ⟨op, args⟩ =
    (do return ((← statements ctx op args).map (⟨none, ·⟩), ctx)) ∧
    w.step ctx.cregs ⟨op, args⟩ = w.touch false (touchOf ctx.cregs w.stale op args) ∧
    (∀ m, firing ⟨op, args⟩ m = []) ∧ bareOp op = op := by
  cases op with
  | range lower upper count => cases plain
  | conditional width value op => cases plain
  | _ => exact ⟨rfl, rfl, fun _ => rfl, rfl⟩

lemma Suits.next (suits : Suits c ctx) (header : ctx'.header = ctx.header)
    (cregs : ctx'.cregs = ctx.cregs) : Suits c ctx' :=
  ⟨header.trans suits.header, cregs.trans suits.cregs, suits.apart⟩

lemma Follows.range {lower upper count : Nat} (follows : Follows ctx.pending w s t)
    (accepts : c.Accepts (.range lower upper count) args)
    (printed : commandLines ctx ⟨.range lower upper count, args⟩ = .ok (lines, ctx')) (outcome : Nat → Bool) :
    (ctx'.header = ctx.header ∧ ctx'.cregs = ctx.cregs) ∧ lines = [] ∧
    Follows ctx'.pending (w.step ctx.cregs ⟨.range lower upper count, args⟩)
    (perform outcome (.range lower upper count) args s) t := by
  have arity := accepts.arity
  simp only [Op.signature, length_append, length_replicate, length_singleton] at arity
  obtain ⟨source, target, rfl⟩ : ∃ source target, args = source ++ [target] :=
    ⟨_, _, (dropLast_append_getLast accepts.nonempty).symm⟩
  have length : source.length = count := by simpa using arity
  simp only [commandLines, getLast?_append, getLast?_singleton, Option.some_or, dropLast_concat] at printed
  cases printed
  refine ⟨⟨rfl, rfl⟩, rfl, ?_⟩
  have after := follows.await target lower upper source
  rw [perform_classical outcome _ rfl]
  simp only [step, getLast?_append, getLast?_singleton, Option.some_or,
    dropLast_concat, effect, ← length, take_left, drop_left, Memory.writeAll]
  exact after

/-- What one command does: to the context, the program, and the tests. -/
structure Advances (ctx ctx' : Context) (w : Watch) (cmd : Command) (lines : List Line)
    (outcome : Nat → Bool) (s : Machine) (t : Player) : Prop where
  header : ctx'.header = ctx.header
  cregs : ctx'.cregs = ctx.cregs
  follows : Follows ctx'.pending (w.step ctx.cregs cmd) (perform outcome cmd.op cmd.args s)
    (runLines ctx.cregs outcome lines t)
  tests : testsAlong ctx.cregs outcome lines t = firing cmd s.memory

variable (sits : Sits c cmd) (suits : Suits c ctx) (follows : Follows ctx.pending w s t)
  (printed : commandLines ctx cmd = .ok (lines, ctx'))

include sits suits follows printed in
lemma advances_direct (plain : isDirect cmd.op = true) (outcome : Nat → Bool) :
    Advances ctx ctx' w cmd lines outcome s t := by
  obtain ⟨op, args⟩ := cmd
  obtain ⟨form, step, quiet, bare⟩ := @direct_forms ctx w op args plain
  rw [form] at printed
  obtain ⟨sts, written, same⟩ := bind_eq_ok.mp printed
  cases same
  have carried := carried_statements (sits.fits bare) suits written follows.memory follows.drawn
    follows.trace outcome
  obtain ⟨runs, tests⟩ := @plain_lines ctx.cregs outcome sts t
  refine ⟨rfl, rfl, ?_, ?_⟩
  · rw [runs, step]
    exact follows.carry carried false
  · rw [tests, quiet]

include sits suits follows printed in
lemma advances_conditional {width value : Nat} {op : Op}
    (conditional : cmd.op = .conditional width value op) (admitted : w.admits ctx.cregs cmd = true)
    (outcome : Nat → Bool) : Advances ctx ctx' w cmd lines outcome s t := by
  obtain ⟨_, args⟩ := cmd
  subst conditional
  obtain ⟨⟨test, middle⟩, condition, printed⟩ := bind_eq_ok.mp printed
  obtain ⟨sts, written, printed⟩ := bind_eq_ok.mp printed
  cases args with
  | nil => exact absurd rfl sits.accepts.nonempty
  | cons control args =>
    simp only [admits, Bool.and_eq_true] at admitted
    obtain ⟨told, alone⟩ := admitted
    obtain ⟨rfl, ⟨header, cregs⟩, tested, result⟩ := follows.tested suits.header condition told
    have fits := sits.conditional
    rw [drop_succ_cons, drop_zero] at fits written
    rw [← cregs] at alone
    obtain ⟨st, rfl⟩ := statements_alone fits written alone
    cases printed
    refine ⟨header, cregs, ?_, ?_⟩
    · change Follows ctx'.pending ((w.used control).touch true (touchOf ctx.cregs w.stale op args))
        (perform outcome (.conditional 1 value op) (control :: args) s)
        (runLines ctx.cregs outcome [⟨some test, st⟩] t)
      by_cases fires : s.memory.number [control] = value
      · have program : runLines ctx.cregs outcome [⟨some test, st⟩] t = performAll ctx.cregs outcome [st] t := by
          simp [runLines, performAll, Line.perform, result, fires]
        have circuit : perform outcome (.conditional 1 value op) (control :: args) s = perform outcome op args s := by
          rw [perform]
          exact if_pos fires
        have carried := carried_statements fits (suits.next header cregs) written tested.memory
          tested.drawn tested.trace outcome
        rw [cregs] at carried
        rw [program, circuit]
        exact tested.carry carried true
      · have program : runLines ctx.cregs outcome [⟨some test, st⟩] t = t := by
          simp [runLines, Line.perform, result, fires]
        have circuit : perform outcome (.conditional 1 value op) (control :: args) s = s := by
          rw [perform]
          exact if_neg fires
        rw [program, circuit]
        exact tested.skip _
    · simp only [testsAlong, firing, result]
      rfl

include sits suits follows printed in
lemma advances (admitted : w.admits ctx.cregs cmd = true) (outcome : Nat → Bool) :
    Advances ctx ctx' w cmd lines outcome s t := by
  by_cases plain : isDirect cmd.op = true
  · exact advances_direct sits suits follows printed plain outcome
  · cases shape : cmd.op with
    | conditional width value op =>
      exact advances_conditional sits suits follows printed shape admitted outcome
    | range lower upper count =>
      obtain ⟨_, args⟩ := cmd
      subst shape
      obtain ⟨⟨header, cregs⟩, rfl, after⟩ := follows.range sits.accepts printed outcome
      exact ⟨header, cregs, after, rfl⟩
    | _ => simp [shape, isDirect] at plain

lemma Follows.run (sits : ∀ cmd ∈ commands, Sits c cmd) (suits : Suits c ctx) (known : ctx.cregs = cregs)
    (printed : allLines ctx commands = .ok lines) (admitted : w.admitsAll cregs commands = true)
    (follows : Follows ctx.pending w s t) (outcome : Nat → Bool) :
    (∃ pending, Follows pending (w.after cregs commands) (run outcome commands s) (runLines cregs outcome lines t)) ∧
    testsAlong cregs outcome lines t = observe firing outcome commands s := by
  -- the waiting predicates, the watch and both states change from command to command
  induction commands generalizing ctx w s t lines with
  | nil =>
    cases printed
    exact ⟨⟨_, follows⟩, rfl⟩
  | cons cmd rest ih =>
    obtain ⟨⟨first, next⟩, written, printed⟩ := bind_eq_ok.mp printed
    obtain ⟨later, remaining, same⟩ := bind_eq_ok.mp printed
    cases same
    subst known
    rw [admitsAll, Bool.and_eq_true] at admitted
    have step := advances (sits cmd (by simp)) suits follows written admitted.1 outcome
    obtain ⟨ends, tests⟩ := ih (fun cmd mem => sits cmd (.tail _ mem))
      (suits.next step.header step.cregs) step.cregs remaining admitted.2 step.follows
    rw [runLines_append, testsAlong_append, step.tests, tests]
    exact ⟨ends, rfl⟩

lemma ofCircuit_eq_ok (formed : IsFormed c) (printed : Program.ofCircuit c "hqslib1" = .ok p) :
    Suits c ⟨"hqslib1", p.cregs, []⟩ ∧ allLines ⟨"hqslib1", p.cregs, []⟩ c.commands = .ok p.lines := by
  obtain ⟨qregs, _, printed⟩ := bind_eq_ok.mp printed
  obtain ⟨cregs, spans, printed⟩ := bind_eq_ok.mp printed
  obtain ⟨lines, written, same⟩ := bind_eq_ok.mp printed
  cases same
  refine ⟨⟨rfl, ?_, formed.apart⟩, written⟩
  rw [registersOf] at spans
  split_ifs at spans
  exact (Except.ok.inj spans).symm

end

lemma run_of_admitted (formed : IsFormed c)
    (printed : Program.ofCircuit c "hqslib1" = .ok p)
    (admitted : start.admitsAll p.cregs c.commands = true) (outcome : Nat → Bool) (m : Memory) :
    p.tests outcome m = observe firing outcome c.commands (.start m) ∧
    (p.run outcome m).trace = (run outcome c.commands (.start m)).trace.flatMap spelled ∧
    ∀ b, (start.after p.cregs c.commands).stale b = false →
    (p.run outcome m).memory b = (run outcome c.commands (.start m)).memory b := by
  obtain ⟨suits, written⟩ := ofCircuit_eq_ok formed printed
  have begins : Follows [] start (.start m) (.start m) :=
    ⟨fun _ _ => rfl, fun _ => rfl, rfl, rfl⟩
  obtain ⟨⟨_, ends⟩, tests⟩ := Follows.run formed.sits suits rfl written admitted begins outcome
  exact ⟨tests, ends.trace, ends.memory⟩

end

open List Execution Memory

variable {args : List UnitId} {lines : List Line}

def Meets (bits : List UnitId) (value : Nat) (m : Memory) : Prop :=
  ∀ (k : Nat) (b : UnitId), bits[k]? = some b → m b = value.testBit k

/-- The number that a register holds when its bits, in some order, have the digits of a number. -/
def registerValue (r : Register) (bits : List UnitId) (value : Nat) : Nat :=
  number (fun b => value.testBit (bits.idxOf b)) r.bits

section

variable {bits : List UnitId} {value : Nat}

lemma number_eq_iff {m m' : Memory} (bits : List UnitId) :
    m.number bits = m'.number bits ↔ ∀ b ∈ bits, m b = m' b := by
  constructor
  · intro same b mem
    obtain ⟨i, inside, rfl⟩ := getElem_of_mem mem
    have digit := congrArg (·.testBit i) same
    simpa [testBit_number, inside] using digit
  · intro same
    exact number_congr bits same

lemma meets_iff (distinct : bits.Nodup) (m : Memory) :
    Meets bits value m ↔ ∀ b ∈ bits, m b = value.testBit (bits.idxOf b) := by
  constructor
  · intro meets b mem
    apply meets
    have inside := idxOf_lt_length_of_mem mem
    rw [getElem?_eq_getElem inside, getElem_idxOf]
  · intro digits k b found
    obtain ⟨inside, rfl⟩ := List.getElem?_eq_some_iff.mp found
    rw [digits _ (getElem_mem inside), distinct.idxOf_getElem]

lemma meets_iff_number (whole : bits.Perm r.bits) (m : Memory) :
    Meets bits value m ↔ m.number r.bits = registerValue r bits value := by
  have nodup : bits.Nodup := whole.nodup_iff.mpr (Decompose.bits_nodup r)
  rw [meets_iff nodup, registerValue, number_eq_iff]
  simp only [whole.mem_iff]

lemma registerValue_bits (small : value < 2 ^ r.size) : registerValue r r.bits value = value := by
  apply Nat.eq_of_testBit_eq
  intro i
  rw [registerValue, testBit_number]
  by_cases inside : i < r.size
  · have place : r.bits.idxOf (r.place i) = i := by
      have found := getElem?_bits inside
      obtain ⟨bound, same⟩ := List.getElem?_eq_some_iff.mp found
      rw [← same]
      exact (Decompose.bits_nodup r).idxOf_getElem i bound
    rw [getElem?_bits inside, Option.map_some, Option.getD_some, place]
  · have beyond : value < 2 ^ i := by
      apply Nat.lt_of_lt_of_le small
      exact Nat.pow_le_pow_right (by decide) (by omega)
    have outside : r.bits[i]? = none := by
      apply getElem?_eq_none
      simp only [Register.bits, length_map, length_range]
      omega
    rw [outside, Nat.testBit_lt_two_pow beyond]
    rfl

/-- A test of a register has the meaning of a condition on its bits just if it names the number that
the register then holds. -/
lemma holds_iff_meets {cregs : List Register} (declared : registerBits cregs r.name = r.bits)
    (whole : bits.Perm r.bits) :
    (∀ m : Memory, Test.holds cregs m ⟨.register r.name, .eq, value⟩ = true ↔ Meets bits value m) ↔
    value = registerValue r bits value := by
  have reads (m : Memory) : Test.holds cregs m ⟨.register r.name, .eq, value⟩ = true ↔
      m.number r.bits = value := by
    simp [Test.holds, Comparator.holds, Subject.bits, declared]
  constructor
  · intro right
    -- the memory in which the condition is met decides
    let m : Memory := fun b => value.testBit (bits.idxOf b)
    have met : Meets bits value m := (meets_iff_number whole m).mpr rfl
    exact ((reads m).mp ((right m).mpr met)).symm
  · intro same m
    rw [reads, meets_iff_number whole, ← same]

end

section

variable {ctx ctx' : Context} {width value : Nat} {bits : List UnitId} {test : Test} {sts : List Statement}

lemma conditionTest_register (plain : ctx.extended = false) (none : ctx.pending = [])
    (printed : conditionTest ctx width value bits = .ok (test, ctx')) :
    ctx' = ctx ∧ ∃ r ∈ ctx.cregs, registerBits ctx.cregs r.name = r.bits ∧ bits.Perm r.bits ∧
    test = ⟨.register r.name, .eq, value⟩ := by
  cases bits with
  | nil => cases printed
  | cons control rest =>
    unfold conditionTest at printed
    have free : ctx.pending.lookup control = .none := by rw [none]; rfl
    simp only [free, plain, pure_bind, Bool.false_eq_true, if_false] at printed
    obtain ⟨r, found, printed⟩ := bind_eq_ok.mp printed
    obtain ⟨named, declared⟩ := register_eq_ok found
    by_cases narrow : width = r.size
    · by_cases sorted : UnitId.sort (control :: rest) = r.bits
      · rw [if_neg (not_not.mpr narrow), if_neg (not_not.mpr sorted)] at printed
        cases printed
        refine ⟨rfl, r, mem_of_find?_eq_some declared, ?_, ?_, by rw [named]⟩
        · rw [named]
          exact registerBits_of_find? declared
        · rw [← sorted]
          exact (mergeSort_perm _ _).symm
      · rw [if_neg (not_not.mpr narrow), if_pos sorted] at printed
        cases printed
    · rw [if_pos narrow] at printed
      cases printed

lemma setBitsLines_ne_nil {values : List Bool} (lengths : args.length = values.length)
    (printed : setBitsLines ctx values args = .ok sts) : sts ≠ [] := by
  cases args with
  | nil => cases printed
  | cons first rest =>
    let pairs := ((first :: rest).zip values).mergeSort fun a b => a.1.le b.1
    have filled : pairs ≠ [] := by
      apply ne_nil_of_length_pos
      rw [length_mergeSort, length_zip, ← lengths, Nat.min_self]
      exact Nat.succ_pos _
    obtain ⟨register, _, printed⟩ := bind_eq_ok.mp printed
    split_ifs at printed
    · cases printed
      simp
    · cases printed
      intro none
      exact filled (map_eq_nil_iff.mp none)

lemma statements_ne_nil {op : Op} (arity : args.length = (op.signature args.length).length)
    (printed : statements ctx op args = .ok sts) : sts ≠ [] := by
  unfold statements at printed
  split at printed
  · refine setBitsLines_ne_nil ?_ printed
    simpa [Op.signature] using arity
  · obtain ⟨_, _, _, _, _, _, rfl, _⟩ := registersLine_eq_ok printed
    simp
  · obtain ⟨_, _, _, _, _, _, rfl, _⟩ := registersLine_eq_ok printed
    simp
  · obtain ⟨_, _, _, _, _, _, _, _, rfl⟩ := combineLine_eq_ok printed
    simp
  · obtain ⟨_, _, _, _, _, _, _, _, rfl⟩ := combineLine_eq_ok printed
    simp
  · rcases (gateLine_eq_ok printed).2 with ⟨_, _, rfl⟩ | ⟨_, _, _, _, rfl⟩ <;> simp

section

variable (plain : ctx.extended = false) (free : ctx.pending = [])

include plain free

lemma commandLines_conditional {op : Op}
    (arity : args.length = ((Op.conditional width value op).signature args.length).length)
    (printed : commandLines ctx ⟨.conditional width value op, args⟩ = .ok (lines, ctx')) :
    ctx' = ctx ∧ ∃ r ∈ ctx.cregs, registerBits ctx.cregs r.name = r.bits ∧
    (args.take width).Perm r.bits ∧ ∃ (first : Statement) (rest : List Statement),
    lines = ⟨some ⟨.register r.name, .eq, value⟩, first⟩ :: rest.map (⟨none, ·⟩) := by
  obtain ⟨⟨test, next⟩, condition, printed⟩ := bind_eq_ok.mp printed
  obtain ⟨rfl, r, mem, declared, whole, rfl⟩ := conditionTest_register plain free condition
  obtain ⟨sts, written, printed⟩ := bind_eq_ok.mp printed
  have inner : (args.drop width).length = (op.signature (args.drop width).length).length := by
    simp only [Op.signature, length_append, length_replicate] at arity
    rw [length_drop]
    omega
  cases sts with
  | nil => exact absurd rfl (statements_ne_nil inner written)
  | cons first rest =>
    cases printed
    exact ⟨rfl, r, mem, declared, whole, first, rest, rfl⟩

lemma commandLines_context {cmd : Command} (ordinary : isExtendedOp cmd.op = false)
    (printed : commandLines ctx cmd = .ok (lines, ctx')) : ctx' = ctx := by
  obtain ⟨op, args⟩ := cmd
  cases op with
  | range lower upper count => cases ordinary
  | conditional width value op =>
    obtain ⟨⟨test, next⟩, condition, remaining⟩ := bind_eq_ok.mp printed
    obtain ⟨sts, _, done⟩ := bind_eq_ok.mp remaining
    have kept := (conditionTest_register plain free condition).1
    cases sts <;> cases done <;> exact kept
  | _ =>
    obtain ⟨_, _, printed⟩ := bind_eq_ok.mp printed
    cases printed
    rfl

lemma allLines_groups {commands : List Command} (ordinary : ∀ cmd ∈ commands, isExtendedOp cmd.op = false)
    (printed : allLines ctx commands = .ok lines) : ∃ groups : List (List Line), lines = groups.flatten ∧
    List.Forall₂ (fun cmd group => commandLines ctx cmd = .ok (group, ctx)) commands groups := by
  induction commands generalizing lines with
  | nil =>
    cases printed
    exact ⟨[], rfl, .nil⟩
  | cons cmd rest ih =>
    obtain ⟨⟨first, next⟩, written, printed⟩ := bind_eq_ok.mp printed
    obtain ⟨later, remaining, same⟩ := bind_eq_ok.mp printed
    cases same
    obtain rfl := commandLines_context plain free (ordinary cmd (by simp)) written
    obtain ⟨groups, rfl, each⟩ := ih (fun cmd mem => ordinary cmd (.tail _ mem)) remaining
    exact ⟨first :: groups, rfl, .cons written each⟩

end

end

/-- Each conditional command of a circuit that is written under the plain header is tested in front of
its first statement. The bits of its condition are those of a whole register, in any order; the
condition is met just if the register holds one certain number, and the test has the meaning of the
condition just if this is the number of the command. So it has if the bits are in order and the number
fits. -/
theorem ofCircuit_register_conditions {c : Circuit}
    (accepted : ∀ cmd ∈ c.commands, c.checkOp cmd.op cmd.args = .ok ()) {p : Program}
    (printed : Program.ofCircuit c "qelib1" = .ok p) :
    ∃ groups : List (List Line), p.lines = groups.flatten ∧
      List.Forall₂ (fun cmd group => ∀ width value op, cmd.op = .conditional width value op →
        ∃ r ∈ p.cregs, ∃ (first : Statement) (rest : List Statement),
          group = ⟨some ⟨.register r.name, .eq, value⟩, first⟩ :: rest.map (⟨none, ·⟩) ∧
          (cmd.args.take width).Perm r.bits ∧
          (∀ m : Memory, Meets (cmd.args.take width) value m ↔
            m.number r.bits = registerValue r (cmd.args.take width) value) ∧
          ((∀ m : Memory, Test.holds p.cregs m ⟨.register r.name, .eq, value⟩ = true ↔
            Meets (cmd.args.take width) value m) ↔
              value = registerValue r (cmd.args.take width) value) ∧
          (cmd.args.take width = r.bits → value < 2 ^ r.size →
            value = registerValue r (cmd.args.take width) value))
        c.commands groups := by
  have plain (cregs : List Register) : Context.extended ⟨"qelib1", cregs, []⟩ = false := rfl
  rw [Program.ofCircuit] at printed
  by_cases extension : needsExtension c "qelib1" = true
  · rw [if_pos extension] at printed
    cases printed
  rw [if_neg extension] at printed
  have ordinary : ∀ cmd ∈ c.commands, isExtendedOp cmd.op = false := by
    simpa [needsExtension] using extension
  obtain ⟨qregs, _, printed⟩ := bind_eq_ok.mp printed
  obtain ⟨cregs, _, printed⟩ := bind_eq_ok.mp printed
  obtain ⟨lines, written, same⟩ := bind_eq_ok.mp printed
  cases same
  obtain ⟨groups, together, each⟩ := allLines_groups (plain cregs) rfl ordinary written
  refine ⟨groups, together, ?_⟩
  have both := (List.forall₂_and_left c.commands groups).mpr ⟨accepted, each⟩
  refine both.imp ?_
  rintro ⟨op, args⟩ group ⟨accepted, lines⟩ width value inner rfl
  have accepts := (c.checkOp_eq_ok_iff _ _).mp accepted
  obtain ⟨_, r, known, declared, whole, first, rest, shape⟩ :=
    commandLines_conditional (plain cregs) rfl accepts.arity lines
  refine ⟨r, known, first, rest, shape, whole, meets_iff_number whole,
    holds_iff_meets declared whole, ?_⟩
  intro ordered small
  rw [ordered, registerValue_bits small]

def crossed : Circuit :=
  { Circuit.blank 1 2 with
    commands :=
      [⟨.conditional 2 1 (.gate .x []), [.bit 1, .bit 0, .qubit 0]⟩,
       ⟨.conditional 2 3 (.gate .y []), [.bit 1, .bit 0, .qubit 0]⟩] }

lemma ofCircuit_crossed : Program.ofCircuit crossed "qelib1" = .ok ⟨"qelib1", [⟨"q", 1⟩], [⟨"c", 2⟩],
    [⟨some ⟨.register "c", .eq, 1⟩, .gate "x" none [.qubit 0]⟩,
    ⟨some ⟨.register "c", .eq, 3⟩, .gate "y" none [.qubit 0]⟩]⟩ := by
  cbv

theorem ofCircuit_register_conditions_crossed :
    ∃ p, Program.ofCircuit crossed "qelib1" = .ok p ∧
      (¬∀ m : Memory, Test.holds p.cregs m ⟨.register "c", .eq, (1 : Nat)⟩ = true ↔
        Meets [.bit 1, .bit 0] 1 m) ∧
      ∀ m : Memory, Test.holds p.cregs m ⟨.register "c", .eq, (3 : Nat)⟩ = true ↔
        Meets [.bit 1, .bit 0] 3 m := by
  have accepted : ∀ cmd ∈ crossed.commands, crossed.checkOp cmd.op cmd.args = .ok () := by
    intro cmd member
    simp only [crossed, List.mem_cons, List.not_mem_nil, or_false] at member
    rcases member with rfl | rfl <;> rfl
  refine ⟨_, ofCircuit_crossed, ?_⟩
  obtain ⟨groups, _, each⟩ := ofCircuit_register_conditions accepted ofCircuit_crossed
  cases each with
  | cons first rest =>
    cases rest with
    | cons second none =>
      obtain ⟨r, known, _, _, _, _, _, right, _⟩ := first 2 1 _ rfl
      obtain rfl := List.mem_singleton.mp known
      obtain ⟨r', known', _, _, _, _, _, right', _⟩ := second 2 3 _ rfl
      obtain rfl := List.mem_singleton.mp known'
      exact ⟨fun wrong => absurd (right.mp wrong) (by decide), right'.mpr (by decide)⟩

end CircuitWorks.Qasm
