import CircuitWorks.Qasm.Export
import CircuitWorks.Proofs.Decompose.Circuits

/-!
Watching a circuit while it is written, and what the statements of an operation do: constants, logic on
bits, logic on registers, and gates.
-/

namespace CircuitWorks.Qasm

open List Execution Memory

def registerBits (cregs : List Register) (name : String) : List UnitId :=
  match cregs.find? (·.name = name) with
  | some r => r.bits
  | none => []

def Subject.bits (cregs : List Register) : Subject → List UnitId
  | .bit b => [b]
  | .register name => registerBits cregs name

def Test.holds (cregs : List Register) (m : Memory) (t : Test) : Bool :=
  t.comparator.holds (m.number (t.subject.bits cregs)) t.value

def store (m : Memory) (bits : List UnitId) (n : Nat) : Memory :=
  m.writeAll bits ((range bits.length).map n.testBit)

def draw (outcome : Nat → Bool) (m : Memory) (first : Nat) (bits : List UnitId) : Memory :=
  m.writeAll bits ((range bits.length).map fun i => outcome (first + i))

def combined (symbol : String) (x y : Nat) : Nat :=
  match symbol with
  | "&" => x &&& y
  | "|" => x ||| y
  | _ => x ^^^ y

def Statement.outputs (cregs : List Register) : Statement → List UnitId
  | .gate _ _ args => args.filter fun u => u.register ∈ cregs.map (·.name)
  | .measure _ b => [b]
  | _ => []

structure Player where
  memory : Memory
  drawn : Nat
  trace : List Statement

def Player.start (m : Memory) : Player := ⟨m, 0, []⟩

section

variable (cregs : List Register) (outcome : Nat → Bool)

def Statement.perform (t : Player) : Statement → Player
  | .assign target value => { t with memory := store t.memory (target.bits cregs) value }
  | .combine target left symbol right =>
    let x := t.memory.number (left.bits cregs)
    let y := t.memory.number (right.bits cregs)
    { t with memory := store t.memory (target.bits cregs) (combined symbol x y) }
  | st =>
    let bits := st.outputs cregs
    ⟨draw outcome t.memory t.drawn bits, t.drawn + bits.length, t.trace ++ [st]⟩

def performAll (statements : List Statement) (t : Player) : Player :=
  statements.foldl (fun t st => st.perform cregs outcome t) t

def Line.perform (t : Player) (l : Line) : Player :=
  match l.test with
  | some test => if test.holds cregs t.memory then l.statement.perform cregs outcome t else t
  | none => l.statement.perform cregs outcome t

def runLines (lines : List Line) (t : Player) : Player :=
  lines.foldl (fun t l => l.perform cregs outcome t) t

def testsAlong : List Line → Player → List Nat
  | [], _ => []
  | l :: rest, t =>
    (match l.test with | some test => [(test.holds cregs t.memory).toNat] | none => []) ++
      testsAlong rest (l.perform cregs outcome t)

end

def Program.run (p : Program) (outcome : Nat → Bool) (m : Memory) : Player :=
  runLines p.cregs outcome p.lines (.start m)

def Program.tests (p : Program) (outcome : Nat → Bool) (m : Memory) : List Nat :=
  testsAlong p.cregs outcome p.lines (.start m)

def firing (cmd : Command) (m : Memory) : List Nat :=
  match cmd.op with
  | .conditional width value _ => [(decide (m.number (cmd.args.take width) = value)).toNat]
  | _ => []

def spelled (e : Op × List UnitId) : List Statement :=
  match gateLine ⟨"hqslib1", [], []⟩ e.1 e.2 with
  | .ok statements => statements
  | .error _ => []

section

variable {cregs : List Register} {outcome : Nat → Bool} {bits : List UnitId} (m : Memory)

lemma runLines_append (first second : List Line) (t : Player) : runLines cregs outcome (first ++ second) t =
    runLines cregs outcome second (runLines cregs outcome first t) :=
  foldl_append

lemma testsAlong_append (first second : List Line) (t : Player) : testsAlong cregs outcome (first ++ second) t =
    testsAlong cregs outcome first t ++ testsAlong cregs outcome second (runLines cregs outcome first t) := by
  induction first generalizing t with
  | nil => rfl
  | cons l rest ih => simp only [cons_append, testsAlong, ih, append_assoc]; rfl

lemma plain_lines (statements : List Statement) (t : Player) :
    runLines cregs outcome (statements.map (⟨none, ·⟩)) t = performAll cregs outcome statements t ∧
    testsAlong cregs outcome (statements.map (⟨none, ·⟩)) t = [] := by
  constructor
  · rw [runLines, performAll, foldl_map]
    rfl
  · induction statements generalizing t with
    | nil => rfl
    | cons st rest ih => exact ih _

lemma store_of_not_mem (n : Nat) (absent : u ∉ bits) :
    store m bits n u = m u := m.writeAll_of_not_mem bits _ absent

lemma store_getElem (n : Nat) (distinct : bits.Nodup) (target : bits[i]? = some u) :
    store m bits n u = n.testBit i := by
  apply m.writeAll_getElem bits _ distinct i target
  have inside := (List.getElem?_eq_some_iff.mp target).1
  simp [inside]

lemma draw_of_not_mem (first : Nat) (absent : u ∉ bits) :
    draw outcome m first bits u = m u := m.writeAll_of_not_mem bits _ absent

lemma writeAll_congr {units : List UnitId} {values : List Bool} (enough : units.length ≤ values.length)
    (m m' : Memory) (written : u ∈ units ∨ m u = m' u) : m.writeAll units values u = m'.writeAll units values u := by
  induction units generalizing m m' values with
  | nil => simpa [writeAll] using written
  | cons v rest ih =>
    cases values with
    | nil => simp at enough
    | cons value values =>
      apply ih (by simpa using enough)
      by_cases same : u = v
      · subst same
        simp
      · rw [write_of_ne _ _ same, write_of_ne _ _ same]
        simpa [same] using written

lemma draw_congr (m' : Memory) (first : Nat) (mem : u ∈ bits) :
    draw outcome m first bits u = draw outcome m' first bits u :=
  writeAll_congr (by simp) m m' (.inl mem)

lemma draw_cons (first : Nat) (b : UnitId) (bits : List UnitId) :
    draw outcome m first (b :: bits) = draw outcome (m.write b (outcome first)) (first + 1) bits := by
  rw [draw, draw, length_cons, range_succ_eq_map, map_cons, map_map]
  simp only [writeAll, Nat.add_zero]
  congr 1
  apply map_congr_left
  intro i _
  simp only [Function.comp_apply]
  congr 1
  omega

lemma record_eq (s : Machine) (wires : List (UnitId × EdgeType)) : record outcome s wires = { s with
    memory := draw outcome s.memory s.drawn ((wires.filter (·.2 = .classical)).map (·.1))
    drawn := s.drawn + (wires.filter (·.2 = .classical)).length } := by
  induction wires generalizing s with
  | nil => rfl
  | cons w rest ih =>
    obtain ⟨u, e⟩ := w
    cases e with
    | classical =>
      rw [record, ih]
      simp only [decide_true, filter_cons_of_pos, map_cons, length_cons, draw_cons]
      congr 1
      omega
    | quantum =>
      rw [record, ih]
      · simp
      · simp
    | boolean =>
      rw [record, ih]
      · simp
      · simp

end

/-- What is known of the predicate that waits for a bit. -/
inductive Note where
  /-- There is none. -/
  | absent
  /-- It still gives the value of the bit. -/
  | kept (lower upper : Nat) (source : List UnitId)
  /-- It may no longer give the value of the bit. -/
  | lost
  deriving DecidableEq

structure Watch where
  stale : UnitId → Bool
  note : UnitId → Note

def Watch.start : Watch := ⟨fun _ => false, fun _ => .absent⟩

/-- The bits that an operation or its statements may write, and those of them in which circuit and
program agree afterwards. -/
structure Touch where
  bits : List UnitId
  exact : UnitId → Bool

def opOutputs (op : Op) (args : List UnitId) : List UnitId :=
  ((args.zip (op.signature args.length)).filter (·.2 = .classical)).map (·.1)

def operands (cregs : List Register) : List UnitId → Option (Register × Register × Register)
  | a :: b :: c :: _ => do
    let left ← cregs.find? (·.name = a.register)
    let right ← cregs.find? (·.name = b.register)
    if c.register ∈ [a.register, b.register] then return (left, right, right)
    let target ← cregs.find? (·.name = c.register)
    return (left, right, target)
  | _ => none

def isRegular (op : BitOperation) (inPlace : Bool) (count : Nat) (args : List UnitId)
    (left right target : Register) : Bool :=
  inPlace = decide (left = target ∨ right = target) &&
    args = Circuit.registerArgs op left right target count &&
    count ≤ left.size && count ≤ right.size && count ≤ target.size

def registerTouch (cregs : List Register) (stale : UnitId → Bool) (op : BitOperation) (inPlace : Bool)
    (count : Nat) (args : List UnitId) : Touch :=
  match operands cregs args with
  | none => ⟨args, fun _ => false⟩
  | some (left, right, target) =>
    if isRegular op inPlace count args left right target then
      ⟨target.bits, fun b => (List.range count).any fun i =>
        b = target.place i && !stale (left.place i) && !stale (right.place i)⟩
    else ⟨args ++ target.bits, fun _ => false⟩

/-- What an operation without condition touches. A barrier leaves bits as they are. -/
def touchOf (cregs : List Register) (stale : UnitId → Bool) : Op → List UnitId → Touch
  | .setBits _, args => ⟨args, fun _ => true⟩
  | .predicate _, [a, b, out] => ⟨[out], fun _ => !stale a && !stale b⟩
  | .modifier _, [a, out] => ⟨[out], fun _ => !stale a && !stale out⟩
  | .multiBit (.predicate op) count, args => registerTouch cregs stale op false count args
  | .multiBit (.modifier op) count, args => registerTouch cregs stale op true count args
  | .barrier signature, args => ⟨opOutputs (.barrier signature) args, fun b => !stale b⟩
  | op, args => ⟨opOutputs op args, fun _ => true⟩

/-- A predicate is lost when its bit or a bit that it reads is written. -/
def Note.touched (bits : List UnitId) (p : UnitId) : Note → Note
  | .kept lower upper source =>
    if p ∈ bits ∨ ∃ b ∈ source, b ∈ bits then .lost else .kept lower upper source
  | note => note

/-- The watch after an operation, which under a condition may not have been executed. -/
def Watch.touch (w : Watch) (conditional : Bool) (touch : Touch) : Watch where
  stale b := if b ∈ touch.bits then !touch.exact b || (conditional && w.stale b) else w.stale b
  note p := (w.note p).touched touch.bits p

def Watch.await (w : Watch) (target : UnitId) (lower upper : Nat) (source : List UnitId) : Watch where
  stale b := if b = target then true else w.stale b
  note p := if p = target then if source.any w.stale then .lost else .kept lower upper source
    else w.note p

def Watch.used (w : Watch) (control : UnitId) : Watch :=
  { w with note := fun p => if p = control then .absent else w.note p }

def Watch.step (cregs : List Register) (w : Watch) (cmd : Command) : Watch :=
  match cmd.op with
  | .range lower upper _ =>
    match cmd.args.getLast? with
    | some target => w.await target lower upper cmd.args.dropLast
    | none => w
  | .conditional _ _ op =>
    match cmd.args with
    | control :: args => (w.used control).touch true (touchOf cregs w.stale op args)
    | [] => w
  | op => w.touch false (touchOf cregs w.stale op cmd.args)

/-- Whether the test for a bit and a value is right. A waiting predicate must read a whole register;
its test is not negated unless it is an equation, and a register of more than 32 bits may exceed the
greatest bound. -/
def Watch.tells (cregs : List Register) (w : Watch) (value : Nat) (control : UnitId) : Bool :=
  match w.note control with
  | .absent => !w.stale control
  | .kept lower upper source =>
    (value = 1 || lower = upper) && source = registerBits cregs (source.headD control).register &&
      (lower = upper || lower = 0 || source.length ≤ 32)
  | .lost => false

def isAlone (cregs : List Register) : Op → List UnitId → Bool
  | .setBits _, args =>
    args.length = 1 || UnitId.sort args = registerBits cregs (args.headD default).register
  | _, _ => true

/-- Whether a command is written with its meaning. -/
def Watch.admits (cregs : List Register) (w : Watch) (cmd : Command) : Bool :=
  match cmd.op, cmd.args with
  | .conditional _ value op, control :: args => w.tells cregs value control && isAlone cregs op args
  | _, _ => true

def Watch.admitsAll (cregs : List Register) : Watch → List Command → Bool
  | _, [] => true
  | w, cmd :: rest => w.admits cregs cmd && (w.step cregs cmd).admitsAll cregs rest

def Watch.after (cregs : List Register) (w : Watch) (commands : List Command) : Watch :=
  commands.foldl (Watch.step cregs) w

abbrev Pending := List (UnitId × Nat × Nat × List UnitId)

/-- What a note means, of the waiting predicates and of the memories of circuit and program. -/
def Note.Holds (pending : Pending) (p : UnitId) (m n : Memory) : Note → Prop
  | .absent => pending.lookup p = none
  | .kept lower upper source => pending.lookup p = some (lower, upper, source) ∧
      m p = decide (lower ≤ n.number source ∧ n.number source ≤ upper)
  | .lost => True

/-- A program that follows a circuit. -/
structure Follows (pending : Pending) (w : Watch) (s : Machine) (t : Player) : Prop where
  memory : ∀ b, w.stale b = false → t.memory b = s.memory b
  notes : ∀ p, (w.note p).Holds pending p s.memory t.memory
  drawn : t.drawn = s.drawn
  trace : t.trace = s.trace.flatMap spelled

structure Carried (touch : Touch) (s s' : Machine) (t t' : Player) : Prop where
  circuit : ∀ u, u ∉ touch.bits → s'.memory u = s.memory u
  program : ∀ u, u ∉ touch.bits → t'.memory u = t.memory u
  exact : ∀ u ∈ touch.bits, touch.exact u = true → t'.memory u = s'.memory u
  drawn : t'.drawn = s'.drawn
  trace : t'.trace = s'.trace.flatMap spelled

section

variable {pending : Pending} {touch : Touch}

lemma Note.Holds.touched {note : Note} {bits : List UnitId}
    (holds : note.Holds pending p m n) (circuit : ∀ u, u ∉ bits → m' u = m u)
    (program : ∀ u, u ∉ bits → n' u = n u) : (note.touched bits p).Holds pending p m' n' := by
  cases note with
  | absent => exact holds
  | lost => trivial
  | kept lower upper source =>
    rw [Note.touched]
    split_ifs with written
    · trivial
    · rw [not_or, not_exists] at written
      have apart : ∀ b ∈ source, n' b = n b := by
        intro b mem
        exact program b fun inside => written.2 b ⟨mem, inside⟩
      refine ⟨holds.1, ?_⟩
      rw [circuit p written.1, number_congr source apart]
      exact holds.2

section

variable (follows : Follows pending w s t)

include follows

lemma Follows.carry (carried : Carried touch s s' t t') (conditional : Bool) :
    Follows pending (w.touch conditional touch) s' t' where
  memory b fresh := by
    rw [Watch.touch] at fresh
    dsimp only at fresh
    split_ifs at fresh with inside
    · have exact : touch.exact b = true := by simp_all
      exact carried.exact b inside exact
    · rw [carried.circuit b inside, carried.program b inside]
      exact follows.memory b fresh
  notes p := (follows.notes p).touched carried.circuit carried.program
  drawn := carried.drawn
  trace := carried.trace

lemma Follows.skip (touch : Touch) : Follows pending (w.touch true touch) s t where
  memory b fresh := by
    apply follows.memory
    rw [Watch.touch] at fresh
    dsimp only at fresh
    split_ifs at fresh
    · simp_all
    · exact fresh
  notes p := (follows.notes p).touched (fun _ _ => rfl) fun _ _ => rfl
  drawn := follows.drawn
  trace := follows.trace

lemma Follows.used (control : UnitId) : Follows (pending.filter (·.1 ≠ control)) (w.used control) s t where
  memory := follows.memory
  notes p := by
    have holds := follows.notes p
    rw [Watch.used]
    dsimp only
    split_ifs with same
    · rw [Note.Holds, lookup_filter_ne, if_pos same]
    · cases note : w.note p <;> rw [note] at holds
      · rw [Note.Holds, lookup_filter_ne, if_neg same]
        exact holds
      · rw [Note.Holds, lookup_filter_ne, if_neg same]
        exact holds
      · trivial
  drawn := follows.drawn
  trace := follows.trace

lemma Follows.unused {control : UnitId} (none : pending.lookup control = none) :
    Follows pending (w.used control) s t where
  memory := follows.memory
  notes p := by
    rw [Watch.used]
    dsimp only
    split_ifs with same
    · exact same ▸ none
    · exact follows.notes p
  drawn := follows.drawn
  trace := follows.trace

lemma Follows.await (target : UnitId) (lower upper : Nat) (source : List UnitId) :
    Follows ((target, lower, upper, source) :: pending.filter (·.1 ≠ target)) (w.await target lower upper source)
    ⟨s.memory.write target (decide (lower ≤ s.memory.number source ∧ s.memory.number source ≤ upper)), s.drawn, s.trace⟩
    t where
  memory b fresh := by
    rw [Watch.await] at fresh
    dsimp only at fresh
    split_ifs at fresh with same
    exact (follows.memory b fresh).trans (write_of_ne _ _ same).symm
  notes p := by
    rw [Watch.await]
    dsimp only
    split_ifs with same stale
    · trivial
    · -- the circuit evaluates the predicate now, the program later, on the same bits
      subst same
      have fresh : ∀ b ∈ source, s.memory b = t.memory b := by
        intro b mem
        refine (follows.memory b ?_).symm
        simpa using any_eq_false.mp (Bool.eq_false_iff.mpr stale) b mem
      refine ⟨by simp, ?_⟩
      rw [write_same, number_congr source fresh]
    · have holds := follows.notes p
      have later : ((target, lower, upper, source) :: pending.filter (·.1 ≠ target)).lookup p =
          pending.lookup p := by
        rw [lookup_cons, beq_false_of_ne same, lookup_filter_ne, if_neg same]
      cases note : w.note p <;> rw [note] at holds
      · exact later.trans holds
      · exact ⟨later.trans holds.1, (write_of_ne _ _ same).trans holds.2⟩
      · trivial
  drawn := follows.drawn
  trace := follows.trace

end

end

open Circuit Bool

variable {name symbol : String} {r : Register} {values : List Bool} {stale : UnitId → Bool} {s : Machine}
    {t : Player} (m : Memory) (pairs : List (UnitId × Bool))

def bareOp : Op → Op
  | .conditional _ _ op => op
  | op => op

/-- What building a circuit ensures of a command: it acts on units of the right kinds, and barriers do
not read bits. -/
structure Sits (c : Circuit) (cmd : Command) : Prop where
  accepts : c.Accepts cmd.op cmd.args
  barrier : ∀ signature, bareOp cmd.op = .barrier signature → .boolean ∉ signature

/-- What is left of that for an operation without its condition, which may have no arguments. -/
structure Fits (c : Circuit) (op : Op) (args : List UnitId) : Prop where
  arity : args.length = (op.signature args.length).length
  once : (written (args.zip (op.signature args.length))).Nodup
  kinds : ∀ w ∈ args.zip (op.signature args.length), c.kindOf? w.1 = some w.2.kind
  barrier : ∀ signature, op = .barrier signature → .boolean ∉ signature

/-- The context in which a circuit is written: it knows the registers, none of which holds qubits. -/
structure Suits (c : Circuit) (ctx : Context) : Prop where
  header : ctx.header = "hqslib1"
  cregs : ctx.cregs = spanned c.bits
  apart : Decompose.KindsApart c

section

variable {op : Op} {args : List UnitId}

lemma Sits.fits (sits : Sits c ⟨op, args⟩) (bare : bareOp op = op) : Fits c op args where
  arity := sits.accepts.arity
  once := sits.accepts.once
  kinds := sits.accepts.kinds
  barrier := by
    rw [← bare]
    exact sits.barrier

lemma Sits.conditional {width value : Nat} (sits : Sits c ⟨.conditional width value op, args⟩) :
    Fits c op (args.drop width) := by
  have arity := sits.accepts.arity
  simp only [Op.signature, length_append, length_replicate] at arity
  have length : (args.drop width).length = args.length - width := length_drop
  have wires : args.zip ((Op.conditional width value op).signature args.length) =
      (args.take width).zip (replicate width .boolean) ++
        (args.drop width).zip (op.signature (args.drop width).length) := by
    have front : (args.take width).length = (replicate width EdgeType.boolean).length := by
      rw [length_take, length_replicate]
      omega
    rw [Op.signature, ← length, ← zip_append front, take_append_drop]
  have front : written ((args.take width).zip (replicate width .boolean)) = [] := by
    rw [written, filter_eq_nil_iff.mpr, map_nil]
    intro w mem
    have read := eq_of_mem_replicate (of_mem_zip mem).2
    simp [read]
  have once := sits.accepts.once
  have kinds := sits.accepts.kinds
  rw [wires] at once kinds
  refine ⟨by rw [length]; omega, ?_, ?_, sits.barrier⟩
  · rw [written_append, front, nil_append] at once
    exact once
  · intro w mem
    exact kinds w (mem_append_right _ mem)

end

section

variable {pairs : List (UnitId × Bool)}

lemma writeAll_of_mem (distinct : (pairs.map (·.1)).Nodup) (mem : e ∈ pairs) :
    m.writeAll (pairs.map (·.1)) (pairs.map (·.2)) e.1 = e.2 := by
  obtain ⟨i, inside, same⟩ := getElem_of_mem mem
  apply m.writeAll_getElem _ _ distinct i <;> simp [inside, same]

lemma writeAll_perm {others : List (UnitId × Bool)} (perm : pairs.Perm others)
    (distinct : (pairs.map (·.1)).Nodup) : m.writeAll (pairs.map (·.1)) (pairs.map (·.2)) =
    m.writeAll (others.map (·.1)) (others.map (·.2)) := by
  have names := perm.map (·.1)
  funext u
  by_cases written : u ∈ pairs.map (·.1)
  · obtain ⟨e, mem, rfl⟩ := mem_map.mp written
    rw [writeAll_of_mem m distinct mem, writeAll_of_mem m (names.nodup_iff.mp distinct) (perm.mem_iff.mp mem)]
  · rw [m.writeAll_of_not_mem _ _ written, m.writeAll_of_not_mem _ _ (names.mem_iff.not.mp written)]

def numberOf (pairs : List (UnitId × Bool)) : Nat :=
  pairs.foldr (fun e acc => 2 * acc + (if e.2 then 1 else 0)) 0

lemma testBit_numberOf (i : Nat) : (numberOf pairs).testBit i = (pairs[i]?.map (·.2)).getD false := by
  induction pairs generalizing i with
  | nil => simp [numberOf]
  | cons e rest ih =>
    have step : numberOf (e :: rest) = 2 * numberOf rest + (if e.2 then 1 else 0) := rfl
    rw [step]
    cases i with
    | zero => cases value : e.2 <;> simp [Nat.testBit_zero, value]
    | succ i =>
      rw [Nat.testBit_add_one, getElem?_cons_succ, ← ih]
      congr 1
      split <;> omega

lemma store_numberOf :
    store m (pairs.map (·.1)) (numberOf pairs) = m.writeAll (pairs.map (·.1)) (pairs.map (·.2)) := by
  rw [store]
  congr 1
  apply ext_getElem
  · simp
  · intro i first second
    have inside : i < pairs.length := by simpa using second
    simp [testBit_numberOf, inside]

lemma performAll_assign (cregs : List Register) (outcome : Nat → Bool)
    (pairs : List (UnitId × Bool)) (t : Player) :
    performAll cregs outcome (pairs.map fun e => .assign (.bit e.1) (if e.2 then 1 else 0)) t =
    { t with memory := t.memory.writeAll (pairs.map (·.1)) (pairs.map (·.2)) } := by
  induction pairs generalizing t with
  | nil => rfl
  | cons e rest ih =>
    have first : (Statement.assign (.bit e.1) (if e.2 then 1 else 0)).perform cregs outcome t =
        { t with memory := t.memory.write e.1 e.2 } := by
      cases value : e.2 <;> simp [Statement.perform, Subject.bits, store, writeAll]
    change performAll cregs outcome _ (Statement.perform cregs outcome t _) = _
    rw [first, ih]
    rfl

variable {ctx : Context}

lemma register_eq_ok (found : ctx.register name = .ok r) :
    r.name = name ∧ ctx.cregs.find? (·.name = name) = some r := by
  rw [Context.register] at found
  split at found
  · next r' same =>
      cases found
      exact ⟨by simpa using find?_some same, same⟩
  · cases found

lemma registerBits_of_find? {cregs : List Register}
    (found : cregs.find? (·.name = name) = some r) : registerBits cregs name = r.bits := by
  rw [registerBits, found]

variable {sts : List Statement}

lemma performAll_setBits {args : List UnitId}
    (lengths : args.length = values.length) (distinct : args.Nodup)
    (printed : setBitsLines ctx values args = .ok sts) (outcome : Nat → Bool) (t : Player) :
    performAll ctx.cregs outcome sts t = { t with memory := t.memory.writeAll args values } ∧
    (isAlone ctx.cregs (.setBits values) args = true → ∃ st, sts = [st]) := by
  -- the values are sorted by bit before they are written
  let pairs := (args.zip values).mergeSort fun a b => a.1.le b.1
  have perm : pairs.Perm (args.zip values) := mergeSort_perm _ _
  have names : (args.zip values).map (·.1) = args := map_fst_zip (Nat.le_of_eq lengths)
  have digits : (args.zip values).map (·.2) = values := map_snd_zip (Nat.le_of_eq lengths.symm)
  have sorted : pairs.map (·.1) = UnitId.sort args := by
    rw [UnitId.sort, ← names]
    exact map_mergeSort fun _ _ _ _ => rfl
  have apart : (pairs.map (·.1)).Nodup := by
    rw [(perm.map (·.1)).nodup_iff, names]
    exact distinct
  have memory := writeAll_perm t.memory perm apart
  rw [names, digits] at memory
  cases args with
  | nil => cases printed
  | cons first rest =>
    obtain ⟨register, found, printed⟩ := bind_eq_ok.mp printed
    obtain ⟨named, declared⟩ := register_eq_ok found
    have bits := registerBits_of_find? declared
    by_cases whole : pairs.map (·.1) = register.bits
    · have one : sts = [.assign (.register register.name) (numberOf pairs)] := by
        rw [if_pos whole] at printed
        exact (Except.ok.inj printed).symm
      refine ⟨?_, fun _ => ⟨_, one⟩⟩
      rw [one, ← memory, ← store_numberOf, whole, ← bits, ← named]
      rfl
    · have each : sts = pairs.map fun e => .assign (.bit e.1) (if e.2 then 1 else 0) := by
        rw [if_neg whole] at printed
        exact (Except.ok.inj printed).symm
      constructor
      · rw [each, performAll_assign, memory]
      · intro alone
        rw [isAlone, ← sorted, headD_cons, bits, decide_eq_false whole, Bool.or_false] at alone
        have length : pairs.length = 1 := by
          rw [perm.length_eq, length_zip, ← lengths, Nat.min_self]
          simpa using alone
        obtain ⟨e, single⟩ := length_eq_one_iff.mp length
        exact ⟨_, by rw [each, single]; rfl⟩

end

section

variable {op : BitOperation} {symbol : String}

lemma testBit_combined (named : logicSymbol op = .ok symbol) (x y i : Nat) :
    (combined symbol x y).testBit i = op.apply (x.testBit i) (y.testBit i) := by
  cases op with
  | not => cases named
  | and =>
    cases named
    exact Nat.testBit_and x y i
  | or =>
    cases named
    exact Nat.testBit_or x y i
  | xor =>
    cases named
    exact Nat.testBit_xor x y i

lemma combineLine_eq_ok {operands : List Subject} (printed : combineLine op operands = .ok sts) :
    ∃ symbol left right rest target, logicSymbol op = .ok symbol ∧ operands = left :: right :: rest ∧
    operands.getLast? = some target ∧ sts = [.combine target left symbol right] := by
  obtain ⟨symbol, named, printed⟩ := bind_eq_ok.mp printed
  split at printed
  · cases printed
    exact ⟨symbol, _, _, _, _, named, rfl, by assumption, rfl⟩
  · cases printed

lemma perform_combine_bits (named : logicSymbol op = .ok symbol) (cregs : List Register)
    (outcome : Nat → Bool) (a b out : UnitId) (t : Player) :
    (Statement.combine (.bit out) (.bit a) symbol (.bit b)).perform cregs outcome t =
    { t with memory := t.memory.write out (op.apply (t.memory a) (t.memory b)) } := by
  have digit := testBit_combined named (t.memory.number [a]) (t.memory.number [b]) 0
  rw [testBit_number, testBit_number] at digit
  simp only [Statement.perform, Subject.bits, store, length_singleton, range_one, map_cons, map_nil, writeAll, digit]
  rfl

end

section

variable {op : BitOperation} {cregs : List Register} {args : List UnitId}

def logicForm (op : BitOperation) (inPlace : Bool) : Op :=
  if inPlace then .modifier op else .predicate op

variable {u : UnitId} {inPlace : Bool} {count : Nat} {left right target : Register}

lemma effect_logicForm_frame (inPlace : Bool) (m : Memory) (absent : u ∉ args) :
    effect (logicForm op inPlace) args m u = m u := by
  unfold logicForm
  cases inPlace with
  | true =>
    rcases args with _ | ⟨a, _ | ⟨out, _ | _⟩⟩ <;> simp only [if_true, effect]
    exact write_of_ne _ _ (by simp_all)
  | false =>
    rcases args with _ | ⟨a, _ | ⟨b, _ | ⟨out, _ | _⟩⟩⟩ <;> cases op <;>
      simp only [false_eq_true, if_false, effect] <;>
      exact write_of_ne _ _ (by simp_all)

lemma effect_multiBit_frame (inPlace : Bool) (count : Nat) (m : Memory) (absent : u ∉ args) :
    effect (.multiBit (logicForm op inPlace) count) args m u = m u := by
  rw [effect]
  generalize range count = indices
  induction indices generalizing m with
  | nil => rfl
  | cons i rest ih =>
    rw [foldl_cons, ih]
    apply effect_logicForm_frame
    exact fun inside => absent (mem_of_mem_drop (mem_of_mem_take inside))

lemma getElem?_bits (inside : i < r.size) : r.bits[i]? = some (r.place i) := by
  simp [Register.bits, Register.place, inside]

def registersLine (ctx : Context) (op : BitOperation) (args : List UnitId) :
    Except ExportError (List Statement) := do
  let names ← involved args
  let registers ← names.mapM ctx.register
  combineLine op (registers.map fun r => .register r.name)

lemma registersLine_eq_ok (printed : registersLine ctx op args = .ok sts) :
    ∃ left right target symbol, operands ctx.cregs args = some (left, right, target) ∧ logicSymbol op = .ok symbol ∧
    sts = [.combine (.register target.name) (.register left.name) symbol (.register right.name)] ∧
    ∀ r ∈ [left, right, target], registerBits ctx.cregs r.name = r.bits := by
  obtain ⟨names, start, printed⟩ := bind_eq_ok.mp printed
  obtain ⟨registers, found, combines⟩ := bind_eq_ok.mp printed
  obtain ⟨symbol, l, r, others, last, named, shape, final, rfl⟩ := combineLine_eq_ok combines
  have declared {name : String} {r : Register} (found : ctx.register name = .ok r) :
      registerBits ctx.cregs r.name = r.bits := by
    obtain ⟨same, stored⟩ := register_eq_ok found
    rw [same]
    exact registerBits_of_find? stored
  rcases args with _ | ⟨a, _ | ⟨b, _ | ⟨c, rest⟩⟩⟩
  · cases start
  · cases start
  · cases start
  -- the third argument tells whether the target is one of the operands
  by_cases again : c.register ∈ [a.register, b.register]
  · rw [involved, if_pos again] at start
    cases start
    obtain ⟨left, _, first, later, rfl⟩ := mapM_cons_eq_ok found
    obtain ⟨right, _, second, none, rfl⟩ := mapM_cons_eq_ok later
    cases none
    refine ⟨left, right, right, symbol, ?_, named, ?_, ?_⟩
    · rw [operands, (register_eq_ok first).2, (register_eq_ok second).2]
      exact if_pos again
    · cases shape
      cases final
      rfl
    · simp [declared first, declared second]
  · rw [involved, if_neg again] at start
    cases start
    obtain ⟨left, _, first, later, rfl⟩ := mapM_cons_eq_ok found
    obtain ⟨right, _, second, latest, rfl⟩ := mapM_cons_eq_ok later
    obtain ⟨target, _, third, none, rfl⟩ := mapM_cons_eq_ok latest
    cases none
    refine ⟨left, right, target, symbol, ?_, named, ?_, ?_⟩
    · rw [operands, (register_eq_ok first).2, (register_eq_ok second).2, (register_eq_ok third).2]
      exact if_neg again
    · cases shape
      cases final
      rfl
    · simp [declared first, declared second, declared third]

lemma effect_regular (binary : op ≠ .not)
    (regular : isRegular op inPlace count args left right target = true) (m : Memory) :
    effect (.multiBit (logicForm op inPlace) count) args m =
    (range count).foldl (combineAt op left right target) m := by
  simp only [isRegular, and_eq_true, decide_eq_true_eq] at regular
  obtain ⟨⟨⟨⟨form, rfl⟩, _⟩, _⟩, _⟩ := regular
  have same : logicForm op inPlace = (binaryForm op left right target).1 := by
    unfold logicForm binaryForm
    split_ifs <;> simp_all
  rw [same]
  exact effect_registerBinary binary left right target count m

lemma perform_combine_registers (named : logicSymbol op = .ok symbol)
    (declared : ∀ r ∈ [left, right, target], registerBits cregs r.name = r.bits) (outcome : Nat → Bool) (t : Player) :
    ∃ n, (Statement.combine (.register target.name) (.register left.name) symbol
    (.register right.name)).perform cregs outcome t = { t with memory := store t.memory target.bits n } ∧
    ∀ i, i < left.size → i < right.size →
    n.testBit i = op.apply (t.memory (left.place i)) (t.memory (right.place i)) := by
  refine ⟨combined symbol (t.memory.number left.bits) (t.memory.number right.bits), ?_, ?_⟩
  · simp only [Statement.perform, Subject.bits, declared left (by simp), declared right (by simp),
      declared target (by simp)]
  · intro i first second
    rw [testBit_combined named, testBit_number, testBit_number, getElem?_bits first, getElem?_bits second]
    rfl

lemma carried_registers (printed : registersLine ctx op args = .ok sts)
    (fresh : ∀ b, stale b = false → t.memory b = s.memory b) (drawn : t.drawn = s.drawn)
    (trace : t.trace = s.trace.flatMap spelled) (outcome : Nat → Bool) :
    Carried (registerTouch ctx.cregs stale op inPlace count args) s
    { s with memory := effect (.multiBit (logicForm op inPlace) count) args s.memory } t
    (performAll ctx.cregs outcome sts t) := by
  obtain ⟨left, right, target, symbol, found, named, rfl, declared⟩ := registersLine_eq_ok printed
  obtain ⟨n, done, digits⟩ := perform_combine_registers named declared outcome t
  have binary : op ≠ .not := by
    rintro rfl
    cases named
  have whole : performAll ctx.cregs outcome [.combine (.register target.name) (.register left.name)
      symbol (.register right.name)] t = { t with memory := store t.memory target.bits n } := done
  rw [whole, registerTouch, found]
  dsimp only
  split_ifs with regular
  · have effect := effect_regular binary regular s.memory
    simp only [isRegular, and_eq_true, decide_eq_true_eq] at regular
    refine ⟨?_, ?_, ?_, drawn, trace⟩
    · intro u absent
      rw [effect]
      apply combineAt_frame
      intro i below same
      exact absent (Decompose.mem_bits.mpr ⟨i, by have := mem_range.mp below; omega, same⟩)
    · intro u absent
      exact store_of_not_mem t.memory n absent
    · intro u _ exact_
      obtain ⟨i, below, same⟩ := any_eq_true.mp exact_
      simp only [and_eq_true, decide_eq_true_eq, not_eq_true'] at same
      obtain ⟨⟨rfl, one⟩, other⟩ := same
      have inside := mem_range.mp below
      dsimp only
      rw [effect, combineAt_value op left right target _ _ nodup_range below,
        store_getElem t.memory n (Decompose.bits_nodup target) (getElem?_bits (by omega)),
        digits i (by omega) (by omega), fresh _ one, fresh _ other]
  · -- nothing is known of the bits that either may write
    refine ⟨?_, ?_, nofun, drawn, trace⟩
    · intro u absent
      exact effect_multiBit_frame inPlace count s.memory fun inside =>
        absent (mem_append_left _ inside)
    · intro u absent
      exact store_of_not_mem t.memory n fun inside => absent (mem_append_right _ inside)

end

section

variable {ctx : Context} {op : Op} {args : List UnitId} {sts : List Statement}

lemma mem_names_spanned {units : List UnitId} :
    name ∈ (spanned units).map (·.name) ↔ ∃ u ∈ units, u.register = name := by
  induction units with
  | nil => simp [spanned]
  | cons u rest ih =>
    rw [spanned, exists_mem_cons_iff, ← ih]
    cases found : spanned rest with
    | nil => grind
    | cons r others =>
      dsimp only
      split_ifs with same
      · grind
      · grind

lemma filter_eq_opOutputs (fits : Fits c op args) (suits : Suits c ctx) (acts : .boolean ∉ op.signature args.length) :
    args.filter (fun u => u.register ∈ ctx.cregs.map (·.name)) = opOutputs op args := by
  have kinds : ∀ w ∈ args.zip (op.signature args.length),
      decide (w.1.register ∈ ctx.cregs.map (·.name)) = decide (w.2 = .classical) := by
    intro w mem
    have kind := fits.kinds w mem
    rw [decide_eq_decide, suits.cregs, mem_names_spanned]
    cases wire : w.2 with
    | boolean => exact absurd (wire ▸ (of_mem_zip mem).2) acts
    | classical =>
      rw [wire] at kind
      have bit := (kindOf?_eq_bit.mp kind).2
      exact ⟨fun _ => rfl, fun _ => ⟨_, bit, rfl⟩⟩
    | quantum =>
      rw [wire] at kind
      have qubit := kindOf?_eq_qubit.mp kind
      refine ⟨?_, nofun⟩
      rintro ⟨b, bit, same⟩
      exact absurd same.symm (suits.apart _ qubit b bit)
  have names : (args.zip (op.signature args.length)).map (·.1) = args :=
    map_fst_zip (Nat.le_of_eq fits.arity)
  rw [opOutputs, ← filter_congr kinds]
  conv_lhs => rw [← names]
  rw [filter_map]
  rfl

def isNamed (type : OpType) : Bool := (plainName? type).isSome || (paramName? type).isSome

def namedLine (ctx : Context) (type : OpType) (args : List UnitId) (name : String)
    (params : Option (List Amount)) : Except ExportError (List Statement) :=
  match headerNames? ctx.header with
  | none => throw .unknownHeader
  | some names => do
    if name ∉ names then throw (.gateHeader name ctx.header)
    match type, args with
    | .measure, [q, b] => return [.measure q b]
    | _, _ => return [.gate name params args]

variable {type : OpType}

lemma namedLine_eq_ok {params : Option (List Amount)} (printed : namedLine ctx type args name params = .ok sts) :
    (∃ name params, sts = [.gate name params args]) ∨
    type = .measure ∧ ∃ q b, args = [q, b] ∧ sts = [.measure q b] := by
  unfold namedLine at printed
  split at printed
  · cases printed
  · dsimp only at printed
    split_ifs at printed
    · split at printed
      · cases printed
        exact .inr ⟨rfl, _, _, rfl, rfl⟩
      · cases printed
        exact .inl ⟨_, _, rfl⟩
    · cases printed

lemma gateLine_eq_ok (printed : gateLine ctx op args = .ok sts) : isNamed (writtenForm op).1 = true ∧
    ((∃ name params, sts = [.gate name params args]) ∨
    (writtenForm op).1 = .measure ∧ ∃ q b, args = [q, b] ∧ sts = [.measure q b]) := by
  rw [gateLine] at printed
  dsimp only at printed
  split at printed
  · next name plain => exact ⟨by simp [isNamed, plain], namedLine_eq_ok printed⟩
  · next name _ named => exact ⟨by simp [isNamed, named], namedLine_eq_ok printed⟩
  · cases printed

lemma gate_or_barrier (named : isNamed (writtenForm op).1 = true) :
    (∃ type params, op = .gate type params) ∨ ∃ signature, op = .barrier signature := by
  cases op with
  | gate type params => exact .inl ⟨type, params, rfl⟩
  | barrier signature => exact .inr ⟨signature, rfl⟩
  | unitary matrix =>
    simp only [writtenForm, Op.type] at named
    split_ifs at named <;> exact absurd named (by decide)
  | _ => cases named

lemma not_reads {params : List Amount} (named : isNamed (writtenForm (.gate type params)).1 = true) (count : Nat) :
    .boolean ∉ (Op.gate type params).signature count := by
  have all : ∀ type ∈ OpType.all, (isNamed type = true ∨ type = .tk1) →
      .boolean ∉ type.signature.getD [] := by decide
  have listed : type ∈ OpType.all := by cases type <;> decide
  -- the general rotation is written under the name of another gate
  have known : isNamed type = true ∨ type = .tk1 := by
    by_cases euler : type = .tk1
    · exact .inr euler
    · have same : (writtenForm (.gate type params)).1 = type := by
        unfold writtenForm
        split <;> simp_all [Op.type]
      rw [same] at named
      exact .inl named
  have free := all type listed known
  rw [Op.signature]
  cases wires : type.signature with
  | none => simp [mem_replicate]
  | some wires' => simpa [wires] using free

lemma perform_gate (outcome : Nat → Bool) (s : Machine)
    (shape : (∃ type params, op = .gate type params) ∨ ∃ signature, op = .barrier signature) :
    perform outcome op args s =
    ⟨draw outcome s.memory s.drawn (opOutputs op args), s.drawn + (opOutputs op args).length,
    s.trace ++ [(op, args)]⟩ := by
  have general : perform outcome op args s =
      { record outcome s (args.zip (op.signature args.length)) with
        trace := s.trace ++ [(op, args)] } := by
    rcases shape with ⟨type, params, rfl⟩ | ⟨signature, rfl⟩ <;> rfl
  rw [general, record_eq, opOutputs, length_map]

lemma performAll_gate (fits : Fits c op args) (suits : Suits c ctx)
    (printed : gateLine ctx op args = .ok sts) (outcome : Nat → Bool) (t : Player) :
    performAll ctx.cregs outcome sts t =
    ⟨draw outcome t.memory t.drawn (opOutputs op args), t.drawn + (opOutputs op args).length, t.trace ++ sts⟩ := by
  obtain ⟨named, form⟩ := gateLine_eq_ok printed
  have shape := gate_or_barrier named
  rcases form with ⟨name, params, rfl⟩ | ⟨measure, q, b, rfl, rfl⟩
  · have acts : .boolean ∉ op.signature args.length := by
      rcases shape with ⟨type, params, rfl⟩ | ⟨signature, rfl⟩
      · exact not_reads named args.length
      · exact fits.barrier signature rfl
    rw [← filter_eq_opOutputs fits suits acts]
    rfl
  · have wires : opOutputs op [q, b] = [b] := by
      rcases shape with ⟨type, params, rfl⟩ | ⟨signature, rfl⟩
      · have same : type = .measure := by
          unfold writtenForm at measure
          split at measure
          · cases measure
          · exact measure
        rw [same]
        rfl
      · cases measure
    rw [wires]
    rfl

lemma carried_gate (fits : Fits c op args) (suits : Suits c ctx)
    (printed : gateLine ctx op args = .ok sts) (drawn : t.drawn = s.drawn)
    (trace : t.trace = s.trace.flatMap spelled) (outcome : Nat → Bool) (exact_ : UnitId → Bool) :
    Carried ⟨opOutputs op args, exact_⟩ s (perform outcome op args s) t (performAll ctx.cregs outcome sts t) := by
  have shape := gate_or_barrier (gateLine_eq_ok printed).1
  have spelling : spelled (op, args) = sts := by
    have same : gateLine ⟨"hqslib1", [], []⟩ op args = .ok sts := by
      rw [← printed, ← suits.header]
      rfl
    rw [spelled, same]
  rw [performAll_gate fits suits printed, perform_gate outcome s shape]
  refine ⟨?_, ?_, ?_, ?_, ?_⟩
  · intro u absent
    exact draw_of_not_mem s.memory s.drawn absent
  · intro u absent
    exact draw_of_not_mem t.memory t.drawn absent
  · intro u mem _
    rw [drawn]
    exact draw_congr t.memory s.memory s.drawn mem
  · dsimp only
    rw [drawn]
  · dsimp only
    rw [trace, flatMap_append, flatMap_singleton, spelling]

end

section

variable {args : List UnitId} {ctx : Context} {sts : List Statement}

lemma fits_setBits (fits : Fits c (.setBits values) args) : args.length = values.length ∧ args.Nodup := by
  have arity := fits.arity
  have once := fits.once
  rw [Op.signature] at arity once
  rw [length_replicate] at arity
  refine ⟨arity, ?_⟩
  have all : ∀ w ∈ args.zip (replicate values.length EdgeType.classical), w.2 ≠ .boolean := by
    intro w mem
    rw [eq_of_mem_replicate (of_mem_zip mem).2]
    decide
  rw [written, filter_eq_self.mpr (by simpa using all), map_fst_zip (by simp [arity])] at once
  exact once

lemma carried_setBits (fits : Fits c (.setBits values) args) (printed : setBitsLines ctx values args = .ok sts)
    (drawn : t.drawn = s.drawn) (trace : t.trace = s.trace.flatMap spelled) (outcome : Nat → Bool) :
    Carried ⟨args, fun _ => true⟩ s { s with memory := effect (.setBits values) args s.memory } t
    (performAll ctx.cregs outcome sts t) := by
  obtain ⟨len, nodup⟩ := fits_setBits fits
  rw [(performAll_setBits len nodup printed outcome t).1]
  refine ⟨?_, ?_, ?_, drawn, trace⟩
  · intro u absent
    exact s.memory.writeAll_of_not_mem args values absent
  · intro u absent
    exact t.memory.writeAll_of_not_mem args values absent
  · intro u mem _
    exact writeAll_congr (Nat.le_of_eq len) t.memory s.memory (.inl mem)

lemma carried_bit {out : UnitId} (drawn : t.drawn = s.drawn) (trace : t.trace = s.trace.flatMap spelled)
    {op : BitOperation} (named : logicSymbol op = .ok symbol)
    (fresh : ∀ b, stale b = false → t.memory b = s.memory b) (cregs : List Register) (outcome : Nat → Bool) :
    Carried ⟨[out], fun _ => !stale a && !stale b⟩ s
    { s with memory := s.memory.write out (op.apply (s.memory a) (s.memory b)) } t
    (performAll cregs outcome [.combine (.bit out) (.bit a) symbol (.bit b)] t) := by
  have program := perform_combine_bits named cregs outcome a b out t
  rw [show performAll cregs outcome [.combine (.bit out) (.bit a) symbol (.bit b)] t = _ from program]
  refine ⟨?_, ?_, ?_, drawn, trace⟩
  · intro u absent
    exact write_of_ne _ _ (by simpa using absent)
  · intro u absent
    exact write_of_ne _ _ (by simpa using absent)
  · intro u mem exact_
    simp only [and_eq_true, not_eq_true'] at exact_
    rw [mem_singleton] at mem
    subst mem
    dsimp only
    rw [write_same, write_same, fresh a exact_.1, fresh b exact_.2]

def isLogic : Op → Bool
  | .setBits _ | .predicate _ | .modifier _ => true
  | .multiBit (.predicate _) _ | .multiBit (.modifier _) _ => true
  | _ => false

variable {op : Op}

lemma statements_eq_gateLine (other : isLogic op = false) : statements ctx op args = gateLine ctx op args := by
  unfold statements
  split
  · cases other
  · cases other
  · cases other
  · cases other
  · cases other
  · rfl

lemma carried_statements (fits : Fits c op args) (suits : Suits c ctx) (printed : statements ctx op args = .ok sts)
    (fresh : ∀ b, stale b = false → t.memory b = s.memory b) (drawn : t.drawn = s.drawn)
    (trace : t.trace = s.trace.flatMap spelled) (outcome : Nat → Bool) :
    Carried (touchOf ctx.cregs stale op args) s (perform outcome op args s) t (performAll ctx.cregs outcome sts t) := by
  cases op with
  | setBits values =>
    exact carried_setBits fits printed drawn trace outcome
  | predicate op =>
    obtain ⟨symbol, _, _, _, _, named, shape, last, rfl⟩ := combineLine_eq_ok printed
    have length : args.length = 3 := by
      have arity := fits.arity
      cases op with
      | not => cases named
      | _ => exact arity
    obtain ⟨a, b, out, rfl⟩ := length_eq_three.mp length
    cases shape
    cases last
    exact carried_bit drawn trace named fresh ctx.cregs outcome
  | modifier op =>
    obtain ⟨symbol, _, _, _, _, named, shape, last, rfl⟩ := combineLine_eq_ok printed
    obtain ⟨a, out, rfl⟩ := length_eq_two.mp fits.arity
    cases shape
    cases last
    exact carried_bit drawn trace named fresh ctx.cregs outcome
  | multiBit inner count =>
    cases inner with
    | predicate op => exact carried_registers printed fresh drawn trace outcome
    | modifier op => exact carried_registers printed fresh drawn trace outcome
    | _ =>
      rw [statements_eq_gateLine rfl] at printed
      cases (gateLine_eq_ok printed).1
  | barrier signature =>
    exact carried_gate fits suits printed drawn trace outcome _
  | gate type params =>
    exact carried_gate fits suits printed drawn trace outcome _
  | _ =>
    rw [statements_eq_gateLine rfl] at printed
    rcases gate_or_barrier (gateLine_eq_ok printed).1 with ⟨_, _, same⟩ | ⟨_, same⟩ <;> cases same

lemma statements_alone (fits : Fits c op args)
    (printed : statements ctx op args = .ok sts) (alone : isAlone ctx.cregs op args = true) : ∃ st, sts = [st] := by
  by_cases logic : isLogic op = true
  · unfold isLogic at logic
    split at logic
    · obtain ⟨len, nodup⟩ := fits_setBits fits
      have written := performAll_setBits len nodup printed (fun _ => false)
      exact (written (.start fun _ => false)).2 alone
    · obtain ⟨_, _, _, _, _, _, _, _, rfl⟩ := combineLine_eq_ok printed
      exact ⟨_, rfl⟩
    · obtain ⟨_, _, _, _, _, _, _, _, rfl⟩ := combineLine_eq_ok printed
      exact ⟨_, rfl⟩
    · obtain ⟨_, _, _, _, _, _, rfl, _⟩ := registersLine_eq_ok printed
      exact ⟨_, rfl⟩
    · obtain ⟨_, _, _, _, _, _, rfl, _⟩ := registersLine_eq_ok printed
      exact ⟨_, rfl⟩
    · cases logic
  · rw [statements_eq_gateLine (by simpa using logic)] at printed
    rcases (gateLine_eq_ok printed).2 with ⟨_, _, rfl⟩ | ⟨_, _, _, _, rfl⟩
    · exact ⟨_, rfl⟩
    · exact ⟨_, rfl⟩

end

end CircuitWorks.Qasm
