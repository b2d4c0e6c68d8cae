import CircuitWorks.Proofs.Logic.Evaluation
import CircuitWorks.Proofs.Circuit.Conditions

/-!
Replacing an expression by operations on scratch variables.
-/

namespace CircuitWorks.Decompose

open List Logic Execution Exp

def variableBits (b : UnitId) : List UnitId :=
  if b.register = Scratch.bitName then [b]
  else (⟨b.register, Scratch.registerSize⟩ : Register).bits

def heldNumber (cmd : Command) (m : Memory) : List Nat :=
  match cmd.op, cmd.args with
  | .setBits _, b :: _ => [(Execution.effect cmd.op cmd.args m).number (variableBits b)]
  | _, _ => []

def Operand.Stands {U B V : Type} (e : Exp U B V) : Operand V → Prop
  | .value c => e = .const c
  | .held _ => e.isConstant = false

/-- A kind of scratch variable, and how a decomposition works with it. -/
structure Workspace (B V : Type) where
  hold : Constant → Run V
  combine : B → V → V → Run V
  operation? : B → Option BitOperation
  width : Nat
  content : Memory → V → Nat → Bool
  Sound : State → Prop
  /-- A variable that is not handed out, so that its content stays. -/
  Safe : State → V → Prop
  Present : State → V → Prop
  Scratch : V → Prop
  Holdable : Constant → Prop
  digits : Constant → Nat
  Step : State → State → List Command → Prop

namespace Workspace

variable {U B V : Type} [Operators U B] (W : Workspace B V)

/-- A variable is handed out while all safe ones are kept, apart from some that are lost. -/
structure Hands (lost : V → Prop) (s : State) (v : V) (t : State) (code : List Command) : Prop where
  step : W.Step s t code
  sound : W.Sound t
  safe : W.Safe t v
  present : W.Present t v
  scratch : W.Scratch v
  fresh : W.Safe s v → lost v
  kept : ∀ w, W.Safe s w → ¬lost w → W.Safe t w
  frame : ∀ outcome x w i, i < W.width → W.Safe s w → ¬lost w →
    W.content (run outcome code x).memory w i = W.content x.memory w i

/-- Constants and operations are written to variables as they should be. A scratch operand is lost
to its operation. -/
structure Lawful : Prop where
  step_refl : ∀ s, W.Step s s []
  step_trans : ∀ {s t u first second},
    W.Step s t first → W.Step t u second → W.Step s u (first ++ second)
  present_step : ∀ {s t code v}, W.Step s t code → W.Present s v → W.Present t v
  hold : ∀ s c, W.Sound s → W.Holdable c → ∃ v t code, W.hold c s = .ok (v, t) ∧
    W.Hands (fun _ => False) s v t code ∧ ∀ outcome x, ∃ n, observe heldNumber outcome code x = [n] ∧
      c.SameDigits (W.digits c) (.int n) ∧
      ∀ i < W.width, n.testBit i = W.content (run outcome code x).memory v i
  combine : ∀ s op o a b, W.Sound s → W.operation? op = some o → W.Safe s a → W.Present s a →
    W.Safe s b → W.Present s b → (W.Scratch a → a ≠ b) → ∃ v t code, W.combine op a b s = .ok (v, t) ∧
      W.Hands (fun w => W.Scratch w ∧ (w = a ∨ w = b)) s v t code ∧
      ∀ outcome x, observe heldNumber outcome code x = [] ∧ ∀ i < W.width,
        W.content (run outcome code x).memory v i =
          o.apply (W.content x.memory a i) (W.content x.memory b i)

def Change (c d : Constant) : Prop := c.SameDigits (W.digits c) d

/-- What is known of an operand once the operations in it are replaced. -/
structure Visited (s : State) (e : Exp U B V) (a : Operand V) (t : State) (code : List Command) :
    Prop where
  step : W.Step s t code
  sound : W.Sound t
  kept : ∀ w, W.Safe s w → W.Safe t w
  frame : ∀ outcome x w i, i < W.width → W.Safe s w →
    W.content (run outcome code x).memory w i = W.content x.memory w i
  operand : (∃ c, e = .const c ∧ a = .value c ∧ W.Holdable c) ∨
    ∃ v, a = .held v ∧ e.isConstant = false ∧ W.Safe t v ∧ W.Present t v ∧
      (W.Scratch v → ¬W.Safe s v) ∧ (e.isNode = true → W.Scratch v)
  value : ∀ outcome x env,
    (∀ v ∈ e.vars, ∀ i < W.width, (env v).digit i = W.content x.memory v i) →
    ∃ e', (∀ rest, e.refill (observe heldNumber outcome code x ++ rest) = (e', rest)) ∧
      e.Varies W.Change e' ∧ ∀ v, a = .held v → ∀ i < W.width,
        (e'.value env).digit i = W.content (run outcome code x).memory v i

/-- What is known of an operand once it is a variable. -/
structure Settled (s : State) (a : Operand V) (v : V) (t : State) (code : List Command) : Prop where
  step : W.Step s t code
  sound : W.Sound t
  kept : ∀ w, W.Safe s w → W.Safe t w
  frame : ∀ outcome x w i, i < W.width → W.Safe s w →
    W.content (run outcome code x).memory w i = W.content x.memory w i
  safe : W.Safe t v
  present : W.Present t v
  source : a = .held v ∨ (∃ c, a = .value c) ∧ ¬W.Safe s v
  value : ∀ outcome x (e e' : Exp U B V) env, a.Stands e → e.Varies W.Change e' →
    (∀ w, a = .held w → ∀ i < W.width, (e'.value env).digit i = W.content x.memory w i) →
    ∃ e'', (∀ rest, e'.renew (observe heldNumber outcome code x ++ rest) = (e'', rest)) ∧
      e.Varies W.Change e'' ∧
      ∀ i < W.width, (e''.value env).digit i = W.content (run outcome code x).memory v i

variable {W} {a : Operand V} {e : Exp U B V} {code : List Command} {s t : State}

lemma Lawful.settle (lawful : W.Lawful) (sound : W.Sound s) (constant : ∀ c, a = .value c → W.Holdable c)
    (variable_ : ∀ v, a = .held v → W.Safe s v ∧ W.Present s v) :
    ∃ v t code, a.settle W.hold s = .ok (v, t) ∧ W.Settled (U := U) s a v t code := by
  cases a with
  | value c =>
    obtain ⟨v, t, code, result, hands, reading⟩ := lawful.hold s c sound (constant c rfl)
    refine ⟨v, t, code, result, hands.step, hands.sound, fun w safe => hands.kept w safe id,
      fun outcome x w i inside safe => hands.frame outcome x w i inside safe id, hands.safe,
      hands.present, .inr ⟨⟨c, rfl⟩, hands.fresh⟩, ?_⟩
    intro outcome x e e' env stands varies _
    obtain ⟨n, seen, written, digits⟩ := reading outcome x
    obtain rfl : e = .const c := stands
    cases varies with
    | const _ => exact ⟨.const (.int n), fun rest => by rw [seen]; rfl, .const written, digits⟩
  | held v =>
    have known := variable_ v rfl
    refine ⟨v, s, [], rfl, lawful.step_refl s, sound, fun w safe => safe, fun _ _ _ _ _ _ => rfl,
      known.1, known.2, .inl rfl, ?_⟩
    intro outcome x e e' env stands varies digits
    refine ⟨e', fun rest => ?_, varies, digits v rfl⟩
    cases varies with
    | const _ => cases stands
    | var _ => rfl
    | unary _ _ => rfl
    | binary _ _ _ => rfl

lemma Visited.held (visited : W.Visited s e (.held v) t code) : e.isConstant = false ∧ W.Safe t v ∧
    W.Present t v ∧ (W.Scratch v → ¬W.Safe s v) ∧ (e.isNode = true → W.Scratch v) := by
  rcases visited.operand with ⟨_, _, same, _⟩ | ⟨w, same, known⟩
  · cases same
  · cases same
    exact known

/-- An operand that has become a variable stands apart from what was safe before it, unless it is a
variable of the expression. -/
lemma Visited.fresh_of_settled {first second : List Command}
    (visited : W.Visited s e a t first) (settled : W.Settled (U := U) u a v r second)
    (later : ∀ w, W.Safe t w → W.Safe u w) (scratch : W.Scratch v) : ¬W.Safe s v := by
  rcases settled.source with rfl | ⟨_, taken⟩
  · exact visited.held.2.2.2.1 scratch
  · exact fun safe => taken (later v (visited.kept v safe))

lemma Settled.ne {second third fourth : List Command}
    (visited : W.Visited s₁ e b s₂ second) (first : W.Settled (U := U) s₂ a u s₃ third)
    (last : W.Settled (U := U) s₃ b v s₄ fourth) (held : ∀ w, a = .held w → W.Safe s₁ w)
    (scratch : W.Scratch u) : u ≠ v := by
  rintro rfl
  rcases last.source with rfl | ⟨_, taken⟩
  · rcases first.source with origin | ⟨_, taken⟩
    · exact visited.held.2.2.2.1 scratch (held u origin)
    · exact taken visited.held.2.1
  · exact taken first.safe

lemma Visited.stands (visited : W.Visited s e a t code) : a.Stands e := by
  rcases visited.operand with ⟨c, rfl, rfl, _⟩ | ⟨v, rfl, proper, _⟩
  · rfl
  · exact proper

lemma Visited.holdable (visited : W.Visited s e a t code) (c : Constant) (same : a = .value c) : W.Holdable c := by
  rcases visited.operand with ⟨d, _, other, holdable⟩ | ⟨w, held, _⟩
  · rw [same] at other
    cases other
    exact holdable
  · rw [same] at held
    cases held

lemma Visited.safe_held (visited : W.Visited s e a t code) (v : V) (same : a = .held v) :
    W.Safe t v ∧ W.Present t v := by
  subst same
  exact ⟨visited.held.2.1, visited.held.2.2.1⟩

section

variable {s₀ s₁ s₂ s₃ s₄ s₅ : State} {x y : Exp U B V} {a b : Operand V} {u v out : V} {op : B}
  {o : BitOperation} {c₁ c₂ c₃ c₄ c₅ : List Command}
  (digits : ∀ c d i, (Operators.binaryValue U op c d).digit i = o.apply (c.digit i) (d.digit i))
  (left : W.Visited s₀ x a s₁ c₁) (right : W.Visited s₁ y b s₂ c₂)
  (first : W.Settled (U := U) s₂ a u s₃ c₃) (second : W.Settled (U := U) s₃ b v s₄ c₄)
  (result : ∀ outcome x, observe heldNumber outcome c₅ x = [] ∧ ∀ i < W.width,
    W.content (run outcome c₅ x).memory out i = o.apply (W.content x.memory u i) (W.content x.memory v i))
  (safe : ∀ w ∈ y.vars, W.Safe s₀ w)
include digits left right first second result safe

lemma binary_value (outcome : Nat → Bool) (m : Machine) (env : V → Constant)
    (same : ∀ w ∈ x.vars ++ y.vars, ∀ i < W.width, (env w).digit i = W.content m.memory w i) :
    ∃ e', (∀ rest, (binary op x y).refill
    (observe heldNumber outcome (c₁ ++ (c₂ ++ (c₃ ++ (c₄ ++ c₅)))) m ++ rest) = (e', rest)) ∧
    (binary op x y).Varies W.Change e' ∧ ∀ i < W.width, (e'.value env).digit i =
    W.content (run outcome (c₁ ++ (c₂ ++ (c₃ ++ (c₄ ++ c₅)))) m).memory out i := by
  let m₁ := run outcome c₁ m
  let m₂ := run outcome c₂ m₁
  let m₃ := run outcome c₃ m₂
  let m₄ := run outcome c₄ m₃
  let r₃ := observe heldNumber outcome c₃ m₂
  let r₄ := observe heldNumber outcome c₄ m₃
  obtain ⟨x', fillLeft, variesLeft, valueLeft⟩ := left.value outcome m env
    fun w mem => same w (mem_append_left _ mem)
  obtain ⟨y', fillRight, variesRight, valueRight⟩ := right.value outcome m₁ env (by
    intro w mem i inside
    rw [same w (mem_append_right _ mem) i inside]
    exact (left.frame outcome m w i inside (safe w mem)).symm)
  obtain ⟨x'', renewLeft, changedLeft, digitLeft⟩ := first.value outcome m₂ x x' env left.stands
    variesLeft (by
      intro w held i inside
      rw [valueLeft w held i inside]
      exact (right.frame outcome m₁ w i inside (left.safe_held w held).1).symm)
  obtain ⟨y'', renewRight, changedRight, digitRight⟩ := second.value outcome m₃ y y' env right.stands
    variesRight (by
      intro w held i inside
      rw [valueRight w held i inside]
      exact (first.frame outcome m₂ w i inside (right.safe_held w held).1).symm)
  have seen (rest : List Nat) :
      observe heldNumber outcome (c₁ ++ (c₂ ++ (c₃ ++ (c₄ ++ c₅)))) m ++ rest =
        observe heldNumber outcome c₁ m ++ (observe heldNumber outcome c₂ m₁ ++ (r₃ ++ (r₄ ++ rest))) := by
    simp only [observe_append, (result outcome _).1, append_nil, append_assoc]
    rfl
  have reached : run outcome (c₁ ++ (c₂ ++ (c₃ ++ (c₄ ++ c₅)))) m = run outcome c₅ m₄ := by
    simp only [run_append]
    rfl
  refine ⟨.binary op x'' y'', fun rest => ?_, .binary op changedLeft changedRight, ?_⟩
  · rw [seen]
    exact refill_binary op (fillLeft _) (fillRight _) (renewLeft _) (renewRight rest)
  · intro i inside
    rw [reached, (result outcome m₄).2 i inside, value, digits, digitLeft i inside,
      digitRight i inside, second.frame outcome m₃ u i inside first.safe]

lemma binary_visited (lawful : W.Lawful) (hands : W.Hands (fun w => W.Scratch w ∧ (w = u ∨ w = v)) s₄ out s₅ c₅) :
    W.Visited s₀ (.binary op x y) (.held out) s₅ (c₁ ++ (c₂ ++ (c₃ ++ (c₄ ++ c₅)))) := by
  have kept : ∀ w, W.Safe s₀ w → W.Safe s₄ w := fun w safe =>
    second.kept w (first.kept w (right.kept w (left.kept w safe)))
  have freshLeft : W.Scratch u → ¬W.Safe s₀ u := left.fresh_of_settled first right.kept
  have freshRight : W.Scratch v → ¬W.Safe s₀ v := fun scratch safe =>
    right.fresh_of_settled second first.kept scratch (left.kept v safe)
  have found : ∀ w, W.Safe s₀ w → ¬(W.Scratch w ∧ (w = u ∨ w = v)) := by
    rintro w safe ⟨scratch, rfl | rfl⟩
    · exact freshLeft scratch safe
    · exact freshRight scratch safe
  refine ⟨?_, hands.sound, fun w safe => hands.kept w (kept w safe) (found w safe), ?_,
    .inr ⟨out, rfl, rfl, hands.safe, hands.present, ?_, fun _ => hands.scratch⟩, ?_⟩
  · exact lawful.step_trans left.step (lawful.step_trans right.step
      (lawful.step_trans first.step (lawful.step_trans second.step hands.step)))
  · intro outcome m w i inside safe
    have safe₁ := left.kept w safe
    have safe₂ := right.kept w safe₁
    have safe₃ := first.kept w safe₂
    simp only [run_append]
    rw [hands.frame outcome _ w i inside (second.kept w safe₃) (found w safe),
      second.frame outcome _ w i inside safe₃, first.frame outcome _ w i inside safe₂,
      right.frame outcome _ w i inside safe₁, left.frame outcome _ w i inside safe]
  · exact fun _ safe => found out safe (hands.fresh (kept out safe))
  · intro outcome m env same
    obtain ⟨e', filled, varies, value⟩ :=
      binary_value digits left right first second result safe outcome m env same
    refine ⟨e', filled, varies, ?_⟩
    intro w held i inside
    cases held
    exact value i inside

end

lemma Lawful.walk (lawful : W.Lawful) (digits : ∀ op o, W.operation? op = some o → ∀ c d i,
    (Operators.binaryValue U op c d).digit i = o.apply (c.digit i) (d.digit i)) (e : Exp U B V)
    (tree : e.Over (fun op => (W.operation? op).isSome) W.Holdable (fun v => ¬W.Scratch v))
    (sound : W.Sound s) (ready : ∀ v ∈ e.vars, W.Safe s v ∧ W.Present s v) :
    ∃ a t code, walk W.hold W.combine e s = .ok (a, t) ∧ W.Visited s e a t code := by
  induction e generalizing s with
  | const c =>
    refine ⟨.value c, s, [], rfl, lawful.step_refl s, sound, fun _ safe => safe,
      fun _ _ _ _ _ _ => rfl, .inl ⟨c, rfl, rfl, tree⟩, ?_⟩
    intro outcome x env _
    refine ⟨.const c, fun _ => rfl, .const fun _ _ => rfl, ?_⟩
    intro v held
    cases held
  | var v =>
    have known := ready v (by simp [vars])
    refine ⟨.held v, s, [], rfl, lawful.step_refl s, sound, fun _ safe => safe,
      fun _ _ _ _ _ _ => rfl, .inr ⟨v, rfl, rfl, known.1, known.2,
        fun scratch => absurd scratch tree, by simp [isNode]⟩, ?_⟩
    intro outcome x env same
    refine ⟨.var v, fun _ => rfl, .var v, ?_⟩
    intro w held
    cases held
    exact same v (by simp [vars])
  | unary _ _ => exact tree.elim
  | binary op x y ihx ihy =>
    obtain ⟨known, treeLeft, treeRight⟩ := tree
    obtain ⟨o, operation⟩ := Option.isSome_iff_exists.mp known
    have inLeft : ∀ v ∈ x.vars, W.Safe s v ∧ W.Present s v := fun v mem =>
      ready v (mem_append_left _ mem)
    have inRight : ∀ v ∈ y.vars, W.Safe s v ∧ W.Present s v := fun v mem =>
      ready v (mem_append_right _ mem)
    obtain ⟨a, s₁, c₁, walked₁, left⟩ := ihx treeLeft sound inLeft
    obtain ⟨b, s₂, c₂, walked₂, right⟩ := ihy treeRight left.sound fun v mem =>
      ⟨left.kept v (inRight v mem).1, lawful.present_step left.step (inRight v mem).2⟩
    obtain ⟨u, s₃, c₃, settled₁, first⟩ := lawful.settle (U := U) right.sound (a := a)
      left.holdable fun v held =>
        ⟨right.kept v (left.safe_held v held).1, lawful.present_step right.step (left.safe_held v held).2⟩
    obtain ⟨v, s₄, c₄, settled₂, second⟩ := lawful.settle (U := U) first.sound (a := b)
      right.holdable fun v held =>
        ⟨first.kept v (right.safe_held v held).1, lawful.present_step first.step (right.safe_held v held).2⟩
    have apart := Settled.ne right first second fun w held => (left.safe_held w held).1
    obtain ⟨out, s₅, c₅, combined, hands, result⟩ := lawful.combine s₄ op o u v second.sound operation
      (second.kept u first.safe) (lawful.present_step second.step first.present) second.safe
      second.present apart
    refine ⟨.held out, s₅, _, ?_, binary_visited (digits op o operation) left right first
      second result (fun w mem => (inRight w mem).1) lawful hands⟩
    simp only [walk, bind, StateT.bind, walked₁, walked₂, settled₁, settled₂, combined, Except.bind]
    rfl

end Workspace

end CircuitWorks.Decompose

variable {bits : List UnitId}

namespace CircuitWorks

open Execution

def Op.isLogic : Op → Bool
  | setBits _ | predicate _ | modifier _ => true
  | multiBit op _ => op.isLogic
  | _ => false

def Op.isBox : Op → Bool
  | classicalExp .. => true
  | conditional _ _ op => op.isBox
  | multiBit op _ => op.isBox
  | _ => false

lemma Op.isBox_of_isLogic : (op : Op) → op.isLogic = true → op.isBox = false
  | setBits _, _ => rfl
  | predicate _, _ => rfl
  | modifier _, _ => rfl
  | multiBit op _, logic => isBox_of_isLogic op logic

variable {op : Op} {α : Type}

lemma Op.isClassical_of_isLogic (logic : op.isLogic = true) : op.isClassical = true := by
  cases op <;> first | rfl | cases logic

lemma Circuit.binaryForm_spec [DecidableEq α] (op : BitOperation) (a b out : α) :
    (binaryForm op a b out).1.isLogic = true ∧ out ∈ (binaryForm op a b out).2 := by
  unfold binaryForm
  split_ifs
  · exact ⟨rfl, by simp⟩
  · exact ⟨rfl, by simp⟩
  · exact ⟨rfl, by simp⟩

namespace Decompose

def testedNumber (cmd : Command) (m : Memory) : List Nat :=
  match cmd.op with
  | .range _ _ count => [m.number (cmd.args.take count)]
  | _ => []

structure Emits (s t : State) (code : List Command) : Prop where
  circuit : t.circuit =
    { s.circuit with bits := t.circuit.bits, commands := s.circuit.commands ++ code }
  rest : t = { s with circuit := t.circuit, bits := t.bits, registers := t.registers }
  bits : ∀ b ∈ s.circuit.bits, b ∈ t.circuit.bits
  single : ∀ b ∈ t.circuit.bits, b ∈ s.circuit.bits ∨ b.index.length = 1
  logic : ∀ c ∈ code, c.op.isLogic = true
  user : ∀ outcome x b, isUserBit b = true → (run outcome code x).memory b = x.memory b

variable {t : State} {first second code : List Command}

lemma Emits.refl (s : State) : Emits s s [] where
  circuit := by cases s.circuit; simp
  rest := rfl
  bits _ mem := mem
  single _ mem := .inl mem
  logic := by simp
  user _ _ _ _ := rfl

lemma Emits.trans (before : Emits s t first) (after : Emits t u second) : Emits s u (first ++ second) where
  circuit := by rw [after.circuit, before.circuit]; simp
  rest := by rw [after.rest, before.rest]
  bits b mem := after.bits b (before.bits b mem)
  single b mem := (after.single b mem).elim (before.single b) .inr
  logic c mem := (List.mem_append.mp mem).elim (before.logic c) (after.logic c)
  user outcome x b own := by rw [run_append, after.user _ _ b own, before.user _ _ b own]

lemma Emits.qubits (emits : Emits s t code) : t.circuit.qubits = s.circuit.qubits := by
  rw [emits.circuit]

lemma Emits.kindOf? (emits : Emits s t code) {kind : UnitKind} (known : s.circuit.kindOf? b = some kind) :
    t.circuit.kindOf? b = some kind := by
  cases kind with
  | qubit =>
    have mem := Circuit.kindOf?_eq_qubit.mp known
    exact Circuit.kindOf?_eq_qubit.mpr (emits.qubits ▸ mem)
  | bit =>
    have mem := Circuit.kindOf?_eq_bit.mp known
    exact Circuit.kindOf?_eq_bit.mpr ⟨emits.qubits ▸ mem.1, emits.bits b mem.2⟩

lemma Emits.roomy (emits : Emits s t code) {name : String} (room : s.circuit.Roomy name) : t.circuit.Roomy name where
  qubits := emits.qubits ▸ room.qubits
  bits b mem register := (emits.single b mem).elim (room.bits b · register) id

lemma run_logic (outcome : Nat → Bool) (logic : ∀ c ∈ code, c.op.isLogic = true) (x : Machine) :
    (run outcome code x).drawn = x.drawn ∧ (run outcome code x).trace = x.trace ∧
    observe testedNumber outcome code x = [] := by
  induction code generalizing x with
  | nil => exact ⟨rfl, rfl, rfl⟩
  | cons c rest ih =>
    have own := logic c (by simp)
    obtain ⟨drawn, trace, tested⟩ := ih (fun d mem => logic d (.tail c mem))
      (perform outcome c.op c.args x)
    have step := perform_classical outcome c.op (Op.isClassical_of_isLogic own) c.args x
    rw [step] at drawn trace tested
    have unread : testedNumber c x.memory = [] := by
      unfold testedNumber
      split
      · rename_i same
        rw [same] at own
        cases own
      · rfl
    rw [run_cons, step, observe, unread, step]
    exact ⟨drawn, trace, tested⟩

lemma memory_run_logic (logic : op.isLogic = true) (args : List UnitId) (outcome : Nat → Bool) (x : Machine) :
    (run outcome [⟨op, args⟩] x).memory = effect op args x.memory := by
  rw [run_cons, run_nil, perform_classical _ _ (Op.isClassical_of_isLogic logic)]

lemma emits_logic (s : State) (pool : Scratch.BitPool) (registers : Scratch.RegisterPool)
    (more : ∀ b ∈ s.circuit.bits, b ∈ bits) (single : ∀ b ∈ bits, b ∈ s.circuit.bits ∨ b.index.length = 1)
    {args : List UnitId} (logic : op.isLogic = true) (frame : ∀ m b, isUserBit b = true → effect op args m b = m b) :
    Emits s { s with
    bits := pool, registers := registers,
    circuit := ({ s.circuit with bits := bits } : Circuit).withCommand op args } [⟨op, args⟩] where
  circuit := rfl
  rest := rfl
  bits := more
  single := single
  logic c mem := by
    obtain rfl := List.mem_singleton.mp mem
    exact logic
  user outcome x b own := by
    rw [memory_run_logic logic]
    exact frame _ b own

lemma bind_ok (ok : x s = .ok (a, t)) (f : α → Run β) : (x >>= f) s = f a t := by
  simp only [bind, StateT.bind, ok, Except.bind]

lemma get_bind (f : State → Run α) : (get >>= f) s = f s s := rfl

lemma liftCircuit_ok (s : State) (f : Circuit → Except Circuit.Error Circuit)
    (ok : f s.circuit = .ok c) : liftCircuit f s = .ok ((), { s with circuit := c }) := by
  rw [liftCircuit, get_bind, ok]
  rfl

lemma taken_eq_ok {β : Type} {f : β → State} {p : β} : (.ok (c, f p) : Except Error (α × State)) = .ok (a, t) ↔
    ∃ q, (.ok (c, p) : Except Scratch.Error (α × β)) = .ok (a, q) ∧ t = f q := by
  constructor
  · rintro ⟨⟩
    exact ⟨_, rfl, rfl⟩
  · rintro ⟨_, ⟨⟩, rfl⟩
    rfl

end Decompose

end CircuitWorks

namespace CircuitWorks.Decompose

open Logic (Constant BitBinary)
open Scratch Circuit Execution

lemma isUserBit_bit (k : Nat) : isUserBit (bit k) = false := by
  have named : bitName.startsWith bitName = true := by simp
  simp only [isUserBit, bit, named, Bool.not_true]

lemma ne_bit_of_isUserBit (user : isUserBit b = true) (k : Nat) : b ≠ bit k := by
  rintro rfl
  rw [isUserBit_bit] at user
  cases user

lemma bit_not_mem (user : ∀ b ∈ bits, isUserBit b = true) (k : Nat) :
    bit k ∉ bits := fun mem => ne_bit_of_isUserBit (user _ mem) k rfl

lemma register_ne_of_isUserBit (user : isUserBit b = true) : b.register ≠ bitName := by
  intro same
  simp [isUserBit, same] at user

structure BitsSound (s : State) : Prop where
  pool : Pool.Sound s.bits
  named : ∀ b ∈ s.bits.known, ∃ k, b = bit k
  room : s.circuit.Roomy bitName

def IsScratchBit (b : UnitId) : Prop := b.register = bitName

def bitSpace : Workspace BitBinary UnitId where
  hold := holdBit
  combine := combineBits
  operation? := bitOperation?
  width := 1
  content m b _ := m b
  Sound := BitsSound
  Safe s b := Pool.Safe IsScratchBit s.bits b
  Present s b := s.circuit.kindOf? b = some .bit
  Scratch := IsScratchBit
  Holdable c := c.toInt = 0 ∨ c.toInt = 1
  digits _ := 1
  Step s t code := Emits s t code ∧ t.registers = s.registers

lemma freshBit_eq_ok : freshBit s = .ok (b, t) ↔
    ∃ pool, s.bits.fresh bitName = .ok (b, pool) ∧ t = { s with bits := pool } := by
  rw [freshBit, get_bind]
  rcases s.bits.fresh bitName with e | ⟨c, pool⟩
  · exact ⟨nofun, nofun⟩
  · exact taken_eq_ok (f := fun pool => { s with bits := pool })

lemma freshBit_ok (pool : Pool.Sound s.bits) (named : ∀ b ∈ s.bits.known, ∃ k, b = bit k) :
    ∃ k q make, freshBit s = .ok (bit k, { s with bits := q }) ∧ Pool.Handed s.bits make (bit k) q := by
  obtain ⟨k, q, make, result, handed⟩ := BitPool.fresh_spec pool named
  exact ⟨k, q, make, freshBit_eq_ok.mpr ⟨q, result, rfl⟩, handed⟩

lemma bitSpace_hands (sound : BitsSound s) {p q : BitPool} {make : Except Scratch.Error UnitId}
    (handed : Pool.Handed p make (bit k) q) (same : ∀ b, b ∈ p.known ↔ b ∈ s.bits.known)
    (members : ∀ b, b ∈ bits ↔ b = bit k ∨ b ∈ s.circuit.bits) (op : Op) (args : List UnitId)
    (logic : op.isLogic = true) (frame : ∀ m b, b ≠ bit k → effect op args m b = m b)
    (lost : UnitId → Prop) (kept : ∀ b, Pool.Safe IsScratchBit s.bits b → ¬lost b → Pool.Safe IsScratchBit p b) :
    bitSpace.Hands lost s (bit k)
    { s with bits := q, circuit := ({ s.circuit with bits := bits } : Circuit).withCommand op args }
    [⟨op, args⟩] := by
  have single : ∀ b ∈ bits, b ∈ s.circuit.bits ∨ b.index.length = 1 := by
    intro b mem
    rcases (members b).mp mem with rfl | old
    · exact .inr rfl
    · exact .inl old
  have emits := emits_logic s q s.registers (fun b mem => (members b).mpr (.inr mem)) single
    logic fun m b user => frame m b (ne_bit_of_isUserBit user k)
  have fresh : Pool.Safe IsScratchBit s.bits (bit k) → lost (bit k) := by
    intro safe
    by_contra kept'
    have named : IsScratchBit (bit k) := rfl
    exact handed.fresh named (kept _ safe kept')
  refine ⟨⟨emits, rfl⟩, ⟨handed.sound, ?_, emits.roomy sound.room⟩, handed.safe, ?_, rfl, fresh,
    fun b safe unlost => handed.kept (kept b safe unlost), ?_⟩
  · intro b mem
    rcases (handed.known b).mp mem with rfl | old
    · exact ⟨k, rfl⟩
    · exact sound.named b ((same b).mp old)
  · exact sound.room.kindOf? ((members _).mpr (.inl rfl))
  · intro outcome x b i _ safe unlost
    have kept : (run outcome [⟨op, args⟩] x).memory b = x.memory b := by
      rw [memory_run_logic logic]
      exact frame _ b fun same => unlost (same ▸ fresh (same ▸ safe))
    exact kept

lemma bitSpace_hold (s : State) (c : Constant) (sound : BitsSound s) :
    ∃ v t code, holdBit c s = .ok (v, t) ∧ bitSpace.Hands (fun _ => False) s v t code ∧
    ∀ outcome x, observe heldNumber outcome code x = [if c.toInt ≠ 0 then 1 else 0] ∧
    (run outcome code x).memory v = decide (c.toInt ≠ 0) := by
  obtain ⟨k, q, make, taken, handed⟩ := freshBit_ok sound.pool sound.named
  obtain ⟨bits, ensured, members⟩ := sound.room.ensureBit k
  let c₁ : Circuit := { s.circuit with bits := bits }
  have accepted : c₁.Accepts (.setBits [decide (c.toInt ≠ 0)]) [bit k] := by
    refine accepts_setBits (by simp) rfl (by simp) ?_
    intro b mem
    obtain rfl := List.mem_singleton.mp mem
    exact sound.room.kindOf? ((members _).mpr (.inl rfl))
  have hands := bitSpace_hands sound handed (fun _ => .rfl) members
    (.setBits [decide (c.toInt ≠ 0)]) [bit k] rfl (by
      intro m b other
      exact Memory.writeAll_of_not_mem _ _ _ (by simpa using other)) (fun _ => False)
    fun b safe _ => safe
  refine ⟨bit k, _, _, ?_, hands, fun outcome x => ⟨?_, ?_⟩⟩
  · have first := liftCircuit_ok { s with bits := q } (·.ensureBit (bit k)) ensured
    have second := liftCircuit_ok { s with bits := q, circuit := c₁ }
      (·.addSetBits [decide (c.toInt ≠ 0)] [bit k]) accepted.addOp
    exact (bind_ok taken _).trans ((bind_ok first _).trans (bind_ok second _))
  · have alone : variableBits (bit k) = [bit k] := by simp [variableBits, bit]
    simp only [observe, heldNumber, alone, effect, Memory.writeAll, Memory.number,
      Memory.write_same, List.append_nil]
    by_cases zero : c.toInt = 0 <;> simp [zero]
  · rw [memory_run_logic rfl]
    simp only [effect, Memory.writeAll, Memory.write_same]

lemma bitOperation?_ne_not {op : BitBinary} (operation : bitOperation? op = some o) :
    o ≠ .not := by
  cases op <;> simp [bitOperation?] at operation <;> subst operation <;> simp

lemma bitSpace_combine (s : State) (op : BitBinary) (o : BitOperation) (a b : UnitId)
    (sound : BitsSound s) (operation : bitOperation? op = some o)
    (safeA : Pool.Safe IsScratchBit s.bits a) (presentA : s.circuit.kindOf? a = some .bit)
    (safeB : Pool.Safe IsScratchBit s.bits b) (presentB : s.circuit.kindOf? b = some .bit)
    (apart : IsScratchBit a → a ≠ b) : ∃ v t code, combineBits op a b s = .ok (v, t) ∧
    bitSpace.Hands (fun c => IsScratchBit c ∧ (c = a ∨ c = b)) s v t code ∧
    ∀ outcome x, observe heldNumber outcome code x = [] ∧
    (run outcome code x).memory v = o.apply (x.memory a) (x.memory b) := by
  have binary := bitOperation?_ne_not operation
  have named : ∀ c ∈ s.bits.known, IsScratchBit c := by
    intro c mem
    obtain ⟨k, rfl⟩ := sound.named c mem
    rfl
  obtain ⟨pool, known, kept⟩ := sound.pool.release_both named UnitId.le safeA safeB apart
  let s₁ : State := { s with bits := (s.bits.release a).release b }
  obtain ⟨k, q, make, taken, handed⟩ := freshBit_ok (s := s₁) pool
    fun c mem => sound.named c ((known c).mp mem)
  obtain ⟨bits, ensured, members⟩ := sound.room.ensureBit k
  let c₁ : Circuit := { s.circuit with bits := bits }
  have more : ∀ c ∈ s.circuit.bits, c ∈ bits := fun c mem => (members c).mpr (.inr mem)
  have accepted : c₁.Accepts (binaryForm o a b (bit k)).1
      (binaryForm o a b (bit k)).2 := by
    refine accepts_binary binary ?_
    intro c mem
    simp only [List.mem_cons, List.not_mem_nil, or_false] at mem
    rcases mem with rfl | rfl | rfl
    · exact kindOf?_of_more more presentA
    · exact kindOf?_of_more more presentB
    · exact sound.room.kindOf? ((members _).mpr (.inl rfl))
  have effect (m : Memory) : effect (binaryForm o a b (bit k)).1
      (binaryForm o a b (bit k)).2 m = m.write (bit k) (o.apply (m a) (m b)) := by
    have step := effect_binaryForm id binary a b (bit k) m
    rwa [List.map_id] at step
  have logic := (binaryForm_spec o a b (bit k)).1
  have hands := bitSpace_hands sound handed known members _ _ logic
    (fun m c other => by rw [effect, Memory.write_of_ne _ _ other]) _ kept
  refine ⟨bit k, _, _, ?_, hands, fun outcome x => ⟨?_, ?_⟩⟩
  · have first := liftCircuit_ok { s₁ with bits := q } (·.ensureBit (bit k)) ensured
    have second := liftCircuit_ok { s₁ with bits := q, circuit := c₁ }
      (·.addBinary o a b (bit k)) accepted.addOp
    have releaseA : releaseBit a s = .ok ((), { s with bits := s.bits.release a }) := rfl
    have releaseB : releaseBit b { s with bits := s.bits.release a } = .ok ((), s₁) := rfl
    rw [combineBits, operation]
    exact (bind_ok releaseA _).trans ((bind_ok releaseB _).trans ((bind_ok taken _).trans
      ((bind_ok first _).trans (bind_ok second _))))
  · have unset : heldNumber ⟨(binaryForm o a b (bit k)).1,
        (binaryForm o a b (bit k)).2⟩ x.memory = [] := by
      unfold binaryForm
      split_ifs <;> rfl
    rw [observe, unset]
    rfl
  · rw [memory_run_logic logic, effect, Memory.write_same]

lemma bitSpace_lawful : bitSpace.Lawful where
  step_refl s := ⟨Emits.refl s, rfl⟩
  step_trans before after := ⟨before.1.trans after.1, after.2.trans before.2⟩
  present_step step present := step.1.kindOf? present
  hold s c sound holdable := by
    obtain ⟨v, t, code, result, hands, value⟩ := bitSpace_hold s c sound
    refine ⟨v, t, code, result, hands, fun outcome x => ⟨_, (value outcome x).1, ?_, ?_⟩⟩
    · intro i inside
      rcases holdable with zero | one
      · rw [Constant.digit, Constant.digit, zero]
        rfl
      · rw [Constant.digit, Constant.digit, one]
        rfl
    · intro i inside
      obtain rfl : i = 0 := Nat.lt_one_iff.mp inside
      have holds : bitSpace.content (run outcome code x).memory v 0 = decide (c.toInt ≠ 0) :=
        (value outcome x).2
      rw [holds]
      by_cases zero : c.toInt = 0 <;> simp [zero]
  combine s op o a b sound operation safeA presentA safeB presentB apart := by
    obtain ⟨v, t, code, result, hands, value⟩ :=
      bitSpace_combine s op o a b sound operation safeA presentA safeB presentB apart
    exact ⟨v, t, code, result, hands, fun outcome x => ⟨(value outcome x).1, fun _ _ => (value outcome x).2⟩⟩

lemma bitOperation?_digits (op : BitBinary) (o : BitOperation) (operation : bitOperation? op = some o)
    (c d : Constant) (i : Nat) :
    (Logic.Operators.binaryValue Logic.BitUnary op c d).digit i = o.apply (c.digit i) (d.digit i) := by
  cases op <;> simp only [bitOperation?, Option.some.injEq, reduceCtorEq] at operation <;>
    subst operation <;>
    simp only [Constant.digit, Logic.Operators.binaryValue, Constant.toInt_and, Constant.toInt_or,
      Constant.toInt_xor, Logic.testBit_bitAnd, Logic.testBit_bitOr, Logic.testBit_bitXor,
      BitOperation.apply]

end CircuitWorks.Decompose
