import CircuitWorks.Circuit.Basic
import Mathlib.Data.Int.Bitwise
import CircuitWorks.Proofs.Lists
import Mathlib.Data.List.Nodup

/-!
Which circuits accept logic operations on bits and registers, and what these do to the memory.
-/

namespace CircuitWorks

open List UnitId

variable {u : UnitId} {c : Circuit} {op : Op} {args bits : List UnitId} {name : String} {i : Nat}

def EdgeType.kind : EdgeType → UnitKind
  | .quantum => .qubit
  | .classical | .boolean => .bit

lemma UnitId.mem_insertSorted (u v : UnitId) (units : List UnitId) :
    v ∈ insertSorted u units ↔ v = u ∨ v ∈ units := by
  induction units with
  | nil => simp [insertSorted]
  | cons w rest ih =>
    rw [insertSorted]
    split
    · simp
    · simp only [mem_cons, ih]
      tauto

lemma UnitId.compare_index (name : String) (i j : Nat) : compare ⟨name, [i]⟩ ⟨name, [j]⟩ = Ord.compare i j := by
  simp [compare, compareIndex]

lemma UnitId.insertSorted_last {units : List UnitId}
    (last : ∀ v ∈ units, u.le v = false) : insertSorted u units = units ++ [u] := by
  induction units with
  | nil => rfl
  | cons v rest ih =>
    rw [insertSorted, last v (by simp), ih fun w mem => last w (.tail _ mem)]
    rfl

namespace Register

lemma sort_bits (r : Register) : sort r.bits = r.bits := by
  refine mergeSort_of_pairwise ?_
  rw [bits, pairwise_map]
  refine pairwise_lt_range.imp fun {i j} below => ?_
  have order := Nat.compare_eq_lt.mpr below
  simp [UnitId.le, UnitId.compare_index, order]

lemma foldl_insertSorted_bits (r : Register) :
    r.bits.foldl (fun units u => UnitId.insertSorted u units) [] = r.bits := by
  obtain ⟨name, size⟩ := r
  induction size with
  | zero => rfl
  | succ size ih =>
    have step : bits ⟨name, size + 1⟩ = bits ⟨name, size⟩ ++ [⟨name, [size]⟩] := by simp [bits, range_succ]
    have last : ∀ v ∈ bits ⟨name, size⟩, UnitId.le ⟨name, [size]⟩ v = false := by
      intro v mem
      obtain ⟨i, below, rfl⟩ := mem_map.mp mem
      have order := Nat.compare_eq_gt.mpr (mem_range.mp below)
      simp [UnitId.le, UnitId.compare_index, order]
    rw [step, foldl_append, ih]
    exact UnitId.insertSorted_last last

end Register

namespace Circuit

lemma kindOf?_eq_qubit : c.kindOf? u = some .qubit ↔ u ∈ c.qubits := by
  unfold kindOf?
  split <;> simp_all

lemma kindOf?_eq_bit : c.kindOf? u = some .bit ↔ u ∉ c.qubits ∧ u ∈ c.bits := by
  unfold kindOf?
  split <;> simp_all

lemma kindOf?_of_more (more : ∀ b ∈ c.bits, b ∈ bits) {u : UnitId} (known : c.kindOf? u = some .bit) :
    ({ c with bits := bits } : Circuit).kindOf? u = some .bit := by
  obtain ⟨absent, mem⟩ := kindOf?_eq_bit.mp known
  exact kindOf?_eq_bit.mpr ⟨absent, more u mem⟩

/-- The arguments that are written, in order. -/
def written (wires : List (UnitId × EdgeType)) : List UnitId :=
  (wires.filter (·.2 ≠ .boolean)).map (·.1)

lemma checkKinds_eq_ok_iff (c : Circuit) (wires : List (UnitId × EdgeType)) :
    c.checkKinds wires = .ok () ↔ ∀ w ∈ wires, c.kindOf? w.1 = some w.2.kind := by
  induction wires with
  | nil => simp [checkKinds]
  | cons w rest ih =>
    obtain ⟨u, e⟩ := w
    rw [forall_mem_cons, ← ih]
    rcases kind : c.kindOf? u with _ | _ | _ <;> cases e <;> simp [checkKinds, EdgeType.kind, kind]

lemma checkArgs_eq_ok_iff (c : Circuit) (before : List UnitId) (wires : List (UnitId × EdgeType)) :
    c.checkArgs before wires = .ok () ↔ (written wires).Nodup ∧ (∀ u ∈ written wires, u ∉ before) ∧
    ∀ w ∈ wires, (c.kindOf? w.1).isSome := by
  induction wires generalizing before with
  | nil => simp [checkArgs, written]
  | cons w rest ih =>
    obtain ⟨u, e⟩ := w
    by_cases read : e = .boolean
    · have same : written ((u, e) :: rest) = written rest := by simp [written, read]
      rw [checkArgs, same]
      cases present : c.kindOf? u <;> simp_all
    · have more : written ((u, e) :: rest) = u :: written rest := by simp [written, read]
      rw [checkArgs, more]
      by_cases repeated : u ∈ before
      · simp [read, repeated]
      · cases present : c.kindOf? u with
        | none => simp [read, repeated, present]
        | some kind =>
          grind

structure Accepts (c : Circuit) (op : Op) (args : List UnitId) : Prop where
  nonempty : args ≠ []
  arity : args.length = (op.signature args.length).length
  once : (written (args.zip (op.signature args.length))).Nodup
  kinds : ∀ w ∈ args.zip (op.signature args.length), c.kindOf? w.1 = some w.2.kind

lemma checkOp_eq_ok_iff (c : Circuit) (op : Op) (args : List UnitId) :
    c.checkOp op args = .ok () ↔ c.Accepts op args := by
  have kinds := c.checkKinds_eq_ok_iff (args.zip (op.signature args.length))
  have present := c.checkArgs_eq_ok_iff [] (args.zip (op.signature args.length))
  unfold checkOp
  constructor
  · intro passed
    by_cases empty : args.isEmpty
    · simp [empty, throw, throwThe, MonadExceptOf.throw, bind, Except.bind] at passed
    by_cases arity : args.length ≠ (op.signature args.length).length
    · simp [empty, arity, throw, throwThe, MonadExceptOf.throw, bind, Except.bind] at passed
    simp only [empty, arity, bind, Except.bind, Bool.false_eq_true, if_false] at passed
    cases first : c.checkArgs [] (args.zip (op.signature args.length)) with
    | error e => rw [first] at passed; cases passed
    | ok _ =>
      rw [first] at passed
      exact ⟨by simpa using empty, by simpa using arity, (present.mp first).1, kinds.mp passed⟩
  · intro accepted
    have all : ∀ w ∈ args.zip (op.signature args.length), (c.kindOf? w.1).isSome := by
      intro w mem
      rw [accepted.kinds w mem]
      rfl
    have first := present.mpr ⟨accepted.once, by simp, all⟩
    have last := kinds.mpr accepted.kinds
    have arity := accepted.arity
    simp [accepted.nonempty, first, last, ← arity, bind, Except.bind]

def withCommand (c : Circuit) (op : Op) (args : List UnitId) : Circuit :=
  { c with commands := c.commands ++ [⟨op, args⟩] }

lemma Accepts.addOp (accepted : c.Accepts op args) : c.addOp op args = .ok (c.withCommand op args) := by
  rw [Circuit.addOp, (c.checkOp_eq_ok_iff op args).mpr accepted]
  rfl

lemma addOp_eq_ok (added : c.addOp op args = .ok d) :
    c.Accepts op args ∧ d = c.withCommand op args := by
  cases checked : c.checkOp op args with
  | error e => rw [addOp, checked] at added; cases added
  | ok _ =>
    have accepted := (c.checkOp_eq_ok_iff op args).mp checked
    rw [accepted.addOp] at added
    exact ⟨accepted, (Except.ok.inj added).symm⟩

lemma gateOp_eq_ok {type : OpType} {params : List Amount}
    (made : gateOp type params = .ok op) : op = .gate type params := by
  unfold gateOp at made
  split_ifs at made
  exact (Except.ok.inj made).symm

lemma Accepts.mono {d : Circuit} (accepted : c.Accepts op args)
    (same : ∀ u ∈ args, ∀ kind, c.kindOf? u = some kind → d.kindOf? u = some kind) : d.Accepts op args where
  nonempty := accepted.nonempty
  arity := accepted.arity
  once := accepted.once
  kinds w mem := same w.1 (of_mem_zip mem).1 _ (accepted.kinds w mem)

lemma Accepts.wire (accepted : c.Accepts op args) (mem : u ∈ args) :
    ∃ e ∈ op.signature args.length, c.kindOf? u = some e.kind := by
  have zipped : u ∈ (args.zip (op.signature args.length)).map Prod.fst := by
    rw [map_fst_zip (Nat.le_of_eq accepted.arity)]
    exact mem
  obtain ⟨w, inside, rfl⟩ := mem_map.mp zipped
  exact ⟨w.2, (of_mem_zip inside).2, accepted.kinds w inside⟩

def unitsOf (c : Circuit) : UnitKind → List UnitId
  | .qubit => c.qubits
  | .bit => c.bits

def withUnits (c : Circuit) (kind : UnitKind) (units : List UnitId) : Circuit :=
  match kind with
  | .qubit => { c with qubits := units }
  | .bit => { c with bits := units }

lemma withUnits_unitsOf (c : Circuit) (kind : UnitKind) : c.withUnits kind (c.unitsOf kind) = c := by
  cases c
  cases kind <;> rfl

lemma foldl_insertUnit (c : Circuit) (kind : UnitKind) (units : List UnitId) :
    units.foldl (fun c u => c.insertUnit kind u) c =
    c.withUnits kind (units.foldl (fun all u => insertSorted u all) (c.unitsOf kind)) := by
  induction units generalizing c with
  | nil => exact (c.withUnits_unitsOf kind).symm
  | cons u rest ih =>
    rw [foldl_cons, ih]
    cases kind <;> rfl

lemma addRegister_first {kind : UnitKind}
    (fresh : c.registerInfo? r.name = none) (none : c.unitsOf kind = []) :
    c.addRegister kind r = .ok (c.withUnits kind r.bits) := by
  rw [addRegister, fresh, foldl_insertUnit, none, r.foldl_insertSorted_bits]
  rfl

/-- Single-index bits can be added to the register. -/
structure Roomy (c : Circuit) (name : String) : Prop where
  qubits : ∀ q ∈ c.qubits, q.register ≠ name
  bits : ∀ b ∈ c.bits, b.register = name → b.index.length = 1

section

variable (room : c.Roomy name)

include room

lemma Roomy.kindOf? (inside : ⟨name, [i]⟩ ∈ bits) :
    ({ c with bits := bits } : Circuit).kindOf? ⟨name, [i]⟩ = some .bit :=
  kindOf?_eq_bit.mpr ⟨fun mem => room.qubits _ mem rfl, inside⟩

lemma Roomy.insertNew (i : Nat) : c.insertNew .bit ⟨name, [i]⟩ = .ok (c.insertUnit .bit ⟨name, [i]⟩) := by
  have noQubit : c.qubits.find? (·.register = name) = none := by simpa [find?_eq_none] using room.qubits
  simp only [Circuit.insertNew, registerInfo?, noQubit]
  cases found : c.bits.find? (·.register = name) with
  | none => rfl
  | some b =>
    have register := find?_some found
    have single := room.bits b (mem_of_find?_eq_some found) (by simpa using register)
    simp [single]

lemma Roomy.kindOf?_eq_none (absent : ⟨name, [i]⟩ ∉ c.bits) : c.kindOf? ⟨name, [i]⟩ = none := by
  have classical : (⟨name, [i]⟩ : UnitId) ∉ c.qubits := fun mem => room.qubits _ mem rfl
  simp [Circuit.kindOf?, classical, absent]

lemma Roomy.addBit (absent : ⟨name, [i]⟩ ∉ c.bits) : c.addBit ⟨name, [i]⟩ = .ok (c.insertUnit .bit ⟨name, [i]⟩) := by
  rw [Circuit.addBit, addUnit, room.kindOf?_eq_none absent]
  exact room.insertNew i

lemma Roomy.ensureBit (i : Nat) : ∃ bits, c.ensureBit ⟨name, [i]⟩ = .ok { c with bits := bits } ∧
    ∀ b, b ∈ bits ↔ b = ⟨name, [i]⟩ ∨ b ∈ c.bits := by
  by_cases present : (⟨name, [i]⟩ : UnitId) ∈ c.bits
  · have known : c.kindOf? ⟨name, [i]⟩ = some .bit := room.kindOf? present
    refine ⟨c.bits, ?_, fun b => ⟨.inr, ?_⟩⟩
    · rw [Circuit.ensureBit, ensureUnit, known]
      cases c
      rfl
    · rintro (rfl | mem)
      · exact present
      · exact mem
  · refine ⟨insertSorted ⟨name, [i]⟩ c.bits, ?_, fun b => mem_insertSorted _ _ _⟩
    rw [Circuit.ensureBit, ensureUnit, room.kindOf?_eq_none present]
    exact room.insertNew i

lemma ensureBits_ok (indices : List Nat) :
    ∃ bits, c.ensureBits (indices.map fun i => ⟨name, [i]⟩) = .ok { c with bits := bits } ∧
    ∀ b, b ∈ bits ↔ b ∈ (indices.map fun i => (⟨name, [i]⟩ : UnitId)) ∨ b ∈ c.bits := by
  induction indices generalizing c with
  | nil => exact ⟨c.bits, by cases c; rfl, by simp⟩
  | cons i rest ih =>
    obtain ⟨one, first, more⟩ := room.ensureBit i
    have still : ({ c with bits := one } : Circuit).Roomy name := by
      refine ⟨room.qubits, fun b mem register => ?_⟩
      rcases (more b).mp mem with rfl | old
      · rfl
      · exact room.bits b old register
    obtain ⟨all, later, members⟩ := ih still
    refine ⟨all, ?_, fun b => ?_⟩
    · rw [ensureBits, map_cons, foldlM_cons, first]
      exact later
    · rw [members, more, map_cons, mem_cons]
      tauto

end

end Circuit

end CircuitWorks

namespace CircuitWorks

section

open List

def BitOperation.apply : BitOperation → Bool → Bool → Bool
  | .and, a, b => a && b
  | .or, a, b => a || b
  | .xor, a, b => a ^^ b
  | .not, a, _ => !a

def Op.isClassical : Op → Bool
  | setBits _ | copyBits _ | range .. | predicate _ | modifier _ | multiBit .. => true
  | classicalExp .. => true
  | _ => false

namespace Execution

abbrev Memory := UnitId → Bool

variable (m : Memory) (bits units : List UnitId) (values : List Bool) {u : UnitId}

namespace Memory

def write (m : Memory) (u : UnitId) (value : Bool) : Memory := fun v => if v = u then value else m v

def writeAll (m : Memory) : List UnitId → List Bool → Memory
  | u :: units, value :: values => (m.write u value).writeAll units values
  | _, _ => m

def number (m : Memory) : List UnitId → Nat
  | [] => 0
  | b :: bits => (m b).toNat + 2 * m.number bits

def value (m : Memory) : Logic.Term → Int
  | .constant c => c.toInt
  | .bit e => (e.value fun b => .truth (m b)).toInt
  | .reg e => (e.value fun r => .int (m.number r.bits)).toInt

@[simp]
lemma write_same (u : UnitId) (value : Bool) : m.write u value u = value := by
  simp [write]

lemma write_of_ne (value : Bool) (other : v ≠ u) : m.write u value v = m v := by
  simp [write, other]

lemma writeAll_of_not_mem (absent : u ∉ units) : m.writeAll units values u = m u := by
  induction units generalizing m values with
  | nil => simp [writeAll]
  | cons v rest ih =>
    cases values with
    | nil => simp [writeAll]
    | cons value values =>
      have apart := not_or.mp (mem_cons.not.mp absent)
      rw [writeAll, ih _ _ apart.2, write_of_ne _ _ apart.1]

lemma writeAll_getElem (distinct : units.Nodup) (i : Nat) {value : Bool} (target : units[i]? = some u)
    (written : values[i]? = some value) : m.writeAll units values u = value := by
  induction units generalizing m values i with
  | nil => simp at target
  | cons v rest ih =>
    have apart := nodup_cons.mp distinct
    cases values with
    | nil => simp at written
    | cons first values =>
      cases i with
      | zero =>
        obtain rfl : v = u := by simpa using target
        obtain rfl : first = value := by simpa using written
        rw [writeAll, writeAll_of_not_mem _ _ _ apart.1, write_same]
      | succ i => exact ih _ _ apart.2 i (by simpa using target) (by simpa using written)

lemma testBit_number (i : Nat) : (m.number bits).testBit i = (bits[i]?.map m).getD false := by
  induction bits generalizing i with
  | nil => simp [number]
  | cons b rest ih =>
    cases i with
    | zero => cases value : m b <;> simp [number, Nat.testBit_zero, value, Nat.add_mod]
    | succ i =>
      have half : ((m b).toNat + 2 * m.number rest) / 2 = m.number rest := by
        cases m b <;> simp only [Bool.toNat_false, Bool.toNat_true] <;> omega
      rw [number, Nat.testBit_add_one, half, ih, getElem?_cons_succ]

lemma number_congr {m m' : Memory} (same : ∀ b ∈ bits, m b = m' b) : m.number bits = m'.number bits := by
  induction bits with
  | nil => rfl
  | cons b rest ih =>
    rw [number, number, same b (by simp), ih fun b mem => same b (.tail _ mem)]

lemma number_lt : m.number bits < 2 ^ bits.length := by
  induction bits with
  | nil => exact Nat.one_pos
  | cons b rest ih =>
    have digit := Bool.toNat_lt (m b)
    rw [number, length_cons, Nat.pow_succ]
    omega

end Memory

def effect : Op → List UnitId → Memory → Memory
  | .setBits values, args, m => m.writeAll args values
  | .copyBits count, args, m => m.writeAll (args.drop count) ((args.take count).map m)
  | .range lower upper count, args, m =>
    let n := m.number (args.take count)
    m.writeAll (args.drop count) [decide (lower ≤ n ∧ n ≤ upper)]
  | .predicate op, [a, b, out], m => m.write out (op.apply (m a) (m b))
  | .predicate .not, [a, out], m => m.write out (!m a)
  | .modifier op, [a, out], m => m.write out (op.apply (m a) (m out))
  | .multiBit op count, args, m =>
    let arity := (op.signature 0).length
    (List.range count).foldl (fun m i => effect op ((args.drop (i * arity)).take arity) m) m
  | .classicalExp inputs _ _ exp, args, m =>
    let targets := args.drop inputs
    m.writeAll targets ((List.range targets.length).map (m.value exp).testBit)
  | _, _, m => m

structure Machine where
  memory : Memory
  drawn : Nat
  /-- The non-classical operations executed so far, with their arguments. -/
  trace : List (Op × List UnitId)

def Machine.start (m : Memory) : Machine := ⟨m, 0, []⟩

/-- Draws an outcome for every bit among the arguments that is written. -/
def record (outcome : Nat → Bool) (s : Machine) : List (UnitId × EdgeType) → Machine
  | [] => s
  | (u, .classical) :: rest =>
    record outcome { s with memory := s.memory.write u (outcome s.drawn), drawn := s.drawn + 1 } rest
  | _ :: rest => record outcome s rest

/-- One operation. The outcomes of all measurements are given beforehand, in the order in which they
are drawn. -/
def perform (outcome : Nat → Bool) : Op → List UnitId → Machine → Machine
  | .conditional width value op, args, s =>
    if s.memory.number (args.take width) = value then perform outcome op (args.drop width) s else s
  | op, args, s =>
    if op.isClassical then { s with memory := effect op args s.memory }
    else
      { record outcome s (args.zip (op.signature args.length)) with trace := s.trace ++ [(op, args)] }

def run (outcome : Nat → Bool) (commands : List Command) (s : Machine) : Machine :=
  commands.foldl (fun s c => perform outcome c.op c.args s) s

def observe (see : Command → Memory → List Nat) (outcome : Nat → Bool) :
    List Command → Machine → List Nat
  | [], _ => []
  | c :: rest, s => see c s.memory ++ observe see outcome rest (perform outcome c.op c.args s)

variable (outcome : Nat → Bool) (s : Machine) {b : UnitId} (op : Op)

@[simp]
lemma run_nil : run outcome [] s = s := rfl

@[simp]
lemma run_cons (c : Command) (rest : List Command) (s : Machine) :
    run outcome (c :: rest) s = run outcome rest (perform outcome c.op c.args s) := rfl

lemma run_append (first second : List Command) (s : Machine) :
    run outcome (first ++ second) s = run outcome second (run outcome first s) :=
  foldl_append

lemma observe_append (see : Command → Memory → List Nat) (first second : List Command) (s : Machine) :
    observe see outcome (first ++ second) s =
    observe see outcome first s ++ observe see outcome second (run outcome first s) := by
  induction first generalizing s with
  | nil => rfl
  | cons c rest ih => simp only [cons_append, observe, ih, run_cons, append_assoc]

lemma perform_classical (classical : op.isClassical = true) (args : List UnitId) (s : Machine) :
    perform outcome op args s = { s with memory := effect op args s.memory } := by
  cases op <;> first | rfl | cases classical

lemma effect_of_not_mem (args : List UnitId) (m : Memory) (absent : b ∉ args) : effect op args m b = m b := by
  fun_induction effect op args m with
  | case1 values args m => exact Memory.writeAll_of_not_mem _ _ _ absent
  | case2 count args m =>
    exact Memory.writeAll_of_not_mem _ _ _ fun mem => absent (mem_of_mem_drop mem)
  | case3 lower upper count args m n =>
    exact Memory.writeAll_of_not_mem _ _ _ fun mem => absent (mem_of_mem_drop mem)
  | case4 op a c out m => exact Memory.write_of_ne _ _ fun same => absent (by simp [same])
  | case5 a out m => exact Memory.write_of_ne _ _ fun same => absent (by simp [same])
  | case6 op a out m => exact Memory.write_of_ne _ _ fun same => absent (by simp [same])
  | case7 op count args m arity ih =>
    generalize List.range count = steps
    induction steps generalizing m with
    | nil => rfl
    | cons i steps rest =>
      have apart : b ∉ (args.drop (i * arity)).take arity := fun mem =>
        absent (mem_of_mem_drop (mem_of_mem_take mem))
      rw [foldl_cons, rest, ih m i apart]
  | case8 inputs both outputs exp args m targets =>
    exact Memory.writeAll_of_not_mem _ _ _ fun mem => absent (mem_of_mem_drop mem)
  | case9 => rfl

lemma record_of_not_mem (wires : List (UnitId × EdgeType)) (absent : ∀ w ∈ wires, b ≠ w.1) :
    (record outcome s wires).memory b = s.memory b := by
  fun_induction record outcome s wires with
  | case1 => rfl
  | case2 s u rest ih =>
    rw [ih fun w mem => absent w (.tail _ mem)]
    exact Memory.write_of_ne _ _ (absent (u, .classical) (by simp))
  | case3 s w rest _ ih => exact ih fun w mem => absent w (.tail _ mem)

lemma perform_of_not_mem (args : List UnitId) (s : Machine) (absent : b ∉ args) :
    (perform outcome op args s).memory b = s.memory b := by
  fun_induction perform outcome op args s with
  | case1 width op args s ih => exact ih fun mem => absent (mem_of_mem_drop mem)
  | case2 => rfl
  | case3 op args s => exact effect_of_not_mem op args s.memory absent
  | case4 op args s =>
    refine record_of_not_mem outcome s _ fun w mem same => absent ?_
    exact same ▸ (of_mem_zip mem).1
lemma effect_binaryForm [DecidableEq α] (place : α → UnitId) {op : BitOperation}
    (binary : op ≠ .not) (a b out : α) (m : Memory) :
    effect (Circuit.binaryForm op a b out).1 ((Circuit.binaryForm op a b out).2.map place) m =
    m.write (place out) (op.apply (m (place a)) (m (place b))) := by
  have swap (x y : Bool) : op.apply x y = op.apply y x := by
    cases op <;> first | contradiction | (cases x <;> cases y <;> rfl)
  unfold Circuit.binaryForm
  split_ifs with first second
  · subst first
    simp only [map_cons, map_nil, effect]
    rw [swap]
  · subst second
    simp only [map_cons, map_nil, effect]
  · simp only [map_cons, map_nil, effect]

end Execution

end

open List EdgeType

variable {c : Circuit} {op : BitOperation} {args : List UnitId}

def Register.place (r : Register) (i : Nat) : UnitId := ⟨r.name, [i]⟩

namespace Circuit

@[simp]
lemma written_append (first second : List (UnitId × EdgeType)) :
    written (first ++ second) = written first ++ written second := by
  simp [written]

lemma zip_replicate (units : List UnitId) (e : EdgeType) :
    units.zip (replicate units.length e) = units.map fun u => (u, e) := by
  apply ext_getElem
  · simp
  · intro i _ _
    simp

lemma accepts_quantum {op : Op} (wires : op.signature args.length = replicate args.length .quantum) :
    c.Accepts op args ↔ args ≠ [] ∧ args.Nodup ∧ ∀ u ∈ args, u ∈ c.qubits := by
  have zipped : args.zip (op.signature args.length) = args.map fun u => (u, quantum) := by rw [wires, zip_replicate]
  have all : written (args.map fun u => (u, quantum)) = args := by simp [written, filter_map, Function.comp_def]
  have kinds : (∀ w ∈ args.map fun u => (u, quantum), c.kindOf? w.1 = some w.2.kind) ↔ ∀ u ∈ args, u ∈ c.qubits := by
    simp [kind, kindOf?_eq_qubit]
  constructor
  · intro accepted
    have once := accepted.once
    have present := accepted.kinds
    rw [zipped] at once present
    rw [all] at once
    exact ⟨accepted.nonempty, once, kinds.mp present⟩
  · rintro ⟨ne, once, present⟩
    refine ⟨ne, by rw [wires, length_replicate], ?_, ?_⟩
    · rw [zipped, all]
      exact once
    · rw [zipped]
      exact kinds.mpr present

lemma accepts_bits {op : Op} {reads writes : List UnitId} (wires : op.signature (reads ++ writes).length =
    replicate reads.length .boolean ++ replicate writes.length .classical)
    (nonempty : reads ++ writes ≠ []) (distinct : writes.Nodup)
    (present : ∀ b ∈ reads ++ writes, c.kindOf? b = some .bit) : c.Accepts op (reads ++ writes) := by
  have zipped : (reads ++ writes).zip (op.signature (reads ++ writes).length) =
      reads.map (fun b => (b, boolean)) ++ writes.map fun b => (b, classical) := by
    rw [wires, zip_append (by simp), zip_replicate, zip_replicate]
  refine ⟨nonempty, by rw [wires]; simp, ?_, ?_⟩
  · have all : written (reads.map (fun b => (b, boolean)) ++
        writes.map fun b => (b, classical)) = writes := by
      simp [written, filter_map, Function.comp_def]
    rw [zipped, all]
    exact distinct
  · intro w mem
    have named := present w.1 (of_mem_zip mem).1
    rw [zipped] at mem
    rcases mem_append.mp mem with read | write
    · obtain ⟨b, _, rfl⟩ := mem_map.mp read
      exact named
    · obtain ⟨b, _, rfl⟩ := mem_map.mp write
      exact named

lemma accepts_setBits {values : List Bool} (nonempty : args ≠ []) (lengths : args.length = values.length)
    (distinct : args.Nodup) (present : ∀ b ∈ args, c.kindOf? b = some .bit) : c.Accepts (.setBits values) args := by
  have wires : (Op.setBits values).signature args.length = replicate args.length .classical := by
    rw [Op.signature, lengths]
  exact @accepts_bits c _ [] args wires nonempty distinct present

lemma accepts_range {bits : List UnitId} (lower upper : Nat)
    (present : ∀ u ∈ bits ++ [b], c.kindOf? u = some .bit) : c.Accepts (.range lower upper bits.length) (bits ++ [b]) :=
  accepts_bits rfl (by simp) (nodup_singleton b) present

variable [DecidableEq α]

lemma binaryForm_wires (place : α → UnitId) (binary : op ≠ .not) (a b out : α) (count : Nat) :
    (binaryForm op a b out).2.length = ((binaryForm op a b out).1.signature count).length ∧
    written (((binaryForm op a b out).2.map place).zip ((binaryForm op a b out).1.signature count)) = [place out] ∧
    ∀ w ∈ ((binaryForm op a b out).2.map place).zip ((binaryForm op a b out).1.signature count),
    w.1 ∈ [place a, place b, place out] ∧ w.2.kind = .bit := by
  unfold binaryForm
  split_ifs <;> cases op <;> simp_all [Op.signature, written, kind]

lemma accepts_binary (binary : op ≠ .not) {out : UnitId} (present : ∀ u ∈ [a, b, out], c.kindOf? u = some .bit) :
    c.Accepts (binaryForm op a b out).1 (binaryForm op a b out).2 := by
  have wires := binaryForm_wires id binary a b out (binaryForm op a b out).2.length
  rw [map_id] at wires
  refine ⟨?_, wires.1, ?_, ?_⟩
  · unfold binaryForm
    split_ifs <;> simp
  · rw [wires.2.1]
    exact nodup_singleton _
  · intro w mem
    obtain ⟨inside, kind⟩ := wires.2.2 w mem
    rw [present w.1 inside, kind]

lemma zip_flatMap {β γ δ : Type} (xs : List β) (f : β → List γ) (s : List δ)
    (lengths : ∀ x ∈ xs, (f x).length = s.length) :
    (xs.flatMap f).zip (replicate xs.length s).flatten = xs.flatMap fun x => (f x).zip s := by
  induction xs with
  | nil => rfl
  | cons x rest ih =>
    simp only [flatMap_cons, length_cons, replicate_succ, flatten_cons]
    rw [zip_append (lengths x (by simp)), ih fun y mem => lengths y (.tail x mem)]

def commonSize (op : BitOperation) (a b out : Register) : Nat :=
  ((binaryForm op a b out).2.map Register.size).foldl min out.size

def registerArgs (op : BitOperation) (a b out : Register) (size : Nat) : List UnitId :=
  (range size).flatMap fun i => (binaryForm op a b out).2.map (·.place i)

lemma accepts_registerBinary (binary : op ≠ .not) {out : Register} {size : Nat} (positive : 0 < size)
    (present : ∀ r ∈ [a, b, out], ∀ i < size, c.kindOf? (r.place i) = some .bit) :
    c.Accepts (.multiBit (binaryForm op a b out).1 size) (registerArgs op a b out size) := by
  have each (i : Nat) := binaryForm_wires (Register.place · i) binary a b out 0
  have lengths : ∀ i ∈ List.range size, ((binaryForm op a b out).2.map (·.place i)).length =
      ((binaryForm op a b out).1.signature 0).length := by
    intro i _
    rw [length_map]
    exact (each i).1
  have wires : (registerArgs op a b out size).zip
      ((Op.multiBit (binaryForm op a b out).1 size).signature (registerArgs op a b out size).length) =
      (List.range size).flatMap fun i => ((binaryForm op a b out).2.map (·.place i)).zip
        ((binaryForm op a b out).1.signature 0) := by
    have step := zip_flatMap (List.range size) _ _ lengths
    rwa [length_range] at step
  have writes : ∀ indices : List Nat, written (indices.flatMap fun i =>
      ((binaryForm op a b out).2.map (·.place i)).zip ((binaryForm op a b out).1.signature 0)) =
      indices.map out.place := by
    intro indices
    induction indices with
    | nil => rfl
    | cons i rest ih =>
      rw [flatMap_cons, written_append, (each i).2.1, ih]
      rfl
  refine ⟨?_, ?_, ?_, ?_⟩
  · have inside : out.place 0 ∈ registerArgs op a b out size := by
      refine mem_flatMap.mpr ⟨0, mem_range.mpr positive, ?_⟩
      unfold binaryForm
      split_ifs <;> simp
    exact ne_nil_of_mem inside
  · simp only [registerArgs, Op.signature, List.length_flatMap, length_flatten,
      map_replicate, map_congr_left lengths, map_const', length_range]
  · rw [wires, writes]
    refine List.Nodup.map (fun i j same => ?_) nodup_range
    simpa [Register.place] using same
  · intro w mem
    rw [wires] at mem
    obtain ⟨i, below, inside⟩ := mem_flatMap.mp mem
    obtain ⟨named, kind⟩ := (each i).2.2 w inside
    have bound := mem_range.mp below
    rw [kind]
    simp only [mem_cons, not_mem_nil, or_false] at named
    rcases named with same | same | same <;> rw [same] <;> exact present _ (by simp) i bound

end Circuit

namespace Execution

def combineAt (op : BitOperation) (a b out : Register) (m : Memory) (i : Nat) : Memory :=
  m.write (out.place i) (op.apply (m (a.place i)) (m (b.place i)))

lemma effect_registerBinary (binary : op ≠ .not) (a b out : Register) (size : Nat) (m : Memory) :
    effect (.multiBit (Circuit.binaryForm op a b out).1 size)
    (Circuit.registerArgs op a b out size) m = (range size).foldl (combineAt op a b out) m := by
  have arity := (Circuit.binaryForm_wires (Register.place · 0) binary a b out 0).1
  apply foldl_ext
  intro m i below
  rw [← arity, Circuit.registerArgs, take_drop_flatMap (fun i _ => length_map _)
    (getElem?_range (mem_range.mp below))]
  exact effect_binaryForm (Register.place · i) binary a b out m

variable (op : BitOperation) (a b out : Register) (indices : List Nat)

lemma place_ne {r s : Register} (other : i ≠ j) : r.place i ≠ s.place j := by
  intro same
  exact other (by simpa using (UnitId.mk.inj same).2)

lemma combineAt_frame (m : Memory) (apart : ∀ i ∈ indices, u ≠ out.place i) :
    indices.foldl (combineAt op a b out) m u = m u := by
  induction indices generalizing m with
  | nil => rfl
  | cons i rest ih =>
    rw [foldl_cons, ih _ fun j mem => apart j (.tail i mem)]
    exact Memory.write_of_ne _ _ (apart i (by simp))

lemma combineAt_value (m : Memory) (distinct : indices.Nodup) {i : Nat} (mem : i ∈ indices) :
    indices.foldl (combineAt op a b out) m (out.place i) = op.apply (m (a.place i)) (m (b.place i)) := by
  induction indices generalizing m with
  | nil => cases mem
  | cons j rest ih =>
    have parts := nodup_cons.mp distinct
    rw [foldl_cons]
    rcases mem_cons.mp mem with rfl | later
    · have apart : ∀ k ∈ rest, out.place i ≠ out.place k := by
        intro k inside
        exact place_ne fun same => parts.1 (same ▸ inside)
      rw [combineAt_frame op a b out rest _ apart]
      exact Memory.write_same _ _ _
    · have other : i ≠ j := fun same => parts.1 (same ▸ later)
      rw [ih _ parts.2 later, combineAt, Memory.write_of_ne _ _ (place_ne other),
        Memory.write_of_ne _ _ (place_ne other)]

end Execution

end CircuitWorks
