import CircuitWorks.Proofs.Decompose.Circuits

/-!
Two readings of a comparison of registers.
-/

namespace CircuitWorks.Logic

def RegBinary.Holds (op : RegBinary) (x : Int) (v : Constant) : Prop :=
  (Operators.binaryValue Empty op (.int x) v).toInt ≠ 0

instance (op : RegBinary) (x : Int) (v : Constant) : Decidable (op.Holds x v) :=
  inferInstanceAs (Decidable (_ ≠ _))

/-- Trees of conjunctions, disjunctions and exclusive disjunctions over registers and numbers that are
not negative. -/
def IsMaskTree (register : Register → Prop) (e : RegExp) : Prop :=
  e.Over (fun op => Term.RegBinary.isComparison op = false) (fun c => 0 ≤ c.toInt) register

lemma toInt_mask {op : RegBinary} (mask : Term.RegBinary.isComparison op = false) {c d : Constant}
    {x y : Nat} (left : c.toInt = x) (right : d.toInt = y) :
    ∃ z : Nat, (Operators.binaryValue Empty op c d).toInt = z ∧ ∀ n, x < 2 ^ n → y < 2 ^ n → z < 2 ^ n := by
  cases op with
  | and =>
    refine ⟨x &&& y, ?_, fun n _ second => Nat.and_lt_two_pow x second⟩
    calc (c.and d).toInt = bitAnd c.toInt d.toInt := Constant.toInt_and c d
      _ = (x &&& y : Nat) := by rw [left, right]; rfl
  | or =>
    refine ⟨x ||| y, ?_, fun n first second => Nat.or_lt_two_pow first second⟩
    calc (c.or d).toInt = bitOr c.toInt d.toInt := Constant.toInt_or c d
      _ = (x ||| y : Nat) := by rw [left, right]; rfl
  | xor =>
    refine ⟨x ^^^ y, ?_, fun n first second => Nat.xor_lt_two_pow first second⟩
    calc (c.xor d).toInt = bitXor c.toInt d.toInt := Constant.toInt_xor c d
      _ = (x ^^^ y : Nat) := by rw [left, right]; rfl
  | eq | neq | lt | gt | leq | geq => cases mask

lemma IsMaskTree.value {register : Register → Prop} {e : RegExp} (tree : IsMaskTree register e)
    (number : Register → Nat) : ∃ z : Nat, (e.value fun r => .int (number r)).toInt = z ∧
    ∀ n, e.Over (fun _ => True) (fun c => c.toInt < (2 ^ n : Nat)) (fun r => number r < 2 ^ n) → z < 2 ^ n := by
  induction e with
  | const c =>
    obtain ⟨z, same⟩ := Int.eq_ofNat_of_zero_le tree
    refine ⟨z, same, ?_⟩
    intro n small
    have below : c.toInt < (2 ^ n : Nat) := small
    omega
  | var r => exact ⟨number r, rfl, fun n small => small⟩
  | unary op _ => exact op.elim
  | binary op x y ihx ihy =>
    obtain ⟨a, left, smallLeft⟩ := ihx tree.2.1
    obtain ⟨b, right, smallRight⟩ := ihy tree.2.2
    obtain ⟨z, same, small⟩ := toInt_mask tree.1 left right
    refine ⟨z, same, ?_⟩
    intro n leaves
    exact small n (smallLeft n leaves.2.1) (smallRight n leaves.2.2)

end CircuitWorks.Logic

namespace CircuitWorks.Condition

open List Decompose Scratch Circuit Execution Decompose.Part Logic Constant

lemma bounds_holds {op : RegBinary} (comparison : Term.RegBinary.isComparison op = true)
    (v : Constant) (nonneg : 0 ≤ x) (small : x ≤ greatest) :
    decide ((bounds op v.toInt).1 ≤ x ∧ x ≤ (bounds op v.toInt).2) = boundsValue op ↔ op.Holds x v := by
  have own : (int x).toInt = x := rfl
  rw [Bool.eq_iff_iff, decide_eq_true_iff]
  cases op with
  | and | or | xor => cases comparison
  | neq =>
    refine Iff.trans ?_ (falsity_ne_zero _).symm
    simp only [bounds, boundsValue, same, own, decide_eq_true_eq, decide_eq_false_iff_not,
      ne_eq, not_true_eq_false, iff_false]
    omega
  | eq | lt | gt | leq | geq =>
    refine Iff.trans ?_ (truth_ne_zero _).symm
    simp only [bounds, boundsValue, same, own, decide_eq_true_eq, ne_eq, reduceCtorEq,
      not_false_eq_true, iff_true]
    omega

section

variable {units : List UnitId}

def IsPresent (c : Circuit) (r : Register) : Prop :=
  0 < r.size ∧ r.size ≤ 32 ∧ ∀ b ∈ r.bits, c.kindOf? b = some .bit

lemma number_writeAll_testBit (m : Memory) (distinct : units.Nodup) (n : Nat) :
    (m.writeAll units ((range units.length).map (n : Int).testBit)).number units = n % 2 ^ units.length := by
  apply Nat.eq_of_testBit_eq
  intro i
  rw [Memory.testBit_number, Nat.testBit_mod_two_pow]
  by_cases inside : i < units.length
  · have target : units[i]? = some units[i] := getElem?_eq_getElem inside
    have value : ((range units.length).map (n : Int).testBit)[i]? = some (n.testBit i) := by
      simp [inside, Int.testBit]
    rw [target, Option.map_some, Memory.writeAll_getElem m units _ distinct i target value]
    simp [inside]
  · simp [inside]

lemma leastSize_var (r : Register) : leastSize (.var r) = r.size := by
  have reads : (Exp.var r : RegExp).vars ≠ [] := cons_ne_nil r []
  obtain ⟨s, own, size⟩ := exists_leastSize reads
  rw [← size, mem_singleton.mp own]

def Keeps (c d : Circuit) : Prop :=
  d.commands = c.commands ∧ ∀ u, c.kindOf? u = some .bit → d.kindOf? u = some .bit

lemma Keeps.tree (keeps : Keeps c d) (tree : IsMaskTree (IsPresent c) e) : IsMaskTree (IsPresent d) e := by
  apply tree.imp (fun _ mask => mask) (fun _ nonneg => nonneg)
  intro r inside
  exact ⟨inside.1, inside.2.1, fun u mem => keeps.2 u (inside.2.2 u mem)⟩

lemma keeps_gains (gains : Gains c units d) : Keeps c d := by
  refine ⟨gains.commands, fun u known => kindOf?_eq_bit.mpr ?_⟩
  obtain ⟨apart, inside⟩ := kindOf?_eq_bit.mp known
  exact ⟨gains.qubits ▸ apart, (gains.bits u).mpr (.inr inside)⟩

lemma keeps_ensureRegister (added : c.ensureRegister r = .ok d) : Keeps c d := by
  rcases gains_ensureRegister added with gains | gains
  · exact keeps_gains gains
  · exact keeps_gains gains

/-- The bits that hold an expression after the added commands. -/
structure Holding (c : Circuit) (e : RegExp) (bits : List UnitId) (d : Circuit)
    (added : List Command) : Prop where
  commands : d.commands = c.commands ++ added
  kept : ∀ u, c.kindOf? u = some .bit → d.kindOf? u = some .bit
  present : ∀ b ∈ bits, d.kindOf? b = some .bit
  number : ∀ outcome s, ((run outcome added s).memory.number bits : Int) =
    s.memory.value (.reg e) % (2 ^ leastSize e : Nat)

lemma holding_var (inside : IsPresent c r) : Holding c (.var r) r.bits c [] := by
  refine ⟨(append_nil _).symm, fun _ known => known, inside.2.2, ?_⟩
  intro outcome s
  have below := s.memory.number_lt r.bits
  have length : r.bits.length = leastSize (.var r) := by
    rw [leastSize_var]
    simp [Register.bits]
  rw [← length]
  exact (Int.emod_eq_of_lt (Int.natCast_nonneg _) (Int.ofNat_lt.mpr below)).symm

lemma number_box {exp : Term} {n : Nat} {outs : List UnitId} (distinct : outs.Nodup) {m : Memory}
    (value : m.value exp = n) : (effect (boxCommand exp outs).op
    (boxCommand exp outs).args m).number outs = n % 2 ^ outs.length := by
  have targets : (expressionInputs exp ++ outs).drop (expressionInputs exp).length = outs := drop_left
  simp only [boxCommand, effect, targets, value]
  exact number_writeAll_testBit m distinct n

lemma expressionInputs_present (tree : IsMaskTree (IsPresent c) e) :
    ∀ b ∈ expressionInputs (.reg e), c.kindOf? b = some .bit := by
  intro b mem
  obtain ⟨r, own, inside⟩ := mem_expressionInputs.mp mem
  exact (tree.vars r own).2.2 b inside

lemma outputs_disjoint (tree : IsMaskTree (IsPresent c) e) {k : Nat}
    (fresh : ∀ b ∈ c.bits, b.register ≠ (register k).name) (n : Nat) :
    ∀ u ∈ outputs n k, u ∉ expressionInputs (.reg e) := by
  intro u mem input
  have known := expressionInputs_present tree u input
  obtain ⟨i, _, rfl⟩ := mem_bits.mp (mem_of_mem_take mem)
  exact fresh _ (kindOf?_eq_bit.mp known).2 rfl

lemma Selects.holding {bits : List UnitId} (selects : Selects e c bits d)
    (tree : IsMaskTree (IsPresent c) e) : ∃ added, Holding c e bits d added := by
  cases selects with
  | register r => exact ⟨[], holding_var tree⟩
  | box _ reads next ensured boxed =>
    obtain ⟨v, own, size⟩ := exists_leastSize reads
    have small := (tree.vars v own).2.1
    rw [size] at small
    obtain ⟨k, rfl, fresh⟩ := nextRegister_eq_ok next
    have keeps := keeps_ensureRegister ensured
    let outs := outputs (leastSize e) k
    obtain ⟨accepted, rfl⟩ := addExpression_eq_ok (outputs_disjoint tree fresh _) boxed
    have register : outs = (⟨(Scratch.register k).name, leastSize e⟩ : Register).bits :=
      outputs_eq small k
    refine ⟨[boxCommand (.reg e) outs], ?_, keeps.2, ?_, ?_⟩
    · exact congrArg (· ++ _) keeps.1
    · intro u mem
      exact kindOf?_of_box accepted (mem_append_right _ mem)
    · intro outcome s
      obtain ⟨n, value, _⟩ := tree.value fun r => s.memory.number r.bits
      have known : s.memory.value (.reg e) = n := value
      have nodup : outs.Nodup := register ▸ bits_nodup _
      have length : outs.length = leastSize e := by
        rw [register]
        simp [Register.bits]
      rw [run_cons, run_nil, perform_classical _ _ rfl, known]
      change ((effect _ _ _).number outs : Int) = _
      rw [number_box nodup known, length]
      rfl

end

section

variable {op : RegBinary}

def InRange (op : RegBinary) (value : Int) : Prop :=
  0 ≤ (bounds op value).1 ∧ (bounds op value).1 < 4294967296 ∧
    0 ≤ (bounds op value).2 ∧ (bounds op value).2 < 4294967296

instance (op : RegBinary) (value : Int) : Decidable (InRange op value) :=
  inferInstanceAs (Decidable (_ ∧ _))

def evaluate (op : RegBinary) (e : RegExp) (v : Constant) (m : Memory) : Except Logic.Error Term := do
  let settings := (Logic.regInputs e).map fun r => (Term.ofRegister r, int (m.number r.bits))
  let t ← (Term.reg (.binary op e (.const v))).setAll settings
  t.fold

lemma extendAll_registers (a : Assignment) (registers : List Register) :
    a.extendAll (registers.map fun r => (Term.ofRegister r, int (a.register r))) = a := by
  induction registers with
  | nil => rfl
  | cons r rest ih =>
    have same : a.extend (Term.ofRegister r) (.int (a.register r)) = a := by
      have kept : Function.update a.register r (a.register r) = a.register :=
        Function.update_eq_self r a.register
      exact congrArg (Assignment.mk a.bit) kept
    change (a.extendAll _).extend _ _ = a
    rw [ih, same]

lemma evaluate_eq_ok (op : RegBinary) (e : RegExp) (v : Constant) (m : Memory) :
    ∃ r, evaluate op e v m = .ok (.constant r) ∧ (r.toInt ≠ 0 ↔ op.Holds (m.value (.reg e)) v) := by
  let a : Assignment := ⟨m, fun r => m.number r.bits⟩
  let t : Term := .reg (.binary op e (.const v))
  let settings := (Logic.regInputs e).map fun r => (Term.ofRegister r, int (a.register r))
  have allowed : ∀ s ∈ settings, Term.IsSetting s := by
    intro s mem
    obtain ⟨r, _, rfl⟩ := mem_map.mp mem
    exact .inr ⟨r, rfl⟩
  obtain ⟨u, done, node, within, unknown, value⟩ := Term.setAll_node (t := t) rfl trivial allowed
  obtain ⟨r, folded, same, complete⟩ := Term.fold_node node within
  have closed : u.unknowns = [] := by
    apply eq_nil_iff_forall_not_mem.mpr
    intro w mem
    have own := unknown w mem
    have listed : w ∈ (e.vars ++ []).eraseDups.map Term.ofRegister := own.1
    rw [append_nil] at listed
    obtain ⟨r, inside, rfl⟩ := mem_map.mp listed
    apply own.2
    exact mem_map.mpr ⟨_, mem_map.mpr ⟨r, inside, rfl⟩, rfl⟩
  have constant := complete closed
  cases r with
  | bit _ | reg _ => cases constant
  | constant r =>
    refine ⟨r, bind_eq_ok.mpr ⟨u, done, folded⟩, ?_⟩
    have number : r.toInt = t.value a := by
      rw [← extendAll_registers a (Logic.regInputs e), ← value]
      exact same a
    rw [number]
    apply not_congr
    apply Eq.congr_left
    exact Logic.regOperators_sound.binary_congr op _ _ v v rfl rfl

lemma range_memory (outcome : Nat → Bool) (lower upper : Nat) (bits : List UnitId) (b : UnitId) (s : Machine) :
    (perform outcome (.range lower upper bits.length) (bits ++ [b]) s).memory b =
    decide (lower ≤ s.memory.number bits ∧ s.memory.number bits ≤ upper) := by
  rw [perform_classical _ _ rfl]
  simp only [effect, take_left, drop_left]
  exact Memory.write_same _ _ _

lemma add_eq (comparison : Term.RegBinary.isComparison op = true) (e : RegExp) (v : Constant) :
    add (.reg (.binary op e (.const v))) = addComparison op e v.toInt := by
  rw [add, if_pos comparison]

lemma addRange_inRange {d f : Circuit} {value : Int} {bits : List UnitId}
    (added : d.addRange (bounds op value).1 (bounds op value).2 bits b = .ok f) : InRange op value ∧ f = d.withCommand
    (.range (bounds op value).1.toNat (bounds op value).2.toNat bits.length) (bits ++ [b]) := by
  unfold addRange at added
  split at added
  · exact ⟨‹_›, (addOp_eq_ok added).2⟩
  · cases added

lemma addComparison_eq_ok (comparison : Term.RegBinary.isComparison op = true)
    (tree : IsMaskTree (IsPresent c) e) {v : Constant} {bit : UnitId} {value : Bool}
    (done : (addComparison op e v.toInt).run c = (.ok (bit, value), d)) :
    (e.vars ≠ [] ∧ InRange op v.toInt) ∧ ∃ added, d.commands = c.commands ++ added ∧ ∀ outcome s,
    (run outcome added s).memory bit = value ↔ op.Holds (s.memory.value (.reg e) % (2 ^ leastSize e : Nat)) v := by
  obtain _ | _ | @⟨_, _, _, _, f, g, _, _, bits, next, new, selects, ranged⟩ :=
    (leads_addComparison comparison e v c).of_ok done
  have keeps := keeps_gains (gains_addBit new)
  obtain ⟨added, holding⟩ := selects.holding (keeps.tree tree)
  obtain ⟨inRange, rfl⟩ := addRange_inRange ranged
  let range : Op := .range (bounds op v.toInt).1.toNat (bounds op v.toInt).2.toNat bits.length
  refine ⟨⟨selects.reads, inRange⟩, added ++ [⟨range, bits ++ [bit]⟩], ?_, ?_⟩
  · change g.commands ++ _ = _
    rw [holding.commands, keeps.1, append_assoc]
  · intro outcome s
    have number := holding.number outcome s
    obtain ⟨r, inside, size⟩ := exists_leastSize selects.reads
    have width : 2 ^ leastSize e ≤ 2 ^ 32 :=
      Nat.pow_le_pow_right Nat.two_pos (size ▸ (tree.vars r inside).2.1)
    rw [← number, ← bounds_holds comparison v (Int.natCast_nonneg _), run_append, run_cons, run_nil, range_memory]
    · obtain ⟨first, _, second, _⟩ := inRange
      apply Eq.congr_left
      apply decide_eq_decide.mpr
      omega
    · rw [number]
      have last : ((2 ^ leastSize e : Nat) : Int) ≤ greatest + 1 := Int.ofNat_le.mpr width
      omega

/-- The number of an expression fits into the smallest register if all registers have one size and no
constant is wider. -/
lemma value_fits (tree : IsMaskTree (IsPresent c) e)
    (even : e.Over (fun _ => True) (fun k => k.toInt < (2 ^ leastSize e : Nat))
    (fun r => r.size = leastSize e)) (m : Memory) : m.value (.reg e) < (2 ^ leastSize e : Nat) := by
  obtain ⟨n, value, small⟩ := tree.value fun r => m.number r.bits
  have known : m.value (.reg e) = n := value
  rw [known, Int.ofNat_lt]
  apply small
  apply even.imp (fun _ _ => trivial) (fun _ narrow => narrow)
  intro r size
  have below := m.number_lt r.bits
  have length : r.bits.length = r.size := by simp [Register.bits]
  rwa [length, size] at below

end

structure Reserved (c : Circuit) : Prop where
  bits : ∀ b ∈ c.bits, b.register = bitName → ∃ k, b = bit k
  registers : ∀ b ∈ c.bits, b.register.startsWith registerBase = true →
    ∃ k, b.register = (register k).name
  qubits : ∀ q ∈ c.qubits, q.register.startsWith bitName = false

lemma Reserved.not_qubit (reserved : Reserved c)
    (scratch : u.register.startsWith bitName = true) : u ∉ c.qubits := by
  intro mem
  rw [reserved.qubits u mem] at scratch
  cases scratch

lemma Reserved.addBit (reserved : Reserved c) :
    ∃ k d, nextBit c = .ok (bit k) ∧ c.addBit (bit k) = .ok d ∧ Reserved d := by
  obtain ⟨k, next, absent⟩ := nextBit_ok reserved.bits
  have room : c.Roomy bitName := by
    constructor
    · intro q mem same
      refine reserved.not_qubit ?_ mem
      rw [same]
      simp
    · intro b mem named
      obtain ⟨j, rfl⟩ := reserved.bits b mem named
      rfl
  refine ⟨k, _, next, room.addBit absent, ?_, ?_, reserved.qubits⟩
  · intro b mem named
    rcases (UnitId.mem_insertSorted _ _ _).mp mem with rfl | old
    · exact ⟨k, rfl⟩
    · exact reserved.bits b old named
  · intro b mem base
    rcases (UnitId.mem_insertSorted _ _ _).mp mem with rfl | old
    · rw [String.startsWith_string_iff] at base
      exact absurd base (by decide : ¬registerBase.toList <+: bitName.toList)
    · exact reserved.registers b old base

lemma Reserved.ensureRegister (reserved : Reserved c) :
    ∃ k d, nextRegister c = .ok (register k) ∧ c.ensureRegister (register k) = .ok d ∧
    ∀ b ∈ (register k).bits, d.kindOf? b = some .bit := by
  obtain ⟨k, next, unused⟩ := nextRegister_ok reserved.registers
  have none : c.registerUnits (register k).name = [] := by
    apply filter_eq_nil_iff.mpr
    intro u mem named
    have same : u.register = (register k).name := of_decide_eq_true named
    rcases mem_append.mp mem with qubit | bit
    · exact reserved.not_qubit (same ▸ register_startsWith k) qubit
    · exact unused u bit (same ▸ register_startsWith_base k) same
  refine ⟨k, _, next, by rw [Circuit.ensureRegister, none], ?_⟩
  intro b own
  apply Circuit.kindOf?_eq_bit.mpr
  rw [(foldl_insertUnit_rest _).1, mem_foldl_insertUnit]
  refine ⟨?_, .inl own⟩
  obtain ⟨i, _, rfl⟩ := mem_bits.mp own
  exact reserved.not_qubit (register_startsWith k)

lemma addExpression_ok {d : Circuit} {exp : Term} {outs : List UnitId} (nonempty : outs ≠ [])
    (distinct : outs.Nodup) (apart : ∀ u ∈ outs, u ∉ expressionInputs exp)
    (present : ∀ b ∈ expressionInputs exp ++ outs, d.kindOf? b = some .bit) :
    d.addExpression exp outs = .ok (d.withCommand (boxCommand exp outs).op (boxCommand exp outs).args) := by
  have all : outs.filter (fun u => u ∉ expressionInputs exp) = outs := by simpa [filter_eq_self] using apart
  have wires : (boxCommand exp outs).op.signature
      (expressionInputs exp ++ outs).length =
      replicate (expressionInputs exp).length .boolean ++
        replicate outs.length .classical := by
    simp [boxCommand, Op.signature]
  have accepted := accepts_bits wires (by simp [nonempty]) distinct present
  unfold addExpression
  simp only [all, Nat.sub_self, Nat.sub_zero]
  exact accepted.addOp

lemma registerBits_ok (reserved : Reserved c) (tree : IsMaskTree (IsPresent c) e)
    (reads : e.vars ≠ []) : ∃ bits d, (registerBits e).run c = (.ok bits, d) := by
  cases e with
  | const _ => exact absurd rfl reads
  | unary op _ => exact op.elim
  | var r => exact ⟨r.bits, c, rfl⟩
  | binary op x y =>
    let e : RegExp := .binary op x y
    obtain ⟨first, rest, sizes, least⟩ := exists_sizes reads
    obtain ⟨v, own, size⟩ := exists_leastSize reads
    obtain ⟨pos, small, _⟩ := tree.vars v own
    rw [size] at pos small
    obtain ⟨k, d, next, ensured, inside⟩ := reserved.ensureRegister
    have keeps := keeps_ensureRegister ensured
    obtain ⟨_, _, fresh⟩ := nextRegister_eq_ok next
    let outs := outputs (leastSize e) k
    have register : outs = (⟨(register k).name, leastSize e⟩ : Register).bits :=
      outputs_eq small k
    have ne : outs ≠ [] := by
      rw [register]
      exact ne_nil_of_mem (mem_bits.mpr ⟨0, pos, rfl⟩)
    have nodup : outs.Nodup := register ▸ bits_nodup _
    have present : ∀ b ∈ expressionInputs (.reg e) ++ outs, d.kindOf? b = some .bit := by
      intro b mem
      rcases mem_append.mp mem with input | output
      · exact keeps.2 b (expressionInputs_present tree b input)
      · exact inside b (mem_of_mem_take output)
    have boxed := addExpression_ok ne nodup (outputs_disjoint tree fresh _) present
    let box := boxCommand (.reg e) outs
    refine ⟨outs, d.withCommand box.op box.args, ?_⟩
    simp only [registerBits, sizes, least]
    refine run_bind_eq_ok.mpr ⟨c, c, rfl, ?_⟩
    refine run_bind_eq_ok.mpr ⟨_, c, run_orScratch_eq_ok.mpr ⟨next, rfl⟩, ?_⟩
    refine run_bind_eq_ok.mpr ⟨(), d, run_step_eq_ok.mpr ensured, ?_⟩
    exact run_bind_eq_ok.mpr ⟨(), _, run_step_eq_ok.mpr boxed, rfl⟩

lemma addComparison_ok (reserved : Reserved c) (tree : IsMaskTree (IsPresent c) e)
    (reads : e.vars ≠ []) {op : RegBinary} {value : Int} (inRange : InRange op value) :
    ∃ bit d, (addComparison op e value).run c = (.ok (bit, boundsValue op), d) := by
  obtain ⟨k, f, next, new, still⟩ := reserved.addBit
  have gains := gains_addBit new
  have present := (keeps_gains gains).tree tree
  obtain ⟨bits, g, read⟩ := registerBits_ok still present reads
  obtain ⟨added, holding⟩ := ((leads_registerBits op e (.int value) f).of_ok read).holding present
  let range : Op := .range (bounds op value).1.toNat (bounds op value).2.toNat bits.length
  have accepted : g.Accepts range (bits ++ [bit k]) := by
    apply accepts_range
    intro u mem
    rcases mem_append.mp mem with source | last
    · exact holding.present u source
    · rw [mem_singleton.mp last]
      exact holding.kept _ (gains.kindOf? (by simp))
  have ranged : g.addRange (bounds op value).1 (bounds op value).2 bits (bit k) =
      .ok (g.withCommand range (bits ++ [bit k])) :=
    (if_pos inRange).trans accepted.addOp
  refine ⟨bit k, g.withCommand range (bits ++ [bit k]), ?_⟩
  refine run_bind_eq_ok.mpr ⟨c, c, rfl, ?_⟩
  refine run_bind_eq_ok.mpr ⟨_, c, run_orScratch_eq_ok.mpr ⟨next, rfl⟩, ?_⟩
  refine run_bind_eq_ok.mpr ⟨(), f, run_step_eq_ok.mpr new, ?_⟩
  refine run_bind_eq_ok.mpr ⟨bits, g, read, ?_⟩
  exact run_bind_eq_ok.mpr ⟨(), _, run_step_eq_ok.mpr ranged, rfl⟩

/-- The two readings of a comparison. Where it is added to a circuit, the scratch bit tells whether the
comparison holds of the lowest digits of the number, as many as the smallest register has. This is
what evaluation gives whenever the number has no further digits, as when all registers have one size
and no constant is wider. It is added if its bounds have 32 bits and scratch names are used for nothing
else. -/
theorem add_comparison_reads {c : Circuit} {op : RegBinary}
    (comparison : Term.RegBinary.isComparison op = true) {e : RegExp}
    (tree : IsMaskTree (IsPresent c) e) (reads : e.vars ≠ []) (v : Constant) :
    (∀ bit value d, (add (.reg (.binary op e (.const v)))).run c = (.ok (bit, value), d) →
      ∃ added, d.commands = c.commands ++ added ∧ ∀ outcome s,
        ((run outcome added s).memory bit = value ↔
          op.Holds (s.memory.value (.reg e) % (2 ^ leastSize e : Nat)) v) ∧
        (s.memory.value (.reg e) < (2 ^ leastSize e : Nat) →
          ∃ r, evaluate op e v s.memory = .ok (.constant r) ∧
            ((run outcome added s).memory bit = value ↔ r.toInt ≠ 0))) ∧
    (Reserved c → InRange op v.toInt → ∃ bit value d,
      (add (.reg (.binary op e (.const v)))).run c = (.ok (bit, value), d)) ∧
    (e.Over (fun _ => True) (fun k => k.toInt < (2 ^ leastSize e : Nat))
      (fun r => r.size = leastSize e) →
        ∀ m : Memory, m.value (.reg e) < (2 ^ leastSize e : Nat)) := by
  rw [add_eq comparison]
  refine ⟨?_, ?_, value_fits tree⟩
  · intro bit value d done
    obtain ⟨_, added, commands, fires⟩ := addComparison_eq_ok comparison tree done
    refine ⟨added, commands, ?_⟩
    intro outcome s
    refine ⟨fires outcome s, ?_⟩
    intro small
    obtain ⟨r, evaluated, holds⟩ := evaluate_eq_ok op e v s.memory
    refine ⟨r, evaluated, ?_⟩
    obtain ⟨n, number, _⟩ := tree.value fun r => s.memory.number r.bits
    have known : s.memory.value (.reg e) = n := number
    have whole : s.memory.value (.reg e) % (2 ^ leastSize e : Nat) = s.memory.value (.reg e) :=
      Int.emod_eq_of_lt (known ▸ Int.natCast_nonneg n) small
    rw [holds, fires outcome s, whole]
  · intro reserved inRange
    obtain ⟨bit, d, done⟩ := addComparison_ok reserved tree reads inRange
    exact ⟨bit, boundsValue op, d, done⟩

lemma reserved_of_isUserBit (user : ∀ u ∈ c.qubits ++ c.bits, isUserBit u = true) : Reserved c := by
  have plain : ∀ u ∈ c.qubits ++ c.bits, u.register.startsWith bitName = false := by
    intro u mem
    simpa [isUserBit] using user u mem
  constructor
  · intro b mem named
    have other := plain b (mem_append_right _ mem)
    rw [named] at other
    revert other
    simp
  · intro b mem base
    have other := plain b (mem_append_right _ mem)
    rw [startsWith_bitName base] at other
    cases other
  · intro q mem
    exact plain q (mem_append_left _ mem)

def narrow : Register := ⟨"a", 1⟩

def wide : Register := ⟨"b", 2⟩

def bothSizes : Circuit := { empty with bits := narrow.bits ++ wide.bits }

lemma reserved_bothSizes : Reserved bothSizes := by
  apply reserved_of_isUserBit
  have a : ("a" : String).startsWith bitName = false := by decide
  have b : ("b" : String).startsWith bitName = false := by decide
  intro u mem
  have either : u ∈ narrow.bits ∨ u ∈ wide.bits := mem_append.mp mem
  rcases either with first | second
  · obtain ⟨i, _, rfl⟩ := mem_bits.mp first
    simp [isUserBit, Register.place, narrow, a]
  · obtain ⟨i, _, rfl⟩ := mem_bits.mp second
    simp [isUserBit, Register.place, wide, b]

lemma isPresent_narrow : IsPresent bothSizes narrow := ⟨by decide, by decide, by decide⟩

lemma isPresent_wide : IsPresent bothSizes wide := ⟨by decide, by decide, by decide⟩

/-- Where the readings differ. With 0 in the narrow register and 2 in the wide one, their disjunction is
2, but the circuit compares its lowest digit with 2. -/
theorem readings_differ :
    let e : RegExp := .binary .or (.var narrow) (.var wide)
    let m : Memory := fun u => u = wide.place 1
    ∃ bit d added r,
      (add (.reg (.binary .eq e (.const (.int 2))))).run bothSizes = (.ok (bit, true), d) ∧
      d.commands = bothSizes.commands ++ added ∧
      (∀ outcome, (run outcome added (.start m)).memory bit = false) ∧
      evaluate .eq e (.int 2) m = .ok (.constant r) ∧ r.toInt ≠ 0 := by
  intro e m
  have value : m.value (.reg e) = 2 := by decide
  rw [add_eq (rfl : Term.RegBinary.isComparison .eq = true)]
  have tree : IsMaskTree (IsPresent bothSizes) e := ⟨rfl, isPresent_narrow, isPresent_wide⟩
  have inRange : InRange .eq (Constant.int 2).toInt := by decide
  have reads : e.vars ≠ [] := by decide
  obtain ⟨bit, d, done⟩ := addComparison_ok reserved_bothSizes tree reads inRange
  obtain ⟨_, added, commands, fires⟩ := addComparison_eq_ok rfl tree done
  obtain ⟨r, evaluated, holds⟩ := evaluate_eq_ok .eq e (.int 2) m
  refine ⟨bit, d, added, r, done, commands, ?_, evaluated, ?_⟩
  · intro outcome
    have least : leastSize e = 1 := by decide
    have never := fires outcome (.start m)
    simp only [Machine.start, value, least] at never
    apply Bool.eq_false_of_not_eq_true
    intro set
    exact absurd (never.mp set) (by decide)
  · rw [holds, value]
    decide

/-- A comparison of a masked register. -/
theorem add_comparison_reads_masked :
    let e : RegExp := .binary .and (.binary .xor (.var wide) (.const (.int 3))) (.const (.int 2))
    Reserved bothSizes ∧ IsMaskTree (IsPresent bothSizes) e ∧ e.vars ≠ [] ∧
      ∃ bit value d added, (add (.reg (.binary .geq e (.const (.int 2))))).run bothSizes =
          (.ok (bit, value), d) ∧ d.commands = bothSizes.commands ++ added ∧
        ∀ outcome s, ∃ r, evaluate .geq e (.int 2) s.memory = .ok (.constant r) ∧
          ((run outcome added s).memory bit = value ↔ r.toInt ≠ 0) := by
  intro e
  have tree : IsMaskTree (IsPresent bothSizes) e :=
    ⟨rfl, ⟨rfl, isPresent_wide, (by decide : (0 : Int) ≤ 3)⟩, (by decide : (0 : Int) ≤ 2)⟩
  have reads : e.vars ≠ [] := by decide
  have inRange : InRange .geq (Constant.int 2).toInt := by decide
  obtain ⟨agree, success, fits⟩ :=
    add_comparison_reads (rfl : Term.RegBinary.isComparison .geq = true) tree reads (.int 2)
  obtain ⟨bit, value, d, done⟩ := success reserved_bothSizes inRange
  obtain ⟨added, commands, same⟩ := agree bit value d done
  refine ⟨reserved_bothSizes, tree, reads, bit, value, d, added, done, commands, ?_⟩
  intro outcome s
  apply (same outcome s).2
  apply fits
  have least : leastSize e = 2 := by decide
  rw [least]
  exact ⟨trivial, ⟨trivial, rfl, (by decide : (3 : Int) < (2 ^ 2 : Nat))⟩,
    (by decide : (2 : Int) < (2 ^ 2 : Nat))⟩

end CircuitWorks.Condition
