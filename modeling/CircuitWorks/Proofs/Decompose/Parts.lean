import CircuitWorks.Proofs.Decompose.BitSpace

/-!
The workspace of scratch registers, of which the first `n` positions matter.
-/

namespace CircuitWorks.Decompose

section

open Scratch Circuit Execution Logic List Register Memory Constant

def IsScratchRegister (r : Register) : Prop := ∃ k, r = register k

def IsUserRegister (r : Register) : Prop := r.name.startsWith bitName = false

lemma isUserBit_place (r : Register) (i : Nat) : isUserBit (r.place i) = true ↔ IsUserRegister r := by
  simp [isUserBit, place, IsUserRegister]

variable (k : Nat) {r : Register}

lemma register_startsWith_base : (register k).name.startsWith registerBase = true := by
  have whole : (register k).name.toList = registerBase.toList ++
      ("_".toList ++ (toString k).toList) := by
    simp [register]
  rw [String.startsWith_string_iff, whole]
  exact prefix_append _ _

lemma startsWith_bitName {name : String} (scratch : name.startsWith registerBase = true) :
    name.startsWith bitName = true := by
  rw [String.startsWith_string_iff] at scratch ⊢
  have inner : bitName.toList <+: registerBase.toList := by decide
  exact inner.trans scratch

lemma register_startsWith : (register k).name.startsWith bitName = true :=
  startsWith_bitName (register_startsWith_base k)

lemma not_isUserRegister_register : ¬IsUserRegister (register k) := by
  rw [IsUserRegister, register_startsWith]
  simp

lemma register_name_ne : (register k).name ≠ bitName := by
  intro same
  have len := congrArg (fun name : String => name.toList.length) same
  simp [register, registerBase, bitName] at len

structure RegistersSound (s : State) : Prop where
  pool : Pool.Sound s.registers
  named : ∀ r ∈ s.registers.known, IsScratchRegister r
  room : ∀ k, s.circuit.Roomy (register k).name

/-- A register that is kept: a scratch register that is not handed out, or one of the user's. -/
def RegisterSafe (s : State) (r : Register) : Prop :=
  Pool.Safe IsScratchRegister s.registers r ∧ (IsScratchRegister r ∨ IsUserRegister r)

def registerSpace (n : Nat) : Workspace RegBinary Register where
  hold := holdRegister
  combine := combineRegisters
  operation? := registerOperation?
  width := n
  content m r i := m (r.place i)
  Sound := RegistersSound
  Safe := RegisterSafe
  Present s r := n ≤ r.size ∧ ∀ i < r.size, s.circuit.kindOf? (r.place i) = some .bit
  Scratch := IsScratchRegister
  Holdable c := 0 ≤ c.toInt ∧ c.toInt < 2 ^ n
  digits c := bitWidth c.toInt.toNat
  Step s t code := Emits s t code ∧ t.bits = s.bits ∧
    ∀ outcome x b, IsScratchBit b → (run outcome code x).memory b = x.memory b

lemma freshRegister_eq_ok : freshRegister s = .ok (r, t) ↔
    ∃ pool, s.registers.fresh registerBase registerSize = .ok (r, pool) ∧ t = { s with registers := pool } := by
  rw [freshRegister, get_bind]
  rcases s.registers.fresh registerBase registerSize with e | ⟨c, pool⟩
  · exact ⟨nofun, nofun⟩
  · exact taken_eq_ok (f := fun pool => { s with registers := pool })

lemma freshRegister_ok (pool : Pool.Sound s.registers) (named : ∀ r ∈ s.registers.known, IsScratchRegister r) :
    ∃ k q make, freshRegister s = .ok (register k, { s with registers := q }) ∧
    Pool.Handed s.registers make (register k) q := by
  obtain ⟨k, q, make, result, handed⟩ := RegisterPool.fresh_spec pool named
  exact ⟨k, q, make, freshRegister_eq_ok.mpr ⟨q, result, rfl⟩, handed⟩

lemma RegisterSafe.place_ne (safe : RegisterSafe s r) {k : Nat} (other : r ≠ register k) (i j : Nat) :
    r.place i ≠ (register k).place j := by
  intro same
  have names : r.name = (register k).name := (UnitId.mk.inj same).1
  rcases safe.2 with ⟨l, rfl⟩ | user
  · exact other (by rw [register_injective names])
  · rw [IsUserRegister, names, register_startsWith] at user
    cases user

lemma registerSpace_hands (sound : RegistersSound s) (fits : n ≤ 32) {p q : RegisterPool} {k : Nat}
    {make : Except Scratch.Error Register} (handed : Pool.Handed p make (register k) q)
    (same : ∀ r, r ∈ p.known ↔ r ∈ s.registers.known) {bits : List UnitId}
    (members : ∀ b, b ∈ bits ↔ b ∈ (register k).bits ∨ b ∈ s.circuit.bits) (op : Op)
    (args : List UnitId) (logic : op.isLogic = true)
    (frame : ∀ m b, (∀ i, b ≠ (register k).place i) → effect op args m b = m b) (lost : Register → Prop)
    (kept : ∀ r, Pool.Safe IsScratchRegister s.registers r → ¬lost r → Pool.Safe IsScratchRegister p r) :
    (registerSpace n).Hands lost s (register k) { s with
    registers := q,
    circuit := ({ s.circuit with bits := bits } : Circuit).withCommand op args } [⟨op, args⟩] := by
  have effect (outcome x) (b : UnitId) (other : ∀ i, b ≠ (register k).place i) :
      (run outcome [⟨op, args⟩] x).memory b = x.memory b := by
    rw [memory_run_logic logic]
    exact frame _ b other
  have len : ∀ b ∈ bits, b ∈ s.circuit.bits ∨ b.index.length = 1 := by
    intro b mem
    rcases (members b).mp mem with new | old
    · obtain ⟨i, _, rfl⟩ := mem_map.mp new
      exact .inr rfl
    · exact .inl old
  have emits := emits_logic s s.bits q (fun b mem => (members b).mpr (.inr mem)) len logic (by
    intro m b user
    refine frame m b ?_
    rintro i rfl
    exact not_isUserRegister_register k ((isUserBit_place _ i).mp user))
  have fresh : RegisterSafe s (register k) → lost (register k) := by
    intro safe
    by_contra kept'
    have named : IsScratchRegister (register k) := ⟨k, rfl⟩
    exact handed.fresh named (kept _ safe.1 kept')
  have single : ∀ outcome x b, IsScratchBit b → (run outcome [⟨op, args⟩] x).memory b = x.memory b := by
    intro outcome x b scratch
    apply effect
    rintro i rfl
    exact register_name_ne k scratch
  refine ⟨⟨emits, rfl, single⟩, ⟨handed.sound, ?_, fun j => emits.roomy (sound.room j)⟩,
    ⟨handed.safe, .inl ⟨k, rfl⟩⟩, ⟨fits, ?_⟩, ⟨k, rfl⟩, fresh,
    fun r safe unlost => ⟨handed.kept (kept r safe.1 unlost), safe.2⟩, ?_⟩
  · intro r mem
    rcases (handed.known r).mp mem with rfl | old
    · exact ⟨k, rfl⟩
    · exact sound.named r ((same r).mp old)
  · intro i inside
    refine kindOf?_eq_bit.mpr ⟨fun mem => (sound.room k).qubits _ mem rfl, ?_⟩
    exact (members _).mpr (.inl (mem_map.mpr ⟨i, mem_range.mpr inside, rfl⟩))
  · intro outcome x r i _ safe unlost
    refine effect outcome x _ (safe.place_ne (fun same => ?_) i)
    exact unlost (same ▸ fresh (same ▸ safe))

lemma bitWidth_pos : 0 < bitWidth k := by
  unfold bitWidth
  split <;> omega

lemma bitWidth_le {k : Nat} (positive : 0 < n) (below : k < 2 ^ n) : bitWidth k ≤ n := by
  unfold bitWidth
  split
  · exact positive
  · rename_i nonzero
    exact (Nat.log2_lt nonzero).mpr below

lemma lowBits_getElem? {width : Nat} (inside : i < width) : (lowBits width k)[i]? = some (k.testBit i) := by
  simp [lowBits, inside]

lemma mem_bits {b : UnitId} : b ∈ r.bits ↔ ∃ i < r.size, b = r.place i := by
  simp only [Register.bits, mem_map, mem_range, Register.place]
  constructor
  · rintro ⟨i, inside, rfl⟩
    exact ⟨i, inside, rfl⟩
  · rintro ⟨i, inside, rfl⟩
    exact ⟨i, inside, rfl⟩

lemma IsUserRegister.bits (user : IsUserRegister r) : ∀ b ∈ r.bits, isUserBit b = true := by
  intro b mem
  obtain ⟨i, _, rfl⟩ := mem_bits.mp mem
  exact (isUserBit_place r i).mpr user

lemma bits_nodup (r : Register) : r.bits.Nodup := by
  refine List.Nodup.map (fun i j same => ?_) nodup_range
  simpa using same

lemma effect_hold (r : Register) (k width : Nat) (m : Memory) (i : Nat) :
    effect (.setBits (lowBits width k)) (⟨r.name, width⟩ : Register).bits m (r.place i) =
    if i < width then k.testBit i else m (r.place i) := by
  split
  · rename_i inside
    refine writeAll_getElem m _ _ (bits_nodup _) i ?_ (lowBits_getElem? k inside)
    simp [Register.bits, Register.place, inside]
  · rename_i outside
    refine writeAll_of_not_mem m _ _ fun mem => outside ?_
    obtain ⟨j, inside, same⟩ := mem_bits.mp mem
    have eq : i = j := by simpa [Register.place] using same
    exact eq ▸ inside

lemma testBit_number_bits (m : Memory) {i : Nat} (inside : i < r.size) :
    (m.number r.bits).testBit i = m (r.place i) := by
  have found : r.bits[i]? = some (r.place i) := by simp [Register.bits, Register.place, inside]
  rw [testBit_number, found]
  rfl

lemma heldNumber_hold (width : Nat) (positive : 0 < width) (values : List Bool) (m : Memory) :
    heldNumber ⟨.setBits values, (⟨(register k).name, width⟩ : Register).bits⟩ m =
    [(effect (.setBits values) (⟨(register k).name, width⟩ : Register).bits m).number (register k).bits] := by
  obtain ⟨rest, shape⟩ : ∃ rest, (⟨(register k).name, width⟩ : Register).bits = (register k).place 0 :: rest := by
    obtain ⟨pred, rfl⟩ := Nat.exists_eq_add_of_lt positive
    exact ⟨_, by rw [Register.bits, Nat.zero_add, range_succ_eq_map, map_cons]; rfl⟩
  have whole : variableBits ((register k).place 0) = (register k).bits :=
    if_neg (register_name_ne k)
  rw [shape, ← whole]
  rfl

lemma ensureBits_twice {c : Circuit} (room : c.Roomy r.name) {width : Nat} (narrow : width ≤ r.size) :
    ∃ one bits, c.ensureBits r.bits = .ok one ∧
    one.ensureBits (⟨r.name, width⟩ : Register).bits = .ok { c with bits := bits } ∧
    ∀ b, b ∈ bits ↔ b ∈ r.bits ∨ b ∈ c.bits := by
  obtain ⟨bits₁, ensured₁, members₁⟩ := ensureBits_ok room (List.range r.size)
  have still : ({ c with bits := bits₁ } : Circuit).Roomy r.name := by
    refine ⟨room.qubits, fun b mem register => ?_⟩
    rcases (members₁ b).mp mem with new | old
    · obtain ⟨i, _, rfl⟩ := List.mem_map.mp new
      rfl
    · exact room.bits b old register
  obtain ⟨bits₂, ensured₂, members₂⟩ := ensureBits_ok still (List.range width)
  refine ⟨_, bits₂, ensured₁, ensured₂, fun b => ?_⟩
  refine (members₂ b).trans ⟨?_, fun either => .inr ((members₁ b).mpr either)⟩
  rintro (part | either)
  · obtain ⟨i, inside, rfl⟩ := List.mem_map.mp part
    exact .inl (mem_bits.mpr ⟨i, (List.mem_range.mp inside).trans_le narrow, rfl⟩)
  · exact (members₁ b).mp either

lemma registerSpace_hold (positive : 0 < n) (fits : n ≤ 32) (s : State) (c : Constant)
    (sound : RegistersSound s) (nonneg : 0 ≤ c.toInt) (below : c.toInt < 2 ^ n) :
    ∃ v t code, holdRegister c s = .ok (v, t) ∧ (registerSpace n).Hands (fun _ => False) s v t code ∧
    ∀ outcome x, ∃ h, observe heldNumber outcome code x = [h] ∧ c.SameDigits (bitWidth c.toInt.toNat) (.int h) ∧
    ∀ i < registerSize, h.testBit i = (run outcome code x).memory (v.place i) := by
  obtain ⟨k, q, make, taken, handed⟩ := freshRegister_ok sound.pool sound.named
  let r := register k
  let width := bitWidth c.toInt.toNat
  let op := Op.setBits (lowBits width c.toInt.toNat)
  let part : Register := ⟨r.name, width⟩
  have small : width ≤ registerSize :=
    (bitWidth_le positive ((Int.toNat_lt nonneg).mpr (by exact_mod_cast below))).trans fits
  obtain ⟨one, bits, ensured₁, ensured₂, members⟩ := ensureBits_twice (sound.room k) small
  have accepted : ({ s.circuit with bits := bits } : Circuit).Accepts op part.bits := by
    refine accepts_setBits ?_ (by simp [part, Register.bits, lowBits]) (bits_nodup part) ?_
    · exact ne_nil_of_mem (mem_bits.mpr ⟨0, bitWidth_pos _, rfl⟩)
    · intro b mem
      obtain ⟨i, inside, rfl⟩ := mem_bits.mp mem
      refine kindOf?_eq_bit.mpr ⟨fun qubit => (sound.room k).qubits _ qubit rfl, ?_⟩
      exact (members _).mpr (.inl (mem_bits.mpr ⟨i, inside.trans_le small, rfl⟩))
  have hands := registerSpace_hands sound fits handed (fun _ => .rfl) members op part.bits rfl (by
      intro m b other
      refine writeAll_of_not_mem _ _ _ fun mem => ?_
      obtain ⟨i, _, same⟩ := mem_bits.mp mem
      exact other i same) (fun _ => False) fun r safe _ => safe
  refine ⟨r, _, _, ?_, hands, fun outcome x =>
    ⟨(effect op part.bits x.memory).number r.bits, ?_, ?_, ?_⟩⟩
  · have first := liftCircuit_ok { s with registers := q } (·.ensureBits r.bits) ensured₁
    have second := liftCircuit_ok { s with registers := q, circuit := one }
      (·.ensureBits part.bits) ensured₂
    have third := liftCircuit_ok
      { s with registers := q, circuit := { s.circuit with bits := bits } }
      (·.addSetBits (lowBits width c.toInt.toNat) part.bits) accepted.addOp
    have notNegative : ¬c.toInt < 0 := by omega
    have notWide : ¬registerSize < bitWidth c.toInt.toNat := not_lt.mpr small
    refine (bind_ok taken _).trans ((bind_ok first _).trans ?_)
    simp only [notNegative, notWide, if_false]
    exact (bind_ok second _).trans (bind_ok third _)
  · rw [observe, heldNumber_hold k width (bitWidth_pos _)]
    rfl
  · intro i inside
    have written : ((effect op part.bits x.memory).number r.bits).testBit i = c.toInt.toNat.testBit i := by
      rw [testBit_number_bits _ (inside.trans_le small), effect_hold, if_pos inside]
    have positive : c.toInt = (c.toInt.toNat : Int) := (Int.toNat_of_nonneg nonneg).symm
    rw [digit, digit, positive]
    exact written
  · intro i inside
    rw [testBit_number_bits _ inside]
    rfl

lemma registerOperation?_ne_not {op : RegBinary}
    (operation : registerOperation? op = some o) : o ≠ .not := by
  cases op <;> simp [registerOperation?] at operation <;> subst operation <;> simp

lemma commonSize_bounds (o : BitOperation) (a b out : Register) (large : n ≤ a.size) (large' : n ≤ b.size)
    (large'' : n ≤ out.size) : n ≤ commonSize o a b out ∧ ∀ r ∈ [a, b, out], commonSize o a b out ≤ r.size := by
  unfold commonSize binaryForm
  split_ifs with first second
  · subst first
    simp
    omega
  · subst second
    simp
    omega
  · simp
    omega

lemma registerSpace_combine (positive : 0 < n) (fits : n ≤ 32) (s : State) (op : RegBinary)
    (o : BitOperation) (a b : Register) (sound : RegistersSound s)
    (operation : registerOperation? op = some o) (safeA : RegisterSafe s a)
    (presentA : (registerSpace n).Present s a) (safeB : RegisterSafe s b)
    (presentB : (registerSpace n).Present s b) (apart : IsScratchRegister a → a ≠ b) :
    ∃ v t code, combineRegisters op a b s = .ok (v, t) ∧
    (registerSpace n).Hands (fun r => IsScratchRegister r ∧ (r = a ∨ r = b)) s v t code ∧
    ∀ outcome x, observe heldNumber outcome code x = [] ∧ ∀ i < n, (run outcome code x).memory (v.place i) =
    o.apply (x.memory (a.place i)) (x.memory (b.place i)) := by
  have binary := registerOperation?_ne_not operation
  obtain ⟨pool, known, kept⟩ :=
    sound.pool.release_both sound.named le safeA.1 safeB.1 apart
  let s₁ : State := { s with registers := (s.registers.release a).release b }
  obtain ⟨k, q, make, taken, handed⟩ := freshRegister_ok (s := s₁) pool
    fun c mem => sound.named c ((known c).mp mem)
  let r := register k
  obtain ⟨bits, ensured, members⟩ := ensureBits_ok (sound.room k) (List.range r.size)
  let c₁ : Circuit := { s.circuit with bits := bits }
  obtain ⟨wide, narrow⟩ := commonSize_bounds o a b r presentA.1 presentB.1 fits
  let size := commonSize o a b r
  have grown : ∀ b, s.circuit.kindOf? b = some .bit → c₁.kindOf? b = some .bit := by
    intro b present
    have parts := kindOf?_eq_bit.mp present
    exact kindOf?_eq_bit.mpr ⟨parts.1, (members b).mpr (.inr parts.2)⟩
  have accepted : c₁.Accepts (.multiBit (binaryForm o a b r).1 size)
      (registerArgs o a b r size) := by
    refine accepts_registerBinary binary (positive.trans_le wide) ?_
    intro u mem i inside
    have below := inside.trans_le (narrow u mem)
    simp only [List.mem_cons, List.not_mem_nil, or_false] at mem
    rcases mem with rfl | rfl | rfl
    · exact grown _ (presentA.2 i below)
    · exact grown _ (presentB.2 i below)
    · refine kindOf?_eq_bit.mpr ⟨fun qubit => (sound.room k).qubits _ qubit rfl, ?_⟩
      exact (members _).mpr (.inl (List.mem_map.mpr ⟨i, List.mem_range.mpr below, rfl⟩))
  have effect := effect_registerBinary binary a b r size
  have logic : (Op.multiBit (binaryForm o a b r).1 size).isLogic = true :=
    (binaryForm_spec o a b r).1
  have hands := registerSpace_hands sound fits handed known members _ _ logic (by
      intro m b other
      rw [effect]
      exact combineAt_frame o a _ r _ m fun i _ => other i) _ kept
  refine ⟨r, _, _, ?_, hands, fun outcome x => ⟨rfl, fun i inside => ?_⟩⟩
  · have first := liftCircuit_ok { s₁ with registers := q } (·.ensureBits r.bits) ensured
    have second := liftCircuit_ok { s₁ with registers := q, circuit := c₁ }
      (·.addRegisterBinary o a b r) accepted.addOp
    have releaseA : releaseRegister a s = .ok ((), { s with registers := s.registers.release a }) := rfl
    have releaseB : releaseRegister b { s with registers := s.registers.release a } = .ok ((), s₁) := rfl
    rw [combineRegisters, operation]
    exact (bind_ok releaseA _).trans ((bind_ok releaseB _).trans ((bind_ok taken _).trans
      ((bind_ok first _).trans (bind_ok second _))))
  · rw [memory_run_logic logic, effect]
    exact combineAt_value o a b r _ x.memory List.nodup_range
      (List.mem_range.mpr (inside.trans_le wide))

lemma registerSpace_lawful (positive : 0 < n) (fits : n ≤ 32) : (registerSpace n).Lawful where
  step_refl s := ⟨Emits.refl s, rfl, fun _ _ _ _ => rfl⟩
  step_trans before after := by
    refine ⟨before.1.trans after.1, after.2.1.trans before.2.1, fun outcome x b scratch => ?_⟩
    rw [run_append, after.2.2 outcome _ b scratch, before.2.2 outcome x b scratch]
  present_step step present := ⟨present.1, fun i inside => step.1.kindOf? (present.2 i inside)⟩
  hold s c sound holdable := by
    obtain ⟨v, t, code, result, hands, value⟩ :=
      registerSpace_hold positive fits s c sound holdable.1 holdable.2
    refine ⟨v, t, code, result, hands, fun outcome x => ?_⟩
    obtain ⟨h, seen, written, digits⟩ := value outcome x
    exact ⟨h, seen, written, fun i inside => digits i (inside.trans_le fits)⟩
  combine s op o a b sound operation safeA presentA safeB presentB apart :=
    registerSpace_combine positive fits s op o a b sound operation safeA presentA safeB presentB apart

lemma registerOperation?_digits (op : RegBinary) (o : BitOperation)
    (operation : registerOperation? op = some o) (c d : Constant) (i : Nat) :
    (Operators.binaryValue Empty op c d).digit i = o.apply (c.digit i) (d.digit i) := by
  cases op <;> simp only [registerOperation?, Option.some.injEq, reduceCtorEq] at operation <;>
    subst operation <;>
    simp only [digit, Operators.binaryValue, toInt_and, toInt_or,
      toInt_xor, testBit_bitAnd, testBit_bitOr, testBit_bitXor,
      BitOperation.apply]

end

open List Scratch Logic Execution

/-- Machines that a user cannot tell apart. -/
structure Alike (x y : Machine) : Prop where
  drawn : x.drawn = y.drawn
  trace : x.trace = y.trace
  memory : ∀ b, isUserBit b = true → x.memory b = y.memory b

lemma Alike.record (alike : Alike x y) (outcome : Nat → Bool) (wires : List (UnitId × EdgeType)) :
    Alike (record outcome x wires) (record outcome y wires) := by
  induction wires generalizing x y with
  | nil => exact alike
  | cons w rest ih =>
    obtain ⟨u, e⟩ := w
    cases e with
    | quantum => exact ih alike
    | boolean => exact ih alike
    | classical =>
      refine ih ⟨congrArg (· + 1) alike.drawn, alike.trace, fun b user => ?_⟩
      simp only [Memory.write, alike.drawn]
      split
      · rfl
      · exact alike.memory b user

lemma Alike.gate (alike : Alike x y) (outcome : Nat → Bool) (type : OpType)
    (params : List Amount) (args : List UnitId) :
    Alike (perform outcome (.gate type params) args x) (perform outcome (.gate type params) args y) := by
  have after := alike.record outcome (args.zip ((Op.gate type params).signature args.length))
  refine ⟨after.drawn, ?_, after.memory⟩
  exact congrArg (· ++ [(Op.gate type params, args)]) alike.trace

lemma Alike.conditional (alike : Alike x y) (outcome : Nat → Bool) (type : OpType)
    (params : List Amount) {bits bits' : List UnitId} (lengths : bits.length = bits'.length)
    (same : x.memory.number bits = y.memory.number bits') (value : Nat) (args : List UnitId) :
    Alike (perform outcome (.conditional bits.length value (.gate type params)) (bits ++ args) x)
    (perform outcome (.conditional bits.length value (.gate type params)) (bits' ++ args) y) := by
  have front : (bits' ++ args).take bits.length = bits' := by rw [lengths, take_left]
  have back : (bits' ++ args).drop bits.length = args := by rw [lengths, drop_left]
  simp only [perform, take_left, drop_left, front, back, same]
  split
  · exact alike.gate outcome type params args
  · exact alike

structure Guarded where
  value : Nat
  type : OpType
  params : List Amount
  args : List UnitId

def Guarded.op (g : Guarded) : Op := .conditional 1 g.value (.gate g.type g.params)

def guardOn (b : UnitId) : Option Guarded → List Command
  | none => []
  | some g => [⟨g.op, b :: g.args⟩]

structure Tested where
  lower : Nat
  upper : Nat
  target : Nat
  guarded : Option Guarded

def testOn (bits : List UnitId) : Option Tested → List Command
  | none => []
  | some t =>
    ⟨.range t.lower t.upper bits.length, bits ++ [bit t.target]⟩ ::
      guardOn (bit t.target) t.guarded

inductive Part where
  | gate (type : OpType) (params : List Amount) (args : List UnitId)
  /-- A gate conditional on bits of the user's. -/
  | conditional (bits : List UnitId) (value : Nat) (type : OpType) (params : List Amount)
      (args : List UnitId)
  /-- A bit expression, and a gate conditional on its value. -/
  | bitBox (e : BitExp) (target : Nat) (guarded : Option Guarded)
  /-- A comparison of a register of the user's. -/
  | test (r : Register) (tested : Tested)
  /-- A register expression over registers of a size, and a comparison of its value. -/
  | registerBox (size : Nat) (e : RegExp) (target : Nat) (tested : Option Tested)

namespace Part

def outputs (size target : Nat) : List UnitId := (register target).bits.take size

def boxCommand (exp : Term) (outputs : List UnitId) : Command :=
  ⟨.classicalExp (Circuit.expressionInputs exp).length 0 outputs.length exp,
    Circuit.expressionInputs exp ++ outputs⟩

def commands : Part → List Command
  | gate type params args => [⟨.gate type params, args⟩]
  | conditional bits value type params args =>
    [⟨.conditional bits.length value (.gate type params), bits ++ args⟩]
  | bitBox e target guarded =>
    boxCommand (.bit e) [bit target] :: guardOn (bit target) guarded
  | test r tested => testOn r.bits (some tested)
  | registerBox size e target tested =>
    boxCommand (.reg e) (outputs size target) :: testOn (outputs size target) tested

def bitTargets : Part → List Nat
  | gate .. | conditional .. => []
  | bitBox _ target _ => [target]
  | test _ tested => [tested.target]
  | registerBox _ _ _ tested => tested.toList.map Tested.target

def registerTargets : Part → List Nat
  | registerBox _ _ target _ => [target]
  | _ => []

end Part

def Stays (c : Circuit) (u : UnitId) : Prop := u ∈ c.bits → isUserBit u = true

structure Guarded.Fits (c : Circuit) (b : UnitId) (g : Guarded) : Prop where
  value : g.value ≤ 1
  accepted : c.Accepts g.op (b :: g.args)
  stays : ∀ u ∈ g.args, Stays c u

structure Tested.Fits (c : Circuit) (bits : List UnitId) (t : Tested) : Prop where
  inside : bit t.target ∈ c.bits
  accepted : c.Accepts (.range t.lower t.upper bits.length) (bits ++ [bit t.target])
  guarded : ∀ g ∈ t.guarded, g.Fits c (bit t.target)

def IsBitTree (e : BitExp) : Prop :=
  e.Over (fun op => (bitOperation? op).isSome = true) (fun c => c.toInt = 0 ∨ c.toInt = 1)
    (isUserBit · = true)

def IsRegisterTree (size : Nat) (e : RegExp) : Prop :=
  e.Over (fun op => (registerOperation? op).isSome = true)
    (fun c => 0 ≤ c.toInt ∧ c.toInt < 2 ^ size) (fun r => IsUserRegister r ∧ r.size = size)

structure BitBoxFits (c : Circuit) (e : BitExp) (target : Nat) (gate : Option Guarded) : Prop where
  node : e.isNode = true
  tree : IsBitTree e
  present : ∀ b ∈ e.vars, c.kindOf? b = some .bit
  inside : bit target ∈ c.bits
  guarded : ∀ g ∈ gate, g.Fits c (bit target)

structure RegisterBoxFits (c : Circuit) (size : Nat) (e : RegExp) (target : Nat)
    (tested : Option Tested) : Prop where
  positive : 0 < size
  fits : size ≤ 32
  node : e.isNode = true
  tree : IsRegisterTree size e
  present : ∀ r ∈ e.vars, ∀ b ∈ r.bits, c.kindOf? b = some .bit
  inside : ∀ b ∈ (register target).bits, b ∈ c.bits
  compared : ∀ t ∈ tested, t.Fits c (Part.outputs size target)

def Part.Fits (c : Circuit) : Part → Prop
  | gate type params args => c.Accepts (.gate type params) args ∧ ∀ u ∈ args, Stays c u
  | conditional bits value type params args =>
    c.Accepts (.conditional bits.length value (.gate type params)) (bits ++ args) ∧
      (∀ b ∈ bits, isUserBit b = true) ∧ ∀ u ∈ args, Stays c u
  | bitBox e target guarded => BitBoxFits c e target guarded
  | test r tested => IsUserRegister r ∧ tested.Fits c r.bits
  | registerBox size e target tested => RegisterBoxFits c size e target tested

def refillTerm : Term → List Nat → Term × List Nat
  | .constant c, numbers => (.constant c, numbers)
  | .bit e, numbers => (.bit (e.refill numbers).1, (e.refill numbers).2)
  | .reg e, numbers => (.reg (e.refill numbers).1, (e.refill numbers).2)

def refillCommands : List Command → List Nat → List Command
  | [], _ => []
  | ⟨.classicalExp inputs both outputs exp, args⟩ :: rest, numbers =>
    ⟨.classicalExp inputs both outputs (refillTerm exp numbers).1, args⟩ ::
      refillCommands rest (refillTerm exp numbers).2
  | cmd :: rest, numbers => cmd :: refillCommands rest numbers

/-- Commands that differ in the constants of their boxes alone. Of a constant for a bit the lowest
digit is kept, of one for a register as many as it has. -/
inductive Varies : Command → Command → Prop
  | same (cmd : Command) : Varies cmd cmd
  | bit (inputs both outputs : Nat) {e e' : BitExp} (args : List UnitId)
      (varies : e.Varies (Constant.SameDigits 1) e') :
    Varies ⟨.classicalExp inputs both outputs (.bit e), args⟩
      ⟨.classicalExp inputs both outputs (.bit e'), args⟩
  | register (inputs both outputs : Nat) {e e' : RegExp} (args : List UnitId)
      (varies : e.Varies (fun c d => c.SameDigits (bitWidth c.toInt.toNat) d) e') :
    Varies ⟨.classicalExp inputs both outputs (.reg e), args⟩
      ⟨.classicalExp inputs both outputs (.reg e'), args⟩

/-- Commands and what replaces them lead related machines to related ones, when the constants of the
former are what the latter hold. -/
def Simulates (commands code : List Command) (pre post : Machine → Machine → Prop) : Prop :=
  ∀ outcome x y, pre x y → ∃ own,
    (∀ rest numbers, refillCommands (commands ++ rest)
      (observe heldNumber outcome code y ++ numbers) = own ++ refillCommands rest numbers) ∧
    List.Forall₂ Varies commands own ∧
    post (run outcome own x) (run outcome code y) ∧
    observe testedNumber outcome own x = observe testedNumber outcome code y

lemma Simulates.nil {pre : Machine → Machine → Prop} : Simulates [] [] pre pre :=
  fun _ _ _ related => ⟨[], fun _ _ => rfl, .nil, related, rfl⟩

lemma Simulates.append {first second code code' : List Command}
    {pre middle post : Machine → Machine → Prop} (one : Simulates first code pre middle)
    (two : Simulates second code' middle post) : Simulates (first ++ second) (code ++ code') pre post := by
  intro outcome x y related
  obtain ⟨own, refilled, varies, reached, tests⟩ := one outcome x y related
  obtain ⟨own', refilled', varies', reached', tests'⟩ := two outcome _ _ reached
  refine ⟨own ++ own', fun rest numbers => ?_, rel_append varies varies', ?_, ?_⟩
  · rw [observe_append, append_assoc, append_assoc, refilled, refilled', append_assoc]
  · rw [run_append, run_append]
    exact reached'
  · rw [observe_append, observe_append, tests, tests']

lemma Simulates.imp {commands code : List Command} {pre post post' : Machine → Machine → Prop}
    (simulates : Simulates commands code pre post) (weaker : ∀ x y, post x y → post' x y) :
    Simulates commands code pre post' := by
  intro outcome x y related
  obtain ⟨own, refilled, varies, reached, tests⟩ := simulates outcome x y related
  exact ⟨own, refilled, varies, weaker _ _ reached, tests⟩

open List Scratch Pool Decompose.Part Logic Execution Circuit

structure Hosts (c d : Circuit) : Prop where
  qubits : d.qubits = c.qubits
  user : ∀ b ∈ c.bits, isUserBit b = true → b ∈ d.bits
  tidy : ∀ b ∈ d.bits, isUserBit b = false → b.index.length = 1

variable {c d : Circuit} {code : List Command}

lemma Hosts.kindOf? (hosts : Hosts c d) (stays : Stays c u)
    {kind : UnitKind} (known : c.kindOf? u = some kind) : d.kindOf? u = some kind := by
  cases kind with
  | qubit =>
    have mem := kindOf?_eq_qubit.mp known
    exact kindOf?_eq_qubit.mpr (hosts.qubits ▸ mem)
  | bit =>
    obtain ⟨absent, mem⟩ := kindOf?_eq_bit.mp known
    exact kindOf?_eq_bit.mpr ⟨hosts.qubits ▸ absent, hosts.user u mem (stays mem)⟩

lemma Hosts.roomy (hosts : Hosts c d) {name : String}
    (scratch : name.startsWith bitName = true) (free : ∀ q ∈ c.qubits, q.register ≠ name) : d.Roomy name where
  qubits := hosts.qubits ▸ free
  bits b mem register := hosts.tidy b mem (by simp [isUserBit, register, scratch])

variable {s t : State} {b : UnitId} {value : Nat} {op : Op}

lemma Emits.hosts (emits : Emits s t code) (hosts : Hosts c s.circuit) : Hosts c t.circuit where
  qubits := emits.qubits.trans hosts.qubits
  user b mem own := emits.bits b (hosts.user b mem own)
  tidy b mem scratch := (emits.single b mem).elim (hosts.tidy b · scratch) id

lemma Hosts.withCommand (hosts : Hosts c d) (op : Op) (args : List UnitId) :
    Hosts c (d.withCommand op args) := ⟨hosts.qubits, hosts.user, hosts.tidy⟩

/-- What decomposition relies on before it comes to the later parts of a circuit. -/
structure Standing (c : Circuit) (later : List Part) (s : State) : Prop where
  hosts : Hosts c s.circuit
  bits : Sound s.bits
  bitsNamed : ∀ b ∈ s.bits.known, ∃ k, b = bit k
  registers : Sound s.registers
  registersNamed : ∀ r ∈ s.registers.known, IsScratchRegister r
  bitTargets : ∀ k ∈ later.flatMap bitTargets, Safe IsScratchBit s.bits (bit k) ∧
    s.movedBits.lookup (bit k) = none
  registerTargets : ∀ k ∈ later.flatMap registerTargets,
    Safe IsScratchRegister s.registers (register k)
  moved : ∀ b, isUserBit b = true → s.movedBits.lookup b = none

def KindsApart (c : Circuit) : Prop := ∀ q ∈ c.qubits, ∀ b ∈ c.bits, q.register ≠ b.register

def Quiet (c : Circuit) : Prop :=
  ∀ q ∈ c.qubits, q.register.startsWith registerBase = false

variable {s : State} {later : List Part} {k : Nat}

lemma Standing.rest (standing : Standing c (p :: later) s) : Standing c later s :=
  { standing with
    bitTargets := fun k mem => standing.bitTargets k (mem_append_right _ mem)
    registerTargets := fun k mem => standing.registerTargets k (mem_append_right _ mem) }

lemma Standing.bitsSound (standing : Standing c later s) (apart : KindsApart c)
    (inside : bit k ∈ c.bits) : BitsSound s where
  pool := standing.bits
  named := standing.bitsNamed
  room := standing.hosts.roomy (by simp) fun q mem => apart q mem _ inside

lemma Standing.registersSound (standing : Standing c later s) (quiet : Quiet c) : RegistersSound s where
  pool := standing.registers
  named := standing.registersNamed
  room k := by
    refine standing.hosts.roomy (register_startsWith k) fun q mem same => ?_
    have other := quiet q mem
    rw [same, register_startsWith_base] at other
    cases other

/-- A part is replaced by commands that simulate it. -/
structure Replaced (c : Circuit) (commands : List Command) (later : List Part) (s t : State)
    (code : List Command) (pre post : Machine → Machine → Prop) : Prop where
  result : commands.forM command s = .ok ((), t)
  added : t.circuit.commands = s.circuit.commands ++ code
  grows : ∀ b, s.circuit.kindOf? b = some .bit → t.circuit.kindOf? b = some .bit
  standing : Standing c later t
  boxFree : ∀ cmd ∈ code, cmd.op.isBox = false
  simulates : Simulates commands code pre post

lemma Replaced.append {first second code' : List Command} {later later' : List Part}
    {pre middle post : Machine → Machine → Prop} (one : Replaced c first later s t code pre middle)
    (two : Replaced c second later' t u code' middle post) :
    Replaced c (first ++ second) later' s u (code ++ code') pre post where
  result := by
    change forM (first ++ second) command s = .ok ((), u)
    rw [List.forM_append]
    exact (bind_ok one.result _).trans two.result
  added := by rw [two.added, one.added, append_assoc]
  grows b known := two.grows b (one.grows b known)
  standing := two.standing
  boxFree cmd mem := (mem_append.mp mem).elim (one.boxFree cmd) (two.boxFree cmd)
  simulates := one.simulates.append two.simulates

lemma simulates_guardOn (b b' : UnitId) (guarded : Option Guarded) :
    Simulates (guardOn b guarded) (guardOn b' guarded) (fun x y => Alike x y ∧ x.memory b = y.memory b') Alike := by
  cases guarded with
  | none => exact Simulates.nil.imp fun _ _ related => related.1
  | some g =>
    intro outcome x y ⟨alike, same⟩
    refine ⟨guardOn b (some g), fun rest numbers => rfl, List.forall₂_same.mpr fun _ _ => .same _, ?_, rfl⟩
    have numbers : x.memory.number [b] = y.memory.number [b'] := by simp [Memory.number, same]
    have len : [b].length = [b'].length := rfl
    exact alike.conditional outcome g.type g.params len numbers g.value g.args

variable {g : Guarded} {args : List UnitId} {guarded : Option Guarded}

lemma Guarded.Fits.accepts (fits : g.Fits c b) (hosts : Hosts c d)
    (present : d.kindOf? b' = some .bit) : d.Accepts g.op (b' :: g.args) := by
  have signature (u : UnitId) : g.op.signature (u :: g.args).length =
      .boolean :: (Op.gate g.type g.params).signature g.args.length := by
    simp [Guarded.op, Op.signature]
  have accepted := fits.accepted
  refine ⟨by simp, ?_, ?_, ?_⟩
  · have arity := accepted.arity
    exact arity
  · have once := accepted.once
    rw [signature] at once ⊢
    simpa [written] using once
  · intro w mem
    rcases mem_cons.mp mem with rfl | rest
    · exact present
    · refine hosts.kindOf? (fits.stays w.1 (of_mem_zip rest).1) (accepted.kinds w ?_)
      exact mem_cons_of_mem _ rest

lemma conditional_direct {width : Nat} (unmoved : ∀ b, args.take width = [b] → s.movedBits.lookup b = none)
    (accepted : s.circuit.Accepts (.conditional width value op) args) : conditional width value op args s =
    .ok ((), { s with circuit := s.circuit.withCommand (.conditional width value op) args }) := by
  have added := liftCircuit_ok s (·.addOp (.conditional width value op) args) accepted.addOp
  refine (bind_ok (a := s) rfl _).trans ?_
  rcases shape : args.take width with _ | ⟨b, _ | ⟨b', rest⟩⟩
  · exact added
  · simp only [unmoved b shape]
    exact added
  · exact added

lemma conditional_moved (moved : s.movedBits.lookup b = some v) (small : value ≤ 1)
    (accepted : s.circuit.Accepts (.conditional 1 value op) (v :: args)) : conditional 1 value op (b :: args) s =
    .ok ((), { s with
    bits := s.bits.push v,
    circuit := s.circuit.withCommand (.conditional 1 value op) (v :: args) }) := by
  have added := liftCircuit_ok { s with bits := s.bits.push v }
    (·.addConditional op [v] (some value) args) accepted.addOp
  have notLarge : ¬1 < value := by omega
  refine (bind_ok (a := s) rfl _).trans ?_
  simp only [take_succ_cons, take_zero, moved, notLarge, if_false]
  exact added

lemma Standing.withCommand (standing : Standing c later s) (op : Op) (args : List UnitId) :
    Standing c later { s with circuit := s.circuit.withCommand op args } :=
  { standing with hosts := standing.hosts.withCommand op args }

section

variable (standing : Standing c later s) (unmoved : s.movedBits.lookup (bit k) = none)
  (present : s.circuit.kindOf? (bit k) = some .bit)
include standing unmoved present

lemma gate_direct (fits : g.Fits c (bit k)) : Replaced c (guardOn (bit k) (some g)) later s
    { s with circuit := s.circuit.withCommand g.op (bit k :: g.args) } (guardOn (bit k) (some g))
    (fun x y => Alike x y ∧ x.memory (bit k) = y.memory (bit k)) Alike := by
  have accepted := fits.accepts standing.hosts present
  have single : ∀ b, (bit k :: g.args).take 1 = [b] → s.movedBits.lookup b = none := by
    intro b same
    obtain rfl : bit k = b := by simpa using same
    exact unmoved
  refine ⟨bind_ok (conditional_direct single accepted) _, rfl, fun _ known => known,
    standing.withCommand _ _, forall_mem_singleton.mpr rfl, simulates_guardOn _ _ (some g)⟩

lemma guard_direct (fits : ∀ g ∈ guarded, g.Fits c (bit k)) :
    ∃ t, Replaced c (guardOn (bit k) guarded) later s t (guardOn (bit k) guarded)
    (fun x y => Alike x y ∧ x.memory (bit k) = y.memory (bit k)) Alike := by
  cases guarded with
  | none =>
    have simulates := simulates_guardOn (bit k) (bit k) none
    exact ⟨s, rfl, by simp [guardOn], fun _ known => known, standing, by simp [guardOn], simulates⟩
  | some g => exact ⟨_, gate_direct standing unmoved present (fits g rfl)⟩

end

variable {v : UnitId}

section

variable (standing : Standing c later s) (moved : s.movedBits.lookup (bit k) = some v)
  (scratch : IsScratchBit v) (safe : Safe IsScratchBit s.bits v)
  (present : s.circuit.kindOf? v = some .bit) (apart : ∀ j ∈ later.flatMap bitTargets, bit j ≠ v)
include standing moved scratch safe present apart

lemma gate_moved (fits : g.Fits c (bit k)) : Replaced c (guardOn (bit k) (some g)) later s { s with
    bits := s.bits.push v, circuit := s.circuit.withCommand g.op (v :: g.args) }
    (guardOn v (some g)) (fun x y => Alike x y ∧ x.memory (bit k) = y.memory v) Alike := by
  have accepted := fits.accepts standing.hosts present
  refine ⟨bind_ok (conditional_moved moved fits.value accepted) _, rfl, fun _ known => known, ?_,
    forall_mem_singleton.mpr rfl, simulates_guardOn _ _ (some g)⟩
  refine { standing with
    hosts := standing.hosts.withCommand _ _
    bits := standing.bits.push _ safe.1
    bitsNamed := fun b mem => ?_
    bitTargets := fun j mem => ?_ }
  · rcases (mem_known_use s.bits v b).mp mem with rfl | old
    · exact standing.bitsNamed b (safe.2 scratch)
    · exact standing.bitsNamed b old
  · have known := standing.bitTargets j mem
    exact ⟨known.1.push _ (apart j mem), known.2⟩

lemma guard_moved (fits : ∀ g ∈ guarded, g.Fits c (bit k)) :
    ∃ t, Replaced c (guardOn (bit k) guarded) later s t (guardOn v guarded)
    (fun x y => Alike x y ∧ x.memory (bit k) = y.memory v) Alike := by
  cases guarded with
  | none =>
    have simulates := simulates_guardOn (bit k) v none
    exact ⟨s, rfl, by simp [guardOn], fun _ known => known, standing, by simp [guardOn], simulates⟩
  | some g => exact ⟨_, gate_moved standing moved scratch safe present apart (fits g rfl)⟩

end

lemma lookup_moved [DecidableEq V] (source target a : V) (known : List (V × V)) :
    (moved source target known).lookup a = if a = source then some target else known.lookup a := by
  rw [moved, lookup_cons]
  by_cases same : a = source
  · simp [same]
  · have differs : (a == source) = false := by simpa using same
    rw [differs, if_neg same]
    change (known.filter (·.1 ≠ source)).lookup a = known.lookup a
    induction known with
    | nil => rfl
    | cons entry rest ih =>
      by_cases dropped : entry.1 = source
      · have other : (a == entry.1) = false := by rw [dropped]; exact differs
        rw [filter_cons_of_neg (by simpa using dropped), ih, lookup_cons, other]
      · rw [filter_cons_of_pos (by simpa using dropped), lookup_cons, lookup_cons, ih]

def boxed (exp : Term) (outs : List UnitId) (m : Memory) : Memory :=
  m.writeAll outs ((List.range outs.length).map (m.value exp).testBit)

lemma simulates_box {exp : Term} {outs : List UnitId} (emits : Emits s t code)
    (scratch : ∀ b ∈ outs, isUserBit b = false) (post : Memory → Memory → Prop)
    (value : ∀ outcome x y, Alike x y → ∃ exp',
    (∀ numbers, refillTerm exp (observe heldNumber outcome code y ++ numbers) = (exp', numbers)) ∧
    (∀ inputs both outputs args, Varies ⟨.classicalExp inputs both outputs exp, args⟩
    ⟨.classicalExp inputs both outputs exp', args⟩) ∧ post (boxed exp' outs x.memory) (run outcome code y).memory) :
    Simulates [boxCommand exp outs] code Alike (fun x y => Alike x y ∧ post x.memory y.memory) := by
  intro outcome x y alike
  obtain ⟨exp', refilled, varies, reached⟩ := value outcome x y alike
  let inputs := expressionInputs exp
  let own : Command := ⟨.classicalExp inputs.length 0 outs.length exp', inputs ++ outs⟩
  have effect : run outcome [own] x = { x with memory := boxed exp' outs x.memory } := by
    simp [run, perform, own, Op.isClassical, Execution.effect, boxed]
  obtain ⟨drawn, trace, tests⟩ := run_logic outcome emits.logic y
  refine ⟨[own], fun rest numbers => ?_, .cons (varies _ _ _ _) .nil, ?_, ?_⟩
  · simp only [boxCommand, singleton_append, refillCommands, refilled]
    rfl
  · rw [effect]
    refine ⟨⟨alike.drawn.trans drawn.symm, alike.trace.trans trace.symm, fun b user => ?_⟩, reached⟩
    rw [emits.user outcome y b user, ← alike.memory b user]
    refine Memory.writeAll_of_not_mem _ _ _ fun mem => ?_
    rw [scratch b mem] at user
    cases user
  · rw [tests]
    rfl

section

variable {later : List Part} {s : State} {e : BitExp} {target : Nat}
  {guarded : Option Guarded}

lemma box_bit (last : args.getLast? = some b)
    (walked : walk holdBit combineBits e { s with bits := s.bits.push b } = .ok (.held v, t)) :
    box 1 (.bit e) args s = .ok ((), { t with movedBits := moved b v t.movedBits, modified := true }) := by
  have free : freeBit b s = .ok ((), { s with bits := s.bits.push b }) := rfl
  have settled : result (.held v) t = .ok (v, t) := rfl
  have done : boxOfBits e b s = .ok ((), { t with movedBits := moved b v t.movedBits }) :=
    (bind_ok free _).trans ((bind_ok walked _).trans (bind_ok settled _))
  unfold box
  simp only [if_true, last]
  exact bind_ok done _

variable (apart : KindsApart c) (fits : BitBoxFits c e target guarded)
  (standing : Standing c (.bitBox e target guarded :: later) s)
include apart fits standing

lemma bitBox_start : BitsSound { s with bits := s.bits.push (bit target) } ∧
    ∀ b ∈ e.vars, bitSpace.Safe { s with bits := s.bits.push (bit target) } b ∧
    bitSpace.Present { s with bits := s.bits.push (bit target) } b := by
  have own := standing.bitTargets target (by simp [bitTargets])
  have sound := standing.bitsSound apart fits.inside
  have named : ∀ b ∈ (s.bits.push (bit target)).known, ∃ k, b = bit k := by
    intro b mem
    rcases (mem_known_use s.bits _ b).mp mem with rfl | old
    · exact ⟨target, rfl⟩
    · exact sound.named b old
  have pool : Sound (s.bits.push (bit target)) := sound.pool.push _ own.1.1
  refine ⟨⟨pool, named, sound.room⟩, fun b mem => ⟨⟨fun free => ?_, fun scratch => ?_⟩, ?_⟩⟩
  · obtain ⟨k, rfl⟩ := named b (pool.known b free)
    exact ne_bit_of_isUserBit (fits.tree.vars _ mem) k rfl
  · exact absurd scratch (register_ne_of_isUserBit (fits.tree.vars b mem))
  · exact standing.hosts.kindOf? (fun _ => fits.tree.vars b mem) (fits.present b mem)

lemma bitBox_walk : ∃ v t code, walk holdBit combineBits e { s with bits := s.bits.push (bit target) } =
    .ok (.held v, t) ∧ IsScratchBit v ∧
    bitSpace.Visited { s with bits := s.bits.push (bit target) } e (.held v) t code := by
  obtain ⟨sound, ready⟩ := bitBox_start apart fits standing
  have tree : e.Over (fun op => (bitSpace.operation? op).isSome = true) bitSpace.Holdable
      (fun b => ¬bitSpace.Scratch b) :=
    fits.tree.imp (fun _ known => known) (fun _ small => small) fun _ user =>
      register_ne_of_isUserBit user
  obtain ⟨a, t, code, walked, visited⟩ :=
    bitSpace_lawful.walk bitOperation?_digits e tree sound ready
  rcases visited.operand with ⟨d, rfl, _⟩ | ⟨v, rfl, _, _, _, _, scratch⟩
  · have node := fits.node
    cases node
  · exact ⟨v, t, code, walked, scratch fits.node, visited⟩

lemma bitBox_replaced (distinct : target ∉ later.flatMap bitTargets) :
    ∃ v t code, Replaced c [boxCommand (.bit e) [bit target]] later s t code Alike
    (fun x y => Alike x y ∧ x.memory (bit target) = y.memory v) ∧
    t.movedBits.lookup (bit target) = some v ∧ IsScratchBit v ∧
    Safe IsScratchBit t.bits v ∧ t.circuit.kindOf? v = some .bit ∧
    (∀ b, b ≠ bit target → t.movedBits.lookup b = s.movedBits.lookup b) ∧
    ∀ b, Safe IsScratchBit s.bits b → b ≠ bit target → b ≠ v ∧
    Safe IsScratchBit t.bits b ∧ ∀ outcome y, (run outcome code y).memory b = y.memory b := by
  obtain ⟨v, t, code, walked, scratch, visited⟩ := bitBox_walk apart fits standing
  obtain ⟨emits, registers⟩ := visited.step
  have hosts : Hosts c t.circuit := emits.hosts standing.hosts
  have laterNe : ∀ j ∈ later.flatMap bitTargets, bit j ≠ bit target := by
    intro j mem same
    rw [bit_injective same] at mem
    exact distinct mem
  have held := visited.safe_held v rfl
  have safeLater : ∀ j ∈ later.flatMap bitTargets, Safe IsScratchBit
      (s.bits.push (bit target)) (bit j) := by
    intro j mem
    have safe := (standing.bitTargets j (mem_append_right _ mem)).1
    exact safe.push _ (laterNe j mem)
  have fresh : ¬Safe IsScratchBit (s.bits.push (bit target)) v := by
    rcases visited.operand with ⟨_, _, other, _⟩ | ⟨w, same, _, _, _, taken, _⟩
    · cases other
    · cases same
      exact taken scratch
  have lookup (b : UnitId) : (moved (bit target) v t.movedBits).lookup b =
      if b = bit target then some v else s.movedBits.lookup b := by
    rw [lookup_moved, emits.rest]
  refine ⟨v, { t with movedBits := moved (bit target) v t.movedBits, modified := true }, code,
    ⟨?_, ?_, fun _ known => emits.kindOf? known, ?_, ?_, ?_⟩, ?_, scratch, held.1, held.2, ?_, ?_⟩
  · have last : (boxCommand (.bit e) [bit target]).args.getLast? = some (bit target) := getLast?_concat
    exact bind_ok (box_bit last walked) _
  · rw [emits.circuit]
  · refine ⟨hosts, visited.sound.pool, visited.sound.named, ?_, ?_, ?_, ?_, ?_⟩
    · rw [registers]
      exact standing.registers
    · rw [registers]
      exact standing.registersNamed
    · intro j mem
      have known := standing.bitTargets j (mem_append_right _ mem)
      refine ⟨visited.kept _ (safeLater j mem), ?_⟩
      rw [lookup, if_neg (laterNe j mem)]
      exact known.2
    · intro k mem
      rw [registers]
      exact standing.registerTargets k (mem_append_right _ mem)
    · intro b user
      rw [lookup, if_neg (ne_bit_of_isUserBit user target), standing.moved b user]
  · exact fun cmd mem => Op.isBox_of_isLogic _ (emits.logic cmd mem)
  · refine simulates_box emits ?_ (fun m m' => m (bit target) = m' v) ?_
    · exact forall_mem_singleton.mpr (isUserBit_bit target)
    · intro outcome x y alike
      obtain ⟨e', refilled, varies, value⟩ := visited.value outcome y (fun b => .truth (x.memory b)) (by
        intro b mem i inside
        obtain rfl : i = 0 := Nat.lt_one_iff.mp inside
        change (Constant.truth (x.memory b)).digit 0 = y.memory b
        rw [alike.memory b (fits.tree.vars b mem)]
        cases y.memory b <;> rfl)
      refine ⟨.bit e', fun numbers => ?_, fun _ _ _ args => .bit _ _ _ args varies, ?_⟩
      · simp only [refillTerm, refilled]
      · have digit : (x.memory.value (.bit e')).testBit 0 = (run outcome code y).memory v :=
          value v rfl 0 Nat.one_pos
        simpa [boxed, Memory.writeAll] using digit
  · simp [lookup]
  · exact fun b other => by rw [lookup, if_neg other]
  · intro b safe other
    have still := safe.push UnitId.le other
    refine ⟨fun same => fresh (same ▸ still), visited.kept b still, fun outcome y => ?_⟩
    exact visited.frame outcome y b 0 Nat.one_pos still

end

end CircuitWorks.Decompose
