import CircuitWorks.Proofs.Decompose.Parts

namespace CircuitWorks.Decompose

section

open List Scratch Decompose.Part Circuit Logic Execution Memory

lemma bitName_startsWith : bitName.startsWith registerBase = false := by
  decide

variable {bits args : List UnitId}

lemma find?_user (user : ∀ b ∈ bits, isUserBit b = true) :
    bits.find? (fun b => b.register.startsWith registerBase) = none := by
  rw [find?_eq_none]
  intro b mem scratch
  have named := user b mem
  rw [isUserBit, startsWith_bitName scratch] at named
  cases named

lemma registerOf?_user (user : ∀ b ∈ bits, isUserBit b = true) (k : Nat) : registerOf? (bits ++ [bit k]) = none := by
  rw [registerOf?, find?_append, find?_user user, find?_singleton, bit, bitName_startsWith]
  rfl

lemma Hosts.withBit (hosts : Hosts c d)
    (members : ∀ b, b ∈ bits ↔ b = bit k ∨ b ∈ d.bits) : Hosts c { d with bits := bits } where
  qubits := hosts.qubits
  user b mem own := (members b).mpr (.inr (hosts.user b mem own))
  tidy b mem scratch := by
    rcases (members b).mp mem with rfl | old
    · rfl
    · exact hosts.tidy b old scratch

variable {s : State} {op : Op} {one : Circuit} {r : Register} {size : Nat}

lemma range_direct (last : args.getLast? = some b) (ensured : s.circuit.ensureBit b = .ok one)
    (unmoved : registerOf? args = none) (accepted : one.Accepts op args) :
    range op args s = .ok ((), { s with circuit := one.withCommand op args }) := by
  have first := liftCircuit_ok s (·.ensureBit b) ensured
  have second := liftCircuit_ok { s with circuit := one } (·.addOp op args) accepted.addOp
  unfold range
  simp only [last, unmoved, Option.bind_none]
  refine (bind_ok first _).trans ((bind_ok (a := { s with circuit := one }) rfl _).trans ?_)
  exact second

lemma range_moved {args' : List UnitId} {new : Register} (last : args.getLast? = some b)
    (ensured : s.circuit.ensureBit b = .ok one) (source : registerOf? args = some r)
    (found : s.movedRegisters.lookup r = some new) (renamed : args.mapM (moveBit r new) = .ok args')
    (accepted : one.Accepts op args') : range op args s = .ok ((), { s with
    circuit := one.withCommand op args',
    movedBits := moved b b s.movedBits }) := by
  have first := liftCircuit_ok s (·.ensureBit b) ensured
  have second := liftCircuit_ok { s with circuit := one, movedBits := moved b b s.movedBits }
    (·.addOp op args') accepted.addOp
  unfold range
  simp only [last, source, Option.bind_some]
  refine (bind_ok first _).trans ((bind_ok (a := { s with circuit := one }) rfl _).trans ?_)
  simp only [found, Option.map_some, renamed]
  exact second

lemma simulates_range {bits' : List UnitId} (lengths : bits'.length = bits.length) (lower upper k : Nat)
    {pre : Machine → Machine → Prop} (alike : ∀ x y, pre x y → Alike x y)
    (same : ∀ x y, pre x y → x.memory.number bits = y.memory.number bits') :
    Simulates [⟨.range lower upper bits.length, bits ++ [bit k]⟩]
    [⟨.range lower upper bits.length, bits' ++ [bit k]⟩] pre
    (fun x y => Alike x y ∧ x.memory (bit k) = y.memory (bit k)) := by
  intro outcome x y related
  have front : (bits' ++ [bit k]).take bits.length = bits' := by rw [← lengths, take_left]
  have back : (bits' ++ [bit k]).drop bits.length = [bit k] := by rw [← lengths, drop_left]
  refine ⟨[⟨.range lower upper bits.length, bits ++ [bit k]⟩], fun rest numbers => rfl, .cons (.same _) .nil, ?_, ?_⟩
  · have states := alike x y related
    simp only [run_cons, run_nil, perform, Op.isClassical, if_true,
      effect, take_left, drop_left, front, back, writeAll, same x y related]
    refine ⟨⟨states.drawn, states.trace, fun b user => ?_⟩, by simp⟩
    have other := ne_bit_of_isUserBit user k
    change x.memory.write _ _ b = y.memory.write _ _ b
    rw [write_of_ne _ _ other, write_of_ne _ _ other, states.memory b user]
  · simp only [observe, testedNumber, take_left, front, same x y related]

lemma mem_distinct (u : UnitId) (units : List UnitId) : u ∈ UnitId.distinct units ↔ u ∈ units := by
  induction units with
  | nil => simp [UnitId.distinct]
  | cons v rest ih =>
    simp only [UnitId.distinct, mem_cons, mem_filter, ih, decide_eq_true_eq]
    by_cases same : u = v <;> simp [same]

lemma mem_bitInputs : b ∈ expressionInputs (.bit e) ↔ b ∈ e.vars := by
  simp [expressionInputs, UnitId.sort, mem_distinct, Logic.bitInputs]

lemma mem_expressionInputs : b ∈ expressionInputs (.reg e) ↔ ∃ r ∈ e.vars, b ∈ r.bits := by
  simp [expressionInputs, UnitId.sort, mem_distinct, Logic.regInputs]

lemma outputs_eq (fits : size ≤ 32) (target : Nat) :
    outputs size target = (⟨(register target).name, size⟩ : Register).bits := by
  have shorter : min size (register target).size = size := Nat.min_eq_left fits
  rw [outputs, Register.bits, ← map_take, take_range, shorter]
  rfl

lemma registerOf?_outputs (rest : List UnitId) (user : ∀ b ∈ bits, isUserBit b = true) (positive : 0 < size)
    (target : Nat) : registerOf? (bits ++ ((⟨(register target).name, size⟩ : Register).bits ++ rest)) =
    some (register target) := by
  obtain ⟨pred, rfl⟩ := Nat.exists_eq_add_of_lt positive
  have shape : (⟨(register target).name, 0 + pred + 1⟩ : Register).bits = (register target).place 0 ::
        ((List.range pred).map (· + 1)).map (register target).place := by
    rw [Register.bits, Nat.zero_add, range_succ_eq_map, map_cons]
    rfl
  have named : (register target).name.startsWith registerBase = true :=
    register_startsWith_base target
  rw [registerOf?, find?_append, find?_user user, shape, cons_append, find?_cons]
  simp only [Register.place, named]
  rfl

section

variable {later : List Part} {s : State} (apart : KindsApart c)

include apart in
lemma Standing.ensureBit (standing : Standing c later s) (inside : bit k ∈ c.bits) :
    ∃ bits, s.circuit.ensureBit (bit k) = .ok { s.circuit with bits := bits } ∧
    Hosts c { s.circuit with bits := bits } ∧ (∀ b ∈ s.circuit.bits, b ∈ bits) ∧
    ({ s.circuit with bits := bits } : Circuit).kindOf? (bit k) = some .bit := by
  have sound := standing.bitsSound apart inside
  obtain ⟨bits, ensured, members⟩ := sound.room.ensureBit k
  exact ⟨bits, ensured, standing.hosts.withBit members, fun b mem => (members b).mpr (.inr mem),
    kindOf?_eq_bit.mpr ⟨fun mem => sound.room.qubits _ mem rfl, (members _).mpr (.inl rfl)⟩⟩

section

variable {r : Register} {tested : Tested} (user : IsUserRegister r) (fits : tested.Fits c r.bits)
  (standing : Standing c (.test r tested :: later) s)
include apart user fits standing

lemma test_ranged : ∃ t, Replaced c [⟨.range tested.lower tested.upper r.bits.length,
    r.bits ++ [bit tested.target]⟩] later s t
    [⟨.range tested.lower tested.upper r.bits.length, r.bits ++ [bit tested.target]⟩] Alike
    (fun x y => Alike x y ∧ x.memory (bit tested.target) = y.memory (bit tested.target)) ∧
    t.bits = s.bits ∧ t.movedBits = s.movedBits ∧ t.circuit.kindOf? (bit tested.target) = some .bit := by
  obtain ⟨bits, ensured, hosts, more, present⟩ := standing.ensureBit apart fits.inside
  let one : Circuit := { s.circuit with bits := bits }
  let op := Op.range tested.lower tested.upper r.bits.length
  let args := r.bits ++ [bit tested.target]
  have accepted : one.Accepts op args := by
    refine fits.accepted.mono fun b mem kind known => ?_
    rcases mem_append.mp mem with inside | last
    · exact hosts.kindOf? (fun _ => user.bits b inside) known
    · obtain rfl := mem_singleton.mp last
      have bit : c.kindOf? (bit tested.target) = some .bit :=
        kindOf?_eq_bit.mpr ⟨fun q => apart _ q _ fits.inside rfl, fits.inside⟩
      rw [bit] at known
      cases known
      exact present
  have ranged := range_direct getLast?_concat ensured (registerOf?_user user.bits tested.target) accepted
  have after : Standing c later { s with circuit := one.withCommand op args } :=
    { standing.rest with hosts := hosts.withCommand _ _ }
  refine ⟨{ s with circuit := one.withCommand op args }, ⟨bind_ok ranged _, rfl,
    fun _ known => kindOf?_of_more more known, after, forall_mem_singleton.mpr rfl,
    simulates_range rfl _ _ _ (fun _ _ alike => alike) ?_⟩, rfl, rfl, present⟩
  exact fun x y alike => number_congr _ fun b mem => alike.memory b (user.bits b mem)

lemma test_replaced : ∃ t code, Replaced c (testOn r.bits (some tested)) later s t code Alike Alike := by
  have own := standing.bitTargets tested.target (by simp [bitTargets])
  obtain ⟨t, compared, _, sameMoves, present⟩ := test_ranged apart user fits standing
  obtain ⟨u, guarded⟩ := guard_direct compared.standing (sameMoves ▸ own.2) present fits.guarded
  exact ⟨u, _, compared.append guarded⟩

end

variable {size target : Nat} {e : RegExp} {tested : Option Tested}

section

variable (quiet : Quiet c) (fits : RegisterBoxFits c size e target tested)
  (standing : Standing c (.registerBox size e target tested :: later) s)
include quiet fits standing

lemma registerBox_start : RegistersSound { s with registers := s.registers.push (register target) } ∧
    ∀ r ∈ e.vars, RegisterSafe { s with registers := s.registers.push (register target) } r ∧
    (registerSpace size).Present { s with registers := s.registers.push (register target) } r := by
  have own := standing.registerTargets target (by simp [registerTargets])
  have sound := standing.registersSound quiet
  have named : ∀ r ∈ (s.registers.push (register target)).known, IsScratchRegister r := by
    intro r mem
    rcases (Pool.mem_known_use s.registers _ r).mp mem with rfl | old
    · exact ⟨target, rfl⟩
    · exact sound.named r old
  have pool : Pool.Sound (s.registers.push (register target)) := sound.pool.push _ own.1
  refine ⟨⟨pool, named, sound.room⟩, fun r mem => ?_⟩
  obtain ⟨user, same⟩ := fits.tree.vars r mem
  have notScratch : ¬IsScratchRegister r := by
    rintro ⟨k, rfl⟩
    exact not_isUserRegister_register k user
  refine ⟨⟨⟨fun free => ?_, fun scratch => absurd scratch notScratch⟩, .inr user⟩, same.ge, ?_⟩
  · exact notScratch (named r (pool.known r free))
  · intro i inside
    have bit := fits.present r mem _ (mem_bits.mpr ⟨i, inside, rfl⟩)
    exact standing.hosts.kindOf? (fun _ => (isUserBit_place r i).mpr user) bit

lemma registerBox_walk : ∃ v t code, walk holdRegister combineRegisters e
    { s with registers := s.registers.push (register target) } = .ok (.held v, t) ∧
    IsScratchRegister v ∧ (registerSpace size).Visited
    { s with registers := s.registers.push (register target) } e (.held v) t code := by
  obtain ⟨sound, ready⟩ := registerBox_start quiet fits standing
  have tree : e.Over (fun op => ((registerSpace size).operation? op).isSome = true)
      (registerSpace size).Holdable (fun r => ¬(registerSpace size).Scratch r) := by
    refine fits.tree.imp (fun _ known => known) (fun _ small => small) ?_
    rintro r ⟨user, _⟩ ⟨k, rfl⟩
    exact not_isUserRegister_register k user
  obtain ⟨a, t, code, walked, visited⟩ := (registerSpace_lawful fits.positive fits.fits).walk
    registerOperation?_digits e tree sound ready
  rcases visited.operand with ⟨d, rfl, _⟩ | ⟨v, rfl, _, _, _, _, scratch⟩
  · have node := fits.node
    cases node
  · exact ⟨v, t, code, walked, scratch fits.node, visited⟩

end

variable {t : State} {v : Register}

lemma box_register {outputs : Nat} (several : outputs ≠ 1) (found : registerOf? args = some r)
    (walked : walk holdRegister combineRegisters e { s with registers := s.registers.push r } = .ok (.held v, t)) :
    box outputs (.reg e) args s =
    .ok ((), { t with movedRegisters := moved r v t.movedRegisters, modified := true }) := by
  have free : freeRegister r s = .ok ((), { s with registers := s.registers.push r }) := rfl
  have settled : result (.held v) t = .ok (v, t) := rfl
  have done : boxOfRegisters e r s =
      .ok ((), { t with movedRegisters := moved r v t.movedRegisters }) :=
    (bind_ok free _).trans ((bind_ok walked _).trans (bind_ok settled _))
  unfold box
  simp only [several, if_false, found]
  exact bind_ok done _

lemma registerBox_value {code : List Command} (fits : RegisterBoxFits c size e target tested)
    (visited : (registerSpace size).Visited s e (.held v) t code) (outcome : Nat → Bool)
    (alike : Alike x y) :
    ∃ exp', (∀ numbers, refillTerm (.reg e) (observe heldNumber outcome code y ++ numbers) = (exp', numbers)) ∧
    (∀ inputs both outputs args, Varies ⟨.classicalExp inputs both outputs (.reg e), args⟩
    ⟨.classicalExp inputs both outputs exp', args⟩) ∧
    ∀ i < size, boxed exp' (outputs size target) x.memory ((register target).place i) =
    (run outcome code y).memory (v.place i) := by
  obtain ⟨e', refilled, varies, value⟩ := visited.value outcome y (fun r => .int (x.memory.number r.bits)) (by
    intro r mem i inside
    obtain ⟨user, same⟩ := fits.tree.vars r mem
    have digit : (x.memory.number r.bits).testBit i = x.memory (r.place i) :=
      testBit_number_bits x.memory (same ▸ inside)
    change (x.memory.number r.bits).testBit i = y.memory (r.place i)
    rw [digit, alike.memory _ ((isUserBit_place r i).mpr user)])
  refine ⟨.reg e', fun numbers => ?_, fun _ _ _ args => .register _ _ _ args varies, fun i inside => ?_⟩
  · simp only [refillTerm, refilled]
  · have digit : (x.memory.value (.reg e')).testBit i = (run outcome code y).memory (v.place i) :=
      value v rfl i inside
    rw [← digit, boxed, outputs_eq fits.fits]
    refine writeAll_getElem _ _ _ (bits_nodup _) i ?_ ?_
    · simp [Register.bits, Register.place, inside]
    · simp [Register.bits, inside]

lemma userInputs (fits : RegisterBoxFits c size e target tested) :
    ∀ b ∈ expressionInputs (.reg e), isUserBit b = true := by
  intro b mem
  obtain ⟨r, inside, own⟩ := mem_expressionInputs.mp mem
  exact (fits.tree.vars r inside).1.bits b own

lemma registerBox_replaced (quiet : Quiet c) (fits : RegisterBoxFits c size e target tested) (several : size ≠ 1)
    (standing : Standing c (.registerBox size e target tested :: later) s)
    (distinct : target ∉ later.flatMap registerTargets) :
    ∃ v t code, Replaced c [boxCommand (.reg e) (outputs size target)] later s t code Alike
    (fun x y => Alike x y ∧ ∀ i < size, x.memory ((register target).place i) = y.memory (v.place i)) ∧
    t.movedRegisters.lookup (register target) = some v ∧ IsScratchRegister v ∧
    size ≤ v.size ∧ (∀ i < v.size, t.circuit.kindOf? (v.place i) = some .bit) ∧ t.bits = s.bits ∧
    t.movedBits = s.movedBits ∧ ∀ outcome y b, IsScratchBit b → (run outcome code y).memory b = y.memory b := by
  obtain ⟨v, t, code, walked, scratch, visited⟩ := registerBox_walk quiet fits standing
  obtain ⟨emits, bits, kept⟩ := visited.step
  have hosts : Hosts c t.circuit := emits.hosts standing.hosts
  have movedBits : t.movedBits = s.movedBits := by rw [emits.rest]
  have present := (visited.safe_held v rfl).2
  have laterSafe : ∀ j ∈ later.flatMap registerTargets, Pool.Safe IsScratchRegister t.registers (register j) := by
    intro j mem
    have safe := standing.registerTargets j (mem_append_right _ mem)
    have other : register j ≠ register target := by
      intro same
      rw [register_injective (congrArg Register.name same)] at mem
      exact distinct mem
    exact (visited.kept _ ⟨safe.push _ other, .inl ⟨j, rfl⟩⟩).1
  have lengths : (outputs size target).length = size := by
    rw [outputs_eq fits.fits]
    simp [Register.bits]
  refine ⟨v, { t with
      movedRegisters := moved (register target) v t.movedRegisters
      modified := true }, code, ⟨?_, ?_, fun _ known => emits.kindOf? known, ?_, ?_, ?_⟩, ?_, scratch, present.1, present.2, bits, movedBits,
    kept⟩
  · have found : registerOf? (boxCommand (.reg e) (outputs size target)).args = some (register target) := by
      have split := registerOf?_outputs [] (userInputs fits) fits.positive target
      rw [append_nil] at split
      rw [outputs_eq fits.fits]
      exact split
    exact bind_ok (box_register (by rw [lengths]; exact several) found walked) _
  · rw [emits.circuit]
  · refine ⟨hosts, ?_, ?_, visited.sound.pool, visited.sound.named, ?_, laterSafe, ?_⟩
    · rw [bits]
      exact standing.bits
    · rw [bits]
      exact standing.bitsNamed
    · intro k mem
      rw [bits, movedBits]
      exact standing.bitTargets k (mem_append_right _ mem)
    · intro b user
      rw [movedBits]
      exact standing.moved b user
  · exact fun cmd mem => Op.isBox_of_isLogic _ (emits.logic cmd mem)
  · refine simulates_box emits ?_ (fun m m' => ∀ i < size, m ((register target).place i) = m' (v.place i)) ?_
    · intro b mem
      rw [outputs_eq fits.fits] at mem
      obtain ⟨i, _, rfl⟩ := mem_bits.mp mem
      simp [isUserBit, Register.place, register_startsWith]
    · exact fun outcome x y alike => registerBox_value fits visited outcome alike
  · rw [lookup_moved, if_pos rfl]

lemma mapM_moveBit (source : Nat) (new : Register) (size k : Nat) :
    ((⟨(register source).name, size⟩ : Register).bits ++ [bit k]).mapM
    (moveBit (register source) new) = .ok ((⟨new.name, size⟩ : Register).bits ++ [bit k]) := by
  let value (b : UnitId) : UnitId :=
    if b.register = (register source).name then ⟨new.name, b.index⟩ else b
  rw [mapM_ok _ value]
  · have kept : value (bit k) = bit k := if_neg (register_name_ne source).symm
    rw [map_append, map_singleton, kept]
    simp [Register.bits, value]
  · intro b mem
    rcases mem_append.mp mem with inside | last
    · obtain ⟨i, _, rfl⟩ := mem_bits.mp inside
      simp [moveBit, value, Register.place, bitNumber, bind, Except.bind, pure, Except.pure]
    · obtain rfl := mem_singleton.mp last
      have other : (bit k).register ≠ (register source).name :=
        (register_name_ne source).symm
      simp [moveBit, value, other]

section

variable (positive : 0 < size) (small : size ≤ 32) {compared : Tested}
  (fits : compared.Fits c (outputs size target)) (standing : Standing c later s)
  (found : s.movedRegisters.lookup (register target) = some v) (large : size ≤ v.size)
  (present : ∀ i < v.size, s.circuit.kindOf? (v.place i) = some .bit)
  (distinct : compared.target ∉ later.flatMap bitTargets)
include apart positive small fits standing found large present distinct

lemma compare_ranged :
    ∃ t, Replaced c [⟨.range compared.lower compared.upper (outputs size target).length,
    outputs size target ++ [bit compared.target]⟩] later s t
    [⟨.range compared.lower compared.upper (outputs size target).length,
    (⟨v.name, size⟩ : Register).bits ++ [bit compared.target]⟩] (fun x y => Alike x y ∧ ∀ i < size,
    x.memory ((register target).place i) = y.memory (v.place i)) (fun x y => Alike x y ∧
    x.memory (bit compared.target) = y.memory (bit compared.target)) ∧
    t.bits = s.bits ∧ t.circuit.kindOf? (bit compared.target) = some .bit ∧
    ∀ b, t.movedBits.lookup b = if b = bit compared.target
    then some (bit compared.target) else s.movedBits.lookup b := by
  obtain ⟨bits, ensured, hosts, more, own⟩ := standing.ensureBit apart fits.inside
  let one : Circuit := { s.circuit with bits := bits }
  let part : Register := ⟨(register target).name, size⟩
  let moves : Register := ⟨v.name, size⟩
  have lengths : moves.bits.length = part.bits.length := by simp [part, moves, Register.bits]
  let op := Op.range compared.lower compared.upper part.bits.length
  have accepted : one.Accepts op (moves.bits ++ [bit compared.target]) := by
    have wired : ∀ u ∈ moves.bits ++ [bit compared.target], one.kindOf? u = some .bit := by
      intro u mem
      rcases mem_append.mp mem with inside | last
      · obtain ⟨i, below, rfl⟩ := mem_bits.mp inside
        exact kindOf?_of_more more (present i (below.trans_le large))
      · obtain rfl := mem_singleton.mp last
        exact own
    have step := accepts_range compared.lower compared.upper wired
    rwa [lengths] at step
  have source : registerOf? (part.bits ++ [bit compared.target]) = some (register target) :=
    registerOf?_outputs [bit compared.target] (forall_mem_nil _) positive target
  have ranged := range_moved getLast?_concat ensured source found
    (mapM_moveBit target v size compared.target) accepted
  let t : State := { s with
    circuit := one.withCommand op (moves.bits ++ [bit compared.target])
    movedBits := moved (bit compared.target) (bit compared.target) s.movedBits }
  have after : Standing c later t := by
    refine { standing with
      hosts := hosts.withCommand _ _
      bitTargets := fun k mem => ⟨(standing.bitTargets k mem).1, ?_⟩
      moved := fun b user => ?_ }
    · rw [lookup_moved, if_neg, (standing.bitTargets k mem).2]
      exact fun same => distinct (bit_injective same ▸ mem)
    · rw [lookup_moved, if_neg (ne_bit_of_isUserBit user _), standing.moved b user]
  rw [outputs_eq small] at fits ⊢
  refine ⟨t, ⟨bind_ok ranged _, rfl, fun _ known => kindOf?_of_more more known, after,
    forall_mem_singleton.mpr rfl, simulates_range lengths _ _ _ (fun _ _ related => related.1) ?_⟩, rfl, own,
    fun b => lookup_moved _ _ b _⟩
  rintro x y ⟨-, same⟩
  apply Nat.eq_of_testBit_eq
  intro i
  by_cases inside : i < size
  · rw [testBit_number_bits x.memory (r := part) inside, testBit_number_bits y.memory (r := moves) inside]
    exact same i inside
  · simp [testBit_number, Register.bits, part, moves, inside]

lemma compare_replaced (safe : Pool.Safe IsScratchBit s.bits (bit compared.target)) :
    ∃ t code, Replaced c (testOn (outputs size target) (some compared)) later s t code
    (fun x y => Alike x y ∧ ∀ i < size, x.memory ((register target).place i) = y.memory (v.place i)) Alike := by
  obtain ⟨t, ready, sameBits, own, lookup⟩ :=
    compare_ranged apart positive small fits standing found large present distinct
  have kept : t.movedBits.lookup (bit compared.target) = some (bit compared.target) := by rw [lookup, if_pos rfl]
  have laterNe : ∀ j ∈ later.flatMap bitTargets, bit j ≠ bit compared.target :=
    fun j mem same => distinct (bit_injective same ▸ mem)
  obtain ⟨u, guarded⟩ := guard_moved ready.standing kept rfl (sameBits ▸ safe) own laterNe fits.guarded
  exact ⟨u, _, ready.append guarded⟩

end

end

end

open List Scratch Decompose.Part Pool Logic Execution

variable {c : Circuit} {later parts : List Part} {s : State} {p : Part} {params : List Amount}
  {args : List UnitId}

def Part.IsSingle : Part → Prop
  | registerBox size .. => size = 1
  | _ => False

lemma kept_replaced (op : Op) (args : List UnitId) (standing : Standing c later s)
    (kept : command ⟨op, args⟩ s = .ok ((), { s with circuit := s.circuit.withCommand op args }))
    (proper : op.isBox = false)
    (same : ∀ outcome x y, Alike x y → Alike (perform outcome op args x) (perform outcome op args y))
    (refilled : ∀ rest numbers, refillCommands (⟨op, args⟩ :: rest) numbers = ⟨op, args⟩ :: refillCommands rest numbers)
    (held : ∀ m, heldNumber ⟨op, args⟩ m = []) (tested : ∀ m, testedNumber ⟨op, args⟩ m = []) :
    Replaced c [⟨op, args⟩] later s { s with circuit := s.circuit.withCommand op args } [⟨op, args⟩] Alike Alike := by
  refine ⟨bind_ok kept _, rfl, fun _ known => known, standing.withCommand _ _, ?_, ?_⟩
  · exact forall_mem_singleton.mpr proper
  · intro outcome x y alike
    refine ⟨[⟨op, args⟩], fun rest numbers => ?_, .cons (.same _) .nil, same outcome x y alike, ?_⟩
    · simp only [observe, held, nil_append, singleton_append, refilled]
    · simp only [observe, tested]

lemma gate_kept (standing : Standing c later s) {type : OpType}
    (accepted : c.Accepts (.gate type params) args) (stays : ∀ u ∈ args, Stays c u) :
    Replaced c [⟨.gate type params, args⟩] later s
    { s with circuit := s.circuit.withCommand (.gate type params) args } [⟨.gate type params, args⟩] Alike Alike := by
  have still : s.circuit.Accepts (.gate type params) args :=
    accepted.mono fun u mem _ known => standing.hosts.kindOf? (stays u mem) known
  have kept := liftCircuit_ok s (·.addOp (.gate type params) args) still.addOp
  exact kept_replaced (.gate type params) args standing kept rfl
    (fun outcome _ _ alike => alike.gate outcome type params args) (fun _ _ => rfl)
    (fun _ => rfl) (fun _ => rfl)

lemma conditional_kept (standing : Standing c later s) {tests : List UnitId} {value : Nat} {type : OpType}
    (accepted : c.Accepts (.conditional tests.length value (.gate type params)) (tests ++ args))
    (user : ∀ b ∈ tests, isUserBit b = true) (stays : ∀ u ∈ args, Stays c u) :
    Replaced c [⟨.conditional tests.length value (.gate type params), tests ++ args⟩] later s { s with
    circuit := s.circuit.withCommand (.conditional tests.length value (.gate type params)) (tests ++ args) }
    [⟨.conditional tests.length value (.gate type params), tests ++ args⟩] Alike Alike := by
  have still : s.circuit.Accepts (.conditional tests.length value (.gate type params))
      (tests ++ args) := by
    refine accepted.mono fun u mem _ known => standing.hosts.kindOf? ?_ known
    rcases mem_append.mp mem with test | arg
    · exact fun _ => user u test
    · exact stays u arg
  have unmoved : ∀ b, (tests ++ args).take tests.length = [b] → s.movedBits.lookup b = none := by
    intro b single
    rw [take_left] at single
    exact standing.moved b (user b (by simp [single]))
  exact kept_replaced (.conditional tests.length value (.gate type params)) (tests ++ args) standing
    (conditional_direct unmoved still) rfl (by
      intro outcome x y alike
      have numbers : x.memory.number tests = y.memory.number tests :=
        Memory.number_congr _ fun b mem => alike.memory b (user b mem)
      exact alike.conditional outcome type params rfl numbers value args)
    (fun _ _ => rfl) (fun _ => rfl) (fun _ => rfl)

lemma Part.replaced (apart : KindsApart c)
    (fits : p.Fits c) (quiet : p.registerTargets ≠ [] → Quiet c) (several : ¬p.IsSingle)
    (bits : ((p :: later).flatMap bitTargets).Nodup)
    (registers : ((p :: later).flatMap registerTargets).Nodup) (standing : Standing c (p :: later) s) :
    ∃ t code, Replaced c p.commands later s t code Alike Alike := by
  have rest := standing.rest
  cases p with
  | gate type params args => exact ⟨_, _, gate_kept rest fits.1 fits.2⟩
  | conditional tests value type params args =>
    exact ⟨_, _, conditional_kept rest fits.1 fits.2.1 fits.2.2⟩
  | bitBox e target guarded =>
    have nodup := (nodup_cons.mp bits).1
    obtain ⟨v, t, code, boxed, found, scratch, safe, present, _, kept⟩ :=
      bitBox_replaced apart fits standing nodup
    have fresh : ∀ j ∈ later.flatMap bitTargets, bit j ≠ v := by
      intro j mem
      refine (kept _ (standing.bitTargets j (mem_append_right _ mem)).1 fun same => ?_).1
      exact nodup (bit_injective same ▸ mem)
    obtain ⟨u, after⟩ := guard_moved boxed.standing found scratch safe present fresh fits.guarded
    exact ⟨u, _, boxed.append after⟩
  | test r tested => exact test_replaced apart fits.1 fits.2 standing
  | registerBox size e target tested =>
    have nodup := (nodup_cons.mp registers).1
    obtain ⟨v, t, code, boxed, found, _, large, present, sameBits, _, _⟩ :=
      registerBox_replaced (quiet (by simp [registerTargets])) fits several standing nodup
    cases tested with
    | none =>
      refine ⟨t, code, boxed.result, boxed.added, boxed.grows, boxed.standing, boxed.boxFree, ?_⟩
      exact boxed.simulates.imp fun _ _ related => related.1
    | some compared =>
      have own := standing.bitTargets compared.target (by simp [bitTargets])
      have alone := (nodup_cons.mp bits).1
      obtain ⟨u, code', after⟩ := compare_replaced apart fits.positive fits.fits
        (fits.compared compared rfl) boxed.standing found large present alone (sameBits ▸ own.1)
      exact ⟨u, _, boxed.append after⟩

/-- Registers are boxed only if something holds. -/
def BoxOnlyIf (registers : Prop) (parts : List Part) : Prop := ∀ p ∈ parts, p.registerTargets ≠ [] → registers

lemma parts_replaced (apart : KindsApart c) (parts later : List Part)
    (fits : ∀ p ∈ parts, p.Fits c) (quiet : BoxOnlyIf (Quiet c) parts)
    (several : ∀ p ∈ parts, ¬p.IsSingle) (bits : ((parts ++ later).flatMap bitTargets).Nodup)
    (registers : ((parts ++ later).flatMap registerTargets).Nodup) (standing : Standing c (parts ++ later) s) :
    ∃ t code, Replaced c (parts.flatMap commands) later s t code Alike Alike := by
  induction parts generalizing s with
  | nil => exact ⟨s, [], rfl, by simp, fun _ known => known, standing, by simp, Simulates.nil⟩
  | cons p parts ih =>
    obtain ⟨t, code, first⟩ := replaced apart (fits p (by simp)) (quiet p (by simp))
      (several p (by simp)) bits registers standing
    obtain ⟨u, code', rest⟩ := ih (fun q mem => fits q (.tail _ mem)) (fun q mem => quiet q (.tail _ mem))
      (fun q mem => several q (.tail _ mem)) (nodup_append.mp bits).2.1
      (nodup_append.mp registers).2.1 first.standing
    exact ⟨u, code ++ code', first.append rest⟩

def WellNamed (b : UnitId) : Prop :=
  isUserBit b = true ∨ (∃ k, b = bit k) ∨ ∃ k i, b = (register k).place i

lemma WellNamed.bit {b : UnitId} (named : WellNamed b) (name : b.register = bitName) : ∃ k, b = bit k := by
  rcases named with user | single | ⟨k, i, rfl⟩
  · exact absurd name (register_ne_of_isUserBit user)
  · exact single
  · exact absurd name (register_name_ne k)

lemma WellNamed.register {b : UnitId} (named : WellNamed b)
    (base : b.register.startsWith registerBase = true) : ∃ k, b.register = (register k).name := by
  rcases named with user | ⟨k, rfl⟩ | ⟨k, i, rfl⟩
  · rw [isUserBit, startsWith_bitName base] at user
    cases user
  · rw [Scratch.bit, bitName_startsWith] at base
    cases base
  · exact ⟨k, rfl⟩

/-- After commands that were there before, a circuit is made of parts. -/
structure Assembled (early : List Command) (c : Circuit) (parts : List Part) : Prop where
  apart : KindsApart c
  bits : ∀ b ∈ c.bits, WellNamed b
  commands : c.commands = early ++ parts.flatMap commands
  fits : ∀ p ∈ parts, p.Fits c
  bitTargets : (parts.flatMap bitTargets).Nodup
  registerTargets : (parts.flatMap registerTargets).Nodup

def pooled (pools : BitPool × RegisterPool) (b : UnitId) : BitPool × RegisterPool :=
  if b.register = bitName then (pools.1.use b, pools.2)
  else if b.register.startsWith registerBase then
    (pools.1, pools.2.use ⟨b.register, registerSize⟩)
  else pools

lemma pooled_spec (pools : BitPool × RegisterPool) (b : UnitId) :
    (pooled pools b).1.free = pools.1.free ∧ (pooled pools b).2.free = pools.2.free ∧
    (∀ c, c ∈ (pooled pools b).1.known ↔ c ∈ pools.1.known ∨ c = b ∧ c.register = bitName) ∧
    ∀ r, r ∈ (pooled pools b).2.known ↔ r ∈ pools.2.known ∨
    b.register.startsWith registerBase = true ∧ r = ⟨b.register, registerSize⟩ := by
  unfold pooled
  split_ifs with single base
  · have other : b.register.startsWith registerBase = false := single ▸ bitName_startsWith
    refine ⟨free_use _ _, rfl, fun c => ?_, by simp [other]⟩
    rw [mem_known_use]
    by_cases same : c = b <;> simp [same, single]
  · refine ⟨rfl, free_use _ _, fun c => ?_, fun r => ?_⟩
    · by_cases same : c = b <;> simp [same, single]
    · rw [mem_known_use]
      simp [base, or_comm]
  · refine ⟨rfl, rfl, fun c => ?_, by simp [base]⟩
    by_cases same : c = b <;> simp [same, single]

lemma foldl_pooled (bits : List UnitId) (pools : BitPool × RegisterPool) :
    (bits.foldl pooled pools).1.free = pools.1.free ∧ (bits.foldl pooled pools).2.free = pools.2.free ∧
    (∀ b, b ∈ (bits.foldl pooled pools).1.known ↔ b ∈ pools.1.known ∨ b ∈ bits ∧ b.register = bitName) ∧
    ∀ r, r ∈ (bits.foldl pooled pools).2.known ↔ r ∈ pools.2.known ∨ ∃ b ∈ bits,
    b.register.startsWith registerBase = true ∧ r = ⟨b.register, registerSize⟩ := by
  induction bits generalizing pools with
  | nil => simp
  | cons b rest ih =>
    obtain ⟨freeBits, freeRegisters, bits, registers⟩ := ih (pooled pools b)
    obtain ⟨freeBits', freeRegisters', bits', registers'⟩ := pooled_spec pools b
    refine ⟨freeBits.trans freeBits', freeRegisters.trans freeRegisters', fun c => ?_, fun r => ?_⟩
    · rw [foldl_cons, bits, bits', mem_cons]
      tauto
    · rw [foldl_cons, registers, registers', exists_mem_cons_iff]
      tauto

lemma poolsOf_spec (c : Circuit) : (poolsOf c).1.free = [] ∧ (poolsOf c).2.free = [] ∧
    (∀ b, b ∈ (poolsOf c).1.known ↔ b ∈ c.bits ∧ b.register = bitName) ∧ ∀ r, r ∈ (poolsOf c).2.known ↔ ∃ b ∈ c.bits,
    b.register.startsWith registerBase = true ∧ r = ⟨b.register, registerSize⟩ := by
  obtain ⟨freeBits, freeRegisters, bits, registers⟩ := foldl_pooled c.bits (empty, empty)
  refine ⟨freeBits, freeRegisters, fun b => (bits b).trans ?_, fun r => (registers r).trans ?_⟩
  · simp [empty]
  · simp [empty]

def startOf (c : Circuit) : State :=
  ⟨{ Circuit.empty with name := c.name, qubits := c.qubits, bits := c.bits.filter isUserBit },
    (poolsOf c).1, (poolsOf c).2, [], [], false⟩

lemma circuit_eq (c : Circuit) : circuit c =
    (c.commands.forM command (startOf c)).map fun r => (r.2.circuit, r.2.modified) := by
  change (c.commands.forM command (startOf c) >>= _) = _
  cases c.commands.forM command (startOf c) <;> rfl

lemma Part.Fits.bit_inside (fits : p.Fits c) (mem : k ∈ p.bitTargets) : bit k ∈ c.bits := by
  cases p with
  | gate _ _ _ => cases mem
  | conditional _ _ _ _ _ => cases mem
  | bitBox e target guarded =>
    obtain rfl := mem_singleton.mp mem
    exact fits.inside
  | test r tested =>
    obtain rfl := mem_singleton.mp mem
    exact fits.2.inside
  | registerBox size e target tested =>
    obtain ⟨compared, inside, rfl⟩ := mem_map.mp mem
    exact (fits.compared compared (Option.mem_toList.mp inside)).inside

lemma Part.Fits.register_inside (fits : p.Fits c)
    (mem : k ∈ p.registerTargets) : ∀ b ∈ (register k).bits, b ∈ c.bits := by
  cases p with
  | registerBox size e target tested =>
    obtain rfl := mem_singleton.mp mem
    exact fits.inside
  | _ => cases mem

lemma standing_startOf (named : ∀ b ∈ c.bits, WellNamed b)
    (fits : ∀ p ∈ parts, p.Fits c) : Standing c parts (startOf c) := by
  obtain ⟨freeBits, freeRegisters, bits, registers⟩ := poolsOf_spec c
  refine ⟨⟨rfl, ?_, ?_⟩, ⟨?_, ?_⟩, ?_, ⟨?_, ?_⟩, ?_, ?_, ?_, fun _ _ => rfl⟩
  · exact fun b mem user => mem_filter.mpr ⟨mem, user⟩
  · intro b mem scratch
    rw [(mem_filter.mp mem).2] at scratch
    cases scratch
  · simp [startOf, freeBits]
  · simp [startOf, freeBits]
  · intro b mem
    obtain ⟨inside, name⟩ := (bits b).mp mem
    exact (named b inside).bit name
  · simp [startOf, freeRegisters]
  · simp [startOf, freeRegisters]
  · intro r mem
    obtain ⟨b, inside, base, rfl⟩ := (registers r).mp mem
    obtain ⟨k, name⟩ := (named b inside).register base
    exact ⟨k, by rw [name]; rfl⟩
  · intro k mem
    obtain ⟨p, inside, own⟩ := mem_flatMap.mp mem
    have known := (bits (bit k)).mpr ⟨(fits p inside).bit_inside own, rfl⟩
    exact ⟨⟨by simp [startOf, freeBits], fun _ => known⟩, rfl⟩
  · intro k mem
    obtain ⟨p, inside, own⟩ := mem_flatMap.mp mem
    have first : (register k).place 0 ∈ c.bits :=
      (fits p inside).register_inside own _ (mem_bits.mpr ⟨0, Nat.succ_pos _, rfl⟩)
    have known := (registers (register k)).mpr
      ⟨_, first, register_startsWith_base k, rfl⟩
    exact ⟨by simp [startOf, freeRegisters], fun _ => known⟩

lemma Assembled.standing {early : List Command} (assembled : Assembled early c parts) :
    Standing c parts (startOf c) := standing_startOf assembled.bits assembled.fits

lemma Assembled.decomposed (assembled : Assembled [] c parts)
    (quiet : BoxOnlyIf (Quiet c) parts) (several : ∀ p ∈ parts, ¬p.IsSingle) :
    ∃ d modified, circuit c = .ok (d, modified) ∧
    (∀ cmd ∈ d.commands, cmd.op.isBox = false) ∧ Simulates c.commands d.commands Alike Alike := by
  obtain ⟨t, code, replaced⟩ := parts_replaced assembled.apart parts [] assembled.fits quiet several
    (by simpa using assembled.bitTargets) (by simpa using assembled.registerTargets)
    (by simpa using assembled.standing)
  have cmds : t.circuit.commands = code := replaced.added
  refine ⟨t.circuit, t.modified, ?_, ?_, ?_⟩
  · rw [circuit_eq, assembled.commands, nil_append, replaced.result]
    rfl
  · exact cmds ▸ replaced.boxFree
  · rw [assembled.commands, nil_append, cmds]
    exact replaced.simulates

lemma bind_error {x : Run α} {cause : Error} (fails : x s = .error cause)
    (f : α → Run β) : (x >>= f) s = .error cause := by
  simp only [bind, StateT.bind, fails, Except.bind]

lemma single_fails (single : p.IsSingle) (s : State) : p.commands.forM command s = .error .unexpected := by
  cases p with
  | registerBox size e target tested =>
    obtain rfl : size = 1 := single
    exact bind_error rfl _
  | _ => cases single

lemma parts_fail (apart : KindsApart c) (parts : List Part)
    (fits : ∀ p ∈ parts, p.Fits c) (quiet : BoxOnlyIf (Quiet c) parts)
    (single : ∃ p ∈ parts, p.IsSingle) (bits : (parts.flatMap bitTargets).Nodup)
    (registers : (parts.flatMap registerTargets).Nodup) (standing : Standing c parts s) :
    (parts.flatMap commands).forM command s = .error .unexpected := by
  induction parts generalizing s with
  | nil => simp at single
  | cons p parts ih =>
    change forM (p.commands ++ parts.flatMap commands) command s = _
    rw [List.forM_append]
    by_cases first : p.IsSingle
    · exact bind_error (single_fails first s) _
    · have rest : ∃ q ∈ parts, q.IsSingle := by
        obtain ⟨q, mem, own⟩ := single
        rcases mem_cons.mp mem with rfl | inside
        · exact absurd own first
        · exact ⟨q, inside, own⟩
      obtain ⟨t, code, replaced⟩ := replaced apart (fits p (by simp)) (quiet p (by simp)) first bits
        registers standing
      refine (bind_ok replaced.result _).trans ?_
      exact ih (fun q mem => fits q (.tail _ mem)) (fun q mem => quiet q (.tail _ mem)) rest
        (nodup_append.mp bits).2.1 (nodup_append.mp registers).2.1 replaced.standing

lemma Assembled.fails (assembled : Assembled [] c parts)
    (quiet : BoxOnlyIf (Quiet c) parts) (single : ∃ p ∈ parts, p.IsSingle) :
    circuit c = .error .unexpected := by
  rw [circuit_eq, assembled.commands, nil_append, parts_fail assembled.apart parts assembled.fits quiet single
    assembled.bitTargets assembled.registerTargets assembled.standing]
  rfl

end CircuitWorks.Decompose

namespace CircuitWorks

open List Circuit Scratch Logic Except

variable {keep : UnitId → Bool} {u : UnitId} {r : Register}

lemma UnitId.filter_insertSorted (other : keep u = false) (units : List UnitId) :
    (UnitId.insertSorted u units).filter keep = units.filter keep := by
  induction units with
  | nil => simp [UnitId.insertSorted, other]
  | cons v rest ih =>
    rw [UnitId.insertSorted]
    split
    · simp [other]
    · rw [filter_cons, filter_cons, ih]

lemma UnitId.filter_foldl_insertSorted {units : List UnitId} (other : ∀ u ∈ units, keep u = false)
    (all : List UnitId) : (units.foldl (fun all u => UnitId.insertSorted u all) all).filter keep = all.filter keep := by
  induction units generalizing all with
  | nil => rfl
  | cons u rest ih =>
    rw [foldl_cons, ih fun v mem => other v (.tail _ mem)]
    exact UnitId.filter_insertSorted (other u (by simp)) all

lemma Circuit.kindOf?_eq_none {c : Circuit} : c.kindOf? u = none ↔ u ∉ c.qubits ∧ u ∉ c.bits := by
  unfold kindOf?
  split <;> simp_all

namespace Condition

variable {c : Circuit}

lemma nextBit_eq_ok {b : UnitId} (next : nextBit c = .ok b) : ∃ k, b = bit k := by
  obtain ⟨numbers, _, made⟩ := bind_eq_ok.mp next
  cases made
  exact ⟨_, rfl⟩

lemma nextRegister_eq_ok (next : nextRegister c = .ok r) :
    ∃ k, r = register k ∧ ∀ b ∈ c.bits, b.register ≠ r.name := by
  obtain ⟨numbers, read, made⟩ := bind_eq_ok.mp next
  obtain ⟨n, eq⟩ := Int.eq_ofNat_of_zero_le (nextAfter_nonneg numbers)
  have named : r = register n := by
    cases made
    rw [eq]
    rfl
  refine ⟨n, named, ?_⟩
  rw [named]
  intro b mem same
  -- the number of the name would be among the numbers that the new one exceeds
  have base : b.register.startsWith registerBase = true :=
    same ▸ Decompose.register_startsWith_base n
  have listed : b.register ∈ (c.bits.map (·.register)).filter (·.startsWith registerBase) :=
    mem_filter.mpr ⟨mem_map_of_mem mem, base⟩
  obtain ⟨m, inside, number⟩ := exists_of_mapM_eq_ok read _ listed
  have below := lt_nextAfter numbers m inside
  rw [same, nameNumber_register] at number
  cases number
  omega

end Condition

namespace Decompose

variable {u b : UnitId} {kind : UnitKind} {op : Op} {args bits : List UnitId} {k : Nat} {early : List Command}
  {p : Part}

/-- Bits are added, in their places, and nothing else changes. -/
structure Gains (c : Circuit) (units : List UnitId) (d : Circuit) : Prop where
  rest : d = { c with bits := d.bits }
  apart : ∀ u ∈ units, u ∉ c.qubits
  bits : ∀ u, u ∈ d.bits ↔ u ∈ units ∨ u ∈ c.bits
  others : ∀ keep : UnitId → Bool, (∀ u ∈ units, keep u = false) →
    d.bits.filter keep = c.bits.filter keep
  kinds : KindsApart c → KindsApart d

structure Grows (c d : Circuit) : Prop where
  qubits : ∀ q ∈ c.qubits, q ∈ d.qubits
  bits : ∀ b ∈ c.bits, b ∈ d.bits

section

variable {c d : Circuit}

lemma KindsApart.not_both (apart : KindsApart c) (bit : u ∈ c.bits) : u ∉ c.qubits :=
  fun qubit => apart u qubit u bit rfl

lemma Grows.kindOf? (grows : Grows c d) (apart : KindsApart d)
    (known : c.kindOf? u = some kind) : d.kindOf? u = some kind := by
  cases kind with
  | qubit => exact kindOf?_eq_qubit.mpr (grows.qubits u (kindOf?_eq_qubit.mp known))
  | bit =>
    have mem := grows.bits u (kindOf?_eq_bit.mp known).2
    exact kindOf?_eq_bit.mpr ⟨apart.not_both mem, mem⟩

lemma Grows.accepts (grows : Grows c d) (apart : KindsApart d) (accepted : c.Accepts op args) : d.Accepts op args :=
  accepted.mono fun _ _ _ known => grows.kindOf? apart known

lemma Grows.stays (grows : Grows c d) (apart : KindsApart d)
    (accepted : c.Accepts op args) (mem : u ∈ args) (stays : Stays c u) : Stays d u := by
  obtain ⟨e, _, known⟩ := accepted.wire mem
  intro inside
  have later := grows.kindOf? apart known
  cases kind : e.kind with
  | qubit =>
    rw [kind] at later
    exact absurd (kindOf?_eq_qubit.mp later) (apart.not_both inside)
  | bit =>
    rw [kind] at known
    exact stays (kindOf?_eq_bit.mp known).2

lemma Guarded.Fits.grow {g : Guarded} (fits : g.Fits c b) (grows : Grows c d)
    (apart : KindsApart d) : g.Fits d b where
  value := fits.value
  accepted := grows.accepts apart fits.accepted
  stays u mem := grows.stays apart fits.accepted (.tail _ mem) (fits.stays u mem)

lemma Tested.Fits.grow {t : Tested} (fits : t.Fits c bits)
    (grows : Grows c d) (apart : KindsApart d) : t.Fits d bits where
  inside := grows.bits _ fits.inside
  accepted := grows.accepts apart fits.accepted
  guarded g mem := (fits.guarded g mem).grow grows apart

lemma Part.Fits.grow (fits : p.Fits c) (grows : Grows c d) (apart : KindsApart d) : p.Fits d := by
  cases p with
  | gate type params args =>
    exact ⟨grows.accepts apart fits.1, fun u mem =>
      grows.stays apart fits.1 mem (fits.2 u mem)⟩
  | conditional bits value type params args =>
    exact ⟨grows.accepts apart fits.1, fits.2.1, fun u mem =>
      grows.stays apart fits.1 (mem_append_right _ mem) (fits.2.2 u mem)⟩
  | bitBox e target guarded =>
    exact ⟨fits.node, fits.tree, fun b mem => grows.kindOf? apart (fits.present b mem),
      grows.bits _ fits.inside, fun g mem => (fits.guarded g mem).grow grows apart⟩
  | test r tested => exact ⟨fits.1, fits.2.grow grows apart⟩
  | registerBox size e target tested =>
    exact ⟨fits.positive, fits.fits, fits.node, fits.tree,
      fun r mem b inside => grows.kindOf? apart (fits.present r mem b inside),
      fun b mem => grows.bits _ (fits.inside b mem),
      fun t mem => (fits.compared t mem).grow grows apart⟩

variable {parts : List Part}

lemma Assembled.grow (assembled : Assembled early c parts) (grows : Grows c d) (apart : KindsApart d)
    (bits : ∀ b ∈ d.bits, WellNamed b) (commands : d.commands = c.commands) : Assembled early d parts where
  apart := apart
  bits := bits
  commands := commands.trans assembled.commands
  fits p mem := (assembled.fits p mem).grow grows apart
  bitTargets := assembled.bitTargets
  registerTargets := assembled.registerTargets

end

section

variable {c d e : Circuit} {parts : List Part} {units more : List UnitId}

lemma registerInfo?_qubit (mem : q ∈ c.qubits) : ∃ n, c.registerInfo? q.register = some (.qubit, n) := by
  cases found : c.qubits.find? (·.register = q.register) with
  | none =>
    rw [find?_eq_none] at found
    exact absurd (by simp) (found q mem)
  | some u => exact ⟨u.index.length, by simp [registerInfo?, found]⟩

lemma registerInfo?_bit (apart : KindsApart c) (mem : b ∈ c.bits) :
    ∃ n, c.registerInfo? b.register = some (.bit, n) := by
  have noQubit : c.qubits.find? (·.register = b.register) = none := by
    rw [find?_eq_none]
    intro q inside
    simpa using apart q inside b mem
  cases found : c.bits.find? (·.register = b.register) with
  | none =>
    rw [find?_eq_none] at found
    exact absurd (by simp) (found b mem)
  | some u => exact ⟨u.index.length, by simp [registerInfo?, noQubit, found]⟩

lemma addUnit_eq_ok (added : c.addUnit kind u = .ok d) : c.kindOf? u = none ∧ d = c.insertUnit kind u ∧
    ∀ other n, c.registerInfo? u.register = some (other, n) → other = kind := by
  unfold addUnit insertNew at added
  cases present : c.kindOf? u with
  | some _ => simp [present] at added
  | none =>
    simp only [present, Option.isSome_none, Bool.false_eq_true, if_false] at added
    cases info : c.registerInfo? u.register with
    | none =>
      rw [info] at added
      exact ⟨rfl, (ok.inj added).symm, by simp⟩
    | some found =>
      rw [info] at added
      by_cases same : found = (kind, u.index.length)
      · simp only [same, if_true] at added
        exact ⟨rfl, (ok.inj added).symm, by simp [same]⟩
      · simp [same] at added

lemma KindsApart.addUnit (apart : KindsApart c) (added : c.addUnit kind u = .ok d) : KindsApart d ∧ Grows c d := by
  obtain ⟨_, rfl, own⟩ := addUnit_eq_ok added
  cases kind with
  | qubit =>
    have members (q : UnitId) : q ∈ (c.insertUnit .qubit u).qubits ↔ q = u ∨ q ∈ c.qubits :=
      UnitId.mem_insertSorted _ _ _
    refine ⟨?_, fun q mem => (members q).mpr (.inr mem), fun _ mem => mem⟩
    intro q mem b inside same
    rcases (members q).mp mem with rfl | old
    · obtain ⟨n, info⟩ := registerInfo?_bit apart inside
      cases own .bit n (same ▸ info)
    · exact apart q old b inside same
  | bit =>
    have members (b : UnitId) : b ∈ (c.insertUnit .bit u).bits ↔ b = u ∨ b ∈ c.bits :=
      UnitId.mem_insertSorted _ _ _
    refine ⟨?_, fun _ mem => mem, fun b mem => (members b).mpr (.inr mem)⟩
    intro q mem b inside same
    rcases (members b).mp inside with rfl | old
    · have info : ∃ n, c.registerInfo? q.register = some (.qubit, n) := registerInfo?_qubit mem
      obtain ⟨n, info⟩ := info
      cases own .qubit n (same ▸ info)
    · exact apart q mem b old same

lemma Gains.refl (c : Circuit) : Gains c [] c where
  rest := by cases c; rfl
  apart := by simp
  bits := by simp
  others _ _ := rfl
  kinds := id

lemma Gains.trans (first : Gains c units d) (second : Gains d more e) : Gains c (units ++ more) e where
  rest := by
    rw [second.rest, first.rest]
  apart u mem := by
    have same : d.qubits = c.qubits := by rw [first.rest]
    rcases mem_append.mp mem with early | late
    · exact first.apart u early
    · exact same ▸ second.apart u late
  bits u := by
    rw [second.bits, first.bits, mem_append]
    tauto
  others keep out := by
    have early := first.others keep fun u mem => out u (mem_append_left _ mem)
    have late := second.others keep fun u mem => out u (mem_append_right _ mem)
    exact late.trans early
  kinds apart := second.kinds (first.kinds apart)

lemma Gains.qubits (gains : Gains c units d) : d.qubits = c.qubits := by rw [gains.rest]

lemma Gains.commands (gains : Gains c units d) : d.commands = c.commands := by rw [gains.rest]

lemma Gains.kindOf? (gains : Gains c units d) (mem : u ∈ units) : d.kindOf? u = some .bit := by
  apply kindOf?_eq_bit.mpr
  exact ⟨gains.qubits ▸ gains.apart u mem, (gains.bits u).mpr (.inl mem)⟩

lemma Gains.grows (gains : Gains c units d) : Grows c d :=
  ⟨fun _ mem => gains.qubits ▸ mem, fun b mem => (gains.bits b).mpr (.inr mem)⟩

lemma mem_foldl_insertUnit (units : List UnitId) (b : UnitId) :
    b ∈ (units.foldl (fun c u => c.insertUnit .bit u) c).bits ↔ b ∈ units ∨ b ∈ c.bits := by
  induction units generalizing c with
  | nil => simp
  | cons u rest ih =>
    rw [foldl_cons, ih, mem_cons]
    simp only [insertUnit, UnitId.mem_insertSorted]
    tauto

lemma foldl_insertUnit_rest (units : List UnitId) :
    (units.foldl (fun c u => c.insertUnit .bit u) c).qubits = c.qubits ∧
    (units.foldl (fun c u => c.insertUnit .bit u) c).commands = c.commands := by
  rw [foldl_insertUnit]
  exact ⟨rfl, rfl⟩

lemma gains_addBit (added : c.addBit u = .ok d) : Gains c [u] d := by
  have kinds (apart : KindsApart c) : KindsApart d := (apart.addUnit added).1
  obtain ⟨unknown, rfl, _⟩ := addUnit_eq_ok added
  refine ⟨rfl, ?_, ?_, ?_, kinds⟩
  · intro v mem
    exact mem_singleton.mp mem ▸ (kindOf?_eq_none.mp unknown).1
  · intro v
    rw [mem_singleton]
    exact UnitId.mem_insertSorted u v c.bits
  · intro keep out
    exact UnitId.filter_insertSorted (out u (by simp)) c.bits

lemma gains_ensureBit (ensured : c.ensureBit u = .ok d) : Gains c [u] d := by
  cases known : c.kindOf? u with
  | none =>
    have added : c.addBit u = .ok d := by
      rw [ensureBit, ensureUnit, known] at ensured
      rw [addBit, addUnit, known]
      exact ensured
    exact gains_addBit added
  | some kind =>
    rw [ensureBit, ensureUnit, known] at ensured
    by_cases bit : kind = .bit
    · obtain rfl : c = d := by simpa [bit] using ensured
      obtain ⟨apart, inside⟩ := kindOf?_eq_bit.mp (bit ▸ known)
      refine ⟨(Gains.refl c).rest, ?_, ?_, fun _ _ => rfl, id⟩
      · intro v mem
        obtain rfl := mem_singleton.mp mem
        exact apart
      · intro v
        constructor
        · exact .inr
        · rintro (own | old)
          · exact mem_singleton.mp own ▸ inside
          · exact old
    · simp [bit] at ensured

lemma gains_ensureBits (ensured : c.ensureBits units = .ok d) : Gains c units d := by
  induction units generalizing c with
  | nil =>
    obtain rfl : c = d := ok.inj ensured
    exact Gains.refl c
  | cons u rest ih =>
    obtain ⟨one, first, later⟩ := bind_eq_ok.mp ensured
    exact (gains_ensureBit first).trans (ih later)

lemma gains_ensureRegister (ensured : c.ensureRegister r = .ok d) : Gains c [] d ∨ Gains c r.bits d := by
  unfold ensureRegister at ensured
  split at ensured
  · rename_i unused
    obtain rfl := ok.inj ensured
    have members := mem_foldl_insertUnit (c := c) r.bits
    have free : ∀ q ∈ c.qubits, q.register ≠ r.name := by
      intro q mem same
      have taken : q ∈ c.registerUnits r.name :=
        mem_filter.mpr ⟨mem_append_left _ mem, by simp [same]⟩
      rw [unused] at taken
      cases taken
    refine .inr ⟨?_, ?_, members, ?_, ?_⟩
    · rw [foldl_insertUnit]
      rfl
    · intro u mem qubit
      obtain ⟨i, _, rfl⟩ := mem_bits.mp mem
      exact free _ qubit rfl
    · intro keep out
      rw [foldl_insertUnit]
      exact UnitId.filter_foldl_insertSorted out c.bits
    · intro apart q qubit b bit
      rw [(foldl_insertUnit_rest r.bits).1] at qubit
      rcases (members b).mp bit with new | old
      · obtain ⟨i, _, rfl⟩ := mem_bits.mp new
        exact free q qubit
      · exact apart q qubit b old
  · split at ensured
    · obtain rfl := ok.inj ensured
      exact .inl (Gains.refl c)
    · cases ensured

section

variable (assembled : Assembled early c parts)

include assembled

lemma Assembled.gain (gains : Gains c units d) (named : ∀ u ∈ units, WellNamed u) : Assembled early d parts := by
  refine assembled.grow gains.grows (gains.kinds assembled.apart) (fun b mem => ?_) gains.commands
  rcases (gains.bits b).mp mem with new | old
  · exact named b new
  · exact assembled.bits b old

lemma Assembled.addUnit (named : kind = .bit → WellNamed u) (added : c.addUnit kind u = .ok d) :
    Assembled early d parts := by
  cases kind with
  | qubit =>
    obtain ⟨apart, grows⟩ := assembled.apart.addUnit added
    obtain ⟨_, rfl, _⟩ := addUnit_eq_ok added
    exact assembled.grow grows apart assembled.bits rfl
  | bit => exact assembled.gain (gains_addBit added) (forall_mem_singleton.mpr (named rfl))

lemma Assembled.addScratch (next : Condition.nextBit c = .ok b) (added : c.addBit b = .ok d) :
    ∃ k, b = bit k ∧ k ∉ parts.flatMap Part.bitTargets ∧ Assembled early d parts ∧ Grows c d ∧ bit k ∈ d.bits := by
  obtain ⟨k, rfl⟩ := Condition.nextBit_eq_ok next
  have gains := gains_addBit added
  refine ⟨k, rfl, fun mem => ?_, assembled.gain gains (forall_mem_singleton.mpr (.inr (.inl ⟨k, rfl⟩))),
    gains.grows, (gains.bits _).mpr (.inl (by simp))⟩
  obtain ⟨p, inside, own⟩ := mem_flatMap.mp mem
  exact (kindOf?_eq_none.mp (addUnit_eq_ok added).1).2 ((assembled.fits p inside).bit_inside own)

lemma Assembled.ensureRegister (added : c.ensureRegister (register k) = .ok d) : Assembled early d parts ∧ Grows c d ∧
    ((∀ b ∈ c.bits, b.register ≠ (register k).name) →
    ∀ b ∈ d.bits, b.register = (register k).name → ∀ b ∈ (register k).bits, b ∈ d.bits) := by
  rcases gains_ensureRegister added with gains | gains
  · refine ⟨assembled.gain gains (forall_mem_nil _), gains.grows, fun fresh b mem same => ?_⟩
    exact absurd same (fresh b (((gains.bits b).mp mem).resolve_left not_mem_nil))
  · refine ⟨assembled.gain gains fun b mem => ?_, gains.grows, fun _ _ _ _ b mem => (gains.bits b).mpr (.inl mem)⟩
    obtain ⟨i, _, rfl⟩ := mem_bits.mp mem
    exact .inr (.inr ⟨k, i, rfl⟩)

end

end

section

variable {c d : Circuit} {parts : List Part}

lemma Grows.refl (c : Circuit) : Grows c c := ⟨fun _ mem => mem, fun _ mem => mem⟩

lemma Grows.trans (first : Grows c d) (second : Grows d e) : Grows c e :=
  ⟨fun q mem => second.qubits q (first.qubits q mem), fun b mem => second.bits b (first.bits b mem)⟩

lemma grows_withCommand (c : Circuit) (op : Op) (args : List UnitId) :
    Grows c (c.withCommand op args) := ⟨fun _ mem => mem, fun _ mem => mem⟩

lemma Assembled.extend {old : List Part} (assembled : Assembled early c (parts ++ old)) (fits : p.Fits c)
    (commands : p.commands = old.flatMap Part.commands ++ [⟨op, args⟩])
    (bits : ((parts ++ [p]).flatMap Part.bitTargets).Nodup)
    (registers : ((parts ++ [p]).flatMap Part.registerTargets).Nodup) :
    Assembled early (c.withCommand op args) (parts ++ [p]) where
  apart := assembled.apart
  bits := assembled.bits
  commands := by
    have before := assembled.commands
    change c.commands ++ [⟨op, args⟩] = _
    rw [before, flatMap_append, flatMap_append, flatMap_singleton, commands, append_assoc, append_assoc]
  fits q mem := by
    have inside : q.Fits c := by
      rcases mem_append.mp mem with earlier | last
      · exact assembled.fits q (mem_append_left _ earlier)
      · exact mem_singleton.mp last ▸ fits
    exact inside.grow (grows_withCommand c op args) assembled.apart
  bitTargets := bits
  registerTargets := registers

lemma Assembled.concat (assembled : Assembled early c parts) (fits : p.Fits c)
    (commands : p.commands = [⟨op, args⟩]) (bits : ((parts ++ [p]).flatMap Part.bitTargets).Nodup)
    (registers : ((parts ++ [p]).flatMap Part.registerTargets).Nodup) :
    Assembled early (c.withCommand op args) (parts ++ [p]) := by
  rw [← append_nil parts] at assembled
  exact assembled.extend fits commands bits registers

lemma Assembled.fresh_register (assembled : Assembled early c parts)
    (absent : ∀ b ∈ c.bits, b.register ≠ (register k).name) : k ∉ parts.flatMap Part.registerTargets := by
  intro mem
  obtain ⟨p, inside, own⟩ := mem_flatMap.mp mem
  have first : (register k).place 0 ∈ c.bits :=
    (assembled.fits p inside).register_inside own _ (mem_bits.mpr ⟨0, Nat.succ_pos _, rfl⟩)
  exact absent _ first rfl

lemma addConditional_eq_ok {value : Option Int} (added : c.addConditional op bits value args = .ok d) :
    ∃ n, c.Accepts (.conditional bits.length n op) (bits ++ args) ∧
    d = c.withCommand (.conditional bits.length n op) (bits ++ args) ∧ ∀ v, value = some v → n = v.toNat := by
  unfold addConditional conditionOp at added
  cases value with
  | none =>
    obtain ⟨accepted, same⟩ := addOp_eq_ok added
    exact ⟨_, accepted, same, by simp⟩
  | some v =>
    by_cases negative : v < 0
    · simp [negative, bind, Except.bind] at added
    · simp only [negative, if_false] at added
      obtain ⟨accepted, same⟩ := addOp_eq_ok added
      exact ⟨_, accepted, same, by simp⟩

lemma addRange_eq_ok {lower upper : Int} (added : c.addRange lower upper bits b = .ok d) :
    ∃ l u, c.Accepts (.range l u bits.length) (bits ++ [b]) ∧
    d = c.withCommand (.range l u bits.length) (bits ++ [b]) := by
  unfold addRange at added
  split at added
  · exact ⟨_, _, addOp_eq_ok added⟩
  · cases added

variable {exp : Term} {outs : List UnitId}

lemma addExpression_eq_ok (fresh : ∀ u ∈ outs, u ∉ expressionInputs exp) (added : c.addExpression exp outs = .ok d) :
    c.Accepts (Part.boxCommand exp outs).op (Part.boxCommand exp outs).args ∧
    d = c.withCommand (Part.boxCommand exp outs).op (Part.boxCommand exp outs).args := by
  have all : outs.filter (fun u => u ∉ expressionInputs exp) = outs := by simpa [filter_eq_self] using fresh
  unfold addExpression at added
  simp only [all, Nat.sub_self, Nat.sub_zero] at added
  exact addOp_eq_ok added

lemma kindOf?_of_box (accepted : c.Accepts (Part.boxCommand exp outs).op (Part.boxCommand exp outs).args)
    {u : UnitId} (mem : u ∈ expressionInputs exp ++ outs) : c.kindOf? u = some .bit := by
  obtain ⟨e, inside, known⟩ := accepted.wire mem
  rcases mem_append.mp inside with read | written
  · rw [eq_of_mem_replicate read] at known
    exact known
  · rw [eq_of_mem_replicate written] at known
    exact known

end

end Decompose

end CircuitWorks
