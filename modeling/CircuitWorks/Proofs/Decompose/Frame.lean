import CircuitWorks.Proofs.Decompose.Keeping
import CircuitWorks.Proofs.Qasm.Faithful

/-!
What decomposition leaves alone.
-/

namespace CircuitWorks.Decompose

open List Circuit Scratch Logic

def isExpression : Op → Bool
  | .classicalExp .. => true
  | _ => false

def target? (cmd : Command) : Option UnitId :=
  match cmd.op with
  | .classicalExp _ _ _ (.bit _) | .range .. => cmd.args.getLast?
  | _ => none

/-- The command writes no bit of the user's in place of a scratch bit, and it does not box a bit. -/
def IsTidy (cmd : Command) : Prop :=
  (∀ b, target? cmd = some b → isUserBit b = false) ∧
    ∀ inputs both outputs v, cmd.op ≠ .classicalExp inputs both outputs (.bit (.var v))

/-- What becomes of a command that stands after others. -/
inductive Becomes (tidy : Prop) (earlier : List Command) : Command → List Command → Prop
  | box {inputs both outputs : Nat} {exp : Logic.Term} {args : List UnitId} {code : List Command}
      (logic : ∀ cmd ∈ code, cmd.op.isLogic = true) :
      Becomes tidy earlier ⟨.classicalExp inputs both outputs exp, args⟩ code
  | range {lower upper count : Nat} {args found : List UnitId}
      (user : List.Forall₂ (fun u v => isUserBit u = true → v = u) args found) :
      Becomes tidy earlier ⟨.range lower upper count, args⟩ [⟨.range lower upper count, found⟩]
  | condition {value : Nat} {op : Op} {b v : UnitId} {args : List UnitId}
      (written : ∃ cmd ∈ earlier, target? cmd = some b)
      (scratch : tidy → isUserBit b = false ∧ isUserBit v = false) :
      Becomes tidy earlier ⟨.conditional 1 value op, b :: args⟩ [⟨.conditional 1 value op, v :: args⟩]
  | same {cmd : Command} (proper : isExpression cmd.op = false) : Becomes tidy earlier cmd [cmd]

variable {b : UnitId} {commands : List Command}

section

def Lends (c : Circuit) (tidy : Prop) (b : UnitId) : Prop := isUserBit b = true → b ∈ c.bits ∧ ¬tidy

/-- A state in which the bits of the user's are those of the circuit. -/
structure Framed (c : Circuit) (tidy : Prop) (s : State) : Prop where
  user : s.circuit.bits.filter isUserBit = c.bits.filter isUserBit
  bits : Pool.Within (Lends c tidy) s.bits
  registers : Pool.Within (fun r => ¬IsUserRegister r) s.registers

/-- Logic commands are added, perhaps with scratch bits, and no result moves. -/
structure Computes (s t : State) (code : List Command) : Prop where
  circuit : t.circuit =
    { s.circuit with bits := t.circuit.bits, commands := s.circuit.commands ++ code }
  rest : t = { s with circuit := t.circuit, bits := t.bits, registers := t.registers }
  logic : ∀ cmd ∈ code, cmd.op.isLogic = true

variable {c : Circuit} {tidy : Prop} {s t u : State}

lemma computes_pools (s : State) (bits : BitPool) (registers : RegisterPool) :
    Computes s { s with bits := bits, registers := registers } [] where
  circuit := by cases s.circuit; simp
  rest := rfl
  logic := by simp

lemma Computes.trans {first second : List Command} (before : Computes s t first)
    (after : Computes t u second) : Computes s u (first ++ second) where
  circuit := by rw [after.circuit, before.circuit]; simp
  rest := by rw [after.rest, before.rest]
  logic cmd mem := (mem_append.mp mem).elim (before.logic cmd) (after.logic cmd)

lemma Framed.mem_bits (framed : Framed c tidy s) (user : isUserBit b = true) : b ∈ s.circuit.bits ↔ b ∈ c.bits := by
  have same : b ∈ s.circuit.bits.filter isUserBit ↔ b ∈ c.bits.filter isUserBit := by rw [framed.user]
  simpa [user] using same

lemma ensureBit_present {d e : Circuit} (mem : b ∈ d.bits) (ensured : d.ensureBit b = .ok e) : e = d := by
  cases kind : d.kindOf? b with
  | none => exact absurd mem (kindOf?_eq_none.mp kind).2
  | some k =>
    rw [ensureBit, ensureUnit, kind] at ensured
    dsimp only at ensured
    split_ifs at ensured
    exact (Except.ok.inj ensured).symm

lemma Framed.ensureBit (framed : Framed c tidy s) (known : isUserBit b = true → b ∈ c.bits) {d : Circuit}
    (ensured : s.circuit.ensureBit b = .ok d) :
    Framed c tidy { s with circuit := d } ∧ d = { s.circuit with bits := d.bits } := by
  cases user : isUserBit b with
  | true =>
    obtain rfl := ensureBit_present ((framed.mem_bits user).mpr (known user)) ensured
    exact ⟨{ framed with }, (Gains.refl _).rest⟩
  | false =>
    have gains := gains_ensureBit ensured
    have same := gains.others isUserBit fun v mem => mem_singleton.mp mem ▸ user
    exact ⟨{ framed with user := same.trans framed.user }, gains.rest⟩

/-- Steps that keep to the frame and compute. -/
def computation (c : Circuit) (tidy : Prop) : Discipline where
  Inv := Framed c tidy
  Reach s t := Framed c tidy t ∧ ∃ code, Computes s t code
  inv reach := reach.1
  refl framed := ⟨framed, [], computes_pools _ _ _⟩
  trans first second := by
    obtain ⟨_, _, before⟩ := first
    obtain ⟨framed, _, after⟩ := second
    exact ⟨framed, _, before.trans after⟩

lemma spares_computation (c : Circuit) (tidy : Prop) : (computation c tidy).Spares (Lends c tidy) where
  own k user := by
    rw [isUserBit_bit] at user
    cases user
  bits := Framed.bits
  registers := Framed.registers
  pools framed bits registers := ⟨⟨framed.user, bits, registers⟩, [], computes_pools _ _ _⟩
  ensure framed lends ensured := by
    obtain ⟨last, same⟩ := Framed.ensureBit framed (fun user => (lends user).1) ensured
    refine ⟨last, [], ?_, rfl, by simp⟩
    rw [append_nil]
    exact same
  ensureAll framed scratch ensured := by
    have gains := gains_ensureBits ensured
    have same := gains.others isUserBit scratch
    refine ⟨⟨same.trans framed.user, framed.bits, framed.registers⟩, [], ?_, rfl, by simp⟩
    rw [append_nil]
    exact gains.rest
  logic args framed logic := by
    refine ⟨⟨framed.user, framed.bits, framed.registers⟩, _, rfl, rfl, fun cmd mem => ?_⟩
    exact mem_singleton.mp mem ▸ logic

end

section

/-- A state between commands: the circuit so far has the units and the name of the whole, and results
have moved from bits that earlier commands write. -/
structure Tracks (c : Circuit) (tidy : Prop) (earlier : List Command) (s : State) : Prop where
  framed : Framed c tidy s
  name : s.circuit.name = c.name
  phase : s.circuit.phase = 0
  qubits : s.circuit.qubits = c.qubits
  moves : ∀ move ∈ s.movedBits, (∃ cmd ∈ earlier, target? cmd = some move.1) ∧
    (tidy → isUserBit move.1 = false ∧ isUserBit move.2 = false)
  modified : s.modified = earlier.any fun cmd => isExpression cmd.op

variable {c : Circuit} {tidy : Prop} {earlier : List Command} {s t : State} {cmd : Command}
  {op : Op} {args : List UnitId} {signature : List EdgeType}

lemma Tracks.next (tracks : Tracks c tidy earlier s) (framed : Framed c tidy t) (code : List Command)
    (circuit : t.circuit = { s.circuit with bits := t.circuit.bits, commands := s.circuit.commands ++ code })
    (moves : ∀ move ∈ t.movedBits, move ∈ s.movedBits ∨ target? cmd = some move.1 ∧
    (tidy → isUserBit move.1 = false ∧ isUserBit move.2 = false))
    (modified : t.modified = (s.modified || isExpression cmd.op)) : Tracks c tidy (earlier ++ [cmd]) t where
  framed := framed
  name := by rw [circuit, tracks.name]
  phase := by rw [circuit, tracks.phase]
  qubits := by rw [circuit, tracks.qubits]
  moves move mem := by
    rcases moves move mem with old | ⟨own, scratch⟩
    · obtain ⟨⟨other, inside, written⟩, scratch⟩ := tracks.moves move old
      exact ⟨⟨other, mem_append_left _ inside, written⟩, scratch⟩
    · exact ⟨⟨cmd, by simp, own⟩, scratch⟩
  modified := by simp [modified, tracks.modified]

lemma Tracks.withCommand (tracks : Tracks c tidy earlier s) (proper : isExpression cmd.op = false)
    (op : Op) (args : List UnitId) :
    Tracks c tidy (earlier ++ [cmd]) { s with circuit := s.circuit.withCommand op args } :=
  tracks.next { tracks.framed with } [⟨op, args⟩] rfl (fun _ mem => .inl mem) (by simp [proper])

lemma mem_bits_of_target (accepts : c.Accepts op args) (target : target? ⟨op, args⟩ = some b) : b ∈ c.bits := by
  have inside (classical : ∀ e ∈ op.signature args.length, e.kind = .bit)
      (last : args.getLast? = some b) : b ∈ c.bits := by
    obtain ⟨e, own, known⟩ := accepts.wire (mem_of_getLast? last)
    rw [classical e own] at known
    exact (kindOf?_eq_bit.mp known).2
  unfold target? at target
  split at target
  · rename_i inputs both outputs e shape
    obtain rfl : op = .classicalExp inputs both outputs (.bit e) := shape
    refine inside ?_ target
    intro e mem
    rcases mem_append.mp mem with read | written
    · rw [eq_of_mem_replicate read]
      rfl
    · rw [eq_of_mem_replicate written]
      rfl
  · rename_i lower upper count shape
    obtain rfl : op = .range lower upper count := shape
    refine inside ?_ target
    intro e mem
    rcases mem_append.mp mem with read | written
    · rw [eq_of_mem_replicate read]
      rfl
    · rw [mem_singleton.mp written]
      rfl
  · cases target

def Advances (c : Circuit) (tidy : Prop) (earlier : List Command) (cmd : Command) (s t : State) : Prop :=
  Tracks c tidy (earlier ++ [cmd]) t ∧
    ∃ code, Becomes tidy earlier cmd code ∧ t.circuit.commands = s.circuit.commands ++ code

lemma advances_box {inputs both outputs : Nat} {exp : Logic.Term}
    (tracks : Tracks c tidy earlier s) (accepts : c.Accepts (.classicalExp inputs both outputs exp) args)
    (neat : tidy → IsTidy ⟨.classicalExp inputs both outputs exp, args⟩) (done : box outputs exp args s = .ok ((), t)) :
    Advances c tidy earlier ⟨.classicalExp inputs both outputs exp, args⟩ s t := by
  obtain ⟨u, rfl, boxed⟩ := box_eq_ok done
  have carry {v : State} {code : List Command} (computes : Computes s v code) (framed : Framed c tidy u)
      (circuit : u.circuit = v.circuit)
      (moves : ∀ move ∈ u.movedBits, move ∈ v.movedBits ∨
        target? ⟨.classicalExp inputs both outputs exp, args⟩ = some move.1 ∧
          (tidy → isUserBit move.1 = false ∧ isUserBit move.2 = false)) :
      Advances c tidy earlier ⟨.classicalExp inputs both outputs exp, args⟩ s
        { u with modified := true } := by
    have same : v.movedBits = s.movedBits := by rw [computes.rest]
    refine ⟨tracks.next { framed with } code ?_ (same ▸ moves) (by simp [isExpression]), code, .box computes.logic, ?_⟩
    · exact circuit ▸ computes.circuit
    · exact congrArg commands (circuit.trans computes.circuit)
  rcases boxed with ⟨e, target, rfl, last, boxed⟩ | ⟨e, target, rfl, found, boxed⟩
  · have lends : Lends c tidy target := by
      intro user
      refine ⟨mem_bits_of_target accepts last, fun own => ?_⟩
      rw [(neat own).1 target last] at user
      cases user
    obtain ⟨v, out, ⟨framed, code, computes⟩, found, rfl⟩ :=
      (spares_computation c tidy).boxOfBits_eq_ok tracks.framed lends boxed
    refine carry computes { framed with } rfl ?_
    intro move mem
    rcases mem_moved mem with rfl | old
    · refine .inr ⟨last, fun own => ⟨(neat own).1 target last, ?_⟩⟩
      rcases found with rfl | lent
      · exact absurd rfl ((neat own).2 _ _ _ out)
      · by_contra user
        exact (lent (Bool.not_eq_false _ ▸ user)).2 own
    · exact .inl old
  · have scratch := not_isUserRegister (registerOf?_startsWith found)
    obtain ⟨v, out, ⟨framed, code, computes⟩, rfl⟩ :=
      (spares_computation c tidy).boxOfRegisters_eq_ok tracks.framed scratch boxed
    exact carry computes { framed with } rfl fun _ mem => .inl mem

lemma moveBit_eq_ok {source target : Register}
    (scratch : source.name.startsWith registerBase = true) {found : List UnitId}
    (read : args.mapM (moveBit source target) = .ok found) :
    List.Forall₂ (fun u v => isUserBit u = true → v = u) args found := by
  induction args generalizing found with
  | nil =>
    cases read
    exact .nil
  | cons u rest ih =>
    rw [mapM_cons] at read
    obtain ⟨v, first, read⟩ := bind_eq_ok.mp read
    obtain ⟨more, later, same⟩ := bind_eq_ok.mp read
    cases same
    refine .cons ?_ (ih later)
    intro user
    have other : u.register ≠ source.name := by
      intro same
      rw [isUserBit, same, startsWith_bitName scratch] at user
      cases user
    rw [moveBit, if_neg other] at first
    exact (Except.ok.inj first).symm

lemma advances_range {lower upper count : Nat} (tracks : Tracks c tidy earlier s)
    (accepts : c.Accepts (.range lower upper count) args) (neat : tidy → IsTidy ⟨.range lower upper count, args⟩)
    (done : range (.range lower upper count) args s = .ok ((), t)) :
    Advances c tidy earlier ⟨.range lower upper count, args⟩ s t := by
  cases last : args.getLast? with
  | none =>
    unfold range at done
    simp only [last] at done
    cases done
  | some b =>
    unfold range at done
    simp only [last] at done
    obtain ⟨_, one, made, done⟩ := bind_run_eq_ok.mp done
    obtain ⟨d, ensured, rfl⟩ := liftCircuit_eq_ok.mp made
    obtain ⟨framed, same⟩ := tracks.framed.ensureBit
      (fun _ => mem_bits_of_target accepts last) ensured
    obtain ⟨_, _, ⟨⟩, done⟩ := bind_run_eq_ok.mp done
    have circuit (found : List UnitId) : d.withCommand (.range lower upper count) found =
        { s.circuit with
          bits := d.bits
          commands := s.circuit.commands ++ [⟨.range lower upper count, found⟩] } := by
      rw [same]
      rfl
    have commands (found : List UnitId) : (d.withCommand (.range lower upper count) found).commands =
        s.circuit.commands ++ [⟨.range lower upper count, found⟩] := by
      rw [circuit]
    rcases registers : (registerOf? args).bind fun r =>
      (s.movedRegisters.lookup r).map fun new => (r, new) with _ | ⟨source, new⟩
    · simp only [registers] at done
      obtain ⟨f, added, rfl⟩ := liftCircuit_eq_ok.mp done
      obtain ⟨_, rfl⟩ := addOp_eq_ok added
      exact ⟨tracks.next { framed with } [⟨_, args⟩] (circuit args) (fun _ mem => .inl mem)
        (Bool.or_false _).symm, _, .same rfl, commands args⟩
    · simp only [registers] at done
      cases read : args.mapM (moveBit source new) with
      | error e =>
        simp only [read] at done
        cases done
      | ok found =>
        simp only [read] at done
        obtain ⟨_, _, ⟨⟩, done⟩ := bind_run_eq_ok.mp done
        obtain ⟨f, added, rfl⟩ := liftCircuit_eq_ok.mp done
        obtain ⟨_, rfl⟩ := addOp_eq_ok added
        have scratch : source.name.startsWith registerBase = true := by
          obtain ⟨r, own, entry⟩ := Option.bind_eq_some_iff.mp registers
          obtain ⟨_, _, pair⟩ := Option.map_eq_some_iff.mp entry
          cases pair
          exact registerOf?_startsWith own
        refine ⟨tracks.next { framed with } [⟨_, found⟩] (circuit found) ?_
          (Bool.or_false _).symm, _, .range (moveBit_eq_ok scratch read), commands found⟩
        intro move mem
        rcases mem_moved mem with rfl | old
        · exact .inr ⟨last, fun own => ⟨(neat own).1 b last, (neat own).1 b last⟩⟩
        · exact .inl old

lemma advances_conditional {width value : Nat} (tracks : Tracks c tidy earlier s)
    (accepts : c.Accepts (.conditional width value op) args) (done : conditional width value op args s = .ok ((), t)) :
    Advances c tidy earlier ⟨.conditional width value op, args⟩ s t := by
  have direct (kept : liftCircuit (fun d => d.addOp (.conditional width value op) args) s =
      .ok ((), t)) : Advances c tidy earlier ⟨.conditional width value op, args⟩ s t := by
    obtain ⟨d, added, rfl⟩ := liftCircuit_eq_ok.mp kept
    obtain ⟨_, rfl⟩ := addOp_eq_ok added
    exact ⟨tracks.withCommand rfl _ _, _, .same rfl, rfl⟩
  obtain ⟨_, _, ⟨⟩, done⟩ := bind_run_eq_ok.mp done
  rcases shape : args.take width with _ | ⟨b, _ | ⟨b', rest⟩⟩
  · rw [shape] at done
    exact direct done
  · rw [shape] at done
    cases found : s.movedBits.lookup b with
    | none =>
      simp only [found] at done
      exact direct done
    | some v =>
      simp only [found] at done
      split at done
      · cases done
      · obtain ⟨_, _, ⟨⟩, done⟩ := bind_run_eq_ok.mp done
        obtain ⟨d, added, rfl⟩ := liftCircuit_eq_ok.mp done
        obtain ⟨n, accepted, rfl, number⟩ := addConditional_eq_ok added
        obtain ⟨written, scratch⟩ := tracks.moves _ (mem_of_lookup found)
        have lends : Lends c tidy v := by
          intro user
          have inside : v ∈ s.circuit.bits :=
            (kindOf?_eq_bit.mp (accepted.kinds (v, .boolean) (by simp [Op.signature]))).2
          refine ⟨(tracks.framed.mem_bits user).mp inside, fun own => ?_⟩
          rw [(scratch own).2] at user
          cases user
        have framed : Framed c tidy { s with bits := s.bits.push v } :=
          { tracks.framed with bits := tracks.framed.bits.push lends _ }
        obtain rfl : width = 1 := by
          have arity := accepts.arity
          have taken := congrArg List.length shape
          simp only [Op.signature, length_append, length_replicate] at arity
          simp only [length_take, length_singleton] at taken
          omega
        obtain rfl : n = value := number _ rfl
        have whole : args = b :: args.drop 1 := by rw [← singleton_append, ← shape, take_append_drop]
        refine ⟨tracks.next { framed with } [⟨.conditional 1 n op, v :: args.drop 1⟩] rfl
          (fun _ mem => .inl mem) (Bool.or_false _).symm, _, ?_, rfl⟩
        rw [whole]
        exact .condition written scratch
  · rw [shape] at done
    exact direct done

lemma barrier_signature (accepts : c.Accepts (.barrier signature) args) (unread : .boolean ∉ signature) :
    signature = args.map fun u => if u ∈ c.qubits then .quantum else .classical := by
  have arity : args.length = signature.length := accepts.arity
  apply ext_getElem
  · rw [length_map, arity]
  · intro i inside outside
    rw [getElem_map]
    have zipped : (args[i], signature[i]) ∈ args.zip signature := by
      have position : i < (args.zip signature).length := by
        rw [length_zip]
        omega
      rw [← getElem_zip (h := position)]
      exact getElem_mem position
    have kind := accepts.kinds _ zipped
    have mem : signature[i] ∈ signature := getElem_mem _
    cases edge : signature[i] with
    | boolean => exact absurd (edge ▸ mem) unread
    | quantum =>
      rw [edge] at kind
      rw [if_pos (kindOf?_eq_qubit.mp kind)]
    | classical =>
      rw [edge] at kind
      rw [if_neg (kindOf?_eq_bit.mp kind).1]

lemma advances_barrier (tracks : Tracks c tidy earlier s) (accepts : c.Accepts (.barrier signature) args)
    (unread : .boolean ∉ signature) (done : liftCircuit (fun d => d.addBarrier args) s = .ok ((), t)) :
    Advances c tidy earlier ⟨.barrier signature, args⟩ s t := by
  obtain ⟨d, added, rfl⟩ := liftCircuit_eq_ok.mp done
  obtain ⟨accepted, rfl⟩ := addOp_eq_ok added
  have edges : (args.map fun u => if u ∈ s.circuit.bits then EdgeType.classical else .quantum) = signature := by
    rw [barrier_signature accepts unread, barrier_signature accepted (by simp [ite_eq_iff]), tracks.qubits]
  rw [edges]
  exact ⟨tracks.withCommand rfl _ _, _, .same rfl, rfl⟩

lemma advances (tracks : Tracks c tidy earlier s) (sits : Qasm.Sits c cmd)
    (neat : tidy → IsTidy cmd) (done : command cmd s = .ok ((), t)) : Advances c tidy earlier cmd s t := by
  obtain ⟨op, args⟩ := cmd
  have plain (proper : isExpression op = false)
      (kept : liftCircuit (fun d => d.addOp op args) s = .ok ((), t)) :
      Advances c tidy earlier ⟨op, args⟩ s t := by
    obtain ⟨d, added, rfl⟩ := liftCircuit_eq_ok.mp kept
    obtain ⟨_, rfl⟩ := addOp_eq_ok added
    exact ⟨tracks.withCommand proper _ _, _, .same proper, rfl⟩
  cases op with
  | conditional width value op => exact advances_conditional tracks sits.accepts done
  | range lower upper count => exact advances_range tracks sits.accepts neat done
  | classicalExp inputs both outputs exp => exact advances_box tracks sits.accepts neat done
  | barrier signature => exact advances_barrier tracks sits.accepts (sits.barrier signature rfl) done
  | _ => exact plain rfl done

end

section

variable {c : Circuit} {s : State} {cmd : Command}

end

end CircuitWorks.Decompose
