import CircuitWorks.Proofs.Decompose.Preservation

/-!
What the steps of a decomposition leave alone.
-/

namespace CircuitWorks

variable {b target : UnitId} {r : Register} {args : List UnitId}

namespace Scratch.Pool

variable {α : Type} {P : α → Prop} {p q : Pool α} {a : α}

def Within (P : α → Prop) (p : Pool α) : Prop := ∀ a, a ∈ p.free ∨ a ∈ p.known → P a

variable [DecidableEq α]

lemma Within.use (within : Within P p) (own : P a) : Within P (p.use a) := by
  intro b mem
  rw [free_use, mem_known_use] at mem
  rcases mem with free | rfl | known
  · exact within b (.inl free)
  · exact own
  · exact within b (.inr known)

lemma Within.push (within : Within P p) (own : P a) (le : α → α → Bool) : Within P (p.push le a) := by
  intro b mem
  rw [mem_free_push] at mem
  rcases mem with (rfl | free) | known
  · exact own
  · exact within b (.inl free)
  · exact within.use own b (.inr known)

lemma Within.release (within : Within P p) (le : α → α → Bool) (a : α) : Within P (p.release le a) := by
  unfold Pool.release
  split
  · rename_i known
    exact within.push (within a (.inr (by simpa [isKnown] using known))) le
  · exact within

lemma Within.fresh (within : Within P p) {make : Except Error α} (made : ∀ a, make = .ok a → P a)
    (fresh : p.fresh make = .ok (a, q)) : P a ∧ Within P q := by
  unfold Pool.fresh at fresh
  cases free : p.free with
  | nil =>
    rw [free] at fresh
    obtain ⟨b, new, same⟩ := bind_eq_ok.mp fresh
    cases same
    exact ⟨made a new, within.use (made a new)⟩
  | cons b rest =>
    rw [free] at fresh
    cases fresh
    refine ⟨within a (.inl (by simp [free])), ?_⟩
    intro c mem
    rcases mem with later | known
    · exact within c (.inl (by simp [free, show c ∈ rest from later]))
    · exact within c (.inr known)

end Scratch.Pool

namespace Decompose

open Logic (Constant Exp BitExp RegExp)
open Scratch (Pool)

variable {f : Circuit → Except Circuit.Error Circuit} {known : List (UnitId × UnitId)} {exp : Logic.Term}
  {source : UnitId}

section

variable {α β : Type} {s t u : State}

lemma bind_run_eq_ok {f : α → Run β} {b : β} :
    (x >>= f) s = .ok (b, u) ↔ ∃ a t, x s = .ok (a, t) ∧ f a t = .ok (b, u) := by
  have split : (x >>= f) s = x s >>= fun r => f r.1 r.2 := rfl
  rw [split, bind_eq_ok, Prod.exists]

lemma liftCircuit_error (s : State) (f : Circuit → Except Circuit.Error Circuit)
    {cause : Circuit.Error} (failed : f s.circuit = .error cause) : liftCircuit f s = .error (.circuit cause) := by
  rw [liftCircuit, get_bind, failed]
  rfl

lemma liftCircuit_eq_ok :
    liftCircuit f s = .ok (a, t) ↔ ∃ c, f s.circuit = .ok c ∧ t = { s with circuit := c } := by
  cases result : f s.circuit with
  | error e =>
    rw [liftCircuit_error s f result]
    exact ⟨nofun, nofun⟩
  | ok c =>
    rw [liftCircuit_ok s f result]
    constructor
    · rintro ⟨⟩
      exact ⟨c, rfl, rfl⟩
    · rintro ⟨_, ⟨⟩, rfl⟩
      rfl

lemma not_isUserRegister (scratch : r.name.startsWith Scratch.registerBase = true) : ¬IsUserRegister r := by
  rw [IsUserRegister, startsWith_bitName scratch]
  simp

end

/-- What steps keep to: an invariant of the states, and how a state is reached from another. -/
structure Discipline where
  Inv : State → Prop
  Reach : State → State → Prop
  inv : ∀ {s t}, Reach s t → Inv t
  refl : ∀ {s}, Inv s → Reach s s
  trans : ∀ {s t u}, Reach s t → Reach t u → Reach s u

namespace Discipline

/-- The steps keep to the discipline, and their result has a property. -/
def Keeps {α : Type} (D : Discipline) (P : α → Prop) (x : Run α) : Prop :=
  ∀ s a t, D.Inv s → x s = .ok (a, t) → D.Reach s t ∧ P a

/-- The discipline allows the steps on scratch variables, of which the bits have a property. -/
structure Spares (D : Discipline) (bit : UnitId → Prop) : Prop where
  own : ∀ k, bit (Scratch.bit k)
  bits : ∀ {s}, D.Inv s → Pool.Within bit s.bits
  registers : ∀ {s}, D.Inv s → Pool.Within (fun r => ¬IsUserRegister r) s.registers
  pools : ∀ {s bits registers}, D.Inv s → Pool.Within bit bits →
    Pool.Within (fun r => ¬IsUserRegister r) registers →
    D.Reach s { s with bits := bits, registers := registers }
  ensure : ∀ {s b d}, D.Inv s → bit b → s.circuit.ensureBit b = .ok d → D.Reach s { s with circuit := d }
  ensureAll : ∀ {s units d}, D.Inv s → (∀ u ∈ units, isUserBit u = false) →
    s.circuit.ensureBits units = .ok d → D.Reach s { s with circuit := d }
  logic : ∀ {s op} args, D.Inv s → op.isLogic = true →
    D.Reach s { s with circuit := s.circuit.withCommand op args }

variable {D : Discipline} {α β : Type} {P : α → Prop} {Q : β → Prop}

lemma Keeps.bind {f : α → Run β} (first : D.Keeps P x)
    (second : ∀ a, P a → D.Keeps Q (f a)) : D.Keeps Q (x >>= f) := by
  intro s b u inv done
  obtain ⟨a, t, early, late⟩ := bind_run_eq_ok.mp done
  obtain ⟨reach, own⟩ := first s a t inv early
  obtain ⟨further, result⟩ := second a own t b u (D.inv reach) late
  exact ⟨D.trans reach further, result⟩

lemma Keeps.imp (keeps : D.Keeps P x) (weaker : ∀ a, P a → P' a) : D.Keeps P' x := by
  intro s a t inv done
  exact (keeps s a t inv done).imp_right (weaker a)

lemma keeps_pure (holds : P a) : D.Keeps P (pure a : Run α) := by
  rintro s _ _ inv ⟨⟩
  exact ⟨D.refl inv, holds⟩

lemma keeps_throw (e : Error) : D.Keeps P (throw e : Run α) := nofun

lemma keeps_modify {f : State → State} (reach : ∀ s, D.Inv s → D.Reach s (f s)) :
    D.Keeps (fun _ => True) (modify f : Run Unit) := by
  rintro s _ _ inv ⟨⟩
  exact ⟨reach s inv, trivial⟩

lemma keeps_lift (reach : ∀ s c, D.Inv s → f s.circuit = .ok c → D.Reach s { s with circuit := c }) :
    D.Keeps (fun _ => True) (liftCircuit f) := by
  intro s a t inv done
  obtain ⟨c, added, rfl⟩ := liftCircuit_eq_ok.mp done
  exact ⟨reach s c inv added, trivial⟩

section

variable {U B V : Type} {scratch : V → Prop} {hold : Constant → Run V} {combine : B → V → V → Run V}

lemma keeps_settle (holds : ∀ c, D.Keeps scratch (hold c)) (a : Operand V) :
    D.Keeps (fun _ => True) (a.settle hold) := by
  cases a with
  | value c => exact (holds c).imp fun _ _ => trivial
  | held v => exact keeps_pure trivial

lemma keeps_walk (holds : ∀ c, D.Keeps scratch (hold c))
    (combines : ∀ op a b, D.Keeps scratch (combine op a b)) (e : Exp U B V) :
    D.Keeps (fun a => ∀ w, a = .held w → e = .var w ∨ scratch w) (walk hold combine e) := by
  induction e with
  | const c => exact keeps_pure nofun
  | var v =>
    refine keeps_pure ?_
    rintro _ ⟨⟩
    exact .inl rfl
  | unary op x ih =>
    refine ih.bind fun a _ => (keeps_settle holds a).bind fun _ _ => ?_
    exact keeps_throw _
  | binary op x y first second =>
    refine first.bind fun a _ => second.bind fun b _ => ?_
    refine (keeps_settle holds a).bind fun u _ => (keeps_settle holds b).bind fun v _ => ?_
    refine (combines op u v).bind fun w own => keeps_pure ?_
    rintro _ ⟨⟩
    exact .inr own

lemma keeps_result (a : Operand V) : D.Keeps (fun v => a = .held v) (result a) := by
  cases a with
  | value c => exact keeps_throw _
  | held v => exact keeps_pure rfl

end

namespace Spares

variable {bit : UnitId → Prop} (spares : D.Spares bit)

include spares

lemma freshBit : D.Keeps bit freshBit := by
  intro s b t inv done
  obtain ⟨pool, found, rfl⟩ := freshBit_eq_ok.mp done
  obtain ⟨own, within⟩ := (spares.bits inv).fresh (by
    intro b new
    obtain ⟨n, _, same⟩ := bind_eq_ok.mp new
    cases same
    exact spares.own _) found
  exact ⟨spares.pools inv within (spares.registers inv), own⟩

lemma freshRegister : D.Keeps (fun r => ¬IsUserRegister r) freshRegister := by
  intro s r t inv done
  obtain ⟨pool, found, rfl⟩ := freshRegister_eq_ok.mp done
  obtain ⟨own, within⟩ := (spares.registers inv).fresh (by
    intro r new
    obtain ⟨n, _, same⟩ := bind_eq_ok.mp new
    cases same
    apply not_isUserRegister
    simp [List.append_assoc]) found
  exact ⟨spares.pools inv (spares.bits inv) within, own⟩

lemma freeBit (own : bit b) : D.Keeps (fun _ => True) (freeBit b) :=
  keeps_modify fun _ inv => spares.pools inv ((spares.bits inv).push own _) (spares.registers inv)

lemma freeRegister (scratch : ¬IsUserRegister r) : D.Keeps (fun _ => True) (freeRegister r) :=
  keeps_modify fun _ inv => spares.pools inv (spares.bits inv) ((spares.registers inv).push scratch _)

lemma releaseBit (b : UnitId) : D.Keeps (fun _ => True) (releaseBit b) :=
  keeps_modify fun _ inv => spares.pools inv ((spares.bits inv).release _ b) (spares.registers inv)

lemma releaseRegister (r : Register) : D.Keeps (fun _ => True) (releaseRegister r) :=
  keeps_modify fun _ inv => spares.pools inv (spares.bits inv) ((spares.registers inv).release _ r)

lemma ensureBit (own : bit b) : D.Keeps (fun _ => True) (liftCircuit fun c => c.ensureBit b) :=
  keeps_lift fun _ _ inv ensured => spares.ensure inv own ensured

lemma ensureBits (scratch : ¬IsUserRegister r) : D.Keeps (fun _ => True) (liftCircuit fun c => c.ensureBits r.bits) :=
  keeps_lift fun _ _ inv ensured =>
    spares.ensureAll inv (fun _ mem => isUserBit_of_mem_bits scratch mem) ensured

lemma addOp {op : Op} (logic : op.isLogic = true) (args : List UnitId) :
    D.Keeps (fun _ => True) (liftCircuit fun c => c.addOp op args) := by
  refine keeps_lift fun s c inv added => ?_
  obtain ⟨_, rfl⟩ := Circuit.addOp_eq_ok added
  exact spares.logic args inv logic

lemma holdBit (c : Constant) : D.Keeps bit (holdBit c) := by
  refine spares.freshBit.bind fun b own => (spares.ensureBit own).bind fun _ _ => ?_
  exact (spares.addOp rfl _).bind fun _ _ => keeps_pure own

lemma combineBits (op : Logic.BitBinary) (a b : UnitId) : D.Keeps bit (combineBits op a b) := by
  refine (spares.releaseBit a).bind fun _ _ => (spares.releaseBit b).bind fun _ _ => ?_
  refine spares.freshBit.bind fun out own => (spares.ensureBit own).bind fun _ _ => ?_
  cases bitOperation? op with
  | none => exact (keeps_throw (P := fun _ => False) _).bind fun _ absurd => absurd.elim
  | some o => exact (spares.addOp (Circuit.binaryForm_spec o a b out).1 _).bind fun _ _ => keeps_pure own

lemma holdRegister (c : Constant) : D.Keeps (fun r => ¬IsUserRegister r) (holdRegister c) := by
  refine spares.freshRegister.bind fun r scratch => (spares.ensureBits scratch).bind fun _ _ => ?_
  dsimp only
  split
  · exact keeps_throw _
  · split
    · exact keeps_throw _
    · have part : ¬IsUserRegister ⟨r.name, bitWidth c.toInt.toNat⟩ := scratch
      refine (spares.ensureBits part).bind fun _ _ => ?_
      exact (spares.addOp rfl _).bind fun _ _ => keeps_pure scratch

lemma combineRegisters (op : Logic.RegBinary) (a b : Register) :
    D.Keeps (fun r => ¬IsUserRegister r) (combineRegisters op a b) := by
  refine (spares.releaseRegister a).bind fun _ _ => (spares.releaseRegister b).bind fun _ _ => ?_
  refine spares.freshRegister.bind fun out scratch => (spares.ensureBits scratch).bind fun _ _ => ?_
  cases registerOperation? op with
  | none => exact (keeps_throw (P := fun _ => False) _).bind fun _ absurd => absurd.elim
  | some o =>
    have logic (n : Nat) : (Op.multiBit (Circuit.binaryForm o a b out).1 n).isLogic = true :=
      (Circuit.binaryForm_spec o a b out).1
    exact (spares.addOp (logic _) _).bind fun _ _ => keeps_pure scratch

lemma boxOfBits_eq_ok (inv : D.Inv s) (own : bit target) {e : BitExp}
    (done : boxOfBits e target s = .ok ((), t)) : ∃ u out, D.Reach s u ∧ (e = .var out ∨ bit out) ∧
    t = { u with movedBits := moved target out u.movedBits } := by
  obtain ⟨_, s₁, freed, done⟩ := bind_run_eq_ok.mp done
  obtain ⟨a, s₂, walked, done⟩ := bind_run_eq_ok.mp done
  obtain ⟨out, s₃, held, ⟨⟩⟩ := bind_run_eq_ok.mp done
  have first := (spares.freeBit own s _ s₁ inv freed).1
  obtain ⟨second, found⟩ :=
    keeps_walk spares.holdBit spares.combineBits e s₁ a s₂ (D.inv first) walked
  obtain ⟨third, same⟩ := keeps_result a s₂ out s₃ (D.inv second) held
  exact ⟨s₃, out, D.trans first (D.trans second third), found out same, rfl⟩

lemma boxOfRegisters_eq_ok (inv : D.Inv s) (scratch : ¬IsUserRegister r) {e : RegExp}
    (done : boxOfRegisters e r s = .ok ((), t)) : ∃ u out, D.Reach s u ∧
    t = { u with movedRegisters := moved r out u.movedRegisters } := by
  obtain ⟨_, s₁, freed, done⟩ := bind_run_eq_ok.mp done
  obtain ⟨a, s₂, walked, done⟩ := bind_run_eq_ok.mp done
  obtain ⟨out, s₃, held, ⟨⟩⟩ := bind_run_eq_ok.mp done
  have first := (spares.freeRegister scratch s _ s₁ inv freed).1
  have second :=
    (keeps_walk spares.holdRegister spares.combineRegisters e s₁ a s₂ (D.inv first) walked).1
  have third := (keeps_result a s₂ out s₃ (D.inv second) held).1
  exact ⟨s₃, out, D.trans first (D.trans second third), rfl⟩

end Spares

end Discipline

/-- Pools and moves that hold scratch variables only. -/
structure Clean (s : State) : Prop where
  bits : Pool.Within (fun b => isUserBit b = false) s.bits
  registers : Pool.Within (fun r => ¬IsUserRegister r) s.registers
  moves : ∀ move ∈ s.movedBits, isUserBit move.2 = false

structure Reaches (s t : State) : Prop where
  circuit : Continues s.circuit t.circuit
  modified : s.modified = true → t.modified = true
  clean : Clean t

lemma Reaches.trans (first : Reaches s t) (second : Reaches t u) : Reaches s u where
  circuit := first.circuit.trans second.circuit
  modified set := second.modified (first.modified set)
  clean := second.clean

def steadiness : Discipline where
  Inv := Clean
  Reach := Reaches
  inv := Reaches.clean
  refl clean := ⟨Continues.refl _, id, clean⟩
  trans := Reaches.trans

/-- The steps go on from every clean state, and their result has a property. -/
abbrev Steady {α : Type} (P : α → Prop) (x : Run α) : Prop := steadiness.Keeps P x

lemma steady_lift (continues : ∀ c d, f c = .ok d → Continues c d) : Steady (fun _ => True) (liftCircuit f) :=
  Discipline.keeps_lift fun _ _ clean added => ⟨continues _ _ added, id, { clean with }⟩

lemma steady_addOp (op : Op) (args : List UnitId) : Steady (fun _ => True) (liftCircuit fun c => c.addOp op args) :=
  steady_lift fun _ _ added => continues_addOp added

lemma spares_steadiness : steadiness.Spares fun b => isUserBit b = false where
  own := isUserBit_bit
  bits := Clean.bits
  registers := Clean.registers
  pools clean bits registers := ⟨Continues.refl _, id, ⟨bits, registers, clean.moves⟩⟩
  ensure clean scratch ensured := ⟨(gains_ensureBit ensured).continues fun _ mem =>
    List.mem_singleton.mp mem ▸ scratch, id, { clean with }⟩
  ensureAll clean scratch ensured := ⟨(gains_ensureBits ensured).continues scratch, id, { clean with }⟩
  logic args clean _ := ⟨continues_withCommand _ _ args, id, { clean with }⟩

section

open Discipline

lemma mem_moved {move : UnitId × UnitId} (mem : move ∈ moved source target known) :
    move = (source, target) ∨ move ∈ known := by
  rcases List.mem_cons.mp mem with same | old
  · exact .inl same
  · exact .inr (List.mem_of_mem_filter old)

lemma mem_of_lookup (found : known.lookup source = some target) : (source, target) ∈ known := by
  obtain ⟨before, after, rfl, _⟩ := List.lookup_eq_some_iff.mp found
  simp

lemma Clean.move (clean : Clean s) (source : UnitId) (scratch : isUserBit target = false) :
    Clean { s with movedBits := moved source target s.movedBits } := by
  refine { clean with moves := fun move mem => ?_ }
  rcases mem_moved mem with rfl | old
  · exact scratch
  · exact clean.moves move old

lemma registerOf?_startsWith (found : Scratch.registerOf? args = some r) :
    r.name.startsWith Scratch.registerBase = true := by
  obtain ⟨b, first, rfl⟩ := Option.map_eq_some_iff.mp found
  simpa using List.find?_some first

lemma box_eq_ok {outputs : Nat} {a : Unit} (done : box outputs exp args s = .ok (a, t)) :
    ∃ u, t = { u with modified := true } ∧
    ((∃ e target, exp = .bit e ∧ args.getLast? = some target ∧ boxOfBits e target s = .ok ((), u)) ∨
    ∃ e target, exp = .reg e ∧ Scratch.registerOf? args = some target ∧
    boxOfRegisters e target s = .ok ((), u)) := by
  have ends {x : Run Unit}
      (whole : (x >>= fun _ => modify fun u : State => { u with modified := true }) s = .ok (a, t)) :
      ∃ u, t = { u with modified := true } ∧ x s = .ok ((), u) := by
    obtain ⟨_, u, boxed, ⟨⟩⟩ := bind_run_eq_ok.mp whole
    exact ⟨u, rfl, boxed⟩
  unfold box at done
  by_cases single : outputs = 1
  · simp only [if_pos single] at done
    cases last : args.getLast? with
    | none =>
      simp only [last] at done
      cases done
    | some target =>
      cases exp with
      | bit e =>
        simp only [last] at done
        obtain ⟨u, rfl, boxed⟩ := ends done
        exact ⟨u, rfl, .inl ⟨e, target, rfl, rfl, boxed⟩⟩
      | _ => cases done
  · simp only [if_neg single] at done
    cases found : Scratch.registerOf? args with
    | none =>
      cases exp with
      | reg e =>
        simp only [found] at done
        cases done
      | _ =>
        simp only [found] at done
        obtain ⟨_, _, ⟨⟩, failed⟩ := bind_run_eq_ok.mp done
        cases failed
    | some target =>
      cases exp with
      | reg e =>
        simp only [found] at done
        obtain ⟨u, rfl, boxed⟩ := ends done
        exact ⟨u, rfl, .inr ⟨e, target, rfl, rfl, boxed⟩⟩
      | _ =>
        simp only [found] at done
        cases done

lemma steady_box {inputs both outputs : Nat} (regular : Regular ⟨.classicalExp inputs both outputs exp, args⟩) :
    Steady (fun _ => True) (box outputs exp args) := by
  intro s a t clean done
  obtain ⟨u, rfl, boxed⟩ := box_eq_ok done
  have reaches : Reaches s u := by
    rcases boxed with ⟨e, target, rfl, last, boxed⟩ | ⟨e, target, rfl, found, boxed⟩
    · obtain ⟨proper, _, k, own⟩ := regular
      obtain rfl : target = Scratch.bit k := Option.some.inj (last.symm.trans own)
      obtain ⟨v, out, reaches, source, rfl⟩ :=
        spares_steadiness.boxOfBits_eq_ok clean (isUserBit_bit k) boxed
      have held : isUserBit out = false := source.resolve_left (proper out)
      exact ⟨reaches.circuit, reaches.modified, reaches.clean.move _ held⟩
    · have scratch := not_isUserRegister (registerOf?_startsWith found)
      obtain ⟨v, out, reaches, rfl⟩ := spares_steadiness.boxOfRegisters_eq_ok clean scratch boxed
      exact ⟨reaches.circuit, reaches.modified, { reaches.clean with }⟩
  exact ⟨⟨reaches.circuit, fun _ => rfl, { reaches.clean with }⟩, trivial⟩

lemma steady_get : Steady Clean (get : Run State) := by
  rintro s _ _ clean ⟨⟩
  exact ⟨steadiness.refl clean, clean⟩

lemma steady_range {op : Op} (last : args.getLast? = some b)
    (scratch : isUserBit b = false) : Steady (fun _ => True) (range op args) := by
  unfold range
  simp only [last]
  refine (spares_steadiness.ensureBit scratch).bind fun _ _ => steady_get.bind fun known _ => ?_
  split
  · exact steady_addOp op args
  · split
    · exact keeps_throw _
    · refine Keeps.bind (keeps_modify fun s clean => ?_) fun _ _ => steady_addOp op _
      exact ⟨Continues.refl _, id, Clean.move clean b scratch⟩

lemma steady_conditional (width value : Nat) (op : Op) (args : List UnitId) :
    Steady (fun _ => True) (conditional width value op args) := by
  refine steady_get.bind fun s clean => ?_
  have direct := steady_addOp (.conditional width value op) args
  rcases shape : args.take width with _ | ⟨b, _ | ⟨b', rest⟩⟩
  · exact direct
  · cases found : s.movedBits.lookup b with
    | none =>
      simp only [found]
      exact direct
    | some new =>
      have scratch : isUserBit new = false := clean.moves _ (mem_of_lookup found)
      simp only [found]
      split
      · exact keeps_throw _
      · refine (spares_steadiness.freeBit scratch).bind fun _ _ => steady_lift fun _ _ added => ?_
        obtain ⟨n, _, rfl, _⟩ := addConditional_eq_ok added
        exact continues_withCommand _ _ _
  · exact direct

lemma steady_command {cmd : Command} (regular : Regular cmd) : Steady (fun _ => True) (command cmd) := by
  obtain ⟨op, args⟩ := cmd
  cases op with
  | gate type params => exact steady_addOp _ args
  | conditional width value op => exact steady_conditional width value op args
  | range lower upper count =>
    obtain ⟨k, last⟩ := regular
    exact steady_range last (isUserBit_bit k)
  | classicalExp inputs both outputs exp => exact steady_box regular
  | _ => exact regular.elim

lemma steady_commands {commands : List Command} (regular : ∀ cmd ∈ commands, Regular cmd) :
    Steady (fun _ => True) (commands.forM command) := by
  induction commands with
  | nil => exact keeps_pure trivial
  | cons cmd rest ih =>
    have later := ih fun other mem => regular other (.tail _ mem)
    exact (steady_command (regular cmd (by simp))).bind fun _ _ => later

end

end Decompose

end CircuitWorks

namespace CircuitWorks.Decompose

open List Condition

def keep (c : Circuit) (cmd : Command) : Except Circuit.Error Circuit :=
  match cmd.op, cmd.args.getLast? with
  | .range .., some target => do (← c.ensureBit target).addOp cmd.op cmd.args
  | _, _ => c.addOp cmd.op cmd.args

/-- Commands are added as they are, with scratch bits that they use. -/
structure Kept (c : Circuit) (added : List Command) (d : Circuit) : Prop where
  qubits : d.qubits = c.qubits
  commands : d.commands = c.commands ++ added
  kinds : KindsApart c → KindsApart d
  bits : ∀ b ∈ d.bits, b ∈ c.bits ∨ ∃ cmd ∈ added, b ∈ cmd.args ∧ ∃ k, b = Scratch.bit k

section

variable {cmd : Command} {commands : List Command}

lemma liftCircuit_bind
    (later : ∀ c, f s.circuit = .ok c → x { s with circuit := c } = liftCircuit g { s with circuit := c }) :
    (liftCircuit f >>= fun _ => x) s = liftCircuit (fun c => f c >>= g) s := by
  cases first : f s.circuit with
  | error e =>
    rw [bind_error (liftCircuit_error s f first), liftCircuit_error s]
    rw [first]
    rfl
  | ok c =>
    rw [bind_ok (liftCircuit_ok s f first), later c first]
    cases second : g c with
    | error e =>
      rw [liftCircuit_error _ g second, liftCircuit_error s]
      rw [first]
      exact second
    | ok d =>
      rw [liftCircuit_ok _ g second, liftCircuit_ok s]
      rw [first]
      exact second

lemma command_eq_keep (regular : Regular cmd) (plain : cmd.op.isBox = false)
    (bits : s.movedBits = []) (registers : s.movedRegisters = []) : command cmd s = liftCircuit (keep · cmd) s := by
  obtain ⟨op, args⟩ := cmd
  cases op with
  | gate type params => rfl
  | conditional width value op =>
    refine (bind_ok (a := s) rfl _).trans ?_
    rw [bits]
    rcases args.take width with _ | ⟨b, _ | ⟨b', rest⟩⟩
    · rfl
    · rfl
    · rfl
  | range lower upper count =>
    obtain ⟨k, last⟩ := regular
    change range (.range lower upper count) args s = _
    unfold range
    simp only [last, keep]
    apply liftCircuit_bind
    intro c _
    rw [registers]
    cases Scratch.registerOf? args with
    | none => rfl
    | some r => rfl
  | classicalExp inputs both outputs exp => cases plain
  | _ => exact regular.elim

lemma forM_command_eq (regular : ∀ cmd ∈ commands, Regular cmd)
    (plain : ∀ cmd ∈ commands, cmd.op.isBox = false) (bits : s.movedBits = []) (registers : s.movedRegisters = []) :
    commands.forM command s = liftCircuit (fun c => commands.foldlM keep c) s := by
  induction commands generalizing s with
  | nil => exact (liftCircuit_ok s _ rfl).symm
  | cons cmd rest ih =>
    have first := command_eq_keep (regular cmd (by simp)) (plain cmd (by simp)) bits registers
    calc (cmd :: rest).forM command s
        = (command cmd >>= fun _ => rest.forM command) s := rfl
      _ = (liftCircuit (keep · cmd) >>= fun _ => rest.forM command) s := by simp only [bind, StateT.bind, first]
      _ = liftCircuit (fun c => keep c cmd >>= fun d => rest.foldlM keep d) s := by
          apply liftCircuit_bind
          intro c _
          exact ih (fun other mem => regular other (.tail _ mem))
            (fun other mem => plain other (.tail _ mem)) bits registers

lemma Kept.trans {more : List Command} (first : Kept c commands d) (second : Kept d more e) :
    Kept c (commands ++ more) e where
  qubits := second.qubits.trans first.qubits
  commands := by rw [second.commands, first.commands, append_assoc]
  kinds apart := second.kinds (first.kinds apart)
  bits b mem := by
    rcases second.bits b mem with early | ⟨cmd, inside, own⟩
    · rcases first.bits b early with old | ⟨cmd, inside, own⟩
      · exact .inl old
      · exact .inr ⟨cmd, mem_append_left _ inside, own⟩
    · exact .inr ⟨cmd, mem_append_right _ inside, own⟩

lemma kept_keep (regular : Regular cmd) (kept : keep c cmd = .ok d) : Kept c [cmd] d := by
  obtain ⟨op, args⟩ := cmd
  unfold keep at kept
  split at kept
  · rename_i lower upper count target shape last
    obtain rfl : op = .range lower upper count := shape
    obtain ⟨k, own⟩ := regular
    obtain rfl : target = Scratch.bit k := Option.some.inj (last.symm.trans own)
    obtain ⟨one, ensured, added⟩ := bind_eq_ok.mp kept
    have gains := gains_ensureBit ensured
    obtain ⟨_, rfl⟩ := Circuit.addOp_eq_ok added
    refine ⟨gains.qubits, ?_, gains.kinds, ?_⟩
    · simp only [Circuit.withCommand, gains.commands]
    · intro b mem
      rcases (gains.bits b).mp mem with new | old
      · obtain rfl := mem_singleton.mp new
        exact .inr ⟨_, by simp, mem_of_getLast? last, k, rfl⟩
      · exact .inl old
  · obtain ⟨_, rfl⟩ := Circuit.addOp_eq_ok kept
    exact ⟨rfl, rfl, id, fun b mem => .inl mem⟩

lemma kept_foldlM (regular : ∀ cmd ∈ commands, Regular cmd)
    (kept : commands.foldlM keep c = .ok d) : Kept c commands d := by
  induction commands generalizing c with
  | nil =>
    obtain rfl : c = d := Except.ok.inj kept
    exact ⟨rfl, (append_nil _).symm, id, fun b mem => .inl mem⟩
  | cons cmd rest ih =>
    obtain ⟨one, first, later⟩ := bind_eq_ok.mp kept
    have more := ih (fun other mem => regular other (.tail _ mem)) later
    exact (kept_keep (regular cmd (by simp)) first).trans more

end

section

variable {modified : Bool}

lemma clean_startOf (c : Circuit) : Clean (startOf c) := by
  obtain ⟨freeBits, freeRegisters, bits, registers⟩ := poolsOf_spec c
  refine ⟨?_, ?_, by simp [startOf]⟩
  · rintro b (free | known)
    · exact absurd free (by simp [startOf, freeBits])
    · have name := ((bits b).mp known).2
      by_contra user
      exact register_ne_of_isUserBit (Bool.not_eq_false _ ▸ user) name
  · rintro r (free | known)
    · exact absurd free (by simp [startOf, freeRegisters])
    · obtain ⟨b, _, base, rfl⟩ := (registers r).mp known
      exact not_isUserRegister base

lemma Continues.startOf (continues : Continues c d) : (startOf d).circuit = (startOf c).circuit := by
  simp only [Decompose.startOf, continues.name, continues.qubits, continues.user]

lemma startOf_startOf (c : Circuit) : (startOf (startOf c).circuit).circuit = (startOf c).circuit := by
  simp [startOf]

lemma forM_append (early late : List Command) : (early ++ late).forM command =
    early.forM command >>= fun _ => late.forM command :=
  List.forM_append

lemma circuit_eq_ok : circuit c = .ok (d, modified) ↔
    ∃ t, c.commands.forM command (startOf c) = .ok ((), t) ∧ t.circuit = d ∧ t.modified = modified := by
  rw [circuit_eq]
  cases c.commands.forM command (startOf c) with
  | error e => exact ⟨nofun, nofun⟩
  | ok r =>
    constructor
    · rintro ⟨⟩
      exact ⟨r.2, rfl, rfl, rfl⟩
    · rintro ⟨_, ⟨⟩, rfl, rfl⟩
      rfl

lemma circuit_ok_iff : (∃ r, circuit c = .ok r) ↔ ∃ r, c.commands.forM command (startOf c) = .ok r := by
  constructor
  · rintro ⟨⟨d, modified⟩, result⟩
    obtain ⟨t, done, _⟩ := circuit_eq_ok.mp result
    exact ⟨_, done⟩
  · rintro ⟨⟨_, t⟩, done⟩
    exact ⟨_, circuit_eq_ok.mpr ⟨t, done, rfl, rfl⟩⟩

lemma circuit_continues (laid : Laid c) (result : circuit c = .ok (d, modified)) :
    Continues (startOf c).circuit d := by
  obtain ⟨t, done, rfl, _⟩ := circuit_eq_ok.mp result
  exact (steady_commands laid.regular _ _ t (clean_startOf c) done).1.circuit

lemma circuit_plain (regular : ∀ cmd ∈ c.commands, Regular cmd)
    (plain : ∀ cmd ∈ c.commands, cmd.op.isBox = false) : circuit c = .ok (d, modified) ↔
    c.commands.foldlM keep (startOf c).circuit = .ok d ∧ modified = false := by
  rw [circuit_eq_ok, forM_command_eq regular plain rfl rfl]
  constructor
  · rintro ⟨t, done, rfl, rfl⟩
    obtain ⟨d, kept, rfl⟩ := liftCircuit_eq_ok.mp done
    exact ⟨kept, rfl⟩
  · rintro ⟨kept, rfl⟩
    exact ⟨_, liftCircuit_eq_ok.mpr ⟨d, kept, rfl⟩, rfl, rfl⟩

end

section

variable {condition : Logic.Term → Prop} {registers : Prop} {parts : List Part}
  {early : List Command}

lemma Continued.imp {other : Logic.Term → Prop} (weaker : ∀ exp, condition exp → other exp)
    (continued : Continued condition d e) : Continued other d e := by
  induction continued with
  | refl => exact .refl
  | gate before type params args request own bits allowed ih =>
    exact ih.gate type params args request own bits fun exp mem => weaker exp (allowed exp mem)

lemma Continued.assembled (adds : ∀ {parts : List Part} {c : Circuit} {exp : Logic.Term}, Assembled early c parts →
    condition exp → Offers early registers parts c (Condition.add exp))
    (assembled : Assembled early d parts) (regs : BoxOnlyIf registers parts)
    (continued : Continued condition d e) : ∃ more, Assembled early e more ∧ BoxOnlyIf registers more := by
  induction continued with
  | refl => exact ⟨parts, assembled, regs⟩
  | gate before type params args request own bits allowed ih =>
    obtain ⟨more, assembled, regs⟩ := ih
    exact assembled.addGate type params args request own bits
      (fun exp mem => adds assembled (allowed exp mem)) regs

/-- Conditions on bits or registers of which every operation can be replaced. -/
def IsCondition (exp : Logic.Term) : Prop := IsBitCondition exp ∨ IsRegisterCondition exp

lemma IsCondition.user {exp : Logic.Term} (allowed : IsCondition exp) : IsUserCondition exp := by
  rcases allowed with bits | registers
  · unfold IsBitCondition at bits
    split at bits
    · intro b mem
      exact bits.1.vars b (by simpa [Logic.Exp.vars] using mem)
    · exact bits.vars
    · exact bits.elim
  · unfold IsRegisterCondition at registers
    split at registers
    · obtain ⟨_, size, _, tree⟩ := registers
      intro r mem
      exact (tree.vars r (by simpa [Logic.Exp.vars] using mem)).1
    · exact registers.elim

lemma tidy_of_wellNamed (named : WellNamed b) (scratch : isUserBit b = false) : b.index.length = 1 := by
  rcases named with user | ⟨k, rfl⟩ | ⟨k, i, rfl⟩
  · rw [user] at scratch
    cases scratch
  · rfl
  · rfl

lemma Assembled.isSingleBox_iff (assembled : Assembled early c parts) :
    (∃ cmd ∈ parts.flatMap Part.commands, IsSingleBox cmd) ↔ ∃ p ∈ parts, p.IsSingle := by
  constructor
  · rintro ⟨cmd, mem, box⟩
    obtain ⟨p, inside, own⟩ := mem_flatMap.mp mem
    exact ⟨p, inside, (assembled.fits p inside).isSingle_iff.mpr ⟨cmd, own, box⟩⟩
  · rintro ⟨p, inside, single⟩
    obtain ⟨cmd, own, box⟩ := (assembled.fits p inside).isSingle_iff.mp single
    exact ⟨cmd, mem_flatMap.mpr ⟨p, inside, own⟩, box⟩

/-- The commands of parts are replaced from every state in which the parts stand, but for the value of
a register expression over single bits, which has no place to go. -/
lemma Assembled.replaced_iff (assembled : Assembled early c parts) (quiet : Quiet c)
    (standing : Standing c parts s) : (∃ r, (parts.flatMap Part.commands).forM command s = .ok r) ↔
    ¬∃ cmd ∈ parts.flatMap Part.commands, IsSingleBox cmd := by
  rw [assembled.isSingleBox_iff]
  constructor
  · rintro ⟨r, done⟩ single
    rw [parts_fail assembled.apart parts assembled.fits (fun _ _ _ => quiet) single assembled.bitTargets
      assembled.registerTargets standing] at done
    cases done
  · intro several
    obtain ⟨t, code, replaced⟩ := parts_replaced assembled.apart parts [] assembled.fits
      (fun _ _ _ => quiet) (fun p mem single => several ⟨p, mem, single⟩)
      (by simpa using assembled.bitTargets) (by simpa using assembled.registerTargets)
      (by simpa using standing)
    exact ⟨_, replaced.result⟩

lemma circuit_further (regular : ∀ cmd ∈ d.commands, Regular cmd) (plain : ∀ cmd ∈ d.commands, cmd.op.isBox = false)
    (kept : d.commands.foldlM keep (startOf d).circuit = .ok d) (apart : KindsApart d)
    (named : ∀ b ∈ d.bits, WellNamed b) (quiet : Quiet d) (continued : Continued IsCondition d e) :
    (∃ r, circuit e = .ok r) ↔ ∀ cmd ∈ e.commands, ¬IsSingleBox cmd := by
  have start : Assembled d.commands d [] := ⟨apart, named, by simp, by simp, by simp, by simp⟩
  have made : ∃ parts, Assembled d.commands e parts ∧ BoxOnlyIf True parts := by
    refine continued.assembled ?_ start fun _ _ _ => trivial
    intro parts c exp assembled allowed
    rcases allowed with bits | registers
    · exact add_bit_leads assembled bits
    · exact add_register_leads assembled registers trivial
  obtain ⟨parts, assembled, _⟩ := made
  have continues : Continues d e := (continued.imp fun _ => IsCondition.user).continues
  have quietMore : Quiet e := by
    intro q mem
    exact quiet q (continues.qubits ▸ mem)
  -- the commands of the circuit are kept first, which leaves the circuit itself
  have first : d.commands.forM command (startOf e) = .ok ((), { startOf e with circuit := d }) := by
    rw [forM_command_eq regular plain rfl rfl]
    apply liftCircuit_ok
    rw [continues.startOf]
    exact kept
  have hosts : Hosts e d := by
    refine ⟨continues.qubits.symm, ?_, fun b mem => tidy_of_wellNamed (named b mem)⟩
    intro b mem user
    have inside : b ∈ e.bits.filter isUserBit := mem_filter.mpr ⟨mem, user⟩
    rw [continues.user] at inside
    exact mem_of_mem_filter inside
  have standing : Standing e parts { startOf e with circuit := d } :=
    { assembled.standing with hosts := hosts }
  rw [circuit_ok_iff, assembled.commands, forM_append, bind_ok first, assembled.replaced_iff quietMore standing]
  constructor
  · intro several cmd mem box
    rcases mem_append.mp mem with old | new
    · obtain ⟨_, _, _, shape⟩ := box
      have boxed := plain cmd old
      rw [shape] at boxed
      cases boxed
    · exact several ⟨cmd, new, box⟩
  · rintro several ⟨cmd, mem, box⟩
    exact several cmd (mem_append_right _ mem) box

end

end CircuitWorks.Decompose
