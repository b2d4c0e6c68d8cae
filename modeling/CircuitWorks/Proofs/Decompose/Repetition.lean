import CircuitWorks.Proofs.Decompose.Keeping

namespace CircuitWorks

open List Circuit Scratch Condition Logic Pool

variable {op : Op} {args : List UnitId} {modified : Bool}

lemma Circuit.checkArgs_missing {c : Circuit} {before : List UnitId}
    {wires : List (UnitId × EdgeType)} (once : (written wires).Nodup)
    (unwritten : ∀ u ∈ written wires, u ∉ before) (missing : ∃ w ∈ wires, c.kindOf? w.1 = none) :
    ∃ w ∈ wires, c.kindOf? w.1 = none ∧ c.checkArgs before wires = .error (.missingUnit w.1) := by
  induction wires generalizing before with
  | nil =>
    obtain ⟨_, mem, _⟩ := missing
    cases mem
  | cons w rest ih =>
    obtain ⟨u, e⟩ := w
    have open_ : ¬(e ≠ .boolean ∧ u ∈ before) := by
      rintro ⟨write, used⟩
      exact unwritten u (by simp [written, write]) used
    rw [checkArgs, if_neg open_]
    cases present : c.kindOf? u with
    | none => exact ⟨(u, e), by simp, present, by simp⟩
    | some kind =>
      have later : ∃ w ∈ rest, c.kindOf? w.1 = none := by
        obtain ⟨w, mem, unknown⟩ := missing
        rcases mem_cons.mp mem with rfl | inside
        · rw [present] at unknown
          cases unknown
        · exact ⟨w, inside, unknown⟩
      by_cases read : e = .boolean
      · have same : written ((u, e) :: rest) = written rest := by simp [written, read]
        rw [same] at once unwritten
        rw [if_pos read]
        obtain ⟨w, mem, unknown, failed⟩ := ih once unwritten later
        exact ⟨w, .tail _ mem, unknown, failed⟩
      · have more : written ((u, e) :: rest) = u :: written rest := by simp [written, read]
        rw [more] at once unwritten
        rw [if_neg read]
        have fresh : ∀ v ∈ written rest, v ∉ u :: before := by
          intro v inside used
          rcases mem_cons.mp used with rfl | old
          · exact (nodup_cons.mp once).1 inside
          · exact unwritten v (.tail _ inside) old
        obtain ⟨w, mem, unknown, failed⟩ := ih (nodup_cons.mp once).2 fresh later
        exact ⟨w, .tail _ mem, unknown, failed⟩

lemma Circuit.Accepts.addOp_missing {c d : Circuit} (accepted : c.Accepts op args)
    (missing : ∃ u ∈ args, d.kindOf? u = none) :
    ∃ u ∈ args, d.kindOf? u = none ∧ d.addOp op args = .error (.missingUnit u) := by
  have wires : ∃ w ∈ args.zip (op.signature args.length), d.kindOf? w.1 = none := by
    obtain ⟨u, mem, unknown⟩ := missing
    have zipped : u ∈ (args.zip (op.signature args.length)).map Prod.fst := by
      rw [map_fst_zip (Nat.le_of_eq accepted.arity)]
      exact mem
    obtain ⟨w, inside, rfl⟩ := mem_map.mp zipped
    exact ⟨w, inside, unknown⟩
  have unwritten : ∀ u ∈ written (args.zip (op.signature args.length)), u ∉ ([] : List UnitId) :=
    fun _ _ => not_mem_nil
  obtain ⟨w, mem, unknown, failed⟩ := checkArgs_missing accepted.once unwritten wires
  refine ⟨w.1, (of_mem_zip mem).1, unknown, ?_⟩
  have arity := accepted.arity
  simp [Circuit.addOp, checkOp, accepted.nonempty, ← arity, failed, bind, Except.bind]

lemma Circuit.addRegisterBinary_spec {c d : Circuit} {op : BitOperation} {out : Register}
    (added : c.addRegisterBinary op a b out = .ok d) : ∃ form args, form.isLogic = true ∧
    out.place 0 ∈ args ∧ c.addOp form args = .ok d := by
  have form := binaryForm_spec op a b out
  refine ⟨_, _, ?_, ?_, added⟩
  · exact form.1
  · -- a command without arguments would have been refused
    have some := (addOp_eq_ok added).1.nonempty
    obtain ⟨u, mem⟩ := exists_mem_of_ne_nil _ some
    obtain ⟨i, inside, _⟩ := mem_flatMap.mp mem
    refine mem_flatMap.mpr ⟨0, ?_, mem_map.mpr ⟨out, form.2, rfl⟩⟩
    exact mem_range.mpr (Nat.zero_lt_of_lt (mem_range.mp inside))

namespace Decompose

/-- The first command that is added is a logic operation on the bit, which was made for it. -/
def Opens (b : UnitId) (c d : Circuit) : Prop :=
  ∃ host op args, Continues c host ∧ host.commands = c.commands ∧ host.kindOf? b = some .bit ∧
    op.isLogic = true ∧ host.Accepts op args ∧ b ∈ args ∧ Continues (host.withCommand op args) d

lemma Opens.trans (opens : Opens b c d) (continues : Continues d e) : Opens b c e := by
  obtain ⟨host, op, args, same, cmds, known, logic, accepted, mem, further⟩ := opens
  exact ⟨host, op, args, same, cmds, known, logic, accepted, mem, further.trans continues⟩

lemma opens_addOp {units : List UnitId} (gains : Gains c units d)
    (scratch : ∀ u ∈ units, isUserBit u = false) (own : b ∈ units) (logic : op.isLogic = true)
    (used : b ∈ args) (added : d.addOp op args = .ok e) : Opens b c e := by
  obtain ⟨accepted, rfl⟩ := addOp_eq_ok added
  exact ⟨d, op, args, gains.continues scratch, gains.commands, gains.kindOf? own, logic, accepted,
    used, Continues.refl _⟩

lemma freshBit_ready (ready : s.bits.free = [b]) (fresh : freshBit s = .ok (v, t)) :
    v = b ∧ t.circuit = s.circuit := by
  obtain ⟨pool, found, rfl⟩ := freshBit_eq_ok.mp fresh
  rw [BitPool.fresh, Pool.fresh, ready] at found
  cases found
  exact ⟨rfl, rfl⟩

lemma bind_lift_eq_ok {a : α} :
    (liftCircuit f >>= fun _ => x) s = .ok (a, t) ↔
    ∃ c, f s.circuit = .ok c ∧ x { s with circuit := c } = .ok (a, t) := by
  rw [bind_run_eq_ok]
  constructor
  · rintro ⟨_, _, first, later⟩
    obtain ⟨c, lifted, rfl⟩ := liftCircuit_eq_ok.mp first
    exact ⟨c, lifted, later⟩
  · rintro ⟨c, lifted, later⟩
    exact ⟨(), _, liftCircuit_eq_ok.mpr ⟨c, lifted, rfl⟩, later⟩

lemma holdBit_opens (ready : s.bits.free = [b]) (scratch : isUserBit b = false)
    (done : holdBit k s = .ok (v, t)) : Opens b s.circuit t.circuit := by
  obtain ⟨out, u, fresh, later⟩ := bind_run_eq_ok.mp done
  obtain ⟨rfl, same⟩ := freshBit_ready ready fresh
  obtain ⟨one, ensured, last⟩ := bind_lift_eq_ok.mp later
  obtain ⟨two, added, ⟨⟩⟩ := bind_lift_eq_ok.mp last
  rw [same] at ensured
  exact opens_addOp (gains_ensureBit ensured)
    (fun u mem => mem_singleton.mp mem ▸ scratch) (by simp) rfl (by simp) added

lemma release_user [DecidableEq α] (within : Pool.Within P p)
    (own : ¬P a) (le : α → α → Bool) : p.release le a = p := by
  have unknown : p.isKnown a = false := by
    simp only [isKnown, decide_eq_false_iff_not]
    exact fun known => own (within a (.inr known))
  rw [release, unknown]
  rfl

lemma combineBits_opens (clean : Clean s) (ready : s.bits.free = [b])
    (scratch : isUserBit b = false) {op : Logic.BitBinary}
    (first : isUserBit x = true) (second : isUserBit y = true)
    (done : combineBits op x y s = .ok (v, t)) : Opens b s.circuit t.circuit := by
  have unreleased (z : UnitId) (user : isUserBit z = true) : releaseBit z s = .ok ((), s) := by
    have kept : s.bits.release z = s.bits := release_user clean.bits (by simp [user]) _
    change Except.ok ((), { s with bits := s.bits.release z }) = _
    rw [kept]
  unfold combineBits at done
  rw [bind_ok (unreleased x first), bind_ok (unreleased y second)] at done
  obtain ⟨out, u, fresh, later⟩ := bind_run_eq_ok.mp done
  obtain ⟨rfl, same⟩ := freshBit_ready ready fresh
  obtain ⟨one, ensured, last⟩ := bind_lift_eq_ok.mp later
  rw [same] at ensured
  cases operation : bitOperation? op with
  | none =>
    rw [operation] at last
    cases last
  | some o =>
    simp only [operation] at last
    obtain ⟨two, added, ⟨⟩⟩ := bind_lift_eq_ok.mp last
    have form := binaryForm_spec o x y v
    exact opens_addOp (gains_ensureBit ensured)
      (fun u mem => mem_singleton.mp mem ▸ scratch) (by simp) form.1 form.2 added

lemma freshRegister_ready (ready : s.registers.free = [r])
    (fresh : freshRegister s = .ok (v, t)) : v = r ∧ t.circuit = s.circuit := by
  obtain ⟨pool, found, rfl⟩ := freshRegister_eq_ok.mp fresh
  rw [RegisterPool.fresh, Pool.fresh, ready] at found
  cases found
  exact ⟨rfl, rfl⟩

lemma holdRegister_opens (ready : s.registers.free = [r]) (scratch : ¬IsUserRegister r)
    (done : holdRegister k s = .ok (v, t)) : Opens (r.place 0) s.circuit t.circuit := by
  obtain ⟨out, u, fresh, later⟩ := bind_run_eq_ok.mp done
  obtain ⟨rfl, same⟩ := freshRegister_ready ready fresh
  obtain ⟨one, ensured, last⟩ := bind_lift_eq_ok.mp later
  rw [same] at ensured
  dsimp only at last
  split at last
  · cases last
  · split at last
    · cases last
    · obtain ⟨two, more, last⟩ := bind_lift_eq_ok.mp last
      obtain ⟨three, added, ⟨⟩⟩ := bind_lift_eq_ok.mp last
      let part : Register := ⟨v.name, bitWidth k.toInt.toNat⟩
      have gains : Gains s.circuit (v.bits ++ part.bits) two :=
        (gains_ensureBits ensured).trans (gains_ensureBits more)
      have first : v.place 0 ∈ part.bits := mem_bits.mpr ⟨0, bitWidth_pos _, rfl⟩
      refine opens_addOp gains ?_ (mem_append_right _ first) rfl first added
      intro u mem
      rcases mem_append.mp mem with whole | lower
      · exact isUserBit_of_mem_bits scratch whole
      · exact isUserBit_of_mem_bits (r := part) scratch lower

lemma combineRegisters_opens (clean : Clean s) (ready : s.registers.free = [r])
    (scratch : ¬IsUserRegister r) (size : 0 < r.size) {op : Logic.RegBinary} {x y v : Register}
    (first : IsUserRegister x) (second : IsUserRegister y)
    (done : combineRegisters op x y s = .ok (v, t)) : Opens (r.place 0) s.circuit t.circuit := by
  have unreleased (z : Register) (user : IsUserRegister z) : releaseRegister z s = .ok ((), s) := by
    have kept : s.registers.release z = s.registers := release_user clean.registers (not_not.mpr user) _
    change Except.ok ((), { s with registers := s.registers.release z }) = _
    rw [kept]
  unfold combineRegisters at done
  rw [bind_ok (unreleased x first), bind_ok (unreleased y second)] at done
  obtain ⟨out, u, fresh, later⟩ := bind_run_eq_ok.mp done
  obtain ⟨rfl, same⟩ := freshRegister_ready ready fresh
  obtain ⟨one, ensured, last⟩ := bind_lift_eq_ok.mp later
  rw [same] at ensured
  cases operation : registerOperation? op with
  | none =>
    rw [operation] at last
    cases last
  | some o =>
    simp only [operation] at last
    obtain ⟨two, added, ⟨⟩⟩ := bind_lift_eq_ok.mp last
    obtain ⟨form, args, logic, used, added⟩ := addRegisterBinary_spec added
    exact opens_addOp (gains_ensureBits ensured)
      (fun u mem => isUserBit_of_mem_bits scratch mem) (mem_bits.mpr ⟨0, size, rfl⟩) logic used
      added

/-- Boxes that read variables of the user's only: nothing is added unless the expression has
operations, and then the first command is on the variable that is free. -/
lemma walk_opens {hold : Constant → Run V} {combine : B → V → V → Run V}
    {scratch user : V → Prop} (holds : ∀ c, Steady scratch (hold c))
    (combines : ∀ op a b, Steady scratch (combine op a b)) (clean : Clean s)
    (held : ∀ k v t, hold k s = .ok (v, t) → Opens b s.circuit t.circuit)
    (combined : ∀ op x y v t, user x → user y → combine op x y s = .ok (v, t) → Opens b s.circuit t.circuit)
    {e : Exp U B V} (own : ∀ v ∈ e.vars, user v) {a : Operand V} (done : walk hold combine e s = .ok (a, t)) :
    t = s ∧ ((∃ k, a = .value k) ∨ ∃ v, a = .held v ∧ e = .var v) ∨ Opens b s.circuit t.circuit := by
  induction e generalizing t a with
  | const k =>
    cases done
    exact .inl ⟨rfl, .inl ⟨k, rfl⟩⟩
  | var v =>
    cases done
    exact .inl ⟨rfl, .inr ⟨v, rfl, rfl⟩⟩
  | unary op x ih =>
    obtain ⟨_, _, _, later⟩ := bind_run_eq_ok.mp done
    obtain ⟨_, _, _, failed⟩ := bind_run_eq_ok.mp later
    cases failed
  | binary op x y first second =>
    obtain ⟨p, s₁, left, later⟩ := bind_run_eq_ok.mp done
    obtain ⟨q, s₂, right, later⟩ := bind_run_eq_ok.mp later
    obtain ⟨u, s₃, settled, later⟩ := bind_run_eq_ok.mp later
    obtain ⟨v, s₄, settled', later⟩ := bind_run_eq_ok.mp later
    obtain ⟨w, s₅, last, ⟨⟩⟩ := bind_run_eq_ok.mp later
    have toLeft := (Discipline.keeps_walk holds combines x s p s₁ clean left).1
    have toRight := (Discipline.keeps_walk holds combines y s₁ q s₂ toLeft.clean right).1
    have toFirst := (Discipline.keeps_settle holds p s₂ u s₃ toRight.clean settled).1
    have toSecond := (Discipline.keeps_settle holds q s₃ v s₄ toFirst.clean settled').1
    have toEnd := (combines op u v s₄ w t toSecond.clean last).1
    have ownLeft : ∀ v ∈ x.vars, user v := fun v mem => own v (mem_append_left _ mem)
    have ownRight : ∀ v ∈ y.vars, user v := fun v mem => own v (mem_append_right _ mem)
    rcases first ownLeft left with ⟨rfl, leftLeaf⟩ | opens
    · rcases second ownRight right with ⟨rfl, rightLeaf⟩ | opens
      · rcases leftLeaf with ⟨k, rfl⟩ | ⟨x, rfl, rfl⟩
        · exact .inr ((held k u s₃ settled).trans (toSecond.trans toEnd).circuit)
        · cases settled
          rcases rightLeaf with ⟨k, rfl⟩ | ⟨y, rfl, rfl⟩
          · exact .inr ((held k v s₄ settled').trans toEnd.circuit)
          · cases settled'
            exact .inr (combined op _ _ w t (ownLeft _ (by simp [Exp.vars]))
              (ownRight _ (by simp [Exp.vars])) last)
      · exact .inr (opens.trans ((toFirst.trans toSecond).trans toEnd).circuit)
    · exact .inr (opens.trans (((toRight.trans toFirst).trans toSecond).trans toEnd).circuit)

lemma result_opens {U B : Type} {e : Exp U B V} (proper : ∀ v, e ≠ .var v)
    (done : result a u = .ok (v, t))
    (walked : u = s ∧ ((∃ k, a = .value k) ∨ ∃ v, a = .held v ∧ e = .var v) ∨
    Opens b s.circuit u.circuit) : Opens b s.circuit t.circuit := by
  rcases walked with ⟨_, ⟨k, rfl⟩ | ⟨v, _, same⟩⟩ | opens
  · cases done
  · exact absurd same (proper v)
  · cases a with
    | value k => cases done
    | held w =>
      cases done
      exact opens

lemma boxOfBits_opens {e : BitExp} (proper : ∀ v, e ≠ .var v)
    (user : ∀ v ∈ e.vars, isUserBit v = true) (scratch : isUserBit b = false) (clean : Clean s)
    (free : s.bits.free = []) (done : boxOfBits e b s = .ok ((), t)) : Opens b s.circuit t.circuit := by
  obtain ⟨_, one, freed, later⟩ := bind_run_eq_ok.mp done
  have cleanOne := (spares_steadiness.freeBit scratch s _ one clean freed).1.clean
  have ready : one.circuit = s.circuit ∧ one.bits.free = [b] := by
    cases freed
    refine ⟨rfl, ?_⟩
    change insertBy UnitId.le b s.bits.free = [b]
    rw [free]
    rfl
  obtain ⟨a, two, walked, later⟩ := bind_run_eq_ok.mp later
  obtain ⟨out, three, found, ⟨⟩⟩ := bind_run_eq_ok.mp later
  have opens : Opens b one.circuit three.circuit :=
    result_opens proper found (walk_opens spares_steadiness.holdBit spares_steadiness.combineBits cleanOne
      (fun k v t held => holdBit_opens ready.2 scratch held)
      (fun op x y v t first second => combineBits_opens cleanOne ready.2 scratch first second)
      user walked)
  exact ready.1 ▸ opens

lemma boxOfRegisters_opens {e : RegExp} (proper : ∀ v, e ≠ .var v)
    (user : ∀ v ∈ e.vars, IsUserRegister v) (scratch : ¬IsUserRegister r)
    (size : 0 < r.size) (clean : Clean s) (free : s.registers.free = [])
    (done : boxOfRegisters e r s = .ok ((), t)) : Opens (r.place 0) s.circuit t.circuit := by
  obtain ⟨_, one, freed, later⟩ := bind_run_eq_ok.mp done
  have cleanOne := (spares_steadiness.freeRegister scratch s _ one clean freed).1.clean
  have ready : one.circuit = s.circuit ∧ one.registers.free = [r] := by
    cases freed
    refine ⟨rfl, ?_⟩
    change insertBy Register.le r s.registers.free = [r]
    rw [free]
    rfl
  obtain ⟨a, two, walked, later⟩ := bind_run_eq_ok.mp later
  obtain ⟨out, three, found, ⟨⟩⟩ := bind_run_eq_ok.mp later
  have opens : Opens (r.place 0) one.circuit three.circuit :=
    result_opens proper found (walk_opens spares_steadiness.holdRegister spares_steadiness.combineRegisters cleanOne
      (fun k v t held => holdRegister_opens ready.2 scratch held)
      (fun op x y v t first second => combineRegisters_opens cleanOne ready.2 scratch size first second)
      user walked)
  exact ready.1 ▸ opens

/-- The first box is replaced by commands of which the first needs a scratch bit: the target of the
box, or one of a scratch register. -/
lemma command_opens {cmd : Command} (regular : Regular cmd) (boxed : cmd.op.isBox = true)
    (clean : Clean s) (bits : s.bits.free = []) (registers : s.registers.free = [])
    (done : command cmd s = .ok ((), t)) : t.modified = true ∧ ∃ b, isUserBit b = false ∧
    (∀ k, b = bit k → ∀ x, Unshared x cmd → b ∉ x.args) ∧ Opens b s.circuit t.circuit := by
  obtain ⟨op, args⟩ := cmd
  cases op with
  | classicalExp inputs both outputs exp =>
    obtain ⟨u, rfl, replaced⟩ := box_eq_ok done
    refine ⟨rfl, ?_⟩
    rcases replaced with ⟨e, b, rfl, last, replaced⟩ | ⟨e, r, rfl, found, replaced⟩
    · obtain ⟨proper, user, k, own⟩ := regular
      obtain rfl : b = bit k := Option.some.inj (last.symm.trans own)
      have scratch := isUserBit_bit k
      have opens := boxOfBits_opens proper user scratch clean bits replaced
      exact ⟨bit k, scratch, fun _ _ x unshared => unshared _ last, opens⟩
    · obtain ⟨proper, user⟩ := regular
      have base := registerOf?_startsWith found
      have scratch := not_isUserRegister base
      have size : 0 < r.size := by
        obtain ⟨b, _, rfl⟩ := Option.map_eq_some_iff.mp found
        exact Nat.succ_pos 31
      have opens := boxOfRegisters_opens proper user scratch size clean registers replaced
      refine ⟨r.place 0, ?_, ?_, opens⟩
      · exact isUserBit_of_mem_bits scratch (mem_bits.mpr ⟨0, size, rfl⟩)
      · intro k same
        have named : r.name = bitName := congrArg UnitId.register same
        rw [named, bitName_startsWith] at base
        cases base
  | conditional width value op =>
    have plain : op.isBox = false := regular
    rw [Op.isBox, plain] at boxed
    cases boxed
  | gate _ _ => cases boxed
  | range _ _ _ => cases boxed
  | _ => exact regular.elim

lemma boxFree_or_first (commands : List Command) : (∀ cmd ∈ commands, cmd.op.isBox = false) ∨
    ∃ early box late, commands = early ++ box :: late ∧ (∀ cmd ∈ early, cmd.op.isBox = false) ∧
    box.op.isBox = true := by
  cases found : commands.find? (·.op.isBox) with
  | none =>
    have plain := find?_eq_none.mp found
    exact .inl fun cmd mem => by simpa using plain cmd mem
  | some box =>
    obtain ⟨boxed, early, late, split, plain⟩ := find?_eq_some_iff_append.mp found
    exact .inr ⟨early, box, late, split, fun cmd mem => by simpa using plain cmd mem, boxed⟩

lemma command_logic (logic : op.isLogic = true) (args : List UnitId) :
    command ⟨op, args⟩ = liftCircuit fun c => c.addOp op args := by
  cases op with
  | setBits _ => rfl
  | predicate _ => rfl
  | modifier _ => rfl
  | multiBit _ _ => rfl
  | _ => cases logic

lemma isUserBit_of_missing {kind : UnitKind} (continues : Continues c d)
    (missing : c.kindOf? u = none) (known : d.kindOf? u = some kind) : isUserBit u = false := by
  obtain ⟨noQubit, noBit⟩ := kindOf?_eq_none.mp missing
  cases kind with
  | qubit => exact absurd (continues.qubits ▸ kindOf?_eq_qubit.mp known) noQubit
  | bit =>
    by_contra user
    have inside : u ∈ d.bits.filter isUserBit :=
      mem_filter.mpr ⟨(kindOf?_eq_bit.mp known).2, by simpa using user⟩
    rw [continues.user] at inside
    exact noBit (mem_of_mem_filter inside)

lemma circuit_again_fails {early : List Command} (regular : ∀ cmd ∈ early, Regular cmd)
    (plain : ∀ cmd ∈ early, cmd.op.isBox = false)
    (kept : early.foldlM keep (startOf e).circuit = .ok c) (missing : c.kindOf? b = none)
    (opens : Opens b c d) (commands : c.commands = early) (continues : Continues d e) :
    ∃ b, isUserBit b = false ∧ circuit e = .error (.circuit (.missingUnit b)) := by
  obtain ⟨host, op, args, goesOn, same, known, logic, accepted, mem, further⟩ := opens
  obtain ⟨u, own, unknown, refused⟩ := accepted.addOp_missing ⟨b, mem, missing⟩
  obtain ⟨wire, _, found⟩ := accepted.wire own
  refine ⟨u, isUserBit_of_missing goesOn unknown found, ?_⟩
  obtain ⟨rest, whole⟩ := further.commands.trans continues.commands
  have split : e.commands = early ++ ⟨op, args⟩ :: rest := by
    rw [← whole, withCommand, same, commands]
    simp
  have first : early.forM command (startOf e) = .ok ((), { startOf e with circuit := c }) := by
    rw [forM_command_eq regular plain rfl rfl]
    exact liftCircuit_ok _ _ kept
  have failed : e.commands.forM command (startOf e) = .error (.circuit (.missingUnit u)) := by
    rw [split, forM_append, bind_ok first]
    change (command ⟨op, args⟩ >>= fun _ => rest.forM command) _ = _
    rw [command_logic logic]
    exact bind_error (liftCircuit_error _ _ refused) _
  rw [circuit_eq, failed]
  rfl

lemma circuit_boxed (laid : Laid c) {early late : List Command} {box : Command}
    (commands : c.commands = early ++ box :: late) (plain : ∀ cmd ∈ early, cmd.op.isBox = false)
    (boxed : box.op.isBox = true) (result : circuit c = .ok (d, modified)) : modified = true ∧ ∀ e, Continues d e →
    ∃ b, isUserBit b = false ∧ circuit e = .error (.circuit (.missingUnit b)) := by
  have goesOn := circuit_continues laid result
  obtain ⟨t, done, rfl, rfl⟩ := circuit_eq_ok.mp result
  have regular : ∀ cmd ∈ early ++ box :: late, Regular cmd := commands ▸ laid.regular
  have regularEarly : ∀ cmd ∈ early, Regular cmd := fun cmd mem =>
    regular cmd (mem_append_left _ mem)
  have regularLate : ∀ cmd ∈ late, Regular cmd := fun cmd mem =>
    regular cmd (mem_append_right _ (.tail _ mem))
  have unshared : ∀ cmd ∈ early, Unshared cmd box := by
    have pairs := laid.unshared
    rw [commands] at pairs
    exact fun cmd mem => (pairwise_append.mp pairs).2.2 cmd mem box (by simp)
  rw [commands, forM_append] at done
  obtain ⟨_, s₁, first, done⟩ := bind_run_eq_ok.mp done
  obtain ⟨_, s₂, second, third⟩ := bind_run_eq_ok.mp done
  have cleanFirst := (steady_commands regularEarly _ _ s₁ (clean_startOf c) first).1.clean
  rw [forM_command_eq regularEarly plain rfl rfl] at first
  obtain ⟨p, kept, rfl⟩ := liftCircuit_eq_ok.mp first
  have early' := kept_foldlM regularEarly kept
  have pools := poolsOf_spec c
  obtain ⟨marked, b, scratch, unused, opens⟩ := command_opens (regular box (by simp)) boxed cleanFirst
    pools.1 pools.2.1 second
  have toBox := (steady_command (regular box (by simp)) _ _ s₂ cleanFirst second).1
  have toEnd := (steady_commands regularLate s₂ _ t toBox.clean third).1
  have missing : p.kindOf? b = none := by
    obtain ⟨host, _, _, hosts, _, known, _⟩ := opens
    refine kindOf?_eq_none.mpr ⟨hosts.qubits ▸ (kindOf?_eq_bit.mp known).1, ?_⟩
    intro inside
    rcases early'.bits b inside with user | ⟨cmd, mem, used, k, name⟩
    · rw [(mem_filter.mp user).2] at scratch
      cases scratch
    · exact unused k name cmd (unshared cmd mem) used
  refine ⟨toEnd.modified marked, fun e continues => ?_⟩
  have again : early.foldlM keep (startOf e).circuit = .ok p := by
    rw [(goesOn.trans continues).startOf, startOf_startOf]
    exact kept
  exact circuit_again_fails regularEarly plain again missing (opens.trans toEnd.circuit)
    early'.commands continues

/-- A circuit without boxes is left as it is by decomposition, and so is what it leaves; further gates
are then decomposed like any others. -/
lemma circuit_unmodified (laid : Laid c) (plain : ∀ cmd ∈ c.commands, cmd.op.isBox = false)
    (result : circuit c = .ok (d, modified)) : modified = false ∧ d.commands = c.commands ∧ circuit d = .ok (d, false) ∧
    (Quiet c → ∀ e, Continued IsCondition d e → ((∃ r, circuit e = .ok r) ↔ ∀ cmd ∈ e.commands, ¬IsSingleBox cmd)) := by
  obtain ⟨done, rfl⟩ := (circuit_plain laid.regular plain).mp result
  have kept := kept_foldlM laid.regular done
  have same : d.commands = c.commands := kept.commands
  have regular : ∀ cmd ∈ d.commands, Regular cmd := same ▸ laid.regular
  have still : ∀ cmd ∈ d.commands, cmd.op.isBox = false := same ▸ plain
  have again : d.commands.foldlM keep (startOf d).circuit = .ok d := by
    rw [same, (circuit_continues laid result).startOf, startOf_startOf]
    exact done
  refine ⟨rfl, same, (circuit_plain regular still).mpr ⟨again, rfl⟩, fun quiet e continued => ?_⟩
  refine circuit_further regular still again ?_ ?_ ?_ continued
  · apply kept.kinds
    intro q qubit b bit
    exact laid.apart q qubit b (mem_of_mem_filter bit)
  · intro b mem
    rcases kept.bits b mem with user | ⟨_, _, _, k, rfl⟩
    · exact .inl (mem_filter.mp user).2
    · exact .inr (.inl ⟨k, rfl⟩)
  · intro q mem
    exact quiet q (kept.qubits ▸ mem)

/-- Decomposition is repeated exactly where there was nothing to replace: then the circuit is as it
was, and further gates are decomposed like any others. Once a box has been replaced, decomposition
fails on the result, also with further gates, for want of a scratch bit. -/
theorem circuit_twice {c d : Circuit} (built : Built IsUserCondition c) {modified : Bool}
    (result : circuit c = .ok (d, modified)) :
    (modified = true ↔ ∃ cmd ∈ c.commands, cmd.op.isBox = true) ∧
      (circuit d = .ok (d, false) ↔ modified = false) ∧
      (modified = false → d.commands = c.commands ∧ (Quiet c → ∀ e, Continued IsCondition d e →
        ((∃ r, circuit e = .ok r) ↔ ∀ cmd ∈ e.commands, ¬IsSingleBox cmd))) ∧
      (modified = true → ∀ e, Continued IsUserCondition d e →
        ∃ b, isUserBit b = false ∧ circuit e = .error (.circuit (.missingUnit b))) := by
  rcases boxFree_or_first c.commands with plain | ⟨early, box, late, commands, plain, boxed⟩
  · obtain ⟨rfl, same, again, further⟩ := circuit_unmodified built.laid plain result
    refine ⟨⟨nofun, ?_⟩, ⟨fun _ => rfl, fun _ => again⟩, fun _ => ⟨same, further⟩, nofun⟩
    rintro ⟨cmd, member, boxed⟩
    rw [plain cmd member] at boxed
    cases boxed
  · obtain ⟨rfl, fails⟩ := circuit_boxed built.laid commands plain boxed result
    refine ⟨⟨fun _ => ⟨box, by simp [commands], boxed⟩, fun _ => rfl⟩, ⟨fun again => ?_, nofun⟩, nofun,
      fun _ e continued => fails e continued.continues⟩
    obtain ⟨b, _, failed⟩ := fails d (Continues.refl d)
    rw [failed] at again
    cases again

lemma conjunction_commands :
    let e : BitExp := .binary .and (.var (.bit 0)) (.var (.bit 1))
    ((addGate .x [] [.qubit 0] { exp := some (.bit e) }).run (blank 1 2)).2.commands =
    [⟨.classicalExp 2 0 1 (.bit e), [.bit 0, .bit 1, bit 0]⟩,
    ⟨.conditional 1 1 (.gate .x []), [bit 0, .qubit 0]⟩] := by
  intro e
  let one := (blank 1 2).insertUnit .bit (bit 0)
  let two := one.withCommand (.classicalExp 2 0 1 (.bit e)) [.bit 0, .bit 1, bit 0]
  let three := two.withCommand (.conditional 1 1 (.gate .x [])) [bit 0, .qubit 0]
  have inputs : expressionInputs (.bit e) = [.bit 0, .bit 1] := Register.sort_bits ⟨"c", 2⟩
  have boxed : one.addExpression (.bit e) [bit 0] = .ok two := by
    simp only [addExpression, inputs]
    rfl
  have ran : (addGate .x [] [.qubit 0] { exp := some (.bit e) }).run (blank 1 2) =
      (.ok (), three) := by
    refine run_bind_eq_ok.mpr ⟨(bit 0, true), two, ?_, run_step_eq_ok.mpr rfl⟩
    refine run_bind_eq_ok.mpr ⟨_, _, run_get _, ?_⟩
    refine run_bind_eq_ok.mpr ⟨bit 0, _, run_orScratch_eq_ok.mpr ⟨rfl, rfl⟩, ?_⟩
    refine run_bind_eq_ok.mpr ⟨(), one, run_step_eq_ok.mpr rfl, ?_⟩
    exact run_bind_eq_ok.mpr ⟨(), two, run_step_eq_ok.mpr boxed, rfl⟩
  rw [ran]
  rfl

/-- A gate under a conjunction of two bits is decomposed once, but not twice. -/
theorem circuit_twice_conjunction :
    let c := ((Condition.addGate .x [] [.qubit 0]
      { exp := some (.bit (.binary .and (.var (.bit 0)) (.var (.bit 1)))) }).run (Circuit.blank 1 2)).2
    Built IsUserCondition c ∧ ∃ d, circuit c = .ok (d, true) ∧
      ∃ b, isUserBit b = false ∧ circuit d = .error (.circuit (.missingUnit b)) := by
  intro c
  let exp : Logic.Term := .bit (.binary .and (.var (.bit 0)) (.var (.bit 1)))
  have allowed : IsCondition exp := .inl ⟨rfl, isUserBit_default 0, isUserBit_default 1⟩
  have own : ∀ u ∈ [UnitId.qubit 0], isUserBit u = true ∨ u ∈ (Circuit.blank 1 2).qubits := by
    simp [Circuit.blank]
  have user : ∀ b ∈ (Circuit.blank 1 2).bits, isUserBit b = true := by
    intro b member
    obtain ⟨i, _, rfl⟩ := List.mem_map.mp member
    exact isUserBit_default i
  have built : Built IsUserCondition c :=
    (built_blank _ 1 2).gate .x [] _ { exp := some exp } own (by simp)
      fun _ member => Option.some.inj member ▸ allowed.user
  have continued : Continued IsCondition (Circuit.blank 1 2) c :=
    Continued.refl.gate .x [] _ { exp := some exp } own (by simp)
      fun _ member => Option.some.inj member ▸ allowed
  have commands : c.commands = _ := conjunction_commands
  have done : ∃ r, circuit c = .ok r := by
    have start : (startOf (Circuit.blank 1 2)).circuit = Circuit.blank 1 2 := by
      have all := List.filter_eq_self.mpr user
      simp only [startOf, all]
      rfl
    have kept : (Circuit.blank 1 2).commands.foldlM keep (startOf (Circuit.blank 1 2)).circuit =
        .ok (Circuit.blank 1 2) := congrArg Except.ok start
    refine (circuit_further (by simp [Circuit.blank, Circuit.empty])
      (by simp [Circuit.blank, Circuit.empty]) kept (built_blank IsUserCondition 1 2).laid.apart
      (fun b member => .inl (user b member)) (quiet_blank 1 2) continued).mpr ?_
    rw [commands]
    rintro cmd member ⟨inputs, both, e, shape⟩
    simp only [List.mem_cons, List.not_mem_nil, or_false] at member
    rcases member with rfl | rfl
    · cases shape
    · cases shape
  obtain ⟨⟨d, modified⟩, result⟩ := done
  have twice := circuit_twice built result
  obtain rfl : modified = true := twice.1.mpr ⟨_, by rw [commands]; exact List.mem_cons_self, rfl⟩
  exact ⟨built, d, result, twice.2.2.2 rfl d .refl⟩

end Decompose

end CircuitWorks
