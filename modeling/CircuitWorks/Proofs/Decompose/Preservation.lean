import CircuitWorks.Proofs.Circuit.Readings

/-!
What decomposition preserves, the commands that gates under conditions leave in a circuit, and the
conditions that cannot be added.
-/

namespace CircuitWorks.Decompose

open List Condition Decompose.Part Scratch Logic Circuit

variable {c : Circuit} {p : Part}

namespace Part

def target? : Part → Option Nat
  | bitBox _ target none => some target
  | test _ ⟨_, _, target, none⟩ => some target
  | registerBox _ _ _ (some ⟨_, _, target, none⟩) => some target
  | _ => none

def guard (g : Guarded) : Part → Part
  | bitBox e target _ => bitBox e target (some g)
  | test r ⟨lower, upper, target, _⟩ => test r ⟨lower, upper, target, some g⟩
  | registerBox size e target (some ⟨lower, upper, k, _⟩) =>
    registerBox size e target (some ⟨lower, upper, k, some g⟩)
  | p => p

lemma guard_spec (waits : p.target? = some k) (g : Guarded) :
    (p.guard g).commands = p.commands ++ [⟨g.op, bit k :: g.args⟩] ∧
    (p.guard g).bitTargets = p.bitTargets ∧ (p.guard g).registerTargets = p.registerTargets ∧
    (p.Fits c → g.Fits c (bit k) → (p.guard g).Fits c) := by
  cases p with
  | gate _ _ _ => cases waits
  | conditional _ _ _ _ _ => cases waits
  | bitBox e target guarded =>
    cases guarded with
    | some _ => cases waits
    | none =>
      obtain rfl : target = k := Option.some.inj waits
      refine ⟨rfl, rfl, rfl, fun fits own => { fits with guarded := fun h same => ?_ }⟩
      cases same
      exact own
  | test r tested =>
    obtain ⟨lower, upper, target, _ | _⟩ := tested
    · obtain rfl : target = k := Option.some.inj waits
      refine ⟨rfl, rfl, rfl, fun fits own => ⟨fits.1, { fits.2 with guarded := fun h same => ?_ }⟩⟩
      cases same
      exact own
    · cases waits
  | registerBox size e target tested =>
    obtain _ | ⟨lower, upper, target', _ | _⟩ := tested
    · cases waits
    · obtain rfl : target' = k := Option.some.inj waits
      refine ⟨rfl, rfl, rfl, fun fits own => { fits with compared := fun t same => ?_ }⟩
      cases same
      refine { fits.compared _ rfl with guarded := fun h same => ?_ }
      cases same
      exact own
    · cases waits

end Part

/-- The circuit is made of the parts and new ones, which box registers only if that is to be. -/
def Extended (early : List Command) (registers : Prop) (parts : List Part) (d : Circuit) : Prop :=
  ∃ new, Assembled early d (parts ++ new) ∧ BoxOnlyIf registers new

variable {early : List Command} {registers : Prop} {parts : List Part}

lemma Assembled.extended (assembled : Assembled early c parts) : Extended early registers parts c :=
  ⟨[], by simpa using assembled, forall_mem_nil _⟩

/-- A bit on which a gate can depend, once the commands for a condition are added: one of the user's,
or one on which the last part waits for the gate. -/
structure Pending (early : List Command) (registers : Prop) (parts : List Part) (c : Circuit) (b : UnitId)
    (d : Circuit) : Prop where
  grows : Grows c d
  source : isUserBit b = true ∧ Assembled early d parts ∨ ∃ p k, b = bit k ∧ p.target? = some k ∧
    Assembled early d (parts ++ [p]) ∧ (p.registerTargets ≠ [] → registers)

lemma Pending.extended (pending : Pending early registers parts c b d) :
    Extended early registers parts d := by
  rcases pending.source with ⟨_, assembled⟩ | ⟨p, k, _, _, assembled, regs⟩
  · exact assembled.extended
  · exact ⟨[p], assembled, forall_mem_singleton.mpr regs⟩

/-- Steps that end with a bit on which a gate can depend. -/
def Offers (early : List Command) (registers : Prop) (parts : List Part) (c : Circuit)
    (x : Build (UnitId × Bool)) : Prop :=
  Leads x c (fun r d => Pending early registers parts c r.1 d) (Extended early registers parts)

section

variable {registers : Prop} {parts : List Part} {c d : Circuit} {type : OpType}
  {params : List Amount} {args : List UnitId}

lemma stays_of_own (assembled : Assembled early d parts) (grows : Grows c d)
    (own : isUserBit u = true ∨ u ∈ c.qubits) : Stays d u := by
  intro inside
  rcases own with user | qubit
  · exact user
  · exact absurd (grows.qubits u qubit) (assembled.apart.not_both inside)

lemma Assembled.extend_plain (assembled : Assembled early c parts) {op : Op} {all : List UnitId}
    (fits : p.Fits c) (commands : p.commands = [⟨op, all⟩]) (bits : p.bitTargets = [])
    (regs : p.registerTargets = []) : Extended early registers parts (c.withCommand op all) := by
  refine ⟨[p], assembled.concat fits commands ?_ ?_, forall_mem_singleton.mpr (absurd regs)⟩
  · simpa [bits] using assembled.bitTargets
  · simpa [regs] using assembled.registerTargets

lemma Assembled.conditional (assembled : Assembled early c parts) {bits : List UnitId} {value : Option Int}
    (user : ∀ b ∈ bits, isUserBit b = true) (own : ∀ u ∈ args, Stays c u)
    (added : c.addConditional (.gate type params) bits value args = .ok d) : Extended early registers parts d := by
  obtain ⟨n, accepted, rfl, _⟩ := addConditional_eq_ok added
  have fits : (Part.conditional bits n type params args).Fits c := ⟨accepted, user, own⟩
  exact assembled.extend_plain fits rfl rfl rfl

lemma Pending.conditional {value : Bool}
    (pending : Pending early registers parts c b d) (own : ∀ u ∈ args, isUserBit u = true ∨ u ∈ c.qubits)
    (added : d.addConditional (.gate type params) [b] (some (if value then 1 else 0)) args = .ok e) :
    Extended early registers parts e := by
  rcases pending.source with ⟨user, assembled⟩ | ⟨p, k, rfl, waits, assembled, regs⟩
  · exact assembled.conditional (forall_mem_singleton.mpr user)
      (fun u mem => stays_of_own assembled pending.grows (own u mem)) added
  · obtain ⟨n, accepted, rfl, number⟩ := addConditional_eq_ok added
    have small : n ≤ 1 := by
      rw [number _ rfl]
      cases value <;> simp
    let g : Guarded := ⟨n, type, params, args⟩
    have fits : g.Fits d (bit k) :=
      ⟨small, accepted, fun u mem => stays_of_own assembled pending.grows (own u mem)⟩
    obtain ⟨cmds, bitTargets, registerTargets, guarded⟩ := guard_spec (c := d) waits g
    refine ⟨[p.guard g], assembled.extend (guarded (assembled.fits p (by simp)) fits)
      (by simp [cmds, Guarded.op, g]) ?_ ?_, forall_mem_singleton.mpr (registerTargets ▸ regs)⟩
    · simpa [bitTargets] using assembled.bitTargets
    · simpa [registerTargets] using assembled.registerTargets

end

section

variable {registers : Prop} {parts : List Part} {c : Circuit} {size : Nat}

lemma nodup_flatMap_concat {α : Type} {f : Part → List α} {a : α} (distinct : (parts.flatMap f).Nodup)
    (own : f p = [a]) (fresh : a ∉ parts.flatMap f) : ((parts ++ [p]).flatMap f).Nodup := by
  have whole : (parts ++ [p]).flatMap f = (parts.flatMap f).concat a := by simp [own]
  rw [whole]
  exact distinct.concat fresh

lemma Assembled.bitBox (assembled : Assembled early c parts) {one : Circuit}
    (tree : IsBitTree e) (node : e.isNode = true) (next : nextBit c = .ok b)
    (added : c.addBit b = .ok one) (boxed : one.addExpression (.bit e) [b] = .ok d) :
    Pending early registers parts c b d := by
  obtain ⟨k, rfl, unused, more, grows, inside⟩ := assembled.addScratch next added
  have fresh : ∀ u ∈ [bit k], u ∉ expressionInputs (.bit e) :=
    forall_mem_singleton.mpr (bit_not_mem (fun b mem => tree.vars b (mem_bitInputs.mp mem)) k)
  obtain ⟨accepted, rfl⟩ := addExpression_eq_ok fresh boxed
  have present : ∀ b ∈ e.vars, one.kindOf? b = some .bit := fun b mem =>
    kindOf?_of_box accepted (mem_append_left _ (mem_bitInputs.mpr mem))
  let p := Part.bitBox e k none
  have fits : p.Fits one := ⟨node, tree, present, inside, by simp⟩
  refine ⟨grows.trans (grows_withCommand _ _ _), .inr ⟨p, k, rfl, rfl, more.concat fits rfl ?_ ?_, absurd rfl⟩⟩
  · exact nodup_flatMap_concat more.bitTargets rfl unused
  · simpa [p, Part.registerTargets] using more.registerTargets

def IsBitCondition : Term → Prop
  | .bit (.binary .eq x (.const _)) => IsBitTree x ∧ x.isConstant = false
  | .bit e => IsBitTree e
  | _ => False

lemma asked_spec (allowed : IsBitCondition (.bit e)) : IsBitTree (asked e).1 ∧
    (isCondition (.bit e) = true → (∀ v, (asked e).1 ≠ .var v) → (asked e).1.isNode = true) := by
  have node {e : BitExp} (tree : IsBitTree e) (proper : e.isConstant = false) (other : ∀ v, e ≠ .var v) :
      e.isNode = true := by
    cases e with
    | const _ => cases proper
    | var v => exact absurd rfl (other v)
    | unary _ _ => exact tree.elim
    | binary _ _ _ => rfl
  unfold asked
  split
  · exact ⟨allowed.1, fun _ => node allowed.1 allowed.2⟩
  · rename_i other
    have tree : IsBitTree e := by
      unfold IsBitCondition at allowed
      split at allowed
      · rename_i same
        exact absurd (Term.bit.inj same) (other _ _)
      · rename_i same
        exact Term.bit.inj same ▸ allowed
      · exact allowed.elim
    refine ⟨tree, fun condition => node tree ?_⟩
    cases e with
    | const _ => cases condition
    | _ => rfl

lemma add_bit_leads (assembled : Assembled early c parts) {exp : Term} (allowed : IsBitCondition exp) :
    Offers early registers parts c (add exp) := by
  refine (leads_add exp c).imp (fun r d answered => ?_) fun d stopped => ?_
  · cases answered with
    | bit own =>
      have tree := (asked_spec allowed).1
      rw [own] at tree
      exact ⟨Grows.refl c, .inl ⟨tree, assembled⟩⟩
    | expression condition proper next added boxed =>
      obtain ⟨tree, node⟩ := asked_spec allowed
      exact assembled.bitBox tree (node condition proper) next added boxed
    | comparison => exact allowed.elim
  · cases stopped with
    | refused _ same => exact same ▸ assembled.extended
    | early _ same => exact same ▸ assembled.extended
    | late _ next added left =>
      obtain ⟨k, rfl, _, more, _⟩ := assembled.addScratch next added
      cases left with
      | nothing => exact more.extended
      | register => exact allowed.elim
      | selected => exact allowed.elim

/-- The bits that a register expression is compared by: those of a register of the user's, or the
results of a box. -/
def Selected (early : List Command) (parts : List Part) (e : RegExp) (bits : List UnitId) (d : Circuit) : Prop :=
  (∃ r, IsUserRegister r ∧ bits = r.bits ∧ Assembled early d parts) ∨
    ∃ size target, bits = outputs size target ∧
      Assembled early d (parts ++ [.registerBox size e target none])

variable {e : RegExp}

lemma leastSize_eq (tree : IsRegisterTree size e) (reads : e.vars ≠ []) : Logic.leastSize e = size := by
  obtain ⟨r, mem, same⟩ := exists_leastSize reads
  exact same ▸ (tree.vars r mem).2

lemma registerBox_fits {target : Nat} (small : size ≤ 32) (node : e.isNode = true)
    (tree : IsRegisterTree size e) (accepted : d.Accepts (boxCommand (.reg e) (outputs size target)).op
    (boxCommand (.reg e) (outputs size target)).args) (inside : ∀ b ∈ d.bits, b.register = (register target).name →
    ∀ b ∈ (register target).bits, b ∈ d.bits) : RegisterBoxFits d size e target none := by
  have pos : 0 < size := by
    by_contra zero
    obtain rfl : size = 0 := by omega
    refine accepted.nonempty (append_eq_nil_iff.mpr ⟨?_, rfl⟩)
    refine eq_nil_iff_forall_not_mem.mpr fun b mem => ?_
    obtain ⟨r, own, bit⟩ := mem_expressionInputs.mp mem
    obtain ⟨i, below, _⟩ := mem_bits.mp bit
    rw [(tree.vars r own).2] at below
    exact absurd below (Nat.not_lt_zero i)
  have first : (register target).place 0 ∈ outputs size target := by
    rw [outputs_eq small]
    exact mem_bits.mpr ⟨0, pos, rfl⟩
  have known := kindOf?_of_box accepted (mem_append_right _ first)
  refine ⟨pos, small, node, tree, fun r mem b bit => ?_,
    inside _ (kindOf?_eq_bit.mp known).2 rfl, by simp⟩
  exact kindOf?_of_box accepted (mem_append_left _ (mem_expressionInputs.mpr ⟨r, mem, bit⟩))

lemma Assembled.selected (assembled : Assembled early c parts) {bits : List UnitId}
    (small : size ≤ 32) (tree : IsRegisterTree size e) (selects : Selects e c bits d) :
    Grows c d ∧ Selected early parts e bits d := by
  cases selects with
  | register r => exact ⟨Grows.refl c, .inl ⟨r, tree.1, rfl, assembled⟩⟩
  | box node reads next ensured boxed =>
    obtain ⟨k, rfl, unused⟩ := nextRegister_eq_ok next
    obtain ⟨more, grows, inside⟩ := assembled.ensureRegister ensured
    rw [leastSize_eq tree reads] at boxed ⊢
    have fresh : ∀ u ∈ outputs size k, u ∉ expressionInputs (.reg e) := by
      intro u own mem
      obtain ⟨r, variable_, bit⟩ := mem_expressionInputs.mp mem
      obtain ⟨i, _, rfl⟩ := mem_bits.mp bit
      rw [outputs_eq small] at own
      obtain ⟨j, _, same⟩ := mem_bits.mp own
      have names : r.name = (register k).name := (UnitId.mk.inj same).1
      have user := (tree.vars r variable_).1
      rw [IsUserRegister, names, register_startsWith] at user
      cases user
    obtain ⟨accepted, rfl⟩ := addExpression_eq_ok fresh boxed
    have fits := registerBox_fits small node tree accepted (inside unused)
    refine ⟨grows.trans (grows_withCommand _ _ _), .inr ⟨size, k, rfl, more.concat fits rfl ?_ ?_⟩⟩
    · simpa [Part.bitTargets] using more.bitTargets
    · exact nodup_flatMap_concat more.registerTargets rfl (assembled.fresh_register unused)

lemma Assembled.compared (assembled : Assembled early c parts) {one : Circuit}
    {bits : List UnitId} {lower upper : Int} (small : size ≤ 32) (tree : IsRegisterTree size e)
    (allowed : registers) (next : nextBit c = .ok b) (added : c.addBit b = .ok one)
    (selects : Selects e one bits d) (ranged : d.addRange lower upper bits b = .ok f) :
    Pending early registers parts c b f := by
  obtain ⟨k, rfl, unused, more, grows, own⟩ := assembled.addScratch next added
  obtain ⟨grows', source⟩ := more.selected small tree selects
  obtain ⟨l, u, accepted, rfl⟩ := addRange_eq_ok ranged
  have inside := grows'.bits _ own
  refine ⟨(grows.trans grows').trans (grows_withCommand _ _ _), .inr ?_⟩
  rcases source with ⟨r, user, rfl, still⟩ | ⟨size, target, rfl, still⟩
  · let p := test r ⟨l, u, k, none⟩
    have fits : p.Fits d := ⟨user, inside, accepted, by simp⟩
    refine ⟨p, k, rfl, rfl, still.concat fits rfl ?_ ?_, absurd rfl⟩
    · exact nodup_flatMap_concat still.bitTargets rfl unused
    · simpa [p, Part.registerTargets] using still.registerTargets
  · let p := registerBox size e target (some ⟨l, u, k, none⟩)
    have box : RegisterBoxFits d size e target none := still.fits (.registerBox size e target none) (by simp)
    have fits : p.Fits d := by
      refine { box with compared := fun t same => ?_ }
      cases same
      exact ⟨inside, accepted, by simp⟩
    refine ⟨p, k, rfl, rfl, still.extend fits rfl ?_ ?_, fun _ => allowed⟩
    · refine nodup_flatMap_concat ?_ rfl unused
      simpa [Part.bitTargets] using still.bitTargets
    · simpa [p, Part.registerTargets] using still.registerTargets

def IsRegisterCondition : Term → Prop
  | .reg (.binary op x (.const _)) =>
    Term.RegBinary.isComparison op = true ∧ ∃ size ≤ 32, IsRegisterTree size x
  | _ => False

lemma add_register_leads (assembled : Assembled early c parts) {exp : Term}
    (allowed : IsRegisterCondition exp) (boxes : registers) : Offers early registers parts c (add exp) := by
  unfold IsRegisterCondition at allowed
  split at allowed
  · obtain ⟨_, size, small, tree⟩ := allowed
    refine (leads_add _ c).imp (fun r d answered => ?_) fun d stopped => ?_
    · cases answered with
      | comparison next added selects ranged =>
        exact assembled.compared small tree boxes next added selects ranged
    · cases stopped with
      | refused _ same => exact same ▸ assembled.extended
      | early _ same => exact same ▸ assembled.extended
      | late _ next added left =>
        obtain ⟨k, rfl, _, more, _⟩ := assembled.addScratch next added
        cases left with
        | nothing => exact more.extended
        | register next ensured =>
          obtain ⟨k, rfl, _⟩ := nextRegister_eq_ok next
          exact (more.ensureRegister ensured).1.extended
        | selected selects =>
          rcases (more.selected small tree selects).2 with ⟨r, _, _, still⟩ | ⟨size, target, _, still⟩
          · exact still.extended
          · exact ⟨_, still, fun _ _ _ => boxes⟩
  · exact allowed.elim

end

/-- Circuits built by adding gates, some of them under conditions of a kind. The bits of the user's
and qubits are added at any time; gates do not act on scratch bits. -/
inductive Built (condition : Term → Prop) : Circuit → Prop
  | start {c : Circuit} (blank : c.commands = []) (apart : KindsApart c)
      (user : ∀ b ∈ c.bits, isUserBit b = true) : Built condition c
  | unit {c d : Circuit} (before : Built condition c) (kind : UnitKind) (u : UnitId)
      (user : kind = .bit → isUserBit u = true) (added : c.addUnit kind u = .ok d) :
      Built condition d
  | gate {c : Circuit} (before : Built condition c) (type : OpType) (params : List Amount)
      (args : List UnitId) (request : Request)
      (own : ∀ u ∈ args, isUserBit u = true ∨ u ∈ c.qubits)
      (bits : ∀ bits ∈ request.bits, ∀ b ∈ bits, isUserBit b = true)
      (allowed : ∀ exp ∈ request.exp, condition exp) :
      Built condition ((addGate type params args request).run c).2

section

variable {parts : List Part} {c : Circuit} (assembled : Assembled early c parts) (type : OpType)
  (params : List Amount) (args : List UnitId) (request : Request)
  (own : ∀ u ∈ args, isUserBit u = true ∨ u ∈ c.qubits)
  (bits : ∀ bits ∈ request.bits, ∀ b ∈ bits, isUserBit b = true)
  (allowed : ∀ exp ∈ request.exp, Offers early registers parts c (add exp))
include assembled own bits allowed

lemma Assembled.addGate (regs : BoxOnlyIf registers parts) :
    ∃ more, Assembled early ((addGate type params args request).run c).2 more ∧ BoxOnlyIf registers more := by
  have extended : Extended early registers parts ((Condition.addGate type params args request).run c).2 := by
    have stays : ∀ u ∈ args, Stays c u := fun u mem => stays_of_own assembled (Grows.refl c) (own u mem)
    refine addGate_reaches assembled.extended (fun d added => ?_)
      (fun tests mem value d added => assembled.conditional (bits tests mem) stays added)
      fun exp mem => (allowed exp mem).imp
        (fun r d pending => ⟨pending.extended, fun e => pending.conditional own⟩) fun _ => id
    obtain ⟨accepted, rfl⟩ := addOp_eq_ok added
    have fits : (gate type params args).Fits c := ⟨accepted, stays⟩
    exact assembled.extend_plain fits rfl rfl rfl
  obtain ⟨new, more, newRegs⟩ := extended
  exact ⟨parts ++ new, more, forall_mem_append.mpr ⟨regs, newRegs⟩⟩

end

lemma Built.assembled {condition : Term → Prop}
    (adds : ∀ {parts : List Part} {c : Circuit} {exp : Term}, Assembled [] c parts → condition exp →
    Offers [] registers parts c (add exp)) (built : Built condition c) :
    ∃ parts, Assembled [] c parts ∧ BoxOnlyIf registers parts := by
  induction built with
  | start blank apart user =>
    exact ⟨[], ⟨apart, fun b mem => .inl (user b mem), blank, by simp, by simp, by simp⟩, forall_mem_nil _⟩
  | unit _ kind u user added ih =>
    obtain ⟨parts, assembled, regs⟩ := ih
    exact ⟨parts, assembled.addUnit (fun bit => .inl (user bit)) added, regs⟩
  | gate _ type params args request own bits allowed ih =>
    obtain ⟨parts, assembled, regs⟩ := ih
    exact assembled.addGate type params args request own bits
      (fun exp mem => adds assembled (allowed exp mem)) regs

end CircuitWorks.Decompose

namespace CircuitWorks

open List Condition Scratch Circuit Logic

namespace Decompose

/-- The second circuit goes on from the first: what is the user's is the same, and commands are
only added at the end. -/
structure Continues (c d : Circuit) : Prop where
  name : d.name = c.name
  qubits : d.qubits = c.qubits
  user : d.bits.filter isUserBit = c.bits.filter isUserBit
  commands : c.commands <+: d.commands

section

variable {units : List UnitId} {op : Op} {args : List UnitId}

lemma Continues.refl (c : Circuit) : Continues c c := ⟨rfl, rfl, rfl, prefix_rfl⟩

lemma Continues.trans (first : Continues c d) (second : Continues d e) : Continues c e where
  name := second.name.trans first.name
  qubits := second.qubits.trans first.qubits
  user := second.user.trans first.user
  commands := first.commands.trans second.commands

lemma continues_withCommand (c : Circuit) (op : Op) (args : List UnitId) : Continues c (c.withCommand op args) :=
  ⟨rfl, rfl, rfl, prefix_append _ _⟩

lemma continues_addOp (added : c.addOp op args = .ok d) : Continues c d := by
  obtain ⟨_, rfl⟩ := addOp_eq_ok added
  exact continues_withCommand c op args

lemma Gains.continues (gains : Gains c units d) (scratch : ∀ u ∈ units, isUserBit u = false) : Continues c d where
  name := by rw [gains.rest]
  qubits := gains.qubits
  user := gains.others isUserBit scratch
  commands := gains.commands ▸ prefix_rfl

end

/-- A command of a form that gates under conditions leave, with no variables but the user's in the
expressions of boxes. -/
def Regular (cmd : Command) : Prop :=
  match cmd.op with
  | .gate .. => True
  | .conditional _ _ op => op.isBox = false
  | .range .. => ∃ k, cmd.args.getLast? = some (bit k)
  | .classicalExp _ _ _ (.bit e) => (∀ v, e ≠ .var v) ∧ (∀ b ∈ e.vars, isUserBit b = true) ∧
    ∃ k, cmd.args.getLast? = some (bit k)
  | .classicalExp _ _ _ (.reg e) => (∀ v, e ≠ .var v) ∧ ∀ r ∈ e.vars, IsUserRegister r
  | _ => False

/-- The second command is no box of a bit expression whose target the first uses. -/
def Unshared (x y : Command) : Prop :=
  match y.op with
  | .classicalExp _ _ _ (.bit _) => ∀ b, y.args.getLast? = some b → b ∉ x.args
  | _ => True

/-- A circuit whose commands are as gates under conditions leave them. -/
structure Laid (c : Circuit) : Prop where
  apart : KindsApart c
  regular : ∀ cmd ∈ c.commands, Regular cmd
  present : ∀ cmd ∈ c.commands, ∀ u ∈ cmd.args, u ∈ c.qubits ∨ u ∈ c.bits
  unshared : c.commands.Pairwise Unshared

/-- The second circuit goes on from the first, and is laid out as that one is. -/
structure Adds (c d : Circuit) : Prop where
  continues : Continues c d
  laid : Laid c → Laid d

section

variable {units : List UnitId} {op : Op} {args : List UnitId}

lemma Adds.refl (c : Circuit) : Adds c c := ⟨Continues.refl c, id⟩

lemma Adds.trans (first : Adds c d) (second : Adds d e) : Adds c e where
  continues := first.continues.trans second.continues
  laid laid := second.laid (first.laid laid)

lemma Laid.grow (laid : Laid c) (commands : d.commands = c.commands) (apart : KindsApart d)
    (grows : Grows c d) : Laid d where
  apart := apart
  regular := commands ▸ laid.regular
  present cmd mem u own := by
    rw [commands] at mem
    exact (laid.present cmd mem u own).imp (grows.qubits u) (grows.bits u)
  unshared := commands ▸ laid.unshared

lemma Gains.laid (gains : Gains c units d) (laid : Laid c) : Laid d :=
  laid.grow gains.commands (gains.kinds laid.apart) gains.grows

lemma Gains.adds (gains : Gains c units d) (scratch : ∀ u ∈ units, isUserBit u = false) : Adds c d :=
  ⟨gains.continues scratch, gains.laid⟩

lemma Laid.withCommand (laid : Laid c) (regular : Regular ⟨op, args⟩) (accepted : c.Accepts op args)
    (unshared : ∀ cmd ∈ c.commands, Unshared cmd ⟨op, args⟩) : Laid (c.withCommand op args) where
  apart := laid.apart
  regular cmd mem := by
    rcases mem_append.mp mem with old | new
    · exact laid.regular cmd old
    · exact mem_singleton.mp new ▸ regular
  present cmd mem u own := by
    rcases mem_append.mp mem with old | new
    · exact laid.present cmd old u own
    · obtain rfl := mem_singleton.mp new
      obtain ⟨e, _, known⟩ := accepted.wire own
      cases kind : e.kind with
      | qubit => exact .inl (kindOf?_eq_qubit.mp (kind ▸ known))
      | bit => exact .inr (kindOf?_eq_bit.mp (kind ▸ known)).2
  unshared := by
    refine pairwise_append.mpr ⟨laid.unshared, pairwise_singleton _ _, ?_⟩
    intro cmd mem last own
    obtain rfl := mem_singleton.mp own
    exact unshared cmd mem

lemma adds_withCommand (regular : Regular ⟨op, args⟩) (accepted : c.Accepts op args)
    (unshared : ∀ cmd, Unshared cmd ⟨op, args⟩) : Adds c (c.withCommand op args) :=
  ⟨continues_withCommand c op args, fun laid => laid.withCommand regular accepted fun cmd _ => unshared cmd⟩

end

def IsUserCondition : Term → Prop
  | .constant _ => True
  | .bit e => ∀ b ∈ e.vars, isUserBit b = true
  | .reg e => ∀ r ∈ e.vars, IsUserRegister r

lemma isUserBit_of_mem_bits (scratch : ¬IsUserRegister r)
    (mem : b ∈ r.bits) : isUserBit b = false := by
  obtain ⟨i, _, rfl⟩ := mem_bits.mp mem
  rw [← Bool.not_eq_true, isUserBit_place]
  exact scratch

lemma adds_addBit (next : nextBit c = .ok b) (added : c.addBit b = .ok d) : Adds c d := by
  obtain ⟨k, rfl⟩ := nextBit_eq_ok next
  exact (gains_addBit added).adds fun u mem => mem_singleton.mp mem ▸ isUserBit_bit k

lemma adds_ensureRegister (next : nextRegister c = .ok r)
    (ensured : c.ensureRegister r = .ok d) : Adds c d := by
  obtain ⟨k, rfl, _⟩ := nextRegister_eq_ok next
  rcases gains_ensureRegister ensured with same | gains
  · exact same.adds (by simp)
  · exact gains.adds fun u mem => isUserBit_of_mem_bits (not_isUserRegister_register k) mem

lemma adds_bitBox (proper : ∀ v, e ≠ .var v)
    (user : ∀ b ∈ e.vars, isUserBit b = true) (next : nextBit c = .ok b)
    (added : c.addBit b = .ok d) (boxed : d.addExpression (.bit e) [b] = .ok f) : Adds c f := by
  have more := adds_addBit next added
  obtain ⟨k, rfl⟩ := nextBit_eq_ok next
  have outside : ∀ u ∈ [bit k], u ∉ expressionInputs (.bit e) :=
    forall_mem_singleton.mpr (bit_not_mem (fun b mem => user b (mem_bitInputs.mp mem)) k)
  obtain ⟨accepted, rfl⟩ := addExpression_eq_ok outside boxed
  have last : (Part.boxCommand (.bit e) [bit k]).args.getLast? = some (bit k) := by simp [Part.boxCommand]
  have regular : Regular (Part.boxCommand (.bit e) [bit k]) := ⟨proper, user, k, last⟩
  refine ⟨more.continues.trans (continues_withCommand _ _ _), fun laid => ?_⟩
  refine (more.laid laid).withCommand regular accepted fun cmd mem other found used => ?_
  -- earlier commands use units that were there before the bit
  obtain rfl : bit k = other := Option.some.inj (last.symm.trans found)
  have unknown := kindOf?_eq_none.mp (addUnit_eq_ok added).1
  exact (laid.present cmd ((gains_addBit added).commands ▸ mem) _ used).elim unknown.1 unknown.2

lemma adds_selects {bits : List UnitId} (selects : Selects e c bits d)
    (user : ∀ r ∈ e.vars, IsUserRegister r) : Adds c d := by
  cases selects with
  | register => exact Adds.refl c
  | box node _ next ensured boxed =>
    have proper : ∀ v, e ≠ .var v := by
      rintro v rfl
      cases node
    obtain ⟨accepted, rfl⟩ := addOp_eq_ok boxed
    exact (adds_ensureRegister next ensured).trans (adds_withCommand ⟨proper, user⟩ accepted fun _ => trivial)

lemma vars_asked (e : BitExp) : ∀ b ∈ (asked e).1.vars, b ∈ e.vars := by
  unfold asked
  split
  · exact fun b mem => mem_append_left _ mem
  · exact fun b mem => mem

lemma add_adds {exp : Term} (user : IsUserCondition exp) : Leads (add exp) c (fun _ d => Adds c d) (Adds c) := by
  refine (leads_add exp c).imp (fun r d answered => ?_) fun d stopped => ?_
  · cases answered with
    | bit => exact Adds.refl c
    | expression _ proper next added boxed =>
      exact adds_bitBox proper (fun b mem => user b (vars_asked _ b mem)) next added boxed
    | @comparison op e _ _ _ _ _ b bits next added selects ranged =>
      have more := adds_selects selects fun r mem => user r (mem_append_left _ mem)
      have first := adds_addBit next added
      obtain ⟨k, rfl⟩ := nextBit_eq_ok next
      obtain ⟨l, u, accepted, rfl⟩ := addRange_eq_ok ranged
      have regular : Regular ⟨.range l u bits.length, bits ++ [bit k]⟩ := ⟨k, by simp⟩
      exact (first.trans more).trans (adds_withCommand regular accepted fun _ => trivial)
  · cases stopped with
    | refused _ same => exact same ▸ Adds.refl c
    | early _ same => exact same ▸ Adds.refl c
    | late _ next added left =>
      refine (adds_addBit next added).trans ?_
      cases left with
      | nothing => exact Adds.refl _
      | register next ensured => exact adds_ensureRegister next ensured
      | selected selects => exact adds_selects selects fun r mem => user r (mem_append_left _ mem)

lemma addGate_adds (type : OpType) (params : List Amount) (args : List UnitId)
    {request : Request} (user : ∀ exp ∈ request.exp, IsUserCondition exp) :
    Adds c ((addGate type params args request).run c).2 := by
  have guarded {d e : Circuit} (more : Adds c d) {bits : List UnitId} {value : Option Int}
      (added : d.addConditional (.gate type params) bits value args = .ok e) : Adds c e := by
    obtain ⟨n, accepted, rfl, _⟩ := addConditional_eq_ok added
    have regular : Regular ⟨.conditional bits.length n (.gate type params), bits ++ args⟩ := rfl
    exact more.trans (adds_withCommand regular accepted fun _ => trivial)
  refine addGate_reaches (Adds.refl c) (fun d added => ?_)
    (fun bits _ value d added => guarded (Adds.refl c) added)
    fun exp given => (add_adds (user exp given)).imp (fun r d more => ⟨more, fun e => guarded more⟩) fun _ => id
  obtain ⟨accepted, rfl⟩ := addOp_eq_ok added
  have regular : Regular ⟨.gate type params, args⟩ := trivial
  exact adds_withCommand regular accepted fun _ => trivial

lemma Built.laid (built : Built IsUserCondition c) : Laid c := by
  induction built with
  | start blank apart user =>
    refine ⟨apart, ?_, ?_, ?_⟩ <;> simp [blank]
  | unit before kind u user added laid =>
    obtain ⟨apart, grows⟩ := laid.apart.addUnit added
    refine laid.grow ?_ apart grows
    obtain ⟨_, rfl, _⟩ := addUnit_eq_ok added
    cases kind with
    | qubit => rfl
    | bit => rfl
  | gate before type params args request own bits allowed laid =>
    exact (addGate_adds type params args allowed).laid laid

/-- Circuits made from another by adding gates, some of them under conditions of a kind. -/
inductive Continued (condition : Term → Prop) (c : Circuit) : Circuit → Prop
  | refl : Continued condition c c
  | gate {d : Circuit} (before : Continued condition c d) (type : OpType) (params : List Amount)
      (args : List UnitId) (request : Request)
      (own : ∀ u ∈ args, isUserBit u = true ∨ u ∈ d.qubits)
      (bits : ∀ bits ∈ request.bits, ∀ b ∈ bits, isUserBit b = true)
      (allowed : ∀ exp ∈ request.exp, condition exp) :
      Continued condition c ((addGate type params args request).run d).2

lemma Continued.continues (continued : Continued IsUserCondition c d) : Continues c d := by
  induction continued with
  | refl => exact Continues.refl c
  | gate before type params args request own bits allowed ih =>
    exact ih.trans (addGate_adds type params args allowed).continues

end Decompose

end CircuitWorks

namespace CircuitWorks.Condition

open Decompose Logic

/-- What a failed condition leaves in a circuit with its scratch bit. -/
inductive Remains : Term → Circuit → Circuit → Prop
  | nothing (t : Term) (c : Circuit) : Remains t c c
  | register {op : RegBinary} {e : RegExp} {v : Constant} {c d : Circuit} {r : Register}
      (next : nextRegister c = .ok r) (ensured : c.ensureRegister r = .ok d) :
      Remains (.reg (.binary op e (.const v))) c d
  | box {op : RegBinary} {e : RegExp} {v : Constant} {c d f : Circuit} {r : Register}
      (next : nextRegister c = .ok r) (ensured : c.ensureRegister r = .ok d)
      (boxed : d.addExpression (.reg e) (r.bits.take (leastSize e)) = .ok f) :
      Remains (.reg (.binary op e (.const v))) c f

section

variable {c d : Circuit} {op : RegBinary} {e : RegExp} {v : Constant} {t : Term}

lemma Left.remains (left : Left t c d) : Remains t c d := by
  cases left with
  | nothing => exact .nothing _ _
  | register next ensured => exact .register next ensured
  | selected selects =>
    cases selects with
    | register => exact .nothing _ _
    | box _ _ next ensured boxed => exact .box next ensured boxed

lemma Remains.continues (remains : Remains t c d) : Continues c d ∧ d.phase = c.phase ∧ ∀ b ∈ c.bits, b ∈ d.bits := by
  have register {c d : Circuit} {r : Register} (next : nextRegister c = .ok r)
      (ensured : c.ensureRegister r = .ok d) :
      Continues c d ∧ d.phase = c.phase ∧ ∀ b ∈ c.bits, b ∈ d.bits := by
    refine ⟨(adds_ensureRegister next ensured).continues, ?_⟩
    rcases gains_ensureRegister ensured with gains | gains <;>
      exact ⟨by rw [gains.rest], fun b mem => (gains.bits b).mpr (.inr mem)⟩
  cases remains with
  | nothing => exact ⟨.refl c, rfl, fun _ mem => mem⟩
  | register next ensured => exact register next ensured
  | box next ensured boxed =>
    obtain ⟨continues, phase, bits⟩ := register next ensured
    obtain ⟨_, rfl⟩ := Circuit.addOp_eq_ok boxed
    exact ⟨continues.trans (continues_withCommand _ _ _), phase, bits⟩

end

end CircuitWorks.Condition

namespace CircuitWorks.Decompose

open List Circuit Execution Decompose Logic

/-- A command whose effect does not depend on digits of constants that are not written. -/
def Firm (cmd : Command) : Prop :=
  match cmd.op with
  | .classicalExp inputs _ _ (.bit e) => IsBitTree e ∧ (cmd.args.drop inputs).length ≤ 1
  | .classicalExp inputs _ _ (.reg e) =>
    e.Over (fun op => (registerOperation? op).isSome = true)
      (fun c => (cmd.args.drop inputs).length ≤ bitWidth c.toInt.toNat) (fun _ => True)
  | _ => True

lemma perform_box_congr {exp exp' : Term} {inputs : Nat} (both outputs : Nat) {args : List UnitId}
    (outcome : Nat → Bool) (same : ∀ i < (args.drop inputs).length,
    (x.memory.value exp').testBit i = (x.memory.value exp).testBit i) :
    perform outcome (.classicalExp inputs both outputs exp') args x =
    perform outcome (.classicalExp inputs both outputs exp) args x := by
  have values : (List.range (args.drop inputs).length).map (x.memory.value exp').testBit =
      (List.range (args.drop inputs).length).map (x.memory.value exp).testBit :=
    map_congr_left fun i inside => same i (mem_range.mp inside)
  rw [perform_classical _ _ rfl, perform_classical _ _ rfl, effect, effect, values]

variable {cmd : Command} {guarded : Option Guarded}

lemma Varies.perform {cmd' : Command} (varies : Varies cmd cmd') (firm : Firm cmd) (outcome : Nat → Bool)
    (x : Machine) : perform outcome cmd'.op cmd'.args x = perform outcome cmd.op cmd.args x ∧
    testedNumber cmd' x.memory = testedNumber cmd x.memory := by
  cases varies with
  | same => exact ⟨rfl, rfl⟩
  | @bit inputs both outputs e e' args varies =>
    obtain ⟨tree, single⟩ := firm
    refine ⟨perform_box_congr both outputs outcome fun i inside => ?_, rfl⟩
    refine varies.digit ?_ (fun c d _ kept => kept i (inside.trans_le single)) tree _
    intro op known
    obtain ⟨o, operation⟩ := Option.isSome_iff_exists.mp known
    exact ⟨o.apply, fun c d => bitOperation?_digits op o operation c d i⟩
  | @register inputs both outputs e e' args varies =>
    refine ⟨perform_box_congr both outputs outcome fun i inside => ?_, rfl⟩
    refine varies.digit ?_ (fun c d full kept => kept i (inside.trans_le full)) firm _
    intro op known
    obtain ⟨o, operation⟩ := Option.isSome_iff_exists.mp known
    exact ⟨o.apply, fun c d => registerOperation?_digits op o operation c d i⟩

/-- Constants that change only in digits that do not matter change nothing. -/
lemma run_varies {commands own : List Command} (varies : List.Forall₂ Varies commands own)
    (firm : ∀ cmd ∈ commands, Firm cmd) (outcome : Nat → Bool) (x : Machine) :
    run outcome own x = run outcome commands x ∧
    observe testedNumber outcome own x = observe testedNumber outcome commands x := by
  induction varies generalizing x with
  | nil => exact ⟨rfl, rfl⟩
  | @cons cmd cmd' rest rest' first _ ih =>
    obtain ⟨performed, tested⟩ := first.perform (firm cmd (by simp)) outcome x
    obtain ⟨reached, later⟩ := ih (fun other mem => firm other (.tail _ mem))
      (perform outcome cmd.op cmd.args x)
    rw [run_cons, run_cons, observe, observe, performed, tested]
    exact ⟨reached, by rw [later]⟩

lemma firm_of_mem_guardOn (mem : cmd ∈ guardOn b guarded) : Firm cmd := by
  cases guarded with
  | none => cases mem
  | some g =>
    obtain rfl := mem_singleton.mp mem
    trivial

lemma Part.Fits.firm {p : Part} (fits : p.Fits c) (plain : p.registerTargets = [])
    (mem : cmd ∈ p.commands) : Firm cmd := by
  cases p with
  | gate _ _ _ =>
    obtain rfl := mem_singleton.mp mem
    trivial
  | conditional _ _ _ _ _ =>
    obtain rfl := mem_singleton.mp mem
    trivial
  | bitBox e target guarded =>
    rcases mem_cons.mp mem with rfl | gate
    · exact ⟨fits.tree, by simp [Part.boxCommand]⟩
    · exact firm_of_mem_guardOn gate
  | test r tested =>
    rcases mem_cons.mp mem with rfl | gate
    · trivial
    · exact firm_of_mem_guardOn gate
  | registerBox _ _ _ _ => cases plain

lemma alike_start {m m' : Memory} (same : ∀ b, isUserBit b = true → m b = m' b) :
    Alike (Machine.start m) (Machine.start m') := ⟨rfl, rfl, same⟩

lemma isUserBit_default (i : Nat) : isUserBit (.bit i) = true := by
  have plain : ("c" : String).startsWith Scratch.bitName = false := by decide
  simp only [isUserBit, UnitId.bit, plain, Bool.not_false]

lemma quiet_blank (qubits bits : Nat) : Quiet (blank qubits bits) := by
  intro q mem
  obtain ⟨i, _, rfl⟩ := List.mem_map.mp mem
  have plain : ("q" : String).startsWith Scratch.registerBase = false := by decide
  exact plain

lemma built_blank (condition : Term → Prop) (qubits bits : Nat) : Built condition (blank qubits bits) := by
  refine .start rfl ?_ ?_
  · simp [KindsApart, blank, UnitId.qubit, UnitId.bit]
  · intro b mem
    obtain ⟨i, _, rfl⟩ := mem_map.mp mem
    exact isUserBit_default i

def IsSingleBox (cmd : Command) : Prop :=
  ∃ inputs both e, cmd.op = .classicalExp inputs both 1 (.reg e)

lemma not_isSingleBox_guardOn (mem : cmd ∈ guardOn b guarded) : ¬IsSingleBox cmd := by
  rintro ⟨inputs, both, e, same⟩
  cases guarded with
  | none => cases mem
  | some g =>
    obtain rfl := mem_singleton.mp mem
    cases same

lemma not_isSingleBox_testOn {bits : List UnitId} {tested : Option Tested} (mem : cmd ∈ testOn bits tested) :
    ¬IsSingleBox cmd := by
  cases tested with
  | none => cases mem
  | some t =>
    rcases mem_cons.mp mem with rfl | gate
    · rintro ⟨inputs, both, e, same⟩
      cases same
    · exact not_isSingleBox_guardOn gate

lemma Part.Fits.isSingle_iff {p : Part} (fits : p.Fits c) :
    p.IsSingle ↔ ∃ cmd ∈ p.commands, IsSingleBox cmd := by
  constructor
  · intro single
    cases p with
    | registerBox size e target tested =>
      obtain rfl : size = 1 := single
      exact ⟨_, mem_cons_self, _, _, _, rfl⟩
    | _ => cases single
  · rintro ⟨cmd, mem, single⟩
    cases p with
    | gate _ _ _ =>
      obtain rfl := mem_singleton.mp mem
      obtain ⟨_, _, _, same⟩ := single
      cases same
    | conditional _ _ _ _ _ =>
      obtain rfl := mem_singleton.mp mem
      obtain ⟨_, _, _, same⟩ := single
      cases same
    | bitBox e target guarded =>
      rcases mem_cons.mp mem with rfl | gate
      · obtain ⟨_, _, _, same⟩ := single
        cases same
      · exact absurd single (not_isSingleBox_guardOn gate)
    | test r tested =>
      have inside : cmd ∈ testOn r.bits (some tested) := mem
      exact absurd single (not_isSingleBox_testOn inside)
    | registerBox size e target tested =>
      rcases mem_cons.mp mem with rfl | later
      · obtain ⟨inputs, both, e', same⟩ := single
        have count : (Part.outputs size target).length = 1 := by
          injection same
        rw [outputs_eq fits.fits] at count
        have one : size = 1 := by simpa [Register.bits] using count
        exact one
      · exact absurd single (not_isSingleBox_testOn later)

lemma refillCommands_eq {commands code : List Command} {pre post : Machine → Machine → Prop}
    (simulates : Simulates commands code pre post) (outcome : Nat → Bool)
    (related : pre x y) : ∃ own, refillCommands commands (observe heldNumber outcome code y) = own ∧
    List.Forall₂ Varies commands own ∧ post (run outcome own x) (run outcome code y) ∧
    observe testedNumber outcome own x = observe testedNumber outcome code y := by
  obtain ⟨own, refilled, rest⟩ := simulates outcome x y related
  have whole := refilled [] []
  simp only [append_nil, refillCommands] at whole
  exact ⟨own, whole, rest⟩

/-- With conditions on registers, decomposition fails exactly when some register has one bit.
Otherwise the circuit runs, and its range predicates read, as if each constant were the number that
its scratch register holds after the constant is written. That number has the digits of the constant;
if no digits above them matter, the circuit runs as the original does. -/
theorem decompose_register_conditions {c : Circuit} (built : Built IsRegisterCondition c)
    (quiet : Quiet c) :
    ((∃ cmd ∈ c.commands, IsSingleBox cmd) ∧ Decompose.circuit c = .error .unexpected) ∨
    (¬∃ cmd ∈ c.commands, IsSingleBox cmd) ∧
      ∃ d modified, Decompose.circuit c = .ok (d, modified) ∧
        (∀ cmd ∈ d.commands, cmd.op.isBox = false) ∧
        ∀ (outcome : Nat → Bool) (m m' : Memory), (∀ b, isUserBit b = true → m b = m' b) →
          ∃ own, refillCommands c.commands (observe heldNumber outcome d.commands (.start m')) = own ∧
            List.Forall₂ Varies c.commands own ∧
            Alike (run outcome own (.start m)) (run outcome d.commands (.start m')) ∧
            observe testedNumber outcome own (.start m) =
              observe testedNumber outcome d.commands (.start m') ∧
            ((∀ cmd ∈ c.commands, Firm cmd) →
              Alike (run outcome c.commands (.start m)) (run outcome d.commands (.start m')) ∧
              observe testedNumber outcome c.commands (.start m) =
                observe testedNumber outcome d.commands (.start m')) := by
  have made : ∃ parts, Assembled [] c parts ∧ BoxOnlyIf True parts :=
    built.assembled fun assembled allowed => add_register_leads assembled allowed trivial
  obtain ⟨parts, assembled, _⟩ := made
  by_cases single : ∃ p ∈ parts, p.IsSingle
  · refine .inl ⟨?_, assembled.fails (fun _ _ _ => quiet) single⟩
    obtain ⟨p, member, own⟩ := single
    obtain ⟨cmd, inside, box⟩ := (assembled.fits p member).isSingle_iff.mp own
    exact ⟨cmd, assembled.commands ▸ List.mem_flatMap.mpr ⟨p, member, inside⟩, box⟩
  · have several : ∀ p ∈ parts, ¬p.IsSingle := fun p member own => single ⟨p, member, own⟩
    obtain ⟨d, modified, result, boxFree, simulates⟩ := assembled.decomposed (fun _ _ _ => quiet) several
    refine .inr ⟨?_, d, modified, result, boxFree, fun outcome m m' same => ?_⟩
    · rintro ⟨cmd, member, box⟩
      rw [assembled.commands] at member
      obtain ⟨p, inside, own⟩ := List.mem_flatMap.mp member
      exact several p inside ((assembled.fits p inside).isSingle_iff.mpr ⟨cmd, own, box⟩)
    · obtain ⟨own, refilled, varies, alike, tests⟩ :=
        refillCommands_eq simulates outcome (alike_start same)
      refine ⟨own, refilled, varies, alike, tests, fun firm => ?_⟩
      obtain ⟨reached, read⟩ := run_varies varies firm outcome (.start m)
      exact ⟨reached ▸ alike, read ▸ tests⟩

/-- A gate under a comparison of a register, combined with three constants in turn. -/
theorem decompose_combined_constants :
    let e : RegExp := .binary .and (.binary .xor (.binary .xor (.var ⟨"c", 2⟩) (.const (.int 2)))
      (.const (.int 3))) (.const (.int 1))
    let c := ((Condition.addGate .x [] [.qubit 0]
      { exp := some (.reg (.binary .eq e (.const (.int 1)))) }).run (Circuit.blank 1 2)).2
    Built IsRegisterCondition c ∧ Quiet c ∧
      (Decompose.circuit c = .error .unexpected ∨
        ∃ d modified, Decompose.circuit c = .ok (d, modified) ∧ ∀ (outcome : Nat → Bool) (m : Memory),
          observe testedNumber outcome
              (refillCommands c.commands (observe heldNumber outcome d.commands (.start m))) (.start m) =
            observe testedNumber outcome d.commands (.start m)) := by
  intro e c
  have user : IsUserRegister ⟨"c", 2⟩ := (isUserBit_place ⟨"c", 2⟩ 0).mp (isUserBit_default 0)
  have built : Built IsRegisterCondition c := by
    refine (built_blank _ 1 2).gate .x [] _ _ ?_ (by simp) ?_
    · intro u member
      obtain rfl := List.mem_singleton.mp member
      exact .inr (by simp [Circuit.blank])
    · intro exp member
      cases member
      refine ⟨rfl, 2, by decide, rfl, ⟨rfl, ⟨rfl, ⟨user, rfl⟩, ?_⟩, ?_⟩, ?_⟩ <;>
        exact ⟨by decide, by decide⟩
  have adds : Adds (Circuit.blank 1 2) c := by
    apply addGate_adds
    rintro _ ⟨⟩ r member
    obtain rfl : r = ⟨"c", 2⟩ := by simpa [e, Logic.Exp.vars] using member
    exact user
  have quiet : Quiet c := by
    intro q member
    rw [adds.continues.qubits] at member
    exact quiet_blank 1 2 q member
  refine ⟨built, quiet, ?_⟩
  rcases decompose_register_conditions built quiet with ⟨_, failed⟩ | ⟨_, d, modified, result, _, runs⟩
  · exact .inl failed
  · refine .inr ⟨d, modified, result, fun outcome m => ?_⟩
    obtain ⟨own, rfl, _, _, tests, _⟩ := runs outcome m m fun _ _ => rfl
    exact tests

end CircuitWorks.Decompose
