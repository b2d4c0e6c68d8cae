import CircuitWorks.Proofs.Decompose.Preservation
import Mathlib

namespace CircuitWorks.Decompose

open List Scratch Decompose.Part Execution Logic

variable {cmd : Command} {b v : UnitId} {commands code : List Command} {p : Part} {k target : Nat}
    {t s : State} {c : Circuit} {args : List UnitId} {later : List Part}

def Leaves (cmd : Command) (b : UnitId) : Prop :=
  ∀ cmd', Varies cmd cmd' → ∀ outcome x,
    (perform outcome cmd'.op cmd'.args x).memory b = x.memory b

lemma leaves_of_not_mem (absent : b ∉ cmd.args) : Leaves cmd b := by
  intro cmd' varies outcome x
  have same : cmd'.args = cmd.args := by cases varies <;> rfl
  exact perform_of_not_mem outcome _ _ x (same ▸ absent)

lemma leaves_guard {g : Guarded} (absent : b ∉ g.args) : Leaves ⟨g.op, v :: g.args⟩ b := by
  intro cmd' varies outcome x
  cases varies with
  | same =>
    have shape : perform outcome g.op (v :: g.args) x =
        if x.memory.number [v] = g.value then perform outcome (.gate g.type g.params) g.args x
        else x := rfl
    rw [shape]
    split
    · exact perform_of_not_mem outcome _ _ x absent
    · rfl

lemma memory_run_leaves {own : List Command} (varies : List.Forall₂ Varies commands own)
    (leaves : ∀ cmd ∈ commands, Leaves cmd b) (outcome : Nat → Bool) (x : Machine) :
    (run outcome own x).memory b = x.memory b := by
  induction varies generalizing x with
  | nil => rfl
  | @cons cmd cmd' rest rest' first _ ih =>
    rw [run_cons, ih fun other mem => leaves other (.tail _ mem)]
    exact leaves cmd (by simp) cmd' first outcome x

lemma Simulates.keeping {pre post : Machine → Machine → Prop}
    (simulates : Simulates commands code pre post) (needed : Nat → Prop) (source place : Nat → UnitId)
    (own : ∀ k, needed k → ∀ cmd ∈ commands, Leaves cmd (source k))
    (other : ∀ k, needed k → ∀ outcome y, (run outcome code y).memory (place k) = y.memory (place k)) :
    Simulates commands code (fun x y => pre x y ∧ ∀ k, needed k → x.memory (source k) = y.memory (place k))
    (fun x y => post x y ∧ ∀ k, needed k → x.memory (source k) = y.memory (place k)) := by
  intro outcome x y related
  obtain ⟨before, same⟩ := related
  obtain ⟨own', refilled, varies, after, tests⟩ := simulates outcome x y before
  refine ⟨own', refilled, varies, ⟨after, fun k needs => ?_⟩, tests⟩
  rw [memory_run_leaves varies (own k needs), other k needs]
  exact same k needs

lemma Simulates.strengthen {pre pre' post : Machine → Machine → Prop}
    (simulates : Simulates commands code pre post) (stronger : ∀ x y, pre' x y → pre x y) :
    Simulates commands code pre' post :=
  fun outcome x y related => simulates outcome x y (stronger x y related)

def State.found (s : State) (b : UnitId) : UnitId := (s.movedBits.lookup b).getD b

lemma State.found_of_moved (moved : s.movedBits.lookup b = some v) : s.found b = v := by
  rw [State.found, moved, Option.getD_some]

lemma State.found_of_unmoved (unmoved : s.movedBits.lookup b = none) : s.found b = b := by
  rw [State.found, unmoved, Option.getD_none]

structure Held (s : State) (v : UnitId) : Prop where
  scratch : IsScratchBit v
  safe : Pool.Safe IsScratchBit s.bits v
  present : s.circuit.kindOf? v = some .bit

lemma not_isUserBit_of_isScratchBit (scratch : IsScratchBit b) : isUserBit b = false := by
  cases user : isUserBit b with
  | false => rfl
  | true => exact absurd scratch (register_ne_of_isUserBit user)

lemma Held.not_mem (held : Held s v) (hosts : Hosts c s.circuit) {op : Op} (accepted : c.Accepts op args)
    {units : List UnitId} (among : ∀ u ∈ units, u ∈ args) (stays : ∀ u ∈ units, Stays c u) : v ∉ units := by
  intro mem
  obtain ⟨e, -, known⟩ := accepted.wire (among v mem)
  have still := hosts.kindOf? (stays v mem) known
  rw [held.present] at still
  rw [← Option.some.inj still] at known
  have user := stays v mem (Circuit.kindOf?_eq_bit.mp known).2
  rw [not_isUserBit_of_isScratchBit held.scratch] at user
  cases user

section

def Part.IsOpen : Part → Prop
  | gate .. | conditional .. => True
  | bitBox _ _ guarded => guarded = none
  | test _ tested => tested.guarded = none
  | registerBox _ _ _ tested => ∀ t ∈ tested, t.guarded = none

def Part.moves : Part → List Nat
  | bitBox _ target _ => [target]
  | registerBox _ _ _ tested => tested.toList.map Tested.target
  | _ => []

lemma Part.moves_subset (mem : k ∈ p.moves) : k ∈ p.bitTargets := by
  cases p with
  | gate _ _ _ => cases mem
  | conditional _ _ _ _ _ => cases mem
  | test _ _ => cases mem
  | bitBox _ _ _ => exact mem
  | registerBox _ _ _ _ => exact mem

lemma Part.eq_of_mem_bitTargets (first : j ∈ p.bitTargets) (second : k ∈ p.bitTargets) : j = k := by
  cases p with
  | gate _ _ _ => cases first
  | conditional _ _ _ _ _ => cases first
  | test _ _ => exact (mem_singleton.mp first).trans (mem_singleton.mp second).symm
  | bitBox _ _ _ => exact (mem_singleton.mp first).trans (mem_singleton.mp second).symm
  | registerBox _ _ _ tested =>
    cases tested with
    | none => cases first
    | some _ => exact (mem_singleton.mp first).trans (mem_singleton.mp second).symm

def Part.Avoids (p : Part) (b : UnitId) : Prop := ∀ k ∈ p.bitTargets, b ≠ bit k

/-- What becomes of a part whose value waits for gates. -/
structure Opened (c : Circuit) (p : Part) (later : List Part) (s t : State) (code : List Command) :
    Prop where
  replaced : Replaced c p.commands later s t code Alike fun x y =>
    Alike x y ∧ ∀ k ∈ p.bitTargets, x.memory (bit k) = y.memory (t.found (bit k))
  lookup : ∀ b, p.Avoids b → t.movedBits.lookup b = s.movedBits.lookup b
  moves : ∀ k ∈ p.bitTargets, (t.movedBits.lookup (bit k)).isSome = true ↔ k ∈ p.moves
  held : ∀ k ∈ p.bitTargets, Held t (t.found (bit k))
  fresh : ∀ b, Pool.Safe IsScratchBit s.bits b → p.Avoids b →
    ∀ k ∈ p.bitTargets, b ≠ t.found (bit k)
  safe : ∀ b, Pool.Safe IsScratchBit s.bits b → p.Avoids b → Pool.Safe IsScratchBit t.bits b
  frame : ∀ b, Held s b → p.Avoids b → ∀ outcome y, (run outcome code y).memory b = y.memory b

lemma Opened.found (opened : Opened c p later s t code) (avoids : p.Avoids b) : t.found b = s.found b := by
  rw [State.found, opened.lookup b avoids, State.found]

lemma Opened.kept (opened : Opened c p later s t code) (held : Held s v) (avoids : p.Avoids v) : Held t v where
  scratch := held.scratch
  safe := opened.safe v held.safe avoids
  present := opened.replaced.grows v held.present

variable {c : Circuit} {later : List Part} {s : State}

lemma opened_kept {op : Op} (shape : p.commands = [⟨op, args⟩]) (none : p.bitTargets = [])
    (kept : Replaced c [⟨op, args⟩] later s { s with circuit := s.circuit.withCommand op args }
    [⟨op, args⟩] Alike Alike) (absent : ∀ b, Held s b → b ∉ args) :
    Opened c p later s { s with circuit := s.circuit.withCommand op args } [⟨op, args⟩] where
  replaced := by
    rw [shape]
    exact { kept with simulates := kept.simulates.imp fun _ _ alike => ⟨alike, by simp [none]⟩ }
  lookup _ _ := rfl
  moves := by simp [none]
  held := by simp [none]
  fresh := by simp [none]
  safe _ safe _ := safe
  frame b held _ outcome y := perform_of_not_mem outcome op args y (absent b held)

lemma opened_bitBox (apart : KindsApart c)
    (fits : BitBoxFits c e target none) (standing : Standing c (.bitBox e target none :: later) s)
    (distinct : target ∉ later.flatMap bitTargets) : ∃ t code, Opened c (.bitBox e target none) later s t code := by
  obtain ⟨v, t, code, boxed, moved, scratch, safe, present, lookup, kept⟩ :=
    bitBox_replaced apart fits standing distinct
  have found : t.found (bit target) = v := State.found_of_moved moved
  have single {b : UnitId} (avoids : (bitBox e target none).Avoids b) : b ≠ bit target :=
    avoids target (by simp [bitTargets])
  refine ⟨t, code, ?_, fun b avoids => lookup b (single avoids), ?_, ?_, ?_, ?_, ?_⟩
  · refine { boxed with simulates := boxed.simulates.imp fun x y related => ⟨related.1, ?_⟩ }
    intro k mem
    obtain rfl := mem_singleton.mp mem
    rw [found]
    exact related.2
  · intro k mem
    obtain rfl := mem_singleton.mp mem
    simp [moved, moves]
  · intro k mem
    obtain rfl := mem_singleton.mp mem
    exact found ▸ ⟨scratch, safe, present⟩
  · intro b still avoids k mem
    obtain rfl := mem_singleton.mp mem
    exact found ▸ (kept b still (single avoids)).1
  · exact fun b still avoids => (kept b still (single avoids)).2.1
  · exact fun b held avoids => (kept b held.safe (single avoids)).2.2

lemma opened_ranged (alone : p.bitTargets = [target])
    (replaced : Replaced c p.commands later s t code Alike fun x y =>
    Alike x y ∧ x.memory (bit target) = y.memory (bit target))
    (pools : t.bits = s.bits) (present : t.circuit.kindOf? (bit target) = some .bit)
    (own : Pool.Safe IsScratchBit s.bits (bit target))
    (lookup : ∀ b, b ≠ bit target → t.movedBits.lookup b = s.movedBits.lookup b)
    (stays : t.found (bit target) = bit target)
    (moves : (t.movedBits.lookup (bit target)).isSome = true ↔ target ∈ p.moves)
    (frame : ∀ b, Held s b → b ≠ bit target → ∀ outcome y,
    (run outcome code y).memory b = y.memory b) : Opened c p later s t code := by
  have single {b : UnitId} (avoids : p.Avoids b) : b ≠ bit target :=
    avoids target (by simp [alone])
  have only {k : Nat} (mem : k ∈ p.bitTargets) : k = target := by
    rw [alone] at mem
    exact mem_singleton.mp mem
  refine ⟨?_, fun b avoids => lookup b (single avoids), ?_, ?_, ?_, ?_,
    fun b held avoids => frame b held (single avoids)⟩
  · refine { replaced with simulates := replaced.simulates.imp fun x y related => ⟨related.1, ?_⟩ }
    intro k mem
    rw [only mem, stays]
    exact related.2
  · intro k mem
    rw [only mem]
    exact moves
  · intro k mem
    rw [only mem, stays]
    exact ⟨rfl, pools ▸ own, present⟩
  · intro b _ avoids k mem
    rw [only mem, stays]
    exact single avoids
  · exact fun b still _ => pools ▸ still

lemma opened_test (apart : KindsApart c) {lower upper : Nat}
    (user : IsUserRegister r) (fits : Tested.Fits c r.bits ⟨lower, upper, target, none⟩)
    (standing : Standing c (.test r ⟨lower, upper, target, none⟩ :: later) s) :
    ∃ t code, Opened c (.test r ⟨lower, upper, target, none⟩) later s t code := by
  obtain ⟨t, ranged, pools, sameMoves, present⟩ := test_ranged apart user fits standing
  obtain ⟨own, unmoved⟩ := standing.bitTargets target (by simp [bitTargets])
  refine ⟨t, _, opened_ranged rfl ranged pools present own (fun b _ => by rw [sameMoves]) ?_ ?_ ?_⟩
  · exact State.found_of_unmoved (sameMoves ▸ unmoved)
  · simp [sameMoves, unmoved, moves]
  · intro b held other outcome y
    refine perform_of_not_mem outcome _ _ y fun mem => ?_
    rcases mem_append.mp mem with inside | last
    · have own := user.bits b inside
      rw [not_isUserBit_of_isScratchBit held.scratch] at own
      cases own
    · exact other (mem_singleton.mp last)

lemma opened_registerBox (apart : KindsApart c) (quiet : Quiet c) {size : Nat}
    {tested : Option Tested} (fits : RegisterBoxFits c size e target tested) (several : size ≠ 1)
    (unguarded : ∀ t ∈ tested, t.guarded = none) (standing : Standing c (.registerBox size e target tested :: later) s)
    (bits : ((registerBox size e target tested :: later).flatMap bitTargets).Nodup)
    (distinct : target ∉ later.flatMap registerTargets) :
    ∃ t code, Opened c (.registerBox size e target tested) later s t code := by
  obtain ⟨v, t, code, boxed, moved, scratch, large, present, pools, sameMoves, kept⟩ :=
    registerBox_replaced quiet fits several standing distinct
  cases tested with
  | none =>
    have empty : (registerBox size e target none).bitTargets = [] := rfl
    refine ⟨t, code, ?_, fun b _ => by rw [sameMoves], by simp [empty], by simp [empty],
      by simp [empty], fun b still _ => pools ▸ still,
      fun b held _ outcome y => kept outcome y b held.scratch⟩
    exact { boxed with simulates := boxed.simulates.imp fun _ _ related => ⟨related.1, by simp [empty]⟩ }
  | some compared =>
    obtain ⟨lower, upper, k, guarded⟩ := compared
    obtain rfl : guarded = none := unguarded _ rfl
    have alone : k ∉ later.flatMap bitTargets := (nodup_cons.mp bits).1
    have own := (standing.bitTargets k (by simp [bitTargets])).1
    obtain ⟨u, ranged, pools', present', lookup⟩ := compare_ranged apart fits.positive fits.fits
      (fits.compared _ rfl) boxed.standing moved large present alone
    refine ⟨u, _, opened_ranged rfl (boxed.append ranged) (pools'.trans pools) present' own
      (fun b other => by rw [lookup, if_neg other, sameMoves]) ?_ ?_ ?_⟩
    · exact State.found_of_moved (by rw [lookup, if_pos rfl])
    · simp [lookup, moves]
    · intro b held other outcome y
      rw [run_append, run_cons, run_nil, perform_of_not_mem, kept outcome y b held.scratch]
      intro mem
      rcases mem_append.mp mem with inside | last
      · obtain ⟨i, _, rfl⟩ := mem_bits.mp inside
        obtain ⟨j, rfl⟩ := scratch
        exact register_name_ne j held.scratch
      · exact other (mem_singleton.mp last)

lemma Part.opened (apart : KindsApart c) (fits : p.Fits c) (isOpen : p.IsOpen)
    (several : ¬p.IsSingle) (quiet : p.registerTargets ≠ [] → Quiet c) (bits : ((p :: later).flatMap bitTargets).Nodup)
    (registers : ((p :: later).flatMap registerTargets).Nodup)
    (standing : Standing c (p :: later) s) : ∃ t code, Opened c p later s t code := by
  have rest := standing.rest
  cases p with
  | gate type params args =>
    refine ⟨_, _, opened_kept rfl rfl (gate_kept rest fits.1 fits.2) fun b held => ?_⟩
    exact held.not_mem standing.hosts fits.1 (fun _ mem => mem) fits.2
  | conditional tests value type params args =>
    obtain ⟨accepted, user, stays⟩ := fits
    refine ⟨_, _, opened_kept rfl rfl (conditional_kept rest accepted user stays) fun b held => ?_⟩
    refine held.not_mem standing.hosts accepted (fun _ mem => mem) fun u mem => ?_
    rcases mem_append.mp mem with test | arg
    · exact fun _ => user u test
    · exact stays u arg
  | bitBox e target guarded =>
    obtain rfl : guarded = none := isOpen
    exact opened_bitBox apart fits standing (nodup_cons.mp bits).1
  | test r tested =>
    obtain ⟨lower, upper, target, guarded⟩ := tested
    obtain rfl : guarded = none := isOpen
    exact opened_test apart fits.1 fits.2 standing
  | registerBox size e target tested =>
    exact opened_registerBox apart (quiet (by simp [registerTargets])) fits several isOpen
      standing bits (nodup_cons.mp registers).1

lemma bit_not_mem_outputs {size : Nat} (fits : size ≤ 32) (target k : Nat) : bit k ∉ outputs size target := by
  intro mem
  rw [outputs_eq fits] at mem
  obtain ⟨i, _, same⟩ := mem_bits.mp mem
  exact register_name_ne target (UnitId.mk.inj same).1.symm

lemma not_stays_bit (inside : bit k ∈ c.bits) : ¬Stays c (bit k) := fun stays =>
  ne_bit_of_isUserBit (stays inside) k rfl

def conditionBits (cmd : Command) : List UnitId :=
  match cmd.op with
  | .conditional width _ _ => cmd.args.take width
  | _ => []

/-- The commands of an open part depend on bits of the user's, and have no scratch bit of another part
among their arguments. -/
lemma Part.command_spec (fits : p.Fits c) (isOpen : p.IsOpen) (mem : cmd ∈ p.commands) :
    (∀ b ∈ conditionBits cmd, isUserBit b = true) ∧ ∀ k, bit k ∈ c.bits → k ∉ p.bitTargets → bit k ∉ cmd.args := by
  have last {j k : Nat} (other : k ∉ [j]) : bit k ∉ [bit j] := fun same =>
    other (mem_singleton.mpr (bit_injective (mem_singleton.mp same)))
  cases p with
  | gate type params args =>
    obtain rfl := mem_singleton.mp mem
    exact ⟨forall_mem_nil _, fun k inside _ arg => not_stays_bit inside (fits.2 _ arg)⟩
  | conditional tests value type params args =>
    obtain rfl := mem_singleton.mp mem
    have front : (tests ++ args).take tests.length = tests := take_left
    exact ⟨fun b reads => fits.2.1 b (front ▸ reads), fun k inside _ => not_mem_append (bit_not_mem fits.2.1 k) fun arg =>
      not_stays_bit inside (fits.2.2 _ arg)⟩
  | bitBox e target guarded =>
    obtain rfl : guarded = none := isOpen
    obtain rfl := mem_singleton.mp mem
    have user : ∀ b ∈ Circuit.expressionInputs (.bit e), isUserBit b = true := fun b inputs =>
      fits.tree.vars b (mem_bitInputs.mp inputs)
    exact ⟨forall_mem_nil _, fun k _ other => not_mem_append (bit_not_mem user k) (last other)⟩
  | test r tested =>
    obtain ⟨lower, upper, target, guarded⟩ := tested
    obtain rfl : guarded = none := isOpen
    obtain rfl := mem_singleton.mp mem
    exact ⟨forall_mem_nil _, fun k _ other =>
      not_mem_append (bit_not_mem (IsUserRegister.bits fits.1) k) (last other)⟩
  | registerBox size e target tested =>
    rcases mem_cons.mp mem with rfl | compared
    · exact ⟨forall_mem_nil _, fun k _ _ =>
        not_mem_append (bit_not_mem (userInputs fits) k) (bit_not_mem_outputs fits.fits _ k)⟩
    · cases tested with
      | none => cases compared
      | some tested =>
        obtain ⟨lower, upper, j, guarded⟩ := tested
        obtain rfl : guarded = none := isOpen _ rfl
        obtain rfl := mem_singleton.mp compared
        exact ⟨forall_mem_nil _, fun k _ other =>
          not_mem_append (bit_not_mem_outputs fits.fits _ k) (last other)⟩

lemma Part.inside (fits : p.Fits c) (isOpen : p.IsOpen)
    (several : ¬p.IsSingle) (quiet : p.registerTargets ≠ [] → Quiet c)
    (registers : ((p :: later).flatMap registerTargets).Nodup)
    (standing : Standing c (p :: later) s) {first second : List Command}
    (shape : p.commands = first ++ second) (unfinished : second ≠ []) :
    ∃ u, first.forM command s = .ok ((), u) ∧ u.bits = s.bits ∧ u.movedBits = s.movedBits := by
  cases first with
  | nil => exact ⟨s, rfl, rfl, rfl⟩
  | cons cmd first =>
    have short (single : p.commands.length = 1) : False := by
      rw [shape] at single
      have more := length_pos_of_ne_nil unfinished
      simp only [cons_append, length_cons, length_append] at single
      omega
    cases p with
    | gate _ _ _ => exact (short rfl).elim
    | conditional _ _ _ _ _ => exact (short rfl).elim
    | bitBox e target guarded =>
      obtain rfl : guarded = none := isOpen
      exact (short rfl).elim
    | test r tested =>
      obtain ⟨lower, upper, target, guarded⟩ := tested
      obtain rfl : guarded = none := isOpen
      exact (short rfl).elim
    | registerBox size e target tested =>
      cases tested with
      | none => exact (short rfl).elim
      | some tested =>
        obtain ⟨lower, upper, j, guarded⟩ := tested
        obtain rfl : guarded = none := isOpen _ rfl
        obtain ⟨v, t, code, boxed, _, _, _, _, pools, sameMoves, _⟩ :=
          registerBox_replaced (quiet (by simp [registerTargets])) fits several standing
            (nodup_cons.mp registers).1
        have whole : (registerBox size e target (some ⟨lower, upper, j, none⟩)).commands =
          [boxCommand (.reg e) (outputs size target), _] := rfl
        obtain ⟨rfl, rest⟩ := List.cons.inj (whole.symm.trans shape)
        obtain rfl : first = [] := by
          cases first with
          | nil => rfl
          | cons other first =>
            have empty := (List.cons.inj rest).2
            exact absurd (append_eq_nil_iff.mp empty.symm).2 unfinished
        exact ⟨t, boxed.result, pools, sameMoves⟩

end

end CircuitWorks.Decompose

namespace CircuitWorks.Decompose

open List Scratch State Circuit Execution

inductive Piece where
  | part (p : Part)
  | guard (target : Nat) (g : Guarded)

def Piece.commands : Piece → List Command
  | part p => p.commands
  | guard target g => guardOn (bit target) (some g)

def Piece.parts : Piece → List Part
  | part p => [p]
  | guard .. => []

def Piece.reads? : Piece → Option Nat
  | part _ => none
  | guard target _ => some target

def partsOf (pieces : List Piece) : List Part := pieces.flatMap Piece.parts

def targets (pieces : List Piece) : List Nat := (partsOf pieces).flatMap Part.bitTargets

/-- The scratch bits whose values are looked up when a gate depends on them. -/
def movedTargets (pieces : List Piece) : List Nat := (partsOf pieces).flatMap Part.moves

/-- A circuit made of pieces: any number of gates depend on the value of a part, anywhere after it. -/
structure Reused (c : Circuit) (pieces : List Piece) : Prop where
  apart : KindsApart c
  named : ∀ b ∈ c.bits, WellNamed b
  commands : c.commands = pieces.flatMap Piece.commands
  fits : ∀ p ∈ partsOf pieces, p.Fits c
  isOpen : ∀ p ∈ partsOf pieces, p.IsOpen
  several : ∀ p ∈ partsOf pieces, ¬p.IsSingle
  quiet : ∀ p ∈ partsOf pieces, p.registerTargets ≠ [] → Quiet c
  guards : ∀ k g, .guard k g ∈ pieces → g.Fits c (bit k)
  bitTargets : (targets pieces).Nodup
  registerTargets : ((partsOf pieces).flatMap Part.registerTargets).Nodup
  order : ∀ early k g late, pieces = early ++ .guard k g :: late → k ∈ targets early

def Once (pieces : List Piece) : Prop :=
  pieces.Pairwise fun p q => ∀ k ∈ movedTargets pieces, p.reads? = some k → q.reads? ≠ some k

/-- No bit is free twice, and the value of no free bit is still needed. -/
structure Sparing (s : State) (later : List Command) : Prop where
  distinct : s.bits.free.Nodup
  needed : ∀ cmd ∈ later, ∀ b ∈ conditionBits cmd, s.found b ∉ s.bits.free

/-- A value that has been computed, and on which a gate is still to depend. -/
def Awaited (early late : List Piece) (k : Nat) : Prop :=
  k ∈ targets early ∧ ∃ g, Piece.guard k g ∈ late

/-- A state between pieces: the values still needed are on bits of their own. -/
structure Between (c : Circuit) (early late : List Piece) (s : State) : Prop where
  standing : Standing c (partsOf late) s
  moves : ∀ k ∈ targets early,
    (s.movedBits.lookup (bit k)).isSome = true ↔ k ∈ movedTargets early
  held : ∀ k, Awaited early late k → Held s (s.found (bit k))
  apart : ∀ k, Awaited early late k → ∀ j ∈ targets late, bit j ≠ s.found (bit k)
  distinct : ∀ j k, Awaited early late j → Awaited early late k →
    s.found (bit j) = s.found (bit k) → j = k

/-- Machines alike, on which the values still needed agree too. -/
def Agree (s : State) (early late : List Piece) (x y : Machine) : Prop :=
  Alike x y ∧ ∀ k, Awaited early late k →
    x.memory (bit k) = y.memory (s.found (bit k))

section

variable {early late : List Piece}

@[simp]
lemma partsOf_append (early late : List Piece) :
    partsOf (early ++ late) = partsOf early ++ partsOf late := flatMap_append

@[simp]
lemma partsOf_part (p : Part) (late : List Piece) : partsOf (.part p :: late) = p :: partsOf late := rfl

@[simp]
lemma partsOf_guard (k : Nat) (g : Guarded) (late : List Piece) :
    partsOf (.guard k g :: late) = partsOf late := rfl

lemma targets_append : targets (early ++ late) = targets early ++ targets late := by
  simp [targets]

lemma movedTargets_append : movedTargets (early ++ late) = movedTargets early ++ movedTargets late := by
  simp [movedTargets]

lemma targets_concat : targets (early ++ [.part p]) = targets early ++ p.bitTargets := by
  simp [targets, partsOf, Piece.parts]

lemma movedTargets_concat : movedTargets (early ++ [.part p]) = movedTargets early ++ p.moves := by
  simp [movedTargets, partsOf, Piece.parts]

lemma targets_guard : targets (early ++ [.guard k g]) = targets early := by
  simp [targets, partsOf, Piece.parts]

lemma movedTargets_guard : movedTargets (early ++ [.guard k g]) = movedTargets early := by
  simp [movedTargets, partsOf, Piece.parts]

lemma targets_of_moved {pieces : List Piece} (moved : k ∈ movedTargets pieces) : k ∈ targets pieces := by
  obtain ⟨p, mem, own⟩ := mem_flatMap.mp moved
  exact mem_flatMap.mpr ⟨p, mem, Part.moves_subset own⟩

end

variable {piece : Piece}

section

variable {pieces early mid late : List Piece}

lemma Reused.inside (reused : Reused c (early ++ late)) (mem : k ∈ targets early) : bit k ∈ c.bits := by
  obtain ⟨p, part, own⟩ := mem_flatMap.mp mem
  refine (reused.fits p ?_).bit_inside own
  rw [partsOf_append]
  exact mem_append_left _ part

lemma Reused.registerTargets_later (reused : Reused c (early ++ late)) :
    ((partsOf late).flatMap Part.registerTargets).Nodup := by
  have nodup := reused.registerTargets
  rw [partsOf_append, flatMap_append] at nodup
  exact (nodup_append.mp nodup).2.1

lemma Reused.targets_apart (reused : Reused c (early ++ late)) :
    (targets late).Nodup ∧ ∀ j ∈ targets early, ∀ k ∈ targets late, j ≠ k := by
  have nodup := reused.bitTargets
  rw [targets_append] at nodup
  exact (nodup_append.mp nodup).2

lemma Reused.between (reused : Reused c pieces) : Between c [] pieces (startOf c) where
  standing := standing_startOf reused.named reused.fits
  moves := by simp [targets, partsOf]
  held := by simp [Awaited, targets, partsOf]
  apart := by simp [Awaited, targets, partsOf]
  distinct := by simp [Awaited, targets, partsOf]

lemma Reused.avoids (reused : Reused c (early ++ .part p :: late)) :
    (∀ j ∈ targets early, p.Avoids (bit j)) ∧ ∀ j ∈ targets late, p.Avoids (bit j) := by
  obtain ⟨rest, apart⟩ := reused.targets_apart
  refine ⟨fun j mem i own same => ?_, fun j mem i own same => ?_⟩
  · exact apart j mem i (mem_append_left _ own) (bit_injective same)
  · exact (nodup_append.mp rest).2.2 i own j mem (bit_injective same).symm

lemma Awaited.origin (awaited : Awaited (early ++ [.part p]) late j) :
    Awaited early (.part p :: late) j ∨ j ∈ p.bitTargets := by
  obtain ⟨mem, g, guard⟩ := awaited
  rw [targets_concat] at mem
  exact (mem_append.mp mem).imp (fun own => ⟨own, g, .tail _ guard⟩) id

lemma Between.avoids (between : Between c early (.part p :: late) s)
    (awaited : Awaited early (.part p :: late) j) : p.Avoids (s.found (bit j)) :=
  fun i own => (between.apart j awaited i (mem_append_left _ own)).symm

section

variable {code : List Command} (reused : Reused c (early ++ .part p :: late))
include reused

lemma Reused.here : p.Fits c ∧ p.IsOpen ∧ ¬p.IsSingle ∧ (p.registerTargets ≠ [] → Quiet c) := by
  have mem : p ∈ partsOf (early ++ .part p :: late) := by simp
  exact ⟨reused.fits p mem, reused.isOpen p mem, reused.several p mem, reused.quiet p mem⟩

lemma Opened.found_awaited (opened : Opened c p (partsOf late) s t code)
    (awaited : Awaited early (.part p :: late) j) : t.found (bit j) = s.found (bit j) :=
  opened.found (reused.avoids.1 j awaited.1)

variable (between : Between c early (.part p :: late) s)
include between

lemma Reused.opened : ∃ t code, Opened c p (partsOf late) s t code := by
  obtain ⟨fits, isOpen, several, quiet⟩ := reused.here
  exact Part.opened reused.apart fits isOpen several quiet reused.targets_apart.1
    reused.registerTargets_later between.standing

variable (opened : Opened c p (partsOf late) s t code)
include opened

lemma Between.part_agrees : Simulates p.commands code (Agree s early (.part p :: late)) (Agree t (early ++ [.part p]) late) := by
  have keeping := opened.replaced.simulates.keeping (Awaited early (.part p :: late)) bit
    (fun j => s.found (bit j)) ?_ ?_
  · refine keeping.imp fun x y related => ⟨related.1.1, fun j awaited => ?_⟩
    rcases awaited.origin with old | own
    · rw [opened.found_awaited reused old]
      exact related.2 j old
    · exact related.1.2 j own
  · intro j awaited cmd own
    exact leaves_of_not_mem ((Part.command_spec reused.here.1 reused.here.2.1 own).2 j
      (reused.inside awaited.1) fun target => reused.avoids.1 j awaited.1 j target rfl)
  · exact fun j awaited => opened.frame _ (between.held j awaited) (between.avoids awaited)

lemma Between.after_part : Between c (early ++ [.part p]) late t := by
  obtain ⟨before, after⟩ := reused.avoids
  have fresh {i j : Nat} (awaited : Awaited early (.part p :: late) i) (own : j ∈ p.bitTargets) :
      s.found (bit i) ≠ t.found (bit j) :=
    opened.fresh _ (between.held i awaited).safe (between.avoids awaited) j own
  refine ⟨opened.replaced.standing, ?_, ?_, ?_, ?_⟩
  · intro j mem
    rw [targets_concat] at mem
    rw [movedTargets_concat, mem_append]
    rcases mem_append.mp mem with old | own
    · have other : j ∉ p.moves := fun moved => before j old j (Part.moves_subset moved) rfl
      rw [opened.lookup _ (before j old), between.moves j old]
      simp [other]
    · have other : j ∉ movedTargets early := fun moved => before j (targets_of_moved moved) j own rfl
      rw [opened.moves j own]
      simp [other]
  · intro j awaited
    rcases awaited.origin with old | own
    · rw [opened.found_awaited reused old]
      exact opened.kept (between.held j old) (between.avoids old)
    · exact opened.held j own
  · intro j awaited i mem
    rcases awaited.origin with old | own
    · rw [opened.found_awaited reused old]
      exact between.apart j old i (mem_append_right _ mem)
    · have later := (between.standing.bitTargets i (mem_append_right _ mem)).1
      exact opened.fresh _ later (after i mem) j own
  · intro i j first second same
    rcases first.origin with oldFirst | ownFirst <;> rcases second.origin with oldSecond | ownSecond
    · rw [opened.found_awaited reused oldFirst, opened.found_awaited reused oldSecond] at same
      exact between.distinct i j oldFirst oldSecond same
    · rw [opened.found_awaited reused oldFirst] at same
      exact absurd same (fresh oldFirst ownSecond)
    · rw [opened.found_awaited reused oldSecond] at same
      exact absurd same.symm (fresh oldSecond ownFirst)
    · exact Part.eq_of_mem_bitTargets ownFirst ownSecond

end

lemma Awaited.before (awaited : Awaited (early ++ [.guard k g]) late j) : Awaited early (.guard k g :: late) j := by
  obtain ⟨mem, g', guard⟩ := awaited
  rw [targets_guard] at mem
  exact ⟨mem, g', .tail _ guard⟩

lemma Reused.awaited (reused : Reused c (early ++ .guard k g :: late)) :
    Awaited early (.guard k g :: late) k := ⟨reused.order early k g late rfl, g, by simp⟩

lemma Between.after_guard (between : Between c early (.guard k g :: late) s)
    (standing : Standing c (partsOf late) t) (same : t.movedBits = s.movedBits)
    (held : ∀ j, Awaited (early ++ [.guard k g]) late j → Held t (s.found (bit j))) :
    Between c (early ++ [.guard k g]) late t := by
  have found (b : UnitId) : t.found b = s.found b := by rw [found, same, found]
  refine ⟨standing, ?_, ?_, ?_, ?_⟩
  · rw [targets_guard, movedTargets_guard, same]
    exact between.moves
  · intro j awaited
    rw [found]
    exact held j awaited
  · intro j awaited i mem
    rw [found]
    exact between.apart j awaited.before i mem
  · intro i j first second
    rw [found, found]
    exact between.distinct i j first.before second.before

section

variable (reused : Reused c (early ++ .guard k g :: late)) (between : Between c early (.guard k g :: late) s)
include reused between

lemma Between.guard_agrees : Simulates (guardOn (bit k) (some g)) (guardOn (s.found (bit k)) (some g))
    (Agree s early (.guard k g :: late)) (Agree s (early ++ [.guard k g]) late) := by
  have fits := reused.guards k g (by simp)
  have keeping := (simulates_guardOn (bit k) (s.found (bit k)) (some g)).keeping
    (Awaited (early ++ [.guard k g]) late) bit (fun j => s.found (bit j)) ?_ ?_
  · refine keeping.strengthen fun x y agree => ?_
    exact ⟨⟨agree.1, agree.2 k reused.awaited⟩, fun j awaited => agree.2 j awaited.before⟩
  · intro j awaited cmd mem
    obtain rfl := mem_singleton.mp mem
    refine leaves_guard fun arg => ?_
    exact not_stays_bit (reused.inside awaited.before.1) (fits.stays _ arg)
  · intro j awaited outcome y
    have held := between.held j awaited.before
    have absent : s.found (bit j) ∉ g.args :=
      held.not_mem between.standing.hosts fits.accepted (fun u mem => .tail _ mem) fits.stays
    exact leaves_guard absent _ (.same _) outcome y

lemma Between.moved (moved : s.movedBits.lookup (bit k) = some v) :
    Replaced c (guardOn (bit k) (some g)) (partsOf late) s { s with
    bits := s.bits.push v,
    circuit := s.circuit.withCommand g.op (v :: g.args) }
    (guardOn v (some g)) (Agree s early (.guard k g :: late)) (Agree s (early ++ [.guard k g]) late) := by
  have found : s.found (bit k) = v := found_of_moved moved
  have held := between.held k reused.awaited
  have apart := between.apart k reused.awaited
  have agrees := between.guard_agrees reused
  rw [found] at held apart agrees
  have gate := gate_moved between.standing moved held.scratch held.safe held.present apart
    (reused.guards k g (by simp))
  exact { gate with simulates := agrees }

lemma Between.guard (last : k ∈ movedTargets early → ∀ g', .guard k g' ∉ late) :
    ∃ t code, Replaced c (guardOn (bit k) (some g)) (partsOf late) s t code
    (Agree s early (.guard k g :: late)) (Agree t (early ++ [.guard k g]) late) ∧
    Between c (early ++ [.guard k g]) late t := by
  have target := reused.awaited.1
  cases moved : s.movedBits.lookup (bit k) with
  | none =>
    have found : s.found (bit k) = bit k := found_of_unmoved moved
    have held := between.held k reused.awaited
    have agrees := between.guard_agrees reused
    rw [found] at held agrees
    have gate := gate_direct between.standing moved held.present (reused.guards k g (by simp))
    refine ⟨_, _, { gate with simulates := agrees }, between.after_guard gate.standing rfl fun j awaited => ?_⟩
    exact { between.held j awaited.before with }
  | some v =>
    have found : s.found (bit k) = v := found_of_moved moved
    have redirected : k ∈ movedTargets early := (between.moves k target).mp (by simp [moved])
    have gate := between.moved reused moved
    refine ⟨_, _, gate, between.after_guard gate.standing rfl fun j awaited => ?_⟩
    have other : s.found (bit j) ≠ v := by
      intro same
      have eq := between.distinct j k awaited.before reused.awaited (same.trans found.symm)
      obtain ⟨g', later⟩ := awaited.2
      exact last redirected g' (eq ▸ later)
    have held := between.held j awaited.before
    exact { held with safe := held.safe.push _ other }

lemma Between.wasted (moved : k ∈ movedTargets early) (again : .guard k g' ∈ late) :
    ∃ t, (guardOn (bit k) (some g)).forM command s = .ok ((), t) ∧ ¬Sparing t (late.flatMap Piece.commands) := by
  obtain ⟨v, lookup⟩ := Option.isSome_iff_exists.mp ((between.moves k reused.awaited.1).mpr moved)
  refine ⟨_, (between.moved reused lookup).result, fun sparing => ?_⟩
  have mem : (⟨g'.op, bit k :: g'.args⟩ : Command) ∈ late.flatMap Piece.commands :=
    mem_flatMap.mpr ⟨_, again, by simp [Piece.commands, guardOn]⟩
  refine sparing.needed _ mem (bit k) (by simp [conditionBits, Guarded.op]) ?_
  rw [found, lookup]
  exact (Pool.mem_free_push UnitId.le s.bits v v).mpr (.inl rfl)

end

lemma Between.sparing (reused : Reused c (early ++ late)) (between : Between c early late s) :
    Sparing s (late.flatMap Piece.commands) := by
  refine ⟨between.standing.bits.distinct, fun cmd mem b reads => ?_⟩
  obtain ⟨piece, inside, own⟩ := mem_flatMap.mp mem
  cases piece with
  | part p =>
    have part : p ∈ partsOf (early ++ late) := by
      rw [partsOf_append]
      exact mem_append_right _ (mem_flatMap.mpr ⟨_, inside, by simp [Piece.parts]⟩)
    have user := (Part.command_spec (reused.fits p part) (reused.isOpen p part) own).1 b reads
    rw [found_of_unmoved (between.standing.moved b user)]
    intro free
    obtain ⟨k, rfl⟩ := between.standing.bitsNamed b (between.standing.bits.known b free)
    exact ne_bit_of_isUserBit user k rfl
  | guard k g =>
    obtain rfl := mem_singleton.mp own
    obtain rfl : b = bit k := by simpa [conditionBits, Guarded.op] using reads
    obtain ⟨first, second, rfl⟩ := append_of_mem inside
    have target := reused.order (early ++ first) k g second (by simp)
    rw [targets_append] at target
    rcases mem_append.mp target with old | later
    · exact (between.held k ⟨old, g, by simp⟩).safe.1
    · have waits := between.standing.bitTargets k (by
        rw [partsOf_append, flatMap_append]
        exact mem_append_left _ later)
      rw [found_of_unmoved waits.2]
      exact waits.1.1

lemma Between.step (reused : Reused c (early ++ piece :: late)) (between : Between c early (piece :: late) s)
    (last : ∀ k g, piece = .guard k g → k ∈ movedTargets early → ∀ g', .guard k g' ∉ late) :
    ∃ t code, Replaced c piece.commands (partsOf late) s t code (Agree s early (piece :: late))
    (Agree t (early ++ [piece]) late) ∧ Between c (early ++ [piece]) late t := by
  cases piece with
  | part p =>
    obtain ⟨t, code, opened⟩ := reused.opened between
    have agrees := between.part_agrees reused opened
    exact ⟨t, code, { opened.replaced with simulates := agrees }, between.after_part reused opened⟩
  | guard k g => exact between.guard reused (last k g rfl)

lemma Once.last (once : Once (early ++ .guard k g :: late)) (moved : k ∈ movedTargets early)
    (g' : Guarded) : .guard k g' ∉ late := by
  intro mem
  have pairs := (pairwise_append.mp once).2.1
  refine (pairwise_cons.mp pairs).1 _ mem k ?_ rfl rfl
  rw [movedTargets_append]
  exact mem_append_left _ moved

lemma Between.run (between : Between c early (mid ++ late) s)
    (reused : Reused c (early ++ (mid ++ late))) (once : Once (early ++ (mid ++ late))) :
    ∃ t code, Replaced c (mid.flatMap Piece.commands) (partsOf late) s t code
    (Agree s early (mid ++ late)) (Agree t (early ++ mid) late) ∧ Between c (early ++ mid) late t := by
  induction mid generalizing early s with
  | nil =>
    rw [append_nil]
    exact ⟨s, [], ⟨rfl, by simp, fun _ known => known, between.standing, by simp, Simulates.nil⟩, between⟩
  | cons piece mid ih =>
    have shift : early ++ (piece :: mid ++ late) = early ++ [piece] ++ (mid ++ late) := by simp
    have last (k : Nat) (g : Guarded) (same : piece = .guard k g) (moved : k ∈ movedTargets early) :
        ∀ g', .guard k g' ∉ mid ++ late := Once.last (same ▸ once) moved
    obtain ⟨t, code, first, middle⟩ := Between.step reused between last
    obtain ⟨u, code', second, after⟩ := ih middle (shift ▸ reused) (shift ▸ once)
    have whole : early ++ [piece] ++ mid = early ++ piece :: mid := by simp
    rw [whole] at second after
    exact ⟨u, code ++ code', first.append second, after⟩

lemma forM_reached {early late : List Command} (first : early.forM command s = .ok ((), t))
    (second : late.forM command t = .ok ((), u)) : (early ++ late).forM command s = .ok ((), u) := by
  change forM (early ++ late) command s = .ok ((), u)
  rw [List.forM_append]
  exact (bind_ok first _).trans second

lemma Between.once (between : Between c early late s) (reused : Reused c (early ++ late))
    (reached : (early.flatMap Piece.commands).forM command (startOf c) = .ok ((), s))
    (sparing : ∀ first second t, early ++ late = first ++ second →
    (first.flatMap Piece.commands).forM command (startOf c) = .ok ((), t) → Sparing t (second.flatMap Piece.commands)) :
    late.Pairwise fun p q => ∀ k ∈ movedTargets (early ++ late), p.reads? = some k → q.reads? ≠ some k := by
  induction late generalizing early s with
  | nil => exact .nil
  | cons piece late ih =>
    have shift : early ++ piece :: late = early ++ [piece] ++ late := by simp
    have cmds : (early ++ [piece]).flatMap Piece.commands =
        early.flatMap Piece.commands ++ piece.commands := by simp
    have last (k : Nat) (g : Guarded) (same : piece = .guard k g) (moved : k ∈ movedTargets early)
        (g' : Guarded) : .guard k g' ∉ late := by
      intro again
      subst same
      obtain ⟨t, freed, wasted⟩ := between.wasted reused moved again
      refine wasted (sparing (early ++ [.guard k g]) late t shift ?_)
      rw [cmds]
      exact forM_reached reached freed
    obtain ⟨t, code, first, middle⟩ := Between.step reused between last
    refine pairwise_cons.mpr ⟨fun q mem k moved reads again => ?_, ?_⟩
    · cases piece with
      | part p => cases reads
      | guard j g =>
        obtain rfl : j = k := Option.some.inj reads
        cases q with
        | part p => cases again
        | guard i g' =>
          obtain rfl : i = j := Option.some.inj again
          refine last i g rfl ?_ g' mem
          -- the value is computed before the gate, so it is looked up because of an earlier part
          rw [movedTargets_append] at moved
          refine (mem_append.mp moved).resolve_right fun later => ?_
          exact reused.targets_apart.2 i reused.awaited.1 i (targets_of_moved later) rfl
    · rw [shift] at reused sparing ⊢
      refine ih middle reused ?_ sparing
      rw [cmds]
      exact forM_reached reached first.result

end

section

variable {pieces early late : List Piece}

lemma Sparing.mono {commands later : List Command} (sparing : Sparing s commands) (pools : u.bits = s.bits)
    (moves : u.movedBits = s.movedBits) (fewer : ∀ cmd ∈ later, cmd ∈ commands) : Sparing u later := by
  refine ⟨pools ▸ sparing.distinct, fun cmd mem b reads => ?_⟩
  rw [pools, found, moves]
  exact sparing.needed cmd (fewer cmd mem) b reads

variable {first second : List Command}

lemma Between.inside (reused : Reused c (early ++ piece :: late))
    (between : Between c early (piece :: late) s) (shape : piece.commands = first ++ second)
    (unfinished : second ≠ []) :
    ∃ u, first.forM command s = .ok ((), u) ∧ u.bits = s.bits ∧ u.movedBits = s.movedBits := by
  cases piece with
  | part p =>
    obtain ⟨fits, isOpen, several, quiet⟩ := reused.here
    exact Part.inside fits isOpen several quiet reused.registerTargets_later between.standing shape unfinished
  | guard k g =>
    cases first with
    | nil => exact ⟨s, rfl, rfl, rfl⟩
    | cons cmd first =>
      have rest := (cons.inj shape).2
      exact absurd (append_eq_nil_iff.mp rest.symm).2 unfinished

lemma flatMap_commands_eq_append (whole : pieces.flatMap Piece.commands = first ++ second) :
    (∃ early late, pieces = early ++ late ∧ first = early.flatMap Piece.commands ∧
    second = late.flatMap Piece.commands) ∨
    ∃ early piece late front rest, pieces = early ++ piece :: late ∧ piece.commands = front ++ rest ∧
    rest ≠ [] ∧ first = early.flatMap Piece.commands ++ front ∧ second = rest ++ late.flatMap Piece.commands := by
  rw [flatMap_def, flatten_eq_append_iff] at whole
  rcases whole with ⟨as, bs, split, rfl, rfl⟩ | ⟨as, front, cmd, rest, ds, split, rfl, rfl⟩
  · obtain ⟨early, late, rfl, rfl, rfl⟩ := map_eq_append_iff.mp split
    exact .inl ⟨early, late, rfl, rfl, rfl⟩
  · obtain ⟨early, others, rfl, rfl, tail⟩ := map_eq_append_iff.mp split
    obtain ⟨piece, late, rfl, own, rfl⟩ := map_eq_cons_iff.mp tail
    exact .inr ⟨early, piece, late, front, cmd :: rest, rfl, own, by simp, rfl, rfl⟩

lemma Reused.sparing (reused : Reused c pieces) (once : Once pieces) (whole : c.commands = first ++ second)
    (reached : first.forM command (startOf c) = .ok ((), s)) : Sparing s second := by
  have reach (early late : List Piece) (split : pieces = early ++ late) :
      ∃ t, (early.flatMap Piece.commands).forM command (startOf c) = .ok ((), t) ∧ Between c early late t := by
    subst split
    have start : Between c [] (early ++ late) (startOf c) := reused.between
    obtain ⟨t, code, replaced, between⟩ := start.run reused once
    exact ⟨t, replaced.result, between⟩
  rw [reused.commands] at whole
  rcases flatMap_commands_eq_append whole with ⟨early, late, rfl, rfl, rfl⟩ |
    ⟨early, piece, late, front, rest, rfl, shape, unfinished, rfl, rfl⟩
  · obtain ⟨t, result, between⟩ := reach early late rfl
    obtain rfl := (Prod.mk.inj (Except.ok.inj (result.symm.trans reached))).2
    exact between.sparing reused
  · obtain ⟨t, result, between⟩ := reach early (piece :: late) rfl
    obtain ⟨u, inside, pools, moves⟩ := between.inside reused shape unfinished
    have here := forM_reached result inside
    obtain rfl := (Prod.mk.inj (Except.ok.inj (here.symm.trans reached))).2
    refine (between.sparing reused).mono pools moves fun cmd mem => ?_
    rw [flatMap_cons, shape, append_assoc]
    exact mem_append_right _ mem

lemma Reused.decomposed (reused : Reused c pieces) (once : Once pieces) :
    ∃ t code, c.commands.forM command (startOf c) = .ok ((), t) ∧ t.circuit.commands = code ∧
    (∀ cmd ∈ code, cmd.op.isBox = false) ∧ Simulates c.commands code Alike Alike := by
  have whole : [] ++ (pieces ++ []) = pieces := by simp
  rw [← whole] at reused once
  have start : Between c [] (pieces ++ []) (startOf c) := reused.between
  obtain ⟨t, code, replaced, -⟩ := start.run reused once
  rw [reused.commands, whole]
  refine ⟨t, code, replaced.result, replaced.added, replaced.boxFree, ?_⟩
  have nothing : ∀ k, ¬Awaited [] (pieces ++ []) k := by simp [Awaited, targets, partsOf]
  have simulates := replaced.simulates.imp fun _ _ agree => agree.1
  exact simulates.strengthen fun x y alike => ⟨alike, fun k awaited => (nothing k awaited).elim⟩

lemma Reused.firm (reused : Reused c pieces)
    (boxes : ∀ p ∈ partsOf pieces, p.registerTargets ≠ [] → ∀ cmd ∈ p.commands, Firm cmd) :
    ∀ cmd ∈ c.commands, Firm cmd := by
  intro cmd mem
  rw [reused.commands] at mem
  obtain ⟨piece, inside, own⟩ := mem_flatMap.mp mem
  cases piece with
  | part p =>
    have part : p ∈ partsOf pieces := mem_flatMap.mpr ⟨_, inside, by simp [Piece.parts]⟩
    by_cases plain : p.registerTargets = []
    · exact (reused.fits p part).firm plain own
    · exact boxes p part plain cmd own
  | guard k g =>
    obtain rfl := mem_singleton.mp own
    trivial

/-- Scratch bits that are free hold no value that is still needed just if no two gates depend on one
value that is looked up: such a bit is free as soon as the first of them has read it. Then the circuit
is decomposed and executes what the original executes, up to constants of register expressions. -/
theorem circuit_sparing_iff {c : Circuit} {pieces : List Piece} (reused : Reused c pieces) :
    ((∀ first second s, c.commands = first ++ second →
        first.forM command (startOf c) = .ok ((), s) → Sparing s second) ↔ Once pieces) ∧
    (Once pieces → ∃ d modified, circuit c = .ok (d, modified) ∧
      (∀ cmd ∈ d.commands, cmd.op.isBox = false) ∧
      ∀ (outcome : Nat → Bool) (m m' : Memory), (∀ b, isUserBit b = true → m b = m' b) →
        ∃ own, refillCommands c.commands (observe heldNumber outcome d.commands (.start m')) = own ∧
          List.Forall₂ Varies c.commands own ∧
          Alike (run outcome own (.start m)) (run outcome d.commands (.start m')) ∧
          ((∀ p ∈ partsOf pieces, p.registerTargets ≠ [] → ∀ cmd ∈ p.commands, Firm cmd) →
            Alike (run outcome c.commands (.start m)) (run outcome d.commands (.start m')))) := by
  refine ⟨⟨fun sparing => ?_, fun once first second s => reused.sparing once⟩, fun once => ?_⟩
  · have start : Between c [] pieces (startOf c) := reused.between
    refine start.once reused rfl fun first second t split => sparing _ _ t ?_
    rw [reused.commands, ← List.flatMap_append]
    exact congrArg (List.flatMap Piece.commands) split
  · obtain ⟨t, code, result, commands, boxFree, simulates⟩ := reused.decomposed once
    refine ⟨t.circuit, t.modified, ?_, commands ▸ boxFree, fun outcome m m' same => ?_⟩
    · rw [circuit_eq, result]
      rfl
    · rw [commands]
      obtain ⟨own, refilled, varies, alike, _⟩ := refillCommands_eq simulates outcome (alike_start same)
      refine ⟨own, refilled, varies, alike, fun boxes => ?_⟩
      rw [(run_varies varies (reused.firm boxes) outcome _).1] at alike
      exact alike

end

def conjunctionPieces : List Piece := [
  .part (.bitBox (.binary .and (.var (.bit 0)) (.var (.bit 1))) 0 none),
  .guard 0 ⟨1, .x, [], [.qubit 0]⟩,
  .part (.bitBox (.binary .and (.var (.bit 2)) (.var (.bit 3))) 1 none),
  .guard 1 ⟨1, .x, [], [.qubit 0]⟩,
  .guard 0 ⟨1, .z, [], [.qubit 0]⟩]

def conjunctions : Circuit where
  name := none
  phase := 0
  qubits := [.qubit 0]
  bits := [.bit 0, .bit 1, .bit 2, .bit 3, bit 0, bit 1]
  commands := [
    ⟨.classicalExp 2 0 1 (.bit (.binary .and (.var (.bit 0)) (.var (.bit 1)))),
      [.bit 0, .bit 1, bit 0]⟩,
    ⟨.conditional 1 1 (.gate .x []), [bit 0, .qubit 0]⟩,
    ⟨.classicalExp 2 0 1 (.bit (.binary .and (.var (.bit 2)) (.var (.bit 3)))),
      [.bit 2, .bit 3, bit 1]⟩,
    ⟨.conditional 1 1 (.gate .x []), [bit 1, .qubit 0]⟩,
    ⟨.conditional 1 1 (.gate .z []), [bit 0, .qubit 0]⟩]

lemma startOf_conjunctions : startOf conjunctions =
    ⟨{ empty with qubits := [.qubit 0], bits := [.bit 0, .bit 1, .bit 2, .bit 3] },
    ⟨[], [bit 1, bit 0]⟩, ⟨[], []⟩, [], [], false⟩ := by
  have other : ¬registerBase.toList <+: ['c'] := by decide
  have pools : poolsOf conjunctions = (⟨[], [bit 1, bit 0]⟩, ⟨[], []⟩) := by
    simp [poolsOf, conjunctions, UnitId.bit, other, bit, bitName, Pool.use, Pool.empty]
  have bits : conjunctions.bits.filter isUserBit = [.bit 0, .bit 1, .bit 2, .bit 3] := by
    simp [conjunctions, isUserBit_default, isUserBit_bit]
  simp only [startOf, pools, bits]
  rfl

lemma conjunction_fits (left : .bit i ∈ conjunctions.bits) (right : .bit j ∈ conjunctions.bits)
    (inside : bit k ∈ conjunctions.bits) :
    BitBoxFits conjunctions (.binary .and (.var (.bit i)) (.var (.bit j))) k none where
  node := rfl
  tree := ⟨rfl, isUserBit_default i, isUserBit_default j⟩
  present b mem := by
    have absent (n : Nat) : .bit n ∉ conjunctions.qubits := by simp [conjunctions, UnitId.bit, UnitId.qubit]
    simp only [Logic.Exp.vars, cons_append, nil_append, mem_cons, not_mem_nil, or_false] at mem
    rcases mem with rfl | rfl
    · exact kindOf?_eq_bit.mpr ⟨absent i, left⟩
    · exact kindOf?_eq_bit.mpr ⟨absent j, right⟩
  inside := inside
  guarded := by simp

lemma mem_conjunctionPieces (mem : p ∈ partsOf conjunctionPieces) :
    ∃ i j k, p = .bitBox (.binary .and (.var (.bit i)) (.var (.bit j))) k none ∧
    .bit i ∈ conjunctions.bits ∧ .bit j ∈ conjunctions.bits ∧ bit k ∈ conjunctions.bits := by
  simp only [conjunctionPieces, partsOf_part, partsOf_guard, mem_cons] at mem
  rcases mem with rfl | rfl | none
  · exact ⟨0, 1, 0, rfl, by simp [conjunctions]⟩
  · exact ⟨2, 3, 1, rfl, by simp [conjunctions]⟩
  · cases none

lemma reused_conjunctions : Reused conjunctions conjunctionPieces where
  apart := by
    unfold KindsApart
    decide
  named b mem := by
    simp only [conjunctions, mem_cons, not_mem_nil, or_false] at mem
    rcases mem with rfl | rfl | rfl | rfl | rfl | rfl
    · exact .inl (isUserBit_default 0)
    · exact .inl (isUserBit_default 1)
    · exact .inl (isUserBit_default 2)
    · exact .inl (isUserBit_default 3)
    · exact .inr (.inl ⟨0, rfl⟩)
    · exact .inr (.inl ⟨1, rfl⟩)
  commands := by cbv
  fits p mem := by
    obtain ⟨i, j, k, rfl, left, right, inside⟩ := mem_conjunctionPieces mem
    exact conjunction_fits left right inside
  isOpen p mem := by
    obtain ⟨i, j, k, rfl, -⟩ := mem_conjunctionPieces mem
    rfl
  several p mem := by
    obtain ⟨i, j, k, rfl, -⟩ := mem_conjunctionPieces mem
    exact id
  quiet p mem := by
    obtain ⟨i, j, k, rfl, -⟩ := mem_conjunctionPieces mem
    simp [Part.registerTargets]
  guards k g mem := by
    have stays : ∀ u ∈ [UnitId.qubit 0], Stays conjunctions u := by
      unfold Stays
      decide
    simp only [conjunctionPieces, mem_cons, Piece.guard.injEq, reduceCtorEq, not_mem_nil, false_or, or_false] at mem
    rcases mem with ⟨rfl, rfl⟩ | ⟨rfl, rfl⟩ | ⟨rfl, rfl⟩
    · exact ⟨le_rfl, (checkOp_eq_ok_iff _ _ _).mp rfl, stays⟩
    · exact ⟨le_rfl, (checkOp_eq_ok_iff _ _ _).mp rfl, stays⟩
    · exact ⟨le_rfl, (checkOp_eq_ok_iff _ _ _).mp rfl, stays⟩
  bitTargets := by decide
  registerTargets := by decide
  order early k g late split := by
    have check : ∀ n < 5, ∀ j ∈ conjunctionPieces[n]?.bind Piece.reads?,
        j ∈ targets (conjunctionPieces.take n) := by decide
    have len := congrArg length split
    have short : early.length < 5 := by
      simp only [conjunctionPieces, length_append, length_cons, length_nil] at len
      omega
    have target := check early.length short k (by simp [split, Piece.reads?])
    rwa [split, take_left] at target

def conjunctionState (free : List UnitId) (moves : List (UnitId × UnitId)) (commands : List Command) :
    State :=
  ⟨{ empty with
      qubits := [.qubit 0]
      bits := [.bit 0, .bit 1, .bit 2, .bit 3, bit 0]
      commands := commands },
    ⟨free, [bit 1, bit 0]⟩, ⟨[], []⟩, moves, [], true⟩

lemma forM_conjunctions : ∃ t, conjunctions.commands.forM command (startOf conjunctions) = .ok ((), t) ∧
    t.modified = true ∧ t.circuit.commands = [ ⟨.predicate .and, [.bit 0, .bit 1, bit 0]⟩,
    ⟨.conditional 1 1 (.gate .x []), [bit 0, .qubit 0]⟩, ⟨.predicate .and, [.bit 2, .bit 3, bit 0]⟩,
    ⟨.conditional 1 1 (.gate .x []), [bit 0, .qubit 0]⟩, ⟨.conditional 1 1 (.gate .z []), [bit 0, .qubit 0]⟩] := by
  let first : List Command := [⟨.predicate .and, [.bit 0, .bit 1, bit 0]⟩]
  let second := first ++ [⟨.conditional 1 1 (.gate .x []), [bit 0, .qubit 0]⟩]
  let third := second ++ [⟨.predicate .and, [.bit 2, .bit 3, bit 0]⟩]
  let fourth := third ++ [⟨.conditional 1 1 (.gate .x []), [bit 0, .qubit 0]⟩]
  let fifth := fourth ++ [⟨.conditional 1 1 (.gate .z []), [bit 0, .qubit 0]⟩]
  let moves := [(bit 0, bit 0)]
  let moves' := (bit 1, bit 0) :: moves
  rw [startOf_conjunctions]
  refine ⟨conjunctionState [bit 0, bit 0, bit 1] moves' fifth, ?_, rfl, rfl⟩
  refine (bind_ok (t := conjunctionState [] moves first) rfl _).trans ?_
  refine (bind_ok (t := conjunctionState [bit 0] moves second) rfl _).trans ?_
  refine (bind_ok (t := conjunctionState [bit 1] moves' third) rfl _).trans ?_
  refine (bind_ok (t := conjunctionState [bit 0, bit 1] moves' fourth) rfl _).trans ?_
  exact bind_ok rfl _

/-- The scratch bit of the first conjunction is reused for the second, so the gate that depends on the
first again is not executed. -/
theorem circuit_sparing_iff_conjunctions : Reused conjunctions conjunctionPieces ∧
    (¬∀ first second s, conjunctions.commands = first ++ second →
      first.forM command (startOf conjunctions) = .ok ((), s) → Sparing s second) ∧
    ∃ d, circuit conjunctions = .ok (d, true) ∧
      let m : Memory := fun b => b = .bit 0 ∨ b = .bit 1
      (run (fun _ => false) conjunctions.commands (.start m)).trace =
        [(.gate .x [], [.qubit 0]), (.gate .z [], [.qubit 0])] ∧
      (run (fun _ => false) d.commands (.start m)).trace = [(.gate .x [], [.qubit 0])] := by
  have repeated : ¬Once conjunctionPieces := by
    intro once
    have pair := List.pairwise_iff_getElem.mp once 1 4 (by decide) (by decide) (by decide)
    exact pair 0 (by decide) rfl rfl
  refine ⟨reused_conjunctions, fun sparing => ?_, ?_⟩
  · exact repeated ((circuit_sparing_iff reused_conjunctions).1.mp sparing)
  · obtain ⟨t, done, modified, commands⟩ := forM_conjunctions
    refine ⟨t.circuit, ?_, ?_, ?_⟩
    · rw [circuit_eq, done]
      exact congrArg (fun b => Except.ok (t.circuit, b)) modified
    · cbv
    · rw [commands]
      cbv

end CircuitWorks.Decompose
