import Mathlib.Data.Bool.Basic
import Mathlib.Data.List.Count
import CircuitWorks.Quipper.Circuit
import CircuitWorks.Proofs.Circuit.Execution

/-!
Basis states, the circuits that permute them, and the commands that a gate of a program adds: one for each
of its steps, or one box for each repetition of a call.
-/

namespace CircuitWorks

open List

namespace Basis

variable {α β : Type} [DecidableEq α] [DecidableEq β] {controls : List (α × Bool)} {us : List α}

def negate (u : α) (state : α → Bool) : α → Bool :=
  fun v => if v = u then !state v else state v

def exchange (a b : α) (state : α → Bool) : α → Bool :=
  fun v => if v = a then state b else if v = b then state a else state v

def negateAll (us : List α) (state : α → Bool) : α → Bool :=
  us.foldl (fun state u => negate u state) state

lemma negateAll_apply (us : List α) (state : α → Bool) (v : α) :
    negateAll us state v = (state v ^^ decide (us.count v % 2 = 1)) := by
  induction us generalizing state with
  | nil => simp [negateAll]
  | cons u us ih =>
    have step : negateAll (u :: us) state = negateAll us (negate u state) := rfl
    rw [step, ih, negate]
    by_cases same : v = u
    · subst same
      rcases Nat.mod_two_eq_zero_or_one (us.count v) with even | odd
      · simp [even, Nat.add_mod]
      · simp [odd, Nat.add_mod]
    · rw [if_neg same, count_cons_of_ne (Ne.symm same)]

lemma negateAll_of_not_mem (absent : v ∉ us) (state : α → Bool) : negateAll us state v = state v := by
  simp [negateAll_apply, count_eq_zero_of_not_mem absent]

omit [DecidableEq α] in
/-- Unlike `all_congr`, this asks for agreement on the members only. -/
lemma all_eq_of_mem (same : ∀ u ∈ us, p u = q u) : us.all p = us.all q := by
  induction us with
  | nil => rfl
  | cons u us ih =>
    rw [all_cons, all_cons, same u (by simp), ih fun v mem => same v (.tail u mem)]

lemma all_negate (absent : t ∉ us) (state : α → Bool) : us.all (negate t state) = us.all state := by
  apply all_eq_of_mem
  intro u mem
  have other : u ≠ t := fun alike => absent (alike ▸ mem)
  rw [negate, if_neg other]

lemma negateAll_around (us vs : List α) (state : α → Bool) :
    negateAll us (negateAll vs (negateAll us state)) = negateAll vs state := by
  funext v
  simp only [negateAll_apply]
  cases state v <;> cases decide (us.count v % 2 = 1) <;> simp

lemma exchange_around (first : a ∉ us) (second : b ∉ us) (state : α → Bool) :
    negateAll us (exchange a b (negateAll us state)) = exchange a b state := by
  funext v
  rw [negateAll_apply, exchange, exchange, negateAll_of_not_mem first, negateAll_of_not_mem second]
  by_cases isFirst : v = a
  · simp [isFirst, count_eq_zero_of_not_mem first]
  by_cases isSecond : v = b
  · simp [isSecond, count_eq_zero_of_not_mem second]
  rw [if_neg isFirst, if_neg isSecond, if_neg isFirst, if_neg isSecond, negateAll_apply]
  cases state v <;> cases decide (us.count v % 2 = 1) <;> rfl

def allHold (controls : List (α × Bool)) (state : α → Bool) : Bool :=
  controls.all fun c => state c.1 != c.2

lemma negated_control (distinct : (controls.map (·.1)).Nodup) (mem : c ∈ controls)
    (state : α → Bool) : negateAll ((controls.filter (·.2)).map (·.1)) state c.1 = (state c.1 != c.2) := by
  have once : ((controls.filter (·.2)).map (·.1)).Nodup :=
    distinct.sublist (filter_sublist.map _)
  cases negative : c.2 with
  | true =>
    have listed : c.1 ∈ (controls.filter (·.2)).map (·.1) :=
      mem_map.mpr ⟨c, mem_filter.mpr ⟨mem, negative⟩, rfl⟩
    rw [negateAll_apply, count_eq_one_of_mem once listed]
    rfl
  | false =>
    have absent : c.1 ∉ (controls.filter (·.2)).map (·.1) := by
      intro listed
      obtain ⟨d, found, same⟩ := mem_map.mp listed
      obtain ⟨inside, flipped⟩ := mem_filter.mp found
      obtain rfl := inj_on_of_nodup_map distinct inside mem same
      rw [negative] at flipped
      cases flipped
    rw [negateAll_of_not_mem absent]
    simp

lemma all_negated (distinct : (controls.map (·.1)).Nodup) (state : α → Bool) :
    (controls.map (·.1)).all (negateAll ((controls.filter (·.2)).map (·.1)) state) = allHold controls state := by
  rw [all_map]
  exact all_eq_of_mem fun c mem => negated_control distinct mem state

section

def Shows (wires : List α) (place : α → β) (state : α → Bool) (image : β → Bool) : Prop :=
  ∀ w ∈ wires, image (place w) = state w

variable {wires : List α} {place : α → β} {state : α → Bool} {image : β → Bool}

section

variable (shows : Shows wires place state image)
  (injective : ∀ v ∈ wires, ∀ w ∈ wires, place v = place w → v = w)

include shows injective

lemma Shows.negate (listed : u ∈ wires) : Shows wires place (negate u state) (negate (place u) image) := by
  intro w mem
  by_cases same : w = u
  · simp [Basis.negate, same, shows u listed]
  · have apart : place w ≠ place u := fun alike => same (injective w mem u listed alike)
    simp [Basis.negate, same, apart, shows w mem]

lemma Shows.negateAll (listed : ∀ u ∈ us, u ∈ wires) :
    Shows wires place (negateAll us state) (negateAll (us.map place) image) := by
  induction us generalizing state image with
  | nil => exact shows
  | cons u us ih =>
    exact ih (shows.negate injective (listed u (by simp))) fun v mem => listed v (.tail u mem)

lemma Shows.exchange (first : a ∈ wires)
    (second : b ∈ wires) : Shows wires place (exchange a b state) (exchange (place a) (place b) image) := by
  intro w mem
  have isFirst : place w = place a ↔ w = a := ⟨injective w mem a first, congrArg place⟩
  have isSecond : place w = place b ↔ w = b := ⟨injective w mem b second, congrArg place⟩
  simp only [Basis.exchange, isFirst, isSecond, shows a first, shows b second, shows w mem]

end

omit [DecidableEq α] [DecidableEq β] in
lemma Shows.allHold (shows : Shows wires place state image) (listed : ∀ c ∈ controls, c.1 ∈ wires) :
    allHold (controls.map fun c => (place c.1, c.2)) image = allHold controls state := by
  rw [Basis.allHold, all_map]
  exact all_eq_of_mem fun c mem => congrArg (· != c.2) (shows c.1 (listed c mem))

end

end Basis

namespace Circuit

open CircuitWorks.Basis in
def permuteGate (state : UnitId → Bool) : OpType → List UnitId → Option (UnitId → Bool)
  | .x, [t] => some (negate t state)
  | .cx, [a, t] => some (if state a then negate t state else state)
  | .ccx, [a, b, t] => some (if state a && state b then negate t state else state)
  | .cnx, args =>
    args.getLast?.map fun t => if args.dropLast.all state then negate t state else state
  | .swap, [a, b] => some (exchange a b state)
  | .cswap, [c, a, b] => some (if state c then exchange a b state else state)
  | _, _ => none

def permuteCommand (state : UnitId → Bool) (cmd : Command) : Option (UnitId → Bool) :=
  match cmd.op with
  | .gate type _ => permuteGate state type cmd.args
  | _ => none

def permute (c : Circuit) (state : UnitId → Bool) : Option (UnitId → Bool) :=
  c.commands.foldlM permuteCommand state

end Circuit

end CircuitWorks

namespace CircuitWorks.Quipper

open List UnitId Except

def Step.op (s : Step) : Op := .gate s.type (s.params.map Amount.ofFloat)

def Step.units (s : Step) : List UnitId := s.args.map qubit

def Step.command (s : Step) : Command := ⟨s.op, s.units⟩

lemma lift_eq_ok {a : α} : lift x = .ok a ↔ x = .ok a := by
  cases x <;> simp [lift]

lemma addStep_eq_ok (added : addStep c s = .ok d) :
    c.Accepts s.op s.units ∧ d = c.withCommand s.op s.units := by
  have gate := lift_eq_ok.mp added
  obtain ⟨op, made, placed⟩ := bind_eq_ok.mp gate
  obtain rfl := Circuit.gateOp_eq_ok made
  exact Circuit.addOp_eq_ok placed

lemma addSteps_eq_ok {steps : List Step} (added : steps.foldlM addStep c = .ok d) :
    (∀ s ∈ steps, c.Accepts s.op s.units) ∧ d = { c with commands := c.commands ++ steps.map Step.command } := by
  induction steps generalizing c with
  | nil =>
    obtain rfl := ok.inj added
    constructor
    · simp
    · cases c
      simp
  | cons s steps ih =>
    obtain ⟨e, first, later⟩ := bind_eq_ok.mp added
    obtain ⟨accepted, rfl⟩ := addStep_eq_ok first
    obtain ⟨others, rfl⟩ := ih later
    constructor
    · intro t mem
      rcases mem_cons.mp mem with rfl | inside
      · exact accepted
      · exact (others t inside).mono fun _ _ _ same => same
    · simp [Circuit.withCommand, Step.command]

lemma addSteps_ok {steps : List Step}
    (gates : ∀ s ∈ steps, Circuit.gateOp s.type (s.params.map Amount.ofFloat) = .ok s.op)
    (accepted : ∀ s ∈ steps, c.Accepts s.op s.units) : ∃ d, steps.foldlM addStep c = .ok d := by
  induction steps generalizing c with
  | nil => exact ⟨c, rfl⟩
  | cons s steps ih =>
    have first : addStep c s = .ok (c.withCommand s.op s.units) := by
      rw [addStep, Circuit.addGate, gates s (by simp)]
      exact lift_eq_ok.mpr (accepted s (by simp)).addOp
    rw [foldlM_cons, first]
    apply ih
    · exact fun t mem => gates t (.tail s mem)
    · exact fun t mem => (accepted t (.tail s mem)).mono fun _ _ _ same => same

lemma addBoxes_commands {box : Circuit} {args : List UnitId} {count : Nat}
    (added : addBoxes c box args count = .ok d) :
    d.commands = c.commands ++ List.replicate count ⟨.circBox box, args⟩ := by
  unfold addBoxes at added
  induction count generalizing d with
  | zero =>
    obtain rfl := ok.inj added
    simp
  | succ count ih =>
    rw [range_succ, foldlM_append] at added
    obtain ⟨e, before, last⟩ := bind_eq_ok.mp added
    obtain ⟨_, placed, same⟩ := bind_eq_ok.mp last
    obtain rfl := ok.inj same
    obtain ⟨_, rfl⟩ := Circuit.addOp_eq_ok (lift_eq_ok.mp placed)
    rw [Circuit.withCommand, ih before, append_assoc, replicate_succ']

lemma circuit_eq_ok {s : Source} :
    s.circuit = .ok c ↔ (s.subroutines.map (·.name)).Nodup ∧ s.main.inputs = s.main.outputs ∧
    s.main.gates.foldlM (addGate s.subroutines (build s.subroutines s.subroutines.length)
    (labels .qubit s.main.inputs) (labels .bit s.main.inputs))
    (Circuit.blank (labels .qubit s.main.inputs).length (labels .bit s.main.inputs).length) = .ok c := by
  unfold Source.circuit
  by_cases names : (s.subroutines.map (·.name)).Nodup
  · rw [if_neg (by simpa using names)]
    rw [build]
    by_cases matched : s.main.inputs = s.main.outputs
    · rw [if_neg (by simpa using matched)]
      exact ⟨fun made => ⟨names, matched, made⟩, fun made => made.2.2⟩
    · rw [if_pos matched]
      exact ⟨nofun, fun made => absurd made.2.1 matched⟩
  · rw [if_pos (by simpa using names)]
    exact ⟨nofun, fun made => absurd made.1 names⟩

open CircuitWorks.Basis Circuit

def permuteNamed {α : Type} [DecidableEq α] (name : GateName) (wires : List α)
    (controls : List (α × Bool)) (state : α → Bool) : α → Bool :=
  if allHold controls state then
    match name, wires with
    | .not, ws | .multiNot, ws => negateAll ws state
    | .swap, [a, b] => exchange a b state
    | _, _ => state
  else state

section

def runSteps (steps : List Step) (state : UnitId → Bool) : Option (UnitId → Bool) :=
  (steps.map Step.command).foldlM permuteCommand state

lemma runSteps_append (first second : List Step) (state : UnitId → Bool) :
    runSteps (first ++ second) state = (runSteps first state).bind (runSteps second) := by
  rw [runSteps, map_append, foldlM_append]
  rfl

lemma runSteps_single (s : Step) (state : UnitId → Bool) : runSteps [s] state = permuteGate state s.type s.units := by
  change (permuteGate state s.type s.units).bind some = _
  cases permuteGate state s.type s.units <;> rfl

lemma runSteps_flip (controls : List Nat) (t : Nat) (state : UnitId → Bool) : runSteps [flip controls t] state =
    some (if (controls.map qubit).all state then negate (qubit t) state else state) := by
  rw [runSteps_single]
  unfold flip
  split <;> simp [Step.units, permuteGate]

lemma qubit_injective : Function.Injective qubit := by
  intro i j same
  simpa [qubit] using same

lemma runSteps_flips {controls targets : List Nat} (apart : ∀ t ∈ targets, t ∉ controls)
    (state : UnitId → Bool) : runSteps (targets.map (flip controls)) state =
    some (if (controls.map qubit).all state then negateAll (targets.map qubit) state
    else state) := by
  induction targets generalizing state with
  | nil => simp [runSteps, negateAll]
  | cons t targets ih =>
    have later := ih fun u mem => apart u (.tail t mem)
    have absent : qubit t ∉ controls.map qubit := by
      rw [mem_map_of_injective qubit_injective]
      exact apart t (by simp)
    rw [map_cons, ← singleton_append, runSteps_append, runSteps_flip, Option.bind_some, later]
    cases all : (controls.map qubit).all state with
    | true => simp [all_negate absent, all, negateAll]
    | false => simp [all]

lemma runSteps_plain (targets : List Nat) (state : UnitId → Bool) :
    runSteps (targets.map (flip [])) state = some (negateAll (targets.map qubit) state) := by
  rw [runSteps_flips (by simp)]
  rfl

variable {name : GateName} {inverted : Bool} {wires : List Nat} {placed : List (Nat × Bool)} {ss : List Step}

def controlFlips {α : Type} (placed : List (Nat × Bool)) : List (StepOf α) :=
  (placed.filter (·.2)).map fun (i, _) => flip [] i

lemma runSteps_controlFlips (placed : List (Nat × Bool)) (state : UnitId → Bool) :
    runSteps (controlFlips placed) state =
    some (negateAll (((placed.map fun c => (qubit c.1, c.2)).filter (·.2)).map (·.1)) state) := by
  have same : (controlFlips placed : List Step) = ((placed.filter (·.2)).map (·.1)).map (flip []) := by
    rw [controlFlips, map_map]
    rfl
  rw [same, runSteps_plain, filter_map, map_map, map_map]
  rfl

lemma runSteps_between {act : (UnitId → Bool) → UnitId → Bool}
    (middle : ∀ state, runSteps ss state = some (act state)) (placed : List (Nat × Bool))
    (state : UnitId → Bool) : runSteps (controlFlips placed ++ ss ++ controlFlips placed) state =
    some (negateAll (((placed.map fun c => (qubit c.1, c.2)).filter (·.2)).map (·.1))
    (act (negateAll (((placed.map fun c => (qubit c.1, c.2)).filter (·.2)).map (·.1)) state))) := by
  rw [runSteps_append, runSteps_append, runSteps_controlFlips, Option.bind_some, middle,
    Option.bind_some, runSteps_controlFlips]

lemma map_units (placed : List (Nat × Bool)) :
    (placed.map fun c => (qubit c.1, c.2)).map (·.1) = (placed.map (·.1)).map qubit := by
  rw [map_map, map_map]
  rfl

lemma runSteps_negate (apart : ∀ c ∈ placed, c.1 ∉ wires)
    (distinct : wires = [] ∨ (placed.map (·.1)).Nodup) (state : UnitId → Bool) :
    runSteps (controlFlips placed ++ wires.map (flip (placed.map (·.1))) ++ controlFlips placed) state =
    some (if allHold (placed.map fun c => (qubit c.1, c.2)) state
    then negateAll (wires.map qubit) state else state) := by
  have others : ∀ t ∈ wires, t ∉ placed.map (·.1) := by
    intro t target control
    obtain ⟨c, mem, rfl⟩ := mem_map.mp control
    exact apart c mem target
  rw [runSteps_between (runSteps_flips others)]
  rcases distinct with rfl | distinct
  · simp only [map_nil, negateAll, foldl_nil, ite_self]
    exact congrArg some (negateAll_around _ [] state)
  · have units : ((placed.map fun c => (qubit c.1, c.2)).map (·.1)).Nodup := by
      rw [map_units]
      exact distinct.map qubit_injective
    rw [← map_units, all_negated units]
    cases allHold (placed.map fun c => (qubit c.1, c.2)) state with
    | true => exact congrArg some (negateAll_around _ _ state)
    | false => exact congrArg some (negateAll_around _ [] state)

lemma runSteps_exchange (apart : ∀ c ∈ placed, c.1 ∉ [a, b])
    (made : steps .swap inverted (placed.map (·.1)) [a, b] = .ok ss) (state : UnitId → Bool) :
    runSteps (controlFlips placed ++ ss ++ controlFlips placed) state =
    some (if allHold (placed.map fun c => (qubit c.1, c.2)) state
    then exchange (qubit a) (qubit b) state else state) := by
  have outside (w : Nat) (target : w ∈ [a, b]) : qubit w ∉
      ((placed.map fun c => (qubit c.1, c.2)).filter (·.2)).map (·.1) := by
    intro listed
    have inside := (filter_sublist.map _).subset listed
    rw [map_units, mem_map_of_injective qubit_injective] at inside
    obtain ⟨c, mem, rfl⟩ := mem_map.mp inside
    exact apart c mem target
  have around := exchange_around (outside a (by simp)) (outside b (by simp)) state
  rcases placed with _ | ⟨c, _ | ⟨d, rest⟩⟩
  · obtain rfl := ok.inj made
    exact runSteps_single _ state
  · obtain rfl := ok.inj made
    have middle (state : UnitId → Bool) : runSteps [⟨.cswap, [], [c.1, a, b]⟩] state =
        some (if state (qubit c.1) then exchange (qubit a) (qubit b) state
          else state) := runSteps_single _ state
    have once : ([(qubit c.1, c.2)].map (·.1)).Nodup := nodup_singleton _
    have holds := all_negated once state
    simp only [map_cons, map_nil, all_cons, all_nil, Bool.and_true] at holds
    refine (runSteps_between middle [c] state).trans ?_
    rw [map_cons, map_nil, holds]
    cases allHold [(qubit c.1, c.2)] state with
    | true => exact congrArg some around
    | false => exact congrArg some (negateAll_around _ [] state)
  · cases made

lemma runSteps_named (kind : name ∈ [.not, .multiNot, .swap]) (apart : ∀ c ∈ placed, c.1 ∉ wires)
    (allowed : name.allows wires.length = true) (distinct : name = .swap ∨ wires = [] ∨ (placed.map (·.1)).Nodup)
    (made : steps name inverted (placed.map (·.1)) wires = .ok ss) (state : UnitId → Bool) :
    runSteps (controlFlips placed ++ ss ++ controlFlips placed) state =
    some (permuteNamed name (wires.map qubit) (placed.map fun c => (qubit c.1, c.2)) state) := by
  simp only [mem_cons, not_mem_nil, or_false] at kind
  rcases kind with rfl | rfl | rfl
  · obtain rfl := ok.inj made
    exact runSteps_negate apart (distinct.resolve_left nofun) state
  · obtain rfl := ok.inj made
    exact runSteps_negate apart (distinct.resolve_left nofun) state
  · match wires, allowed with
    | [a, b], _ => exact runSteps_exchange apart made state

end

end CircuitWorks.Quipper

namespace CircuitWorks.Quipper

open List Circuit Except

section

variable {qubits : List Nat}

lemma place?_of_mem (distinct : qubits.Nodup) (mem : l ∈ qubits) : place? qubits l = some (qubits.idxOf l) := by
  unfold place?
  cases found : qubits.zipIdx.reverse.find? fun x => x.1 = l with
  | none =>
    have absent := find?_eq_none.mp found
    have listed : (l, qubits.idxOf l) ∈ qubits.zipIdx.reverse := by
      rw [mem_reverse, mem_zipIdx_iff_getElem?]
      exact getElem?_idxOf mem
    simpa using absent _ listed
  | some x =>
    have same := find?_some found
    have listed := mem_of_find?_eq_some found
    rw [mem_reverse, mem_zipIdx_iff_getElem?] at listed
    obtain ⟨bound, at_i⟩ := List.getElem?_eq_some_iff.mp listed
    have first : x.1 = l := by simpa using same
    rw [Option.map_some, ← first, ← at_i, distinct.idxOf_getElem]

lemma place?_of_not_mem (absent : l ∉ qubits) : place? qubits l = none := by
  rw [place?, Option.map_eq_none_iff, find?_eq_none]
  intro x listed
  rw [mem_reverse, mem_zipIdx_iff_getElem?] at listed
  have mem := mem_of_getElem? listed
  rw [decide_eq_true_eq]
  rintro rfl
  exact absent mem

lemma place_of_mem (distinct : qubits.Nodup) (mem : l ∈ qubits) : place qubits l = .ok (qubits.idxOf l) := by
  rw [place, place?_of_mem distinct mem]

def placedControls (qubits : List Nat) (controls : List Control) : List (Nat × Bool) :=
  controls.map fun c => (qubits.idxOf c.label, c.negative)

variable {name : GateName} {inverted : Bool} {controls : List Control} {wires bits : List Nat}

lemma namedSteps_declared (distinct : qubits.Nodup) (bits : List Nat)
    (declared : ∀ c ∈ controls, c.label ∈ qubits) (own : ∀ w ∈ wires, w ∈ qubits)
    (allowed : name.allows wires.length = true) : namedSteps qubits bits name inverted wires controls =
    (steps name inverted ((placedControls qubits controls).map (·.1))
    (wires.map fun w => qubits.idxOf w)).map fun ss => controlFlips (placedControls qubits controls) ++ ss ++
    controlFlips (placedControls qubits controls) := by
  have placed : (controls.filterMap fun c => (place? qubits c.label).map fun i => (i, c.negative)) =
      placedControls qubits controls := by
    rw [placedControls, ← filterMap_eq_map']
    apply filterMap_congr
    intro c mem
    rw [place?_of_mem distinct (declared c mem)]
    rfl
  have quantum : (controls.any fun c =>
      (place? qubits c.label).isNone && (place? bits c.label).isSome) = false := by
    rw [any_eq_false]
    intro c mem
    simp [place?_of_mem distinct (declared c mem)]
  have indices : wires.mapM (place qubits) = .ok (wires.map fun w => qubits.idxOf w) :=
    mapM_ok _ _ _ fun w mem => place_of_mem distinct (own w mem)
  simp only [namedSteps, placed, quantum, indices, Bool.false_eq_true, if_false, bind, Except.bind,
    length_map, allowed, Bool.not_true, pure, Except.pure]
  cases steps name inverted _ _ <;> rfl

lemma namedSteps_eq_ok (distinct : qubits.Nodup) {ss : List Step}
    (made : namedSteps qubits bits name inverted wires controls = .ok ss) :
    (∀ w ∈ wires, w ∈ qubits) ∧ name.allows wires.length = true := by
  rw [namedSteps] at made
  split_ifs at made with classical
  · cases made
  obtain ⟨indices, found, later⟩ := bind_eq_ok.mp made
  have own : ∀ w ∈ wires, w ∈ qubits := by
    intro w mem
    by_contra absent
    obtain ⟨i, _, placed⟩ := exists_of_mapM_eq_ok found w mem
    rw [place, place?_of_not_mem absent] at placed
    cases placed
  have same := mapM_ok _ _ _ fun w mem => place_of_mem distinct (own w mem)
  rw [same] at found
  obtain rfl := ok.inj found
  refine ⟨own, ?_⟩
  by_contra refused
  rw [if_pos (by simpa using refused)] at later
  cases later

lemma namedSteps_eq_ok_iff (distinct : qubits.Nodup) (declared : ∀ c ∈ controls, c.label ∈ qubits) {all : List Step} :
    namedSteps qubits bits name inverted wires controls = .ok all ↔
    (∀ w ∈ wires, w ∈ qubits) ∧ name.allows wires.length = true ∧
    ∃ ss, steps name inverted ((placedControls qubits controls).map (·.1))
    (wires.map fun w => qubits.idxOf w) = .ok ss ∧ all = controlFlips (placedControls qubits controls) ++ ss ++
    controlFlips (placedControls qubits controls) := by
  constructor
  · intro made
    obtain ⟨own, allowed⟩ := namedSteps_eq_ok distinct made
    rw [namedSteps_declared distinct bits declared own allowed] at made
    refine ⟨own, allowed, ?_⟩
    cases found : steps name inverted ((placedControls qubits controls).map (·.1))
        (wires.map fun w => qubits.idxOf w) with
    | error e =>
      rw [found] at made
      cases made
    | ok ss =>
      rw [found] at made
      exact ⟨ss, rfl, (ok.inj made).symm⟩
  · rintro ⟨own, allowed, ss, found, rfl⟩
    rw [namedSteps_declared distinct bits declared own allowed, found]
    rfl

end

variable {c : Circuit} (controls : List Nat)

section

structure Step.IsPlain (s : Step) : Prop where
  gate : gateOp s.type (s.params.map Amount.ofFloat) = .ok s.op
  wires : s.op.signature s.args.length = replicate s.args.length .quantum

lemma Step.IsPlain.accepts {s : Step} (plain : s.IsPlain)
    (units : c.qubits = (range n).map UnitId.qubit) :
    c.Accepts s.op s.units ↔ s.args ≠ [] ∧ s.args.Nodup ∧ ∀ i ∈ s.args, i < n := by
  have length : s.units.length = s.args.length := length_map _
  have present : (∀ u ∈ s.units, u ∈ c.qubits) ↔ ∀ i ∈ s.args, i < n := by
    simp only [Step.units, forall_mem_map, units, mem_map_of_injective qubit_injective, mem_range]
  rw [accepts_quantum (by rw [length, plain.wires]), present, Step.units, ne_eq, map_eq_nil_iff,
    nodup_map_iff qubit_injective]

lemma flip_args (t : Nat) : (flip controls t : StepOf α).args = controls ++ [t] := by
  unfold flip
  split <;> rfl

lemma flip_isPlain (t : Nat) : Step.IsPlain (flip controls t) := by
  unfold flip
  split
  · exact ⟨rfl, rfl⟩
  · exact ⟨rfl, rfl⟩
  · exact ⟨rfl, rfl⟩
  · exact ⟨rfl, rfl⟩

variable {name : GateName} {inverted : Bool} {cs ws : List Nat}

lemma steps_flips (flips : name ≠ .swap) (kind : name ∈ [.not, .multiNot, .swap]) :
    (steps name inverted cs ws : Except Error (List Step)) = .ok (ws.map (flip cs)) := by
  simp only [mem_cons, not_mem_nil, or_false] at kind
  rcases kind with rfl | rfl | rfl
  · rfl
  · rfl
  · exact absurd rfl flips

lemma steps_swap (inverted : Bool) (cs : List Nat) (allowed : GateName.allows .swap ws.length = true) :
    (cs.length ≤ 1 ∧ ∃ s : Step, steps .swap inverted cs ws = .ok [s] ∧ s.IsPlain ∧ s.args = cs ++ ws) ∨
    1 < cs.length ∧ ∀ ss : List Step, steps .swap inverted cs ws ≠ .ok ss := by
  obtain ⟨a, b, rfl⟩ := length_eq_two.mp (of_decide_eq_true allowed)
  rcases cs with _ | ⟨c, _ | ⟨d, rest⟩⟩
  · exact .inl ⟨by simp, _, rfl, ⟨rfl, rfl⟩, rfl⟩
  · exact .inl ⟨by simp, _, rfl, ⟨rfl, rfl⟩, rfl⟩
  · exact .inr ⟨by simp, nofun⟩

lemma steps_shape (kind : name ∈ [.not, .multiNot, .swap]) (allowed : name.allows ws.length = true)
    {ss : List Step} (made : steps name inverted cs ws = .ok ss) :
    ∀ s ∈ ss, s.IsPlain ∧ s.args ≠ [] ∧ ∀ i ∈ s.args, i ∈ cs ++ ws := by
  by_cases exchange : name = .swap
  · subst exchange
    rcases steps_swap inverted cs allowed with ⟨_, s, eq, plain, args⟩ | ⟨_, none_made⟩
    · rw [eq] at made
      obtain rfl := ok.inj made
      intro t mem
      rw [mem_singleton.mp mem, args]
      refine ⟨plain, ?_, fun i inside => inside⟩
      have two : ws.length = 2 := of_decide_eq_true allowed
      intro empty
      rw [(append_eq_nil_iff.mp empty).2] at two
      cases two
    · exact absurd made (none_made ss)
  · rw [steps_flips exchange kind] at made
    obtain rfl := ok.inj made
    intro s mem
    obtain ⟨t, target, rfl⟩ := mem_map.mp mem
    rw [flip_args]
    refine ⟨flip_isPlain cs t, by simp, fun i inside => ?_⟩
    rcases mem_append.mp inside with control | last
    · exact mem_append_left ws control
    · rw [mem_singleton.mp last]
      exact mem_append_right cs target

lemma steps_distinct (kind : name ∈ [.not, .multiNot, .swap])
    (allowed : name.allows ws.length = true) (apart : ∀ i ∈ cs, i ∉ ws) :
    (∃ ss : List Step, steps name inverted cs ws = .ok ss ∧ ∀ s ∈ ss, s.args.Nodup) ↔
    if name = .swap then ws.Nodup ∧ cs.length ≤ 1 else ws = [] ∨ cs.Nodup := by
  by_cases exchange : name = .swap
  · subst exchange
    rcases steps_swap inverted cs allowed with ⟨few, s, eq, _, args⟩ | ⟨many, none_made⟩
    · have split : s.args.Nodup ↔ ws.Nodup := by
        have once : cs.Nodup := by
          rcases cs with _ | ⟨c, _ | _⟩ <;> simp_all
        rw [args, nodup_append]
        constructor
        · exact fun all => all.2.1
        · intro own
          refine ⟨once, own, ?_⟩
          rintro i control _ target rfl
          exact apart i control target
      rw [eq]
      constructor
      · rintro ⟨ss, made, nodup⟩
        obtain rfl := ok.inj made
        exact ⟨split.mp (nodup s (by simp)), few⟩
      · rintro ⟨own, _⟩
        refine ⟨_, rfl, fun t mem => ?_⟩
        rw [mem_singleton.mp mem]
        exact split.mpr own
    · constructor
      · rintro ⟨ss, made, _⟩
        exact absurd made (none_made ss)
      · rintro ⟨_, few⟩
        omega
  · rw [if_neg exchange, steps_flips exchange kind]
    constructor
    · rintro ⟨ss, made, nodup⟩
      obtain rfl := ok.inj made
      cases ws with
      | nil => exact .inl rfl
      | cons t ws =>
        have first := nodup (flip cs t) (by simp)
        rw [flip_args] at first
        exact .inr first.of_append_left
    · intro possible
      refine ⟨_, rfl, fun s mem => ?_⟩
      obtain ⟨t, target, rfl⟩ := mem_map.mp mem
      rcases possible with rfl | nodup
      · cases target
      · rw [flip_args, nodup_append]
        refine ⟨nodup, nodup_singleton t, ?_⟩
        rintro i control _ last rfl
        rw [mem_singleton.mp last] at control
        exact apart t control target

lemma nodup_indices {qubits labels : List Nat} (listed : ∀ l ∈ labels, l ∈ qubits) :
    (labels.map fun l => qubits.idxOf l).Nodup ↔ labels.Nodup := by
  constructor
  · exact List.Nodup.of_map _
  · intro nodup
    exact nodup.map_on fun v first w second same => (idxOf_inj (listed v first)).mp same

lemma placedControls_fst (qubits : List Nat) (controls : List Control) :
    (placedControls qubits controls).map (·.1) = (controls.map (·.label)).map fun l => qubits.idxOf l := by
  rw [placedControls, map_map, map_map]
  rfl

end

section

variable [OfScientific α] [Neg α] {qubits bits wires : List Nat} {name : GateName} {inverted : Bool}
  {controls : List Control}

/-- The controls that are on qubits, with their places. -/
def foundControls (qubits : List Nat) (controls : List Control) : List (Nat × Bool) :=
  controls.filterMap fun c => (place? qubits c.label).map fun i => (i, c.negative)

lemma isSome_place? : (place? qubits l).isSome ↔ l ∈ qubits := by
  constructor
  · intro found
    by_contra absent
    rw [place?_of_not_mem absent] at found
    cases found
  · intro mem
    rw [place?, Option.isSome_map, find?_isSome]
    obtain ⟨i, at_i⟩ := getElem?_of_mem mem
    exact ⟨(l, i), mem_reverse.mpr (mem_zipIdx_iff_getElem?.mpr at_i), by simp⟩

lemma length_foundControls : (foundControls qubits controls).length = controls.length ↔
    ∀ c ∈ controls, c.label ∈ qubits := by
  rw [foundControls, length_filterMap_eq_countP, countP_eq_length]
  simp only [Option.isSome_map, isSome_place?]

/-- Controls on bits are refused, and those on wires that are not declared are left out. -/
lemma namedSteps_found {ss : List (StepOf α)} : namedSteps qubits bits name inverted wires controls = .ok ss ↔
    (∀ c ∈ controls, c.label ∈ bits → c.label ∈ qubits) ∧
    ∃ ws code, wires.mapM (place qubits) = .ok ws ∧ name.allows ws.length = true ∧
    steps name inverted ((foundControls qubits controls).map (·.1)) ws = .ok code ∧
    ss = controlFlips (foundControls qubits controls) ++ code ++ controlFlips (foundControls qubits controls) := by
  have classical : (controls.any fun c => (place? qubits c.label).isNone && (place? bits c.label).isSome) = true ↔
      ¬ ∀ c ∈ controls, c.label ∈ bits → c.label ∈ qubits := by
    simp [any_eq_true, ← isSome_place?, and_comm]
  rw [namedSteps]
  constructor
  · intro made
    split_ifs at made with refused
    · cases made
    obtain ⟨ws, placed, later⟩ := bind_eq_ok.mp made
    split_ifs at later with misfit
    · cases later
    obtain ⟨code, found, last⟩ := bind_eq_ok.mp later
    exact ⟨not_not.mp (mt classical.mpr refused), ws, code, placed, by simpa using misfit, found,
      (ok.inj last).symm⟩
  · rintro ⟨quantum, ws, code, placed, allowed, found, rfl⟩
    rw [if_neg (mt classical.mp (not_not.mpr quantum))]
    refine bind_eq_ok.mpr ⟨ws, placed, ?_⟩
    rw [allowed]
    exact bind_eq_ok.mpr ⟨code, found, rfl⟩

/-- The programs of which circuits are made: the main program, and the subroutines that these call. -/
inductive Source.Builds (s : Source) : Program → Prop
  | main : Builds s s.main
  | call {p : Program} {call : Call} {sub : Subroutine} (caller : Builds s p) (listed : .call call ∈ p.gates)
      (found : (s.subroutines.find? fun sub => sub.name = call.name) = some sub) : Builds s sub.body

variable {subs : List Subroutine} {gates : List Gate}

lemma addCall_eq_ok {build : Program → Except Error Circuit} {call : Call}
    (added : addCall subs build c call = .ok d) : ∃ sub body,
    (subs.find? fun sub => sub.name = call.name) = some sub ∧ build sub.body = .ok body ∧
    c.commands <+: d.commands := by
  rw [addCall] at added
  cases found : subs.find? fun sub => sub.name = call.name with
  | none =>
    rw [found] at added
    cases added
  | some sub =>
    rw [found] at added
    dsimp only at added
    iterate 3
      split at added
      · cases added
    obtain ⟨body, inner, boxes⟩ := bind_eq_ok.mp added
    exact ⟨sub, body, rfl, inner, _, (addBoxes_commands boxes).symm⟩

lemma addGate_grows {build : Program → Except Error Circuit} {gate : Gate}
    (added : addGate subs build qubits bits c gate = .ok d) : c.commands <+: d.commands := by
  have grows : ∀ {s : Step}, addStep c s = .ok d → c.commands <+: d.commands := fun added => by
    rw [(addStep_eq_ok added).2]
    exact prefix_append ..
  cases gate with
  | call call =>
    obtain ⟨_, _, -, -, grown⟩ := addCall_eq_ok added
    exact grown
  | named =>
    obtain ⟨ss, -, run⟩ := bind_eq_ok.mp added
    rw [(addSteps_eq_ok run).2]
    exact prefix_append ..
  | exponential =>
    obtain ⟨i, -, own⟩ := bind_eq_ok.mp added
    exact grows own
  | fraction n =>
    obtain ⟨i, -, own⟩ := bind_eq_ok.mp added
    split at own
    · cases own
    · exact grows own
  | event =>
    obtain ⟨i, -, own⟩ := bind_eq_ok.mp added
    cases own
  | comment => exact ok.inj added ▸ prefix_rfl
  | other => cases added

lemma addGates_grow {build : Program → Except Error Circuit}
    (made : gates.foldlM (addGate subs build qubits bits) c = .ok d) : c.commands <+: d.commands := by
  induction gates generalizing c with
  | nil => exact ok.inj made ▸ prefix_rfl
  | cons first rest ih =>
    obtain ⟨e, own, later⟩ := bind_eq_ok.mp made
    exact (addGate_grows own).trans (ih later)

lemma exists_addGate {build : Program → Except Error Circuit}
    (made : gates.foldlM (addGate subs build qubits bits) c = .ok d) {gate : Gate} (listed : gate ∈ gates) :
    ∃ before after, addGate subs build qubits bits before gate = .ok after ∧ after.commands <+: d.commands := by
  induction gates generalizing c with
  | nil => cases listed
  | cons first rest ih =>
    obtain ⟨e, own, later⟩ := bind_eq_ok.mp made
    rcases mem_cons.mp listed with rfl | inside
    · exact ⟨c, e, own, addGates_grow later⟩
    · exact ih later inside

lemma build_eq_ok {depth : Nat} {p : Program} (made : build subs depth p = .ok c) : ∃ below,
    p.gates.foldlM (addGate subs (build subs below) (labels .qubit p.inputs) (labels .bit p.inputs))
    (blank (labels .qubit p.inputs).length (labels .bit p.inputs).length) = .ok c := by
  cases depth with
  | zero => cases made
  | succ below =>
    rw [build] at made
    split_ifs at made
    · cases made
    · exact ⟨below, made⟩

lemma Source.Builds.exists_build {s : Source} (made : s.circuit = .ok c) (built : s.Builds p) :
    ∃ depth d, build s.subroutines depth p = .ok d := by
  induction built with
  | main =>
    rw [Source.circuit] at made
    split_ifs at made
    · cases made
    · exact ⟨_, c, made⟩
  | @call p call sub caller listed found ih =>
    obtain ⟨depth, d, outer⟩ := ih
    obtain ⟨below, run⟩ := build_eq_ok outer
    obtain ⟨before, after, added, -⟩ := exists_addGate run listed
    obtain ⟨sub, body, found', inner, -⟩ := addCall_eq_ok added
    obtain rfl := Option.some.inj (found.symm.trans found')
    exact ⟨below, body, inner⟩

/-- The circuit of each program that is built has the steps of each of its gates, under those controls that are
on declared qubits. These are all of its controls just when all are on declared wires. -/
theorem circuit_controls {s : Source} {c : Circuit} (made : s.circuit = .ok c) {p : Program} (built : s.Builds p)
    (listed : .named name inverted wires controls ∈ p.gates) :
    ∃ (found : List (Nat × Bool)) (ws : List Nat) (code : List Step) (depth : Nat) (d : Circuit),
      found = foundControls (labels .qubit p.inputs) controls ∧
      steps name inverted (found.map (·.1)) ws = .ok code ∧
      build s.subroutines depth p = .ok d ∧
      (controlFlips found ++ code ++ controlFlips found).map Step.command <:+: d.commands ∧
      (found.length = controls.length ↔ ∀ c ∈ controls, ∃ w ∈ p.inputs, w.label = c.label) := by
  obtain ⟨depth, d, whole⟩ := built.exists_build made
  obtain ⟨below, run⟩ := build_eq_ok whole
  obtain ⟨before, after, added, kept⟩ := exists_addGate run listed
  obtain ⟨ss, emitted, run⟩ := bind_eq_ok.mp added
  obtain ⟨quantum, ws, code, -, -, own, rfl⟩ := namedSteps_found.mp emitted
  refine ⟨_, ws, code, depth, d, rfl, own, whole, ?_, ?_⟩
  · rw [(addSteps_eq_ok run).2] at kept
    exact (suffix_append ..).isInfix.trans kept.isInfix
  · rw [length_foundControls]
    refine forall₂_congr fun c mem => ?_
    constructor
    · intro qubit
      obtain ⟨w, inside, same⟩ := mem_map.mp qubit
      exact ⟨w, (mem_filter.mp inside).1, same⟩
    · rintro ⟨w, inside, same⟩
      cases kind : w.type with
      | qubit => exact mem_map.mpr ⟨w, mem_filter.mpr ⟨inside, by simp [kind]⟩, same⟩
      | bit => exact quantum c mem (mem_map.mpr ⟨w, mem_filter.mpr ⟨inside, by simp [kind]⟩, same⟩)

def looseControl : Source where
  main :=
    { inputs := [⟨0, .qubit⟩]
      gates := [.named .not false [0] [⟨5, false⟩]]
      outputs := [⟨0, .qubit⟩] }
  subroutines := []

theorem circuit_controls_loose : ∃ c found, looseControl.circuit = .ok c ∧
    found = foundControls [0] [⟨5, false⟩] ∧ found.length ≠ [(⟨5, false⟩ : Control)].length := by
  have made : ∃ c, looseControl.circuit = .ok c := ⟨_, rfl⟩
  obtain ⟨c, made⟩ := made
  obtain ⟨found, _, _, _, _, same, -, -, -, count⟩ := circuit_controls made .main (mem_singleton_self _)
  exact ⟨c, found, made, same, mt count.mp (by decide)⟩

end

end CircuitWorks.Quipper
