import CircuitWorks.Proofs.Quipper.Placement

/-!
Programs of flips and exchanges. Such a program permutes the basis states: each gate acts if its
positive controls are 1 and its negative controls 0.
-/

namespace CircuitWorks.Quipper

section

open List CircuitWorks.Basis Circuit UnitId

variable {controls : List Control} {wires : List Nat}

/-- What a gate does to a basis state; gates other than flips and exchanges are left out. -/
def Gate.permute (state : Nat → Bool) : Gate → Nat → Bool
  | .named name _ wires controls =>
    permuteNamed name wires (controls.map fun c => (c.label, c.negative)) state
  | _ => state

def Program.permute (p : Program) (state : Nat → Bool) : Nat → Bool :=
  p.gates.foldl Gate.permute state

/-- A flip or an exchange, under controls on declared wires other than its own, or a comment. -/
def Gate.Permutes (qubits : List Nat) : Gate → Prop
  | .named name _ wires controls =>
    name ∈ [.not, .multiNot, .swap] ∧ ∀ c ∈ controls, c.label ∈ qubits ∧ c.label ∉ wires
  | .comment => True
  | _ => False

/-- What a flip or an exchange needs to have a circuit: declared wires in the number that its name
asks for, and distinct arguments for each gate that is made; an exchange has at most one control. -/
def Gate.IsPossible (qubits : List Nat) : Gate → Prop
  | .named name _ wires controls =>
    (∀ w ∈ wires, w ∈ qubits) ∧ name.allows wires.length = true ∧
      if name = .swap then wires.Nodup ∧ controls.length ≤ 1
      else wires = [] ∨ (controls.map (·.label)).Nodup
  | _ => True

section

def unitOf (qubits : List Nat) (l : Nat) : UnitId := qubit (qubits.idxOf l)

lemma unitOf_injective (qubits : List Nat) : ∀ v ∈ qubits, ∀ w ∈ qubits, unitOf qubits v = unitOf qubits w → v = w :=
  fun _ first _ _ same => (idxOf_inj first).mp (qubit_injective same)

lemma permuteNamed_shows [DecidableEq α] [DecidableEq β] {listed wires : List α}
    {place : α → β} {state : α → Bool} {image : β → Bool} (shows : Shows listed place state image)
    (injective : ∀ v ∈ listed, ∀ w ∈ listed, place v = place w → v = w) (name : GateName)
    {controls : List (α × Bool)} (own : ∀ w ∈ wires, w ∈ listed) (declared : ∀ c ∈ controls, c.1 ∈ listed) :
    Shows listed place (permuteNamed name wires controls state)
    (permuteNamed name (wires.map place) (controls.map fun c => (place c.1, c.2)) image) := by
  unfold permuteNamed
  rw [shows.allHold declared]
  split_ifs
  · cases name with
    | not | multiNot => exact shows.negateAll injective own
    | swap =>
      rcases wires with _ | ⟨a, _ | ⟨b, _ | ⟨_, _⟩⟩⟩
      · exact shows
      · exact shows
      · exact shows.exchange injective (own a (by simp)) (own b (by simp))
      · exact shows
    | _ => exact shows
  · exact shows

lemma permuteNamed_of_not_mem [DecidableEq α] {wires : List α} (absent : u ∉ wires)
    (name : GateName) (controls : List (α × Bool)) (state : α → Bool) :
    permuteNamed name wires controls state u = state u := by
  unfold permuteNamed
  split_ifs
  · split
    · exact negateAll_of_not_mem absent state
    · exact negateAll_of_not_mem absent state
    · rename_i a b
      rw [exchange, if_neg fun same => absent (by simp [same]), if_neg fun same => absent (by simp [same])]
    · rfl
  · rfl

variable {qubits bits : List Nat} {subs : List Subroutine} {build : Program → Except Error Circuit}
  {gate : Gate} {c d : Circuit} {name : GateName} {inverted : Bool}

lemma placed_apart (declared : ∀ c ∈ controls, c.label ∈ qubits ∧ c.label ∉ wires) :
    ∀ p ∈ placedControls qubits controls, p.1 ∉ wires.map fun w => qubits.idxOf w := by
  intro p mem target
  obtain ⟨c, control, rfl⟩ := mem_map.mp mem
  obtain ⟨w, own, same⟩ := mem_map.mp target
  obtain rfl := (idxOf_inj (declared c control).1).mp same.symm
  exact (declared c control).2 own

lemma steps_possible (kind : name ∈ [.not, .multiNot, .swap])
    (declared : ∀ c ∈ controls, c.label ∈ qubits ∧ c.label ∉ wires) (own : ∀ w ∈ wires, w ∈ qubits)
    (allowed : name.allows wires.length = true) :
    (∃ ss : List Step, steps name inverted ((placedControls qubits controls).map (·.1))
    (wires.map fun w => qubits.idxOf w) = .ok ss ∧ ∀ s ∈ ss, s.args.Nodup) ↔
    (Gate.named name inverted wires controls).IsPossible qubits := by
  have apart : ∀ i ∈ (placedControls qubits controls).map (·.1), i ∉ wires.map fun w => qubits.idxOf w := by
    intro i mem
    obtain ⟨p, control, rfl⟩ := mem_map.mp mem
    exact placed_apart declared p control
  have listed : ∀ l ∈ controls.map (·.label), l ∈ qubits := by
    intro l mem
    obtain ⟨c, control, rfl⟩ := mem_map.mp mem
    exact (declared c control).1
  rw [steps_distinct kind (by rwa [length_map]) apart, placedControls_fst, nodup_indices own,
    nodup_indices listed, length_map, length_map, map_eq_nil_iff]
  exact ⟨fun possible => ⟨own, allowed, possible⟩, fun possible => possible.2.2⟩

lemma addSteps_iff {placed : List (Nat × Bool)} {ws : List Nat} (kind : name ∈ [.not, .multiNot, .swap])
    (allowed : name.allows ws.length = true) (units : c.qubits = (range n).map qubit)
    (inside : ∀ i ∈ placed.map (·.1) ++ ws, i < n) {ss : List Step}
    (made : steps name inverted (placed.map (·.1)) ws = .ok ss) :
    (∃ d, (controlFlips placed ++ ss ++ controlFlips placed).foldlM addStep c = .ok d) ↔ ∀ s ∈ ss, s.args.Nodup := by
  have shape := steps_shape kind allowed made
  constructor
  · rintro ⟨d, added⟩ s mem
    have accepted := (addSteps_eq_ok added).1 s (by simp [mem])
    exact ((shape s mem).1.accepts units).mp accepted |>.2.1
  · intro distinct
    have fits : ∀ s ∈ controlFlips placed ++ ss ++ controlFlips placed,
        Step.IsPlain s ∧ s.args ≠ [] ∧ s.args.Nodup ∧ ∀ i ∈ s.args, i < n := by
      have flips : ∀ s ∈ controlFlips placed, Step.IsPlain s ∧ s.args ≠ [] ∧ s.args.Nodup ∧ ∀ i ∈ s.args, i < n := by
        intro s mem
        obtain ⟨p, negative, rfl⟩ := mem_map.mp mem
        have below := inside p.1 (mem_append_left ws
          (mem_map_of_mem (mem_of_mem_filter negative)))
        rw [flip_args]
        exact ⟨flip_isPlain [] p.1, by simp, by simp, by simpa using below⟩
      intro s mem
      rcases mem_append.mp mem with front | last
      · rcases mem_append.mp front with first | middle
        · exact flips s first
        · obtain ⟨plain, ne, own⟩ := shape s middle
          exact ⟨plain, ne, distinct s middle, fun i listed => inside i (own i listed)⟩
      · exact flips s last
    apply addSteps_ok
    · exact fun s mem => (fits s mem).1.gate
    · exact fun s mem => ((fits s mem).1.accepts units).mpr (fits s mem).2

lemma placed_inside (declared : ∀ c ∈ controls, c.label ∈ qubits) (own : ∀ w ∈ wires, w ∈ qubits) :
    ∀ i ∈ (placedControls qubits controls).map (·.1) ++ wires.map fun w => qubits.idxOf w, i < qubits.length := by
  intro i mem
  rw [placedControls_fst, ← map_append] at mem
  obtain ⟨l, listed, rfl⟩ := mem_map.mp mem
  apply idxOf_lt_length_of_mem
  rcases mem_append.mp listed with control | wire
  · obtain ⟨c, inside, rfl⟩ := mem_map.mp control
    exact declared c inside
  · exact own l wire

section

variable (distinct : qubits.Nodup) (permutes : gate.Permutes qubits)
  (units : c.qubits = (range qubits.length).map qubit)

include distinct permutes units

lemma added_iff : (∃ d, addGate subs build qubits bits c gate = .ok d) ↔ gate.IsPossible qubits := by
  cases gate with
  | named name inverted wires controls =>
    obtain ⟨kind, declared⟩ := permutes
    have listed : ∀ c ∈ controls, c.label ∈ qubits := fun c mem => (declared c mem).1
    constructor
    · rintro ⟨d, added⟩
      obtain ⟨all, made, run⟩ := bind_eq_ok.mp added
      obtain ⟨own, allowed, ss, found, rfl⟩ := (namedSteps_eq_ok_iff distinct listed).mp made
      have fits := addSteps_iff kind (by rwa [length_map]) units (placed_inside listed own) found
      exact (steps_possible kind declared own allowed).mp ⟨ss, found, fits.mp ⟨d, run⟩⟩
    · intro possible
      have own := possible.1
      have allowed := possible.2.1
      obtain ⟨ss, found, once⟩ := (steps_possible kind declared own allowed).mpr possible
      have fits := addSteps_iff kind (by rwa [length_map]) units (placed_inside listed own) found
      obtain ⟨d, run⟩ := fits.mpr once
      exact ⟨d, bind_eq_ok.mpr
        ⟨_, (namedSteps_eq_ok_iff distinct listed).mpr ⟨own, allowed, ss, found, rfl⟩, run⟩⟩
  | comment => exact ⟨fun _ => trivial, fun _ => ⟨c, rfl⟩⟩
  | exponential | fraction | event | call | other => exact permutes.elim

lemma added_effect (added : addGate subs build qubits bits c gate = .ok d) :
    d.qubits = c.qubits ∧ ∃ new, d.commands = c.commands ++ new ∧
    ∀ state image, Shows qubits (unitOf qubits) state image → ∃ image', new.foldlM permuteCommand image = some image' ∧
    Shows qubits (unitOf qubits) (gate.permute state) image' ∧ ∀ u ∉ c.qubits, image' u = image u := by
  have possible := (added_iff distinct permutes units).mp ⟨d, added⟩
  cases gate with
  | named name inverted wires controls =>
    obtain ⟨kind, declared⟩ := permutes
    have listed : ∀ c ∈ controls, c.label ∈ qubits := fun c mem => (declared c mem).1
    obtain ⟨all, made, run⟩ := bind_eq_ok.mp added
    obtain ⟨own, allowed, ss, found, rfl⟩ := (namedSteps_eq_ok_iff distinct listed).mp made
    obtain ⟨-, rfl⟩ := addSteps_eq_ok run
    have once : name = .swap ∨ (wires.map fun w => qubits.idxOf w) = [] ∨
        ((placedControls qubits controls).map (·.1)).Nodup := by
      by_cases exchange : name = .swap
      · exact .inl exchange
      · have apart := possible.2.2
        rw [if_neg exchange] at apart
        rw [map_eq_nil_iff, placedControls_fst, nodup_indices (by simpa using listed)]
        exact .inr apart
    have wired : (wires.map fun w => qubits.idxOf w).map qubit = wires.map (unitOf qubits) := map_map
    have controlled : (placedControls qubits controls).map (fun c => (qubit c.1, c.2)) =
        (controls.map fun c => (c.label, c.negative)).map fun c => (unitOf qubits c.1, c.2) := by
      rw [placedControls, map_map, map_map]
      rfl
    refine ⟨rfl, _, rfl, fun state image shows => ?_⟩
    have effect := runSteps_named kind (placed_apart declared) (by rwa [length_map]) once found
      image
    rw [wired, controlled] at effect
    refine ⟨_, effect, permuteNamed_shows shows (unitOf_injective qubits) name own ?_, ?_⟩
    · simpa using listed
    · intro u outside
      apply permuteNamed_of_not_mem
      intro inside
      obtain ⟨w, mem, rfl⟩ := mem_map.mp inside
      apply outside
      rw [units]
      exact mem_map_of_mem (mem_range.mpr (idxOf_lt_length_of_mem (own w mem)))
  | comment =>
    obtain rfl := Except.ok.inj added
    exact ⟨rfl, [], by simp, fun state image shows => ⟨image, rfl, shows, fun _ _ => rfl⟩⟩
  | exponential | fraction | event | call | other => exact permutes.elim

end

end

section

variable {qubits bits : List Nat} {subs : List Subroutine} {build : Program → Except Error Circuit}
  {gates : List Gate} {c d : Circuit}

section

variable (distinct : qubits.Nodup) (permutes : ∀ g ∈ gates, g.Permutes qubits)
  (units : c.qubits = (range qubits.length).map qubit)

include distinct permutes units

lemma run_iff :
    (∃ d, gates.foldlM (addGate subs build qubits bits) c = .ok d) ↔ ∀ g ∈ gates, g.IsPossible qubits := by
  induction gates generalizing c with
  | nil => exact ⟨fun _ => by simp, fun _ => ⟨c, rfl⟩⟩
  | cons g gates ih =>
    have first := permutes g (by simp)
    have others := fun h mem => permutes h (.tail g mem)
    rw [forall_mem_cons, foldlM_cons]
    constructor
    · rintro ⟨d, added⟩
      obtain ⟨e, one, rest⟩ := bind_eq_ok.mp added
      have same := (added_effect distinct first units one).1
      exact ⟨(added_iff distinct first units).mp ⟨e, one⟩, (ih others (same.trans units)).mp ⟨d, rest⟩⟩
    · rintro ⟨possible, later⟩
      obtain ⟨e, one⟩ := (added_iff distinct first units).mpr possible
      have same := (added_effect distinct first units one).1
      obtain ⟨d, rest⟩ := (ih others (same.trans units)).mpr later
      exact ⟨d, bind_eq_ok.mpr ⟨e, one, rest⟩⟩

lemma run_effect (added : gates.foldlM (addGate subs build qubits bits) c = .ok d) :
    d.qubits = c.qubits ∧ ∃ new, d.commands = c.commands ++ new ∧
    ∀ state image, Shows qubits (unitOf qubits) state image → ∃ image', new.foldlM permuteCommand image = some image' ∧
    Shows qubits (unitOf qubits) (gates.foldl Gate.permute state) image' ∧ ∀ u ∉ c.qubits, image' u = image u := by
  induction gates generalizing c with
  | nil =>
    obtain rfl := Except.ok.inj added
    exact ⟨rfl, [], by simp, fun state image shows => ⟨image, rfl, shows, fun _ _ => rfl⟩⟩
  | cons g gates ih =>
    obtain ⟨e, one, rest⟩ := bind_eq_ok.mp added
    obtain ⟨same, new, grown, effect⟩ := added_effect distinct (permutes g (by simp)) units one
    obtain ⟨same', new', grown', effect'⟩ :=
      ih (fun h mem => permutes h (.tail g mem)) (same.trans units) rest
    refine ⟨same'.trans same, new ++ new', by rw [grown', grown, append_assoc], ?_⟩
    intro state image shows
    obtain ⟨middle, run, between, kept⟩ := effect state image shows
    obtain ⟨last, run', final, kept'⟩ := effect' _ middle between
    refine ⟨last, ?_, final, fun u outside => ?_⟩
    · rw [foldlM_append, run]
      exact run'
    · rw [kept' u (same ▸ outside), kept u outside]

end

end

/-- The circuit of a program of flips and exchanges. It exists just when the names of subroutines are
distinct, the outputs are the inputs and every gate is possible; and it takes every basis state to the
one to which the program takes it, and leaves all other units as they are. -/
theorem circuit_permutes (s : Source) (distinct : (s.main.inputs.map (·.label)).Nodup)
    (permutes : ∀ g ∈ s.main.gates, g.Permutes (labels .qubit s.main.inputs)) :
    ((∃ c, s.circuit = .ok c) ↔
      (s.subroutines.map (·.name)).Nodup ∧ s.main.inputs = s.main.outputs ∧
        ∀ g ∈ s.main.gates, g.IsPossible (labels .qubit s.main.inputs)) ∧
    ∀ c, s.circuit = .ok c → ∀ state image,
      Shows (labels .qubit s.main.inputs) (unitOf (labels .qubit s.main.inputs)) state image →
      ∃ image', c.permute image = some image' ∧
        Shows (labels .qubit s.main.inputs) (unitOf (labels .qubit s.main.inputs))
          (s.main.permute state) image' ∧
        ∀ u ∉ c.qubits, image' u = image u := by
  have once : (labels .qubit s.main.inputs).Nodup := distinct.sublist (List.filter_sublist.map _)
  have units : (blank (labels .qubit s.main.inputs).length (labels .bit s.main.inputs).length).qubits =
      (List.range (labels .qubit s.main.inputs).length).map UnitId.qubit := rfl
  constructor
  · constructor
    · rintro ⟨c, made⟩
      obtain ⟨names, matched, run⟩ := circuit_eq_ok.mp made
      exact ⟨names, matched, (run_iff once permutes units).mp ⟨c, run⟩⟩
    · rintro ⟨names, matched, possible⟩
      obtain ⟨c, run⟩ := (run_iff once permutes units).mpr possible
      exact ⟨c, circuit_eq_ok.mpr ⟨names, matched, run⟩⟩
  · intro c made state image shows
    obtain ⟨same, new, grown, effect⟩ := run_effect once permutes units (circuit_eq_ok.mp made).2.2
    obtain ⟨image', run, final, kept⟩ := effect state image shows
    refine ⟨image', ?_, final, same ▸ kept⟩
    rw [Circuit.permute, grown]
    exact run

/-- Flips under a negative control, of two wires and under three controls, and an exchange. -/
def mixedProgram : Source where
  main :=
    { inputs := [⟨7, .qubit⟩, ⟨3, .qubit⟩, ⟨9, .bit⟩, ⟨5, .qubit⟩, ⟨0, .qubit⟩]
      gates :=
        [.named .not false [3] [⟨7, true⟩], .named .multiNot false [5, 0] [⟨3, false⟩],
         .comment, .named .swap true [7, 0] [⟨5, false⟩],
         .named .not false [5] [⟨7, false⟩, ⟨3, false⟩, ⟨0, true⟩]]
      outputs := [⟨7, .qubit⟩, ⟨3, .qubit⟩, ⟨9, .bit⟩, ⟨5, .qubit⟩, ⟨0, .qubit⟩] }
  subroutines := []

theorem circuit_permutes_mixed :
    (mixedProgram.main.inputs.map (·.label)).Nodup ∧
      (∀ g ∈ mixedProgram.main.gates, g.Permutes (labels .qubit mixedProgram.main.inputs)) ∧
      ∃ c image, mixedProgram.circuit = .ok c ∧ c.permute (fun _ => false) = some image ∧
        [0, 1, 2, 3].map (fun i => image (.qubit i)) = [true, true, false, false] := by
  have distinct : (mixedProgram.main.inputs.map (·.label)).Nodup := by decide
  have permutes : ∀ g ∈ mixedProgram.main.gates,
      g.Permutes (labels .qubit mixedProgram.main.inputs) := by
    simp [mixedProgram, Gate.Permutes, labels]
  have possible : ∀ g ∈ mixedProgram.main.gates,
      g.IsPossible (labels .qubit mixedProgram.main.inputs) := by
    simp [mixedProgram, Gate.IsPossible, labels, GateName.allows]
  obtain ⟨exact_when, effect⟩ := circuit_permutes mixedProgram distinct permutes
  obtain ⟨c, made⟩ := exact_when.mpr ⟨by decide, rfl, possible⟩
  obtain ⟨image, run, shows, _⟩ := effect c made (fun _ => false) (fun _ => false) fun _ _ => rfl
  have values : (labels .qubit mixedProgram.main.inputs).map
      (fun l => image (unitOf (labels .qubit mixedProgram.main.inputs) l)) =
      [true, true, false, false] := by
    rw [List.map_congr_left shows]
    decide
  exact ⟨distinct, permutes, c, image, made, run, values⟩

end

open List Subroutine Function

def Wire.rename (f : Nat → Nat) (w : Wire) : Wire := { w with label := f w.label }

def Control.rename (f : Nat → Nat) (c : Control) : Control := { c with label := f c.label }

/-- The gate with `f` applied to its labels, but `g` to those in the argument lists of a call. -/
def Gate.rename (f g : Nat → Nat) : Gate → Gate
  | .named name inverted wires controls =>
    .named name inverted (wires.map f) (controls.map (Control.rename f))
  | .exponential t inverted wire => .exponential t inverted (f wire)
  | .fraction n inverted wire => .fraction n inverted (f wire)
  | .event e wire => .event e (f wire)
  | .call c =>
    .call { c with
      inputs := c.inputs.map g
      outputs := c.outputs.map g
      controls := c.controls.map (Control.rename f) }
  | .comment => .comment
  | .other => .other

def Program.rename (f g : Nat → Nat) (p : Program) : Program where
  inputs := p.inputs.map (Wire.rename f)
  gates := p.gates.map (Gate.rename f g)
  outputs := p.outputs.map (Wire.rename f)

/-- New labels for the main program and, independently, for the subroutine of each name. -/
structure Renaming where
  main : Nat → Nat
  body : String → Nat → Nat

namespace Renaming

def identity : Renaming := ⟨id, fun _ => id⟩

end Renaming

def Subroutine.rename (r t : Renaming) (s : Subroutine) : Subroutine :=
  { s with body := s.body.rename (r.body s.name) (t.body s.name) }

/-- The source with `r` applied to its labels, but `t` to those in the argument lists of calls. -/
def Source.rename (r t : Renaming) (s : Source) : Source where
  main := s.main.rename r.main t.main
  subroutines := s.subroutines.map (Subroutine.rename r t)

lemma Wire.rename_injective (injective : Injective f) : Injective (Wire.rename f) := by
  rintro ⟨v, _⟩ ⟨w, _⟩ same
  obtain ⟨label, type⟩ := Wire.mk.inj same
  exact congrArg₂ Wire.mk (injective label) type

variable {subroutines : List Subroutine} {call : Call}

section

variable {first second : Program → Except Error Circuit}

end

section

/-- The renaming leaves the labels in all argument lists of calls as they are. -/
structure Renaming.FixesCalls (r : Renaming) (s : Source) : Prop where
  main : ∀ call, .call call ∈ s.main.gates → ∀ l ∈ call.inputs ++ call.outputs, r.main l = l
  body : ∀ t ∈ s.subroutines, ∀ call, .call call ∈ t.body.gates →
    ∀ l ∈ call.inputs ++ call.outputs, r.body t.name l = l

lemma map_fixed {α : Type} {f : α → α} {xs : List α} (fixed : ∀ x ∈ xs, f x = x) : xs.map f = xs :=
  (map_congr_left fixed).trans (map_id' xs)

lemma Gate.rename_fixed (gate : Gate)
    (fixed : ∀ call, gate = .call call → ∀ l ∈ call.inputs ++ call.outputs, g l = l) : gate.rename id g = gate := by
  have plain : Control.rename id = id := rfl
  cases gate with
  | call call =>
    have same := fixed call rfl
    have inputs := map_fixed fun l mem => same l (mem_append_left _ mem)
    have outputs := map_fixed fun l mem => same l (mem_append_right _ mem)
    simp [Gate.rename, inputs, outputs, plain]
  | named name inverted wires controls => simp [Gate.rename, plain]
  | exponential x inverted wire => rfl
  | fraction n inverted wire => rfl
  | event e wire => rfl
  | comment => rfl
  | other => rfl

lemma Program.rename_fixed (p : Program)
    (fixed : ∀ call, .call call ∈ p.gates → ∀ l ∈ call.inputs ++ call.outputs, g l = l) : p.rename id g = p := by
  have plain : Wire.rename id = id := rfl
  have gates : p.gates.map (Gate.rename id g) = p.gates := by
    apply map_fixed
    intro gate mem
    apply gate.rename_fixed
    rintro call rfl
    exact fixed call mem
  simp [Program.rename, plain, gates]

lemma Source.rename_fixed {s : Source} (fixed : r.FixesCalls s) : s.rename .identity r = s := by
  have subroutines : s.subroutines.map (Subroutine.rename .identity r) = s.subroutines := by
    apply map_fixed
    intro t mem
    have body := t.body.rename_fixed (fixed.body t mem)
    exact congrArg (fun p => { t with body := p }) body
  have main := s.main.rename_fixed fixed.main
  exact congrArg₂ Source.mk main subroutines

variable {build build' : Program → Except Error Circuit} {gate : Gate}
  {subs subs' : List Subroutine} {qubits bits : List Nat}

end

def crossed : Source where
  main :=
    { inputs := [⟨1, .qubit⟩, ⟨0, .qubit⟩]
      gates := [.call ⟨1, "s", "a", false, [1, 0], [1, 0], []⟩]
      outputs := [⟨1, .qubit⟩, ⟨0, .qubit⟩] }
  subroutines :=
    [⟨"s", "a",
      { inputs := [⟨0, .qubit⟩, ⟨1, .qubit⟩]
        gates := [.named .not false [0] []]
        outputs := [⟨0, .qubit⟩, ⟨1, .qubit⟩] }⟩]

def exchange : Renaming := ⟨fun l => if l = 0 then 1 else if l = 1 then 0 else l, fun _ => id⟩

end CircuitWorks.Quipper
