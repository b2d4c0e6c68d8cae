import CircuitWorks.Circuit.Basic

/-!
Measurements of Pauli strings, to the first bits, and those that a circuit has at its end and before;
circuits that follow an operator term by term; and how a circuit is made ready for a device.
-/

namespace CircuitWorks.Circuit

def changeBasis (c : Circuit) (u : UnitId) : Pauli → Except Error Circuit
  | .X => c.addGate .h [] [u]
  | .Y => c.addGate .rx [Amount.ofFloat 0.5] [u]
  | _ => .ok c

def addMeasurement (c : Circuit) (s : PauliString) : Except Error Circuit := do
  let turned ← s.support.foldlM (fun c (u, p) => c.changeBasis u p) c
  s.support.zipIdx.foldlM (fun c ((u, _), k) => do
    (← c.ensureBit (UnitId.bit k)).addGate .measure [] [u, UnitId.bit k]) turned

def measurements {κ : Type} (c : Circuit) (a : PauliOperator κ) : Except Error (List Circuit) :=
  (a.terms.filter fun (s, _) => !s.factors.isEmpty).mapM fun (s, _) => c.addMeasurement s

def earlierMeasurements (c : Circuit) (final : List (UnitId × UnitId)) : List (UnitId × UnitId) :=
  c.commands.filterMap fun cmd =>
    match cmd.op.isMeasure, cmd.args with
    | true, [qubit, bit] => if final.any (·.2 = bit) then none else some (qubit, bit)
    | _, _ => none

/-- The sets of measurements, from those that are said to be at the end. -/
def parallelMeasures (c : Circuit) (final : List (UnitId × UnitId)) : List (List (UnitId × UnitId)) :=
  if final.length = c.bits.length then [final]
  else final :: (c.earlierMeasurements final).map ([·])

inductive EvolutionError where
  | circuit (e : Circuit.Error)
  | operator (e : PauliOperator.Error)

instance : HasProblem EvolutionError where
  problem
    | .circuit e => HasProblem.problem e
    | .operator e => HasProblem.problem e

def building {α : Type} : Except Error α → Except EvolutionError α
  | .ok a => .ok a
  | .error e => .error (.circuit e)

def addExponential (c : Circuit) (s : PauliString) (coefficient : Amount) :
    Except Error Circuit :=
  if s.factors.isEmpty then .ok (c.addPhase (Polynomial.scale ⟨-0.5, 0⟩ coefficient))
  else c.addOp (.pauliExp (s.factors.map (·.2)) (.amount coefficient)) s.qubits

def groupCircuit (a : PauliOperator Amount) (size : Nat) (group : List PauliString) :
    Except EvolutionError Circuit :=
  group.foldlM (fun c s =>
    match a.get? s with
    | some coefficient => building (c.addExponential s coefficient)
    | none => .error (.operator .absent)) (blank size 0)

def addTerms (c : Circuit) (a : PauliOperator Amount) (groups : List (List PauliString)) :
    Except EvolutionError Circuit :=
  groups.foldlM (fun d group => do
    let inner ← groupCircuit a c.qubits.length group
    building (d.addOp (.circBox inner) c.qubits)) c

end CircuitWorks.Circuit

namespace CircuitWorks

inductive Preparation where
  | copy | createInputs | discardOutputs
  deriving DecidableEq, Repr

namespace Preparation

def name : Preparation → String
  | copy => "copy"
  | createInputs => "qubit_create_all"
  | discardOutputs => "qubit_discard_all"

/-- What is done to the circuit, and what is done to its copy. -/
def steps : List Preparation × List Preparation := ([], [copy, createInputs, discardOutputs])

end Preparation

end CircuitWorks
