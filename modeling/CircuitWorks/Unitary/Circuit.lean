import CircuitWorks.Circuit.Basic
import CircuitWorks.Tensor

/-!
Angles of gates, counted in half-turns, the matrices of gates, and the unitary of a circuit. The first
qubit of a gate gives the leading digit of the places.
-/

namespace CircuitWorks

/-- The functions of half an angle: `cos a` is the cosine of π · a / 2. -/
class HalfAngle (α : Type) (κ : outParam Type) where
  cos : α → κ
  sin : α → κ
  /-- The number exp (i · π · a / 2). -/
  phase : α → κ
  half : α

instance HalfAngle.instZeroFloat : Zero Float := ⟨0⟩

instance : HalfAngle Float Amplitude where
  cos a := .ofReal (Float.cos (pi / 2 * a))
  sin a := .ofReal (Float.sin (pi / 2 * a))
  phase a := Amplitude.unit (pi / 2 * a)
  half := 0.5

namespace Unitary

open HalfAngle

section

variable {α κ : Type} [Zero α] [Add α] [Neg α]
variable [Zero κ] [One κ] [Add κ] [Neg κ] [Mul κ] [ImaginaryUnit κ] [HalfAngle α κ]

def blocks (a b : Dense κ) : Dense κ :=
  (a.map fun row => row ++ List.replicate b.columnCount 0) ++
    b.map fun row => List.replicate a.columnCount 0 ++ row

def controlled (m : Dense κ) : Dense κ := blocks (Dense.identity 2) m

def rz (a : α) : Dense κ := [[phase (-a), 0], [0, phase a]]

def rx (a : α) : Dense κ :=
  let s : κ := -(ImaginaryUnit.i * sin a)
  [[cos a, s], [s, cos a]]

def ry (a : α) : Dense κ := [[cos a, -sin a], [sin a, cos a]]

def u3 (theta phi lambda : α) : Dense κ :=
  [[cos theta, -(sin theta * phase (lambda + lambda))],
   [sin theta * phase (phi + phi), cos theta * phase ((phi + lambda) + (phi + lambda))]]

def u2 (phi lambda : α) : Dense κ := u3 half phi lambda

def u1 (lambda : α) : Dense κ := u3 0 0 lambda

def tk1 (a b c : α) : Dense κ := ((rz a).mul (rx b)).mul (rz c)

def iswap (a : α) : Dense κ :=
  let s : κ := ImaginaryUnit.i * sin a
  [[1, 0, 0, 0], [0, cos a, s, 0], [0, s, cos a, 0], [0, 0, 0, 1]]

def phasedISwap (p a : α) : Dense κ :=
  let s : κ := ImaginaryUnit.i * sin a
  let turn := (p + p) + (p + p)
  [[1, 0, 0, 0], [0, cos a, s * phase turn, 0], [0, s * phase (-turn), cos a, 0], [0, 0, 0, 1]]

def xxPhase (a : α) : Dense κ :=
  let s : κ := -(ImaginaryUnit.i * sin a)
  [[cos a, 0, 0, s], [0, cos a, s, 0], [0, s, cos a, 0], [s, 0, 0, cos a]]

def yyPhase (a : α) : Dense κ :=
  let s : κ := ImaginaryUnit.i * sin a
  [[cos a, 0, 0, s], [0, cos a, -s, 0], [0, -s, cos a, 0], [s, 0, 0, cos a]]

def zzPhase (a : α) : Dense κ :=
  [[phase (-a), 0, 0, 0], [0, phase a, 0, 0], [0, 0, phase a, 0], [0, 0, 0, phase (-a)]]

/-- A matrix of two qubits as one of the first and the last of three. -/
def spread (m : Dense κ) : Dense κ :=
  (List.range 8).map fun r => (List.range 8).map fun c =>
    if r / 2 % 2 = c / 2 % 2 then (m.getD (2 * (r / 4) + r % 2) []).getD (2 * (c / 4) + c % 2) 0 else 0

def xxPhase3 (a : α) : Dense κ :=
  let m : Dense κ := xxPhase a
  ((m.kron (Dense.identity 2)).mul (spread m)).mul ((Dense.identity 2 : Dense κ).kron m)

def phasedX (a b : α) : Dense κ := ((rz b).mul (rx a)).mul (rz (-b))

def eSwap (a : α) : Dense κ :=
  let s : κ := -(ImaginaryUnit.i * sin a)
  [[phase (-a), 0, 0, 0], [0, cos a, s, 0], [0, s, cos a, 0], [0, 0, 0, phase (-a)]]

def fSim (a b : α) : Dense κ :=
  let s : κ := -(ImaginaryUnit.i * sin (a + a))
  [[1, 0, 0, 0], [0, cos (a + a), s, 0], [0, s, cos (a + a), 0], [0, 0, 0, phase (-(b + b))]]

end

inductive ParameterError where
  | missing | number
  deriving DecidableEq, Repr

instance ParameterError.instHasProblem : HasProblem ParameterError where
  problem
    | .missing => { fault := .index }
    | .number => { fault := .value }

section

variable {α β : Type}

def ofFirst (f : α → β) : List α → Except ParameterError β
  | a :: _ => .ok (f a)
  | [] => .error .missing

def ofFirstThree (f : α → α → α → β) : List α → Except ParameterError β
  | a :: b :: c :: _ => .ok (f a b c)
  | _ => .error .missing

def ofOne (f : α → β) : List α → Except ParameterError β
  | [a] => .ok (f a)
  | _ => .error .number

def ofTwo (f : α → α → β) : List α → Except ParameterError β
  | [a, b] => .ok (f a b)
  | _ => .error .number

def ofThree (f : α → α → α → β) : List α → Except ParameterError β
  | [a, b, c] => .ok (f a b c)
  | _ => .error .number

end

section

variable {α κ : Type} [Zero α] [Add α] [Neg α]
variable [Zero κ] [One κ] [Add κ] [Neg κ] [Mul κ] [ImaginaryUnit κ] [HalfAngle α κ]

def family? : OpType → Option (List α → Except ParameterError (Dense κ))
  | .rx => some (ofFirst rx)
  | .ry => some (ofFirst ry)
  | .rz => some (ofFirst rz)
  | .tk1 => some (ofFirstThree tk1)
  | .u1 => some (ofOne u1)
  | .u2 => some (ofTwo u2)
  | .u3 => some (ofThree u3)
  | .crx => some (ofFirst fun a => controlled (rx a))
  | .cry => some (ofFirst fun a => controlled (ry a))
  | .crz => some (ofFirst fun a => controlled (rz a))
  | .cu1 => some (ofOne fun a => controlled (u1 a))
  | .cu3 => some (ofThree fun a b c => controlled (u3 a b c))
  | .iswap => some (ofFirst iswap)
  | .phasedIswap => some (ofTwo phasedISwap)
  | .xxPhase => some (ofFirst xxPhase)
  | .yyPhase => some (ofFirst yyPhase)
  | .zzPhase => some (ofFirst zzPhase)
  | .xxPhase3 => some (ofFirst xxPhase3)
  | .phasedX => some (ofTwo phasedX)
  | .eswap => some (ofFirst eSwap)
  | .fsim => some (ofTwo fSim)
  | _ => none

variable (α) in
def fixed? : OpType → Option (Dense κ)
  | .h =>
    let r : κ := cos (half : α)
    some [[r, r], [r, -r]]
  | .s => some [[1, 0], [0, ImaginaryUnit.i]]
  | .t => some [[1, 0], [0, phase (half : α)]]
  | .x => some [[0, 1], [1, 0]]
  | .y => some [[0, -ImaginaryUnit.i], [ImaginaryUnit.i, 0]]
  | .z => some [[1, 0], [0, -1]]
  | .cx => some [[1, 0, 0, 0], [0, 1, 0, 0], [0, 0, 0, 1], [0, 0, 1, 0]]
  | .swap => some [[1, 0, 0, 0], [0, 0, 1, 0], [0, 1, 0, 0], [0, 0, 0, 1]]
  | _ => none

end

abbrev Registry (τ : Type) := List (OpType × τ)

namespace Registry

variable {τ : Type}

def find? (r : Registry τ) (type : OpType) : Option τ := r.lookup type

def register (r : Registry τ) (type : OpType) (x : τ) (isReplaced : Bool) : Registry τ :=
  match r.find? type with
  | none => r ++ [(type, x)]
  | some _ =>
    if isReplaced then r.map fun (other, y) => if other = type then (other, x) else (other, y) else r

end Registry

def registered : List OpType :=
  [.rx, .ry, .rz, .tk1, .u1, .u2, .u3, .crx, .cry, .crz, .cu1, .cu3, .iswap, .phasedIswap, .xxPhase,
   .yyPhase, .zzPhase, .xxPhase3, .phasedX, .eswap, .fsim]

end Unitary

end CircuitWorks

namespace CircuitWorks.Unitary

open Digits

inductive Error where
  | notQubits (command : String)
  | notUnitary (op : String)
  | notSupported (type : String)
  /-- The amplitudes are no state of enough qubits. -/
  | state
  | parameter (e : ParameterError)
  deriving DecidableEq, Repr

def Error.message? : Error → Option String
  | .notQubits command => some s!"Gates can only act on qubits. Operation {command} not valid."
  | .notUnitary op => some s!"Circuit can only contain unitary gates, operation {op} not valid."
  | .notSupported type =>
    some (s!"OpType.{type} is not supported for symbolic conversion. Try registering your own " ++
      "symbolic matrix representation with SymGateRegister.func.")
  | _ => none

instance Error.instHasProblem : HasProblem Error where
  problem
    | .parameter e => HasProblem.problem e
    | .state => { fault := .state }
    | e => { fault := .value, message := e.message? }

section

variable {κ : Type} [Zero κ] [Add κ] [Mul κ]

def applyAt (n : Nat) (targets : List Nat) (m : Dense κ) (v : List κ) : List κ :=
  (List.range (Nat.pow 2 n)).map fun i =>
    Dense.dot (m.getD (readAt n targets i) [])
      ((List.range (Nat.pow 2 targets.length)).map fun c => v.getD (writeAt n targets i c) 0)

end

def targets (c : Circuit) (cmd : Command) : Except Error (List Nat) :=
  match cmd.args.mapM fun u => c.qubits.idxOf? u with
  | some places => .ok places
  | none => .error (.notQubits cmd.text)

def opMatrix (op : Op) : Except Error (Dense Amplitude) :=
  match fixed? Float op.type with
  | some m => .ok m
  | none =>
    if !op.type.isGate then .error (.notUnitary op.name)
    else
      let angles := op.params.map fun p => (Amount.real? p).getD 0
      match family? op.type with
      | some f =>
        if op.params.isEmpty then .error (.notSupported op.type.title)
        else match f angles with
          | .ok m => .ok m
          | .error e => .error (.parameter e)
      | none => .error (.notSupported op.type.title)

def gates (c : Circuit) : Except Error (List (List Nat × Dense Amplitude)) :=
  (c.commands.filter fun cmd => cmd.op.type ≠ .barrier).mapM fun cmd => do
    return (← targets c cmd, ← opMatrix cmd.op)

def globalPhase (c : Circuit) : Amplitude := Amplitude.unit (pi * (Amount.real? c.phase).getD 0)

def apply (c : Circuit) (v : List Amplitude) : Except Error (List Amplitude) := do
  let gs ← gates c
  let n := v.length.log2
  if n < c.qubits.length || c.qubits.isEmpty then throw .state
  let first := n - c.qubits.length
  let w := gs.foldl (fun w (places, m) => applyAt n (places.map (· + first)) m w) v
  return w.map (globalPhase c * ·)

def basisState (n k : Nat) : List Amplitude := (List.range (Nat.pow 2 n)).map fun i => if i = k then 1 else 0

def state (c : Circuit) (input : List Amplitude) : Except Error (List Amplitude) :=
  if input.isEmpty then apply c (basisState c.qubits.length 0)
  else if input.length < 2 || input.length ≠ Nat.pow 2 input.length.log2 || input.all (· == 0) then
    .error .state
  else apply c input

def ofCircuit (c : Circuit) : Except Error (Dense Amplitude) := do
  let n := c.qubits.length
  let columns ← (List.range (Nat.pow 2 n)).mapM fun k => apply c (basisState n k)
  return Dense.transpose columns

end CircuitWorks.Unitary
