import CircuitWorks.Literal.Reader
import CircuitWorks.Unitary.Circuit

/-!
Diagrams of spiders and wires, and the tensors that they stand for: contractions with named indices, summed
over those that are not in the result. The first leg of a spider is the leading digit.
-/

namespace CircuitWorks.ZX

structure Operand (κ : Type) where
  entries : List κ
  indices : List Nat

structure Contraction (κ : Type) where
  operands : List (Operand κ)
  result : List Nat

namespace Contraction

variable {κ : Type}

def indices (c : Contraction κ) : List Nat := c.operands.flatMap Operand.indices

def inner (c : Contraction κ) : List Nat :=
  c.indices.eraseDups.filter fun i => !c.result.contains i

def isProper (c : Contraction κ) : Bool :=
  !c.operands.isEmpty && c.result.eraseDups.length = c.result.length &&
    c.result.all c.indices.contains

def place (values : Nat → Bool) (indices : List Nat) : Nat :=
  indices.foldl (fun k i => 2 * k + (values i).toNat) 0

def assign (values : Nat → Bool) (i : Nat) (b : Bool) : Nat → Bool :=
  fun j => if j = i then b else values j

variable [Zero κ] [One κ] [Add κ] [Mul κ]

def Operand.entry (values : Nat → Bool) (o : Operand κ) : κ :=
  o.entries.getD (place values o.indices) 0

def product (operands : List (Operand κ)) (values : Nat → Bool) : κ :=
  operands.foldl (fun x o => x * Operand.entry values o) 1

def sumOver (operands : List (Operand κ)) : List Nat → (Nat → Bool) → κ
  | [], values => product operands values
  | i :: rest, values =>
    sumOver operands rest (assign values i false) + sumOver operands rest (assign values i true)

def entriesOver (c : Contraction κ) : List Nat → (Nat → Bool) → List κ
  | [], values => [sumOver c.operands c.inner values]
  | i :: rest, values =>
    c.entriesOver rest (assign values i false) ++ c.entriesOver rest (assign values i true)

def entries (c : Contraction κ) : List κ := c.entriesOver c.result fun _ => false

end Contraction

section

open HalfAngle

def parities : Nat → List Bool
  | 0 => [false]
  | n + 1 => parities n ++ (parities n).map (!·)

variable {α κ : Type} [Add α] [Zero κ] [One κ] [Add κ] [Neg κ] [Mul κ] [HalfAngle α κ]

def setLast (x : κ) (entries : List κ) : List κ := entries.set (entries.length - 1) x

def zSpider (a : α) (rank : Nat) : List κ :=
  setLast (phase (a + a)) (1 :: List.replicate (Nat.pow 2 rank - 1) 0)

def power (x : κ) : Nat → κ
  | 0 => 1
  | n + 1 => power x n * x

def xSpider (a : α) (rank : Nat) : List κ :=
  let turn : κ := phase (a + a)
  (parities rank).map fun isOdd =>
    (1 + if isOdd then -turn else turn) * power (cos (half : α)) rank

def hBox (x : κ) (rank : Nat) : List κ := setLast x (List.replicate (Nat.pow 2 rank) 1)

end

inductive Generator where
  | input | output
  /-- A boundary that is neither an input nor an output. -/
  | free | zSpider | xSpider | hBox
  | other (name : String)
  deriving DecidableEq, Repr

def Generator.isBoundary (g : Generator) : Bool := g = .input || g = .output || g = .free

inductive Parameter where
  | number (x : Float)
  | complex (z : Amplitude)
  | symbol (name : String)

namespace Parameter

def text : Parameter → String
  | number x => Decimal.full x
  | complex z => Literal.complexText z
  | symbol name => name

def value? : Parameter → Option Amplitude
  | number x => some (.ofReal x)
  | complex z => some z
  | symbol _ => none

def scale (x : Float) : Parameter → Parameter
  | number y => number (y * x)
  | complex z => complex (Amplitude.scale x z)
  | symbol name => symbol name

end Parameter

structure Vertex where
  id : Nat
  generator : Generator
  parameter : Parameter
  isQuantum : Bool

structure Wire where
  source : Nat
  target : Nat
  isQuantum : Bool
  deriving DecidableEq, Repr

def Wire.touches (w : Wire) (v : Nat) : Bool := w.source = v || w.target = v

def Wire.otherEnd (w : Wire) (v : Nat) : Nat := if w.source = v then w.target else w.source

structure Diagram where
  vertices : List Vertex
  wires : List Wire
  boundary : List Nat
  scalar : Parameter
  next : Nat

inductive Error where
  | symbolicScalar (text : String)
  | symbolic (text : String)
  | generator (name : String)
  | vertexKind | wireKind | classicalBoundary | quantumBoundary | noWire | improper | shape
  | rootValue | rootType | zeroScalar
  | inputs (given needed : Nat)
  | outputs (given needed : Nat)
  | notBoundary | notBinary | unknownVertex | notGiven
  deriving DecidableEq, Repr

def Error.message? : Error → Option String
  | .symbolicScalar text =>
    some s!"Cannot evaluate a diagram with a symbolic scalar. Given scalar: {text}"
  | .symbolic text => some s!"Evaluation of ZXDiagram failed due to symbolic expression {text}"
  | .generator name => some s!"Cannot convert generator of type ZXType.{name} to a tensor"
  | .vertexKind =>
    some ("Non-quantum vertex found. evaluate_quantum_diagram only supports diagrams consisting of " ++
      "only quantum components")
  | .wireKind =>
    some ("Non-quantum wire found. evaluate_quantum_diagram only supports diagrams consisting of " ++
      "only quantum components")
  | .classicalBoundary =>
    some ("Non-classical boundary vertex found. unitary_from_classical_diagram only supports " ++
      "diagrams with only classical boundaries")
  | .quantumBoundary =>
    some ("Non-quantum boundary vertex found. density_matrix_from_cptp_diagram only supports " ++
      "diagrams with only quantum boundaries")
  | .inputs given needed => some s!"Gave {given} values for {needed} inputs of ZXDiagram"
  | .outputs given needed => some s!"Gave {given} values for {needed} outputs of ZXDiagram"
  | .notBoundary => some "Can only set states of boundary vertices"
  | .notBinary => some "Can only fix boundary states to |0> and |1>."
  | _ => none

instance Error.instHasProblem : HasProblem Error where
  problem e :=
    { fault := match e with
        | .noWire => .index
        | .rootType => .type
        | .zeroScalar => .division
        | .unknownVertex => .key
        | .notGiven => .part
        | _ => .value
      message := e.message? }

def reduceTurn (x : Float) : Float := 2 * (x / 2 - (x / 2).floor)

def Vertex.entries (v : Vertex) (rank : Nat) : Except Error (List Amplitude) :=
  match v.generator, v.parameter with
  | .hBox, p =>
    match p.value? with
    | some z => .ok (hBox z rank)
    | none => .error (.symbolic p.text)
  | .zSpider, .number x => .ok (zSpider (reduceTurn x) rank)
  | .xSpider, .number x => .ok (xSpider (reduceTurn x) rank)
  | .other name, .number _ => .error (.generator name)
  | _, p => .error (.symbolic p.text)

namespace Diagram

def vertex? (d : Diagram) (v : Nat) : Option Vertex := d.vertices.find? (·.id = v)

def isBoundary (d : Diagram) (v : Nat) : Bool := (d.vertex? v).any (·.generator.isBoundary)

def isInput (d : Diagram) (v : Nat) : Bool := (d.vertex? v).any (·.generator = .input)

def incident (d : Diagram) (v : Nat) : List (Wire × Nat) :=
  d.wires.zipIdx.filter fun (w, _) => w.touches v

def legs (d : Diagram) (v : Nat) : List Nat :=
  (d.incident v).flatMap fun (w, k) => if w.otherEnd v = v then [k, k] else [k]

/-- What the boundary adds to a contraction: `fresh` is the next free index, and `joined` has the wires
between two boundary vertices that were met already. -/
structure Rim where
  fresh : Nat
  joined : List Nat
  links : List (List Nat)
  result : List Nat

/-- Adds a boundary vertex. Of two that are joined by a wire, the first gets an index of its own. -/
def addBoundary (d : Diagram) (r : Rim) (b : Nat) : Except Error Rim :=
  match d.incident b with
  | [] => .error .noWire
  | (w, k) :: _ =>
    if d.isBoundary (w.otherEnd b) && !r.joined.contains k then
      .ok ⟨r.fresh + 1, k :: r.joined, r.links ++ [[k, r.fresh]], r.result ++ [r.fresh]⟩
    else .ok { r with result := r.result ++ [k] }

def rim (d : Diagram) : Except Error Rim := d.boundary.foldlM d.addBoundary ⟨d.wires.length, [], [], []⟩

def contraction (d : Diagram) : Except Error (Contraction Amplitude) := do
  let r ← d.rim
  let links := r.links.map fun indices => (⟨[1, 0, 0, 1], indices⟩ : Operand Amplitude)
  let inside := d.vertices.filter fun v => !v.generator.isBoundary
  let operands ← inside.mapM fun v => do
    let legs := d.legs v.id
    return (⟨← v.entries legs.length, legs⟩ : Operand Amplitude)
  return ⟨links ++ operands, r.result⟩

def tensor (d : Diagram) : Except Error (Tensor Amplitude) := do
  let some z := d.scalar.value? | throw (.symbolicScalar d.scalar.text)
  let c ← d.contraction
  if !c.isProper then throw .improper
  return ⟨List.replicate c.result.length 2, c.entries.map (· * z)⟩

def rootScalar (d : Diagram) : Except Error Diagram :=
  match d.scalar with
  | .number x =>
    if x < 0 || x.isNaN then .error .rootValue
    else if x == 0 then .error .zeroScalar
    else .ok { d with scalar := .number (x * (1 / x.sqrt)) }
  | _ => .error .rootType

def quantumTensor (d : Diagram) : Except Error (Tensor Amplitude) := do
  if !d.vertices.all (·.isQuantum) then throw .vertexKind
  if !d.wires.all (·.isQuantum) then throw .wireKind
  (← d.rootScalar).tensor

def matrixOf (t : Tensor Amplitude) (rows columns : List Nat) : Except Error (Tensor Amplitude) :=
  let n := t.shape.length
  if rows.length + columns.length ≠ n then .error .shape
  else
    let entries := (List.range (Nat.pow 2 rows.length)).flatMap fun r =>
      (List.range (Nat.pow 2 columns.length)).map fun c =>
        t.entries.getD (Digits.writeAt n columns (Digits.writeAt n rows 0 r) c) 0
    .ok ⟨[Nat.pow 2 rows.length, Nat.pow 2 columns.length], entries⟩

def formatted (d : Diagram) (t : Tensor Amplitude) : Except Error (Tensor Amplitude) :=
  let places (isIn : Bool) :=
    (d.boundary.zipIdx.filter fun (b, _) => d.isInput b == isIn).map (·.2)
  matrixOf t (places false) (places true)

def unitary (d : Diagram) : Except Error (Tensor Amplitude) := do d.formatted (← d.quantumTensor)

def isQuantum (d : Diagram) (v : Nat) : Bool := (d.vertex? v).any (·.isQuantum)

def mixedTensor (doubled : Option Diagram) : Except Error (Tensor Amplitude) :=
  match doubled with
  | some d => d.tensor
  | none => .error .notGiven

def classical (d : Diagram) (doubled : Option Diagram) : Except Error (Tensor Amplitude) := do
  if d.boundary.any d.isQuantum then throw .classicalBoundary
  d.formatted (← mixedTensor doubled)

/-- The density matrix of a diagram with a quantum boundary, whose doubled diagram has two vertices for
each of it. -/
def density (d : Diagram) (doubled : Option Diagram) : Except Error (Tensor Amplitude) := do
  if d.boundary.any fun b => !d.isQuantum b then throw .quantumBoundary
  let t ← mixedTensor doubled
  let places := List.range d.boundary.length
  matrixOf t (places.map (2 * · + 1)) (places.map (2 * ·))

def remove (d : Diagram) (v : Nat) : Diagram :=
  { d with
    vertices := d.vertices.filter (·.id ≠ v)
    wires := d.wires.filter fun w => !w.touches v
    boundary := d.boundary.filter (· ≠ v) }

def fixOne (start d : Diagram) (b : Nat) (bit : Option Bool) : Except Error Diagram := do
  let some v := start.vertex? b | throw .unknownVertex
  if !v.generator.isBoundary then throw .notBoundary
  let some value := bit | throw .notBinary
  if !start.boundary.contains b then throw .unknownVertex
  match d.incident b with
  | [] => throw .noWire
  | (w, _) :: _ =>
    let spider : Vertex :=
      ⟨d.next, .xSpider, .number (if value then 1 else 0), v.isQuantum⟩
    let wire : Wire := ⟨d.next, w.otherEnd b, v.isQuantum⟩
    let joined := { d with
      vertices := d.vertices ++ [spider]
      wires := d.wires ++ [wire]
      next := d.next + 1
      scalar := d.scalar.scale (if v.isQuantum then 0.5 else Float.sqrt 0.5) }
    return joined.remove b

def fix (d : Diagram) (values : List (Nat × Option Bool)) : Except Error Diagram :=
  values.foldlM (fun e (b, bit) => fixOne d e b bit) d

def boundaryOf (d : Diagram) (g : Generator) : List Nat :=
  d.boundary.filter fun b => (d.vertex? b).any (·.generator = g)

def fixInputs (d : Diagram) (values : List (Option Bool)) : Except Error Diagram :=
  let ins := d.boundaryOf .input
  if ins.length ≠ values.length then .error (.inputs values.length ins.length)
  else d.fix (ins.zip values)

def fixOutputs (d : Diagram) (values : List (Option Bool)) : Except Error Diagram :=
  let outs := d.boundaryOf .output
  if outs.length ≠ values.length then .error (.outputs values.length outs.length)
  else d.fix (outs.zip values)

end Diagram

def Generator.read (j : Json) : Generator :=
  match j.string with
  | "Input" => .input
  | "Output" => .output
  | "Open" => .free
  | "ZSpider" => .zSpider
  | "XSpider" => .xSpider
  | "Hbox" => .hBox
  | name => .other name

def Parameter.read (j : Json) : Parameter :=
  match j with
  | .str name => .symbol name
  | .obj _ => .complex (Amplitude.ofJson j)
  | j => .number j.decimal

def isQuantumKind (j : Json) : Bool := j.isNull || j.string = "Quantum"

namespace Diagram

def read (j : Json) : Diagram :=
  let vertices := (j.listAt "vertices").zipIdx.map fun (v, id) =>
    (⟨id, .read (v.item 0), .read (v.item 1), isQuantumKind (v.item 2)⟩ : Vertex)
  let wires := (j.listAt "wires").map fun w =>
    (⟨(w.item 0).natural, (w.item 1).natural, isQuantumKind (w.item 2)⟩ : Wire)
  let scalar := match j.get? "scalar" with
    | some s => .read s
    | none => .number 1
  ⟨vertices, wires, (j.listAt "boundary").map Json.natural, scalar, vertices.length⟩

def toJson (d : Diagram) : Json :=
  .obj [("vertices", .ofNat d.vertices.length), ("boundary", .ofNat d.boundary.length),
    ("scalar", match d.scalar.value? with
      | some z => z.toJson
      | none => .str d.scalar.text)]

end Diagram

def readBit (j : Json) : Option Bool :=
  match j.number? with
  | some x => if x == 0 then some false else if x == 1 then some true else none
  | none => none

def readValues (j : Json) : List (Nat × Option Bool) :=
  j.list.foldl (fun values e =>
    let v := (e.item 0).natural
    let b := readBit (e.item 1)
    if values.any (·.1 = v) then values.map fun (u, c) => if u = v then (u, b) else (u, c)
    else values ++ [(v, b)]) []

def tensorJson (t : Tensor Amplitude) : Json :=
  .obj [("shape", .arr (t.shape.map .ofNat)), ("data", .arr (t.entries.map Amplitude.toJson))]

end CircuitWorks.ZX
