import CircuitWorks.Circuit.Basic

/-!
Quipper programs: lists of gates on numbered wires, with subroutines.
-/

namespace CircuitWorks.Quipper

inductive WireType where
  | qubit | bit
  deriving DecidableEq, Repr

structure Wire where
  label : Nat
  type : WireType
  deriving DecidableEq, Repr

/-- A control, which asks for 1 or, if it is negative, for 0. -/
structure Control where
  label : Nat
  negative : Bool
  deriving DecidableEq, Repr

inductive GateName where
  | not | h | multiNot | y | z | s | t | e | omega | v | swap | w | iX
  deriving DecidableEq, Repr

namespace GateName

def ofText? : String → Option GateName
  | "not" | "x" | "X" => some .not
  | "H" => some .h
  | "multinot" => some .multiNot
  | "Y" => some .y
  | "Z" => some .z
  | "S" => some .s
  | "E" => some .e
  | "T" => some .t
  | "V" => some .v
  | "swap" => some .swap
  | "omega" => some .omega
  | "iX" => some .iX
  | "W" => some .w
  | _ => none

def title : GateName → String
  | .not => "Not"
  | .h => "H"
  | .multiNot => "MultiNot"
  | .y => "Y"
  | .z => "Z"
  | .s => "S"
  | .t => "T"
  | .e => "E"
  | .omega => "Omega"
  | .v => "V"
  | .swap => "Swap"
  | .w => "W"
  | .iX => "IX"

def allows : GateName → Nat → Bool
  | .swap, n | .w, n => n = 2
  | .multiNot, _ => true
  | _, n => n = 1

end GateName

inductive Event where
  | qInit | cInit | qTerm | cTerm | qMeas | qDiscard | cDiscard
  deriving DecidableEq, Repr

namespace Event

def title : Event → String
  | .qInit => "QInit"
  | .cInit => "CInit"
  | .qTerm => "QTerm"
  | .cTerm => "CTerm"
  | .qMeas => "QMeas"
  | .qDiscard => "QDiscard"
  | .cDiscard => "CDiscard"

def wireType : Event → WireType
  | .cInit | .cTerm | .cDiscard => .bit
  | _ => .qubit

end Event

structure Call where
  repetitions : Nat
  name : String
  shape : String
  inverted : Bool
  inputs : List Nat
  outputs : List Nat
  controls : List Control
  deriving DecidableEq, Repr

inductive Gate where
  | named (name : GateName) (inverted : Bool) (wires : List Nat) (controls : List Control)
  /-- The rotation `exp(-iZt)`. -/
  | exponential (t : Float) (inverted : Bool) (wire : Nat)
  /-- The rotation by a whole turn divided by `n`. -/
  | fraction (n : Nat) (inverted : Bool) (wire : Nat)
  | event (event : Event) (wire : Nat)
  | call (call : Call)
  | comment | other

structure Program where
  inputs : List Wire
  gates : List Gate
  outputs : List Wire

structure Subroutine where
  name : String
  shape : String
  body : Program

structure Source where
  main : Program
  subroutines : List Subroutine

inductive Error where
  | circuit (e : Circuit.Error)
  | unmatched | repeatedName | unknownWire | unknownSubroutine | shape | outputs | controlledCall
  | classicalControl
  | wireCount (name : GateName) (count : Nat)
  | manyControls (name : GateName)
  | controlled (name : GateName)
  | controlledScalar | zeroFraction
  | event (e : Event)
  | other | endless
  deriving DecidableEq, Repr

def Error.message? : Error → Option String
  | .circuit e => some e.message
  | .unmatched => some "Inputs don't match outputs"
  | .repeatedName => some "Repeated subroutine names"
  | .shape => some "Mismatched shape in subroutine call"
  | .outputs => some "Mismatched outputs in subroutine call"
  | .controlledCall => some "Controls on subroutine"
  | .classicalControl => some "Classical controls"
  | .wireCount name count => some ("'" ++ name.title ++ "' gate with " ++ toString count ++ " wires")
  | .manyControls .swap => some "SWAP with more than 2 controls"
  | .manyControls name => some (name.title ++ " with more than 1 control")
  | .controlled name => some ("Controlled " ++ name.title)
  | .event e => some e.title
  | .other => some "Unknown gate type: <class 'lark.tree.Tree'>"
  | _ => none

instance : HasProblem Error where
  problem
    | .circuit e => HasProblem.problem e
    | .unknownWire | .unknownSubroutine => { fault := .key }
    | .zeroFraction => { fault := .division }
    | .endless => { fault := .endless }
    | .controlledScalar => { fault := .type }
    | .unmatched => { fault := .type, message := Error.message? .unmatched }
    | .repeatedName => { fault := .type, message := Error.message? .repeatedName }
    | .shape => { fault := .type, message := Error.message? .shape }
    | .outputs => { fault := .type, message := Error.message? .outputs }
    | .other => { fault := .type, message := Error.message? .other }
    | .wireCount name count => { fault := .type, message := Error.message? (.wireCount name count) }
    | e => { fault := .unsupported, message := e.message? }

def labels (type : WireType) (wires : List Wire) : List Nat :=
  (wires.filter fun w => w.type = type).map (·.label)

/-- The number of a label; of a label that occurs twice the last number counts. -/
def place? (labels : List Nat) (label : Nat) : Option Nat :=
  (labels.zipIdx.reverse.find? fun (l, _) => l = label).map (·.2)

def place (labels : List Nat) (label : Nat) : Except Error Nat :=
  match place? labels label with
  | some i => .ok i
  | none => .error .unknownWire

/-- A gate on qubits, whose parameters may be numbers of any kind. -/
structure StepOf (α : Type) where
  type : OpType
  params : List α
  args : List Nat

abbrev Step := StepOf Float

section

variable {α : Type} [OfScientific α] [Neg α]

def flip {α : Type} (controls : List Nat) (target : Nat) : StepOf α :=
  match controls with
  | [] => ⟨.x, [], [target]⟩
  | [a] => ⟨.cx, [], [a, target]⟩
  | [a, b] => ⟨.ccx, [], [a, b, target]⟩
  | cs => ⟨.cnx, [], cs ++ [target]⟩

/-- The gate that diagonalises the exchange of two qubits; it is its own inverse. -/
def diagonalSwap (a b : Nat) : List (StepOf α) :=
  [⟨.rz, [1.25], [a]⟩, ⟨.ry, [1.0], [a]⟩, ⟨.t, [], [b]⟩, ⟨.ry, [1.0], [b]⟩, ⟨.cx, [], [b, a]⟩,
   ⟨.ry, [-0.25], [b]⟩, ⟨.cx, [], [a, b]⟩, ⟨.ry, [0.25], [b]⟩, ⟨.cx, [], [b, a]⟩, ⟨.t, [], [a]⟩,
   ⟨.ry, [1.0], [a]⟩, ⟨.rz, [1.25], [b]⟩, ⟨.ry, [1.0], [b]⟩]

/-- A gate that exists without a control and with one. -/
def upToOne {α : Type} (name : GateName) (controls wires : List Nat) (plain controlled : OpType) :
    Except Error (List (StepOf α)) :=
  match controls with
  | [] => .ok [⟨plain, [], wires⟩]
  | [c] => .ok [⟨controlled, [], c :: wires⟩]
  | _ => .error (.manyControls name)

/-- A phase gate, which under one control is a controlled rotation. -/
def phaseGate {α : Type} (name : GateName) (controls wires : List Nat) (type : OpType) (angle : α) :
    Except Error (List (StepOf α)) :=
  match controls with
  | [] => .ok [⟨type, [], wires⟩]
  | [c] => .ok [⟨.cu1, [angle], c :: wires⟩]
  | _ => .error (.manyControls name)

def steps (name : GateName) (inverted : Bool) (controls wires : List Nat) :
    Except Error (List (StepOf α)) :=
  match name with
  | .not | .multiNot => .ok (wires.map (flip controls))
  | .iX =>
    match controls with
    | [] => .ok [⟨.x, [], wires⟩]
    | [c] => .ok [⟨.s, [], [c]⟩, ⟨.cx, [], c :: wires⟩]
    | _ => .error (.manyControls .iX)
  | .h => upToOne .h controls wires .h .ch
  | .y => upToOne .y controls wires .y .cy
  | .z => upToOne .z controls wires .z .cz
  | .swap => upToOne .swap controls wires .swap .cswap
  | .s => if inverted then phaseGate .s controls wires .sdg (-0.5)
    else phaseGate .s controls wires .s 0.5
  | .t => if inverted then phaseGate .t controls wires .tdg (-0.25)
    else phaseGate .t controls wires .t 0.25
  | .e =>
    if !controls.isEmpty then .error (.controlled .e)
    else if inverted then .ok [⟨.h, [], wires⟩, ⟨.s, [], wires⟩]
    else .ok [⟨.sdg, [], wires⟩, ⟨.h, [], wires⟩]
  | .omega =>
    match controls with
    | [] => .ok []
    | [_] => .error .controlledScalar
    | _ => .error (.manyControls .omega)
  | .v =>
    if !controls.isEmpty then .error (.controlled .v)
    else .ok [⟨if inverted then .vdg else .v, [], wires⟩]
  | .w =>
    if !controls.isEmpty then .error (.controlled .w)
    else
      match wires with
      | [a, b] => .ok (diagonalSwap a b)
      | _ => .ok []

/-- The gates for a named gate under any controls; controls on unknown wires are left out. -/
def namedSteps (qubits bits : List Nat) (name : GateName) (inverted : Bool) (wires : List Nat)
    (controls : List Control) : Except Error (List (StepOf α)) := do
  let placed := controls.filterMap fun c => (place? qubits c.label).map fun i => (i, c.negative)
  if controls.any fun c => (place? qubits c.label).isNone && (place? bits c.label).isSome then
    throw .classicalControl
  let wires ← wires.mapM (place qubits)
  if !name.allows wires.length then throw (.wireCount name wires.length)
  let flips := (placed.filter (·.2)).map fun (i, _) => flip [] i
  return flips ++ (← steps name inverted (placed.map (·.1)) wires) ++ flips

end

def signed (inverted : Bool) (x : Float) : Float := if inverted then -x else x

def lift {α : Type} : Except Circuit.Error α → Except Error α
  | .ok a => .ok a
  | .error e => .error (.circuit e)

def addStep (c : Circuit) (s : Step) : Except Error Circuit :=
  lift (c.addGate s.type (s.params.map Amount.ofFloat) (s.args.map UnitId.qubit))

def boxArgs (box : Circuit) (wires : List Nat) : List UnitId :=
  wires.zipIdx.map fun (w, i) => if i < box.qubits.length then UnitId.qubit w else UnitId.bit w

def addBoxes (c box : Circuit) (args : List UnitId) (count : Nat) : Except Error Circuit :=
  (List.range count).foldlM (fun c _ => lift (c.addOp (.circBox box) args)) c

def addCall (subroutines : List Subroutine) (build : Program → Except Error Circuit) (c : Circuit)
    (call : Call) : Except Error Circuit := do
  match subroutines.find? fun s => s.name = call.name with
  | none => throw .unknownSubroutine
  | some s =>
    if call.shape ≠ s.shape then throw .shape
    if call.inputs ≠ call.outputs then throw .outputs
    if !call.controls.isEmpty then throw .controlledCall
    let body ← build s.body
    let box := if call.inverted then body.dagger else body
    addBoxes c box (boxArgs box call.inputs) call.repetitions

def addGate (subroutines : List Subroutine) (build : Program → Except Error Circuit)
    (qubits bits : List Nat) (c : Circuit) : Gate → Except Error Circuit
  | .call call => addCall subroutines build c call
  | .named name inverted wires controls => do
    (← namedSteps qubits bits name inverted wires controls).foldlM addStep c
  | .exponential t inverted wire => do
    addStep c ⟨.rz, [signed inverted (2 * t / pi)], [← place qubits wire]⟩
  | .fraction n inverted wire => do
    let i ← place qubits wire
    if n = 0 then throw .zeroFraction
    addStep c ⟨.rz, [signed inverted (2 / Float.ofNat n)], [i]⟩
  | .event e wire => do
    let _ ← place (match e.wireType with | .qubit => qubits | .bit => bits) wire
    throw (.event e)
  | .comment => return c
  | .other => throw .other

/-- The circuit of a program whose calls are nested at most `depth` deep. -/
def build (subroutines : List Subroutine) : Nat → Program → Except Error Circuit
  | 0, _ => .error .endless
  | depth + 1, p => do
    if p.inputs ≠ p.outputs then throw .unmatched
    let qubits := labels .qubit p.inputs
    let bits := labels .bit p.inputs
    p.gates.foldlM (addGate subroutines (build subroutines depth) qubits bits)
      (Circuit.blank qubits.length bits.length)

/-- The circuit of a source. Calls that are nested deeper than there are subroutines never end. -/
def Source.circuit (s : Source) : Except Error Circuit := do
  if !(decide (s.subroutines.map (·.name)).Nodup) then throw .repeatedName
  build s.subroutines (s.subroutines.length + 1) s.main

inductive ParseError where
  | grammar
  | unknownGate (name : String)
  deriving DecidableEq, Repr

def ParseError.message? : ParseError → Option String
  | .grammar => none
  | .unknownGate name => some ("Unknown QGate operation: " ++ name)

instance : HasProblem ParseError where
  problem
    | .grammar => { fault := .grammar }
    | e => { fault := .operation, message := e.message? }

abbrev Reader := StateT (List Char) (Except ParseError)

def isGap (c : Char) : Bool := c = ' ' || c = '\t'

def after? : List Char → List Char → Option (List Char)
  | [], cs => some cs
  | _ :: _, [] => none
  | p :: ps, c :: cs => if p = c then after? ps cs else none

def accept (phrase : String) : Reader Bool := do
  match after? phrase.toList ((← get).dropWhile isGap) with
  | some rest => set rest; return true
  | none => return false

def expect (phrase : String) : Reader Unit := do
  if !(← accept phrase) then throw .grammar

def sees (phrase : String) : Reader Bool := do
  return (after? phrase.toList ((← get).dropWhile isGap)).isSome

def digits : Reader (List Char) := do
  let (run, rest) := Decimal.digitRun ((← get).dropWhile isGap)
  if run.isEmpty then throw .grammar
  set rest
  return run

def number : Reader Nat := do return Decimal.digitsValue (← digits)

def signRun : List Char → Bool × List Char
  | '-' :: cs => (true, cs)
  | '+' :: cs => (false, cs)
  | cs => (false, cs)

def exponentRun? : List Char → Option (Int × List Char)
  | c :: cs =>
    if c = 'e' || c = 'E' then
      let (negative, cs) := signRun cs
      let (run, rest) := Decimal.digitRun cs
      if run.isEmpty then none
      else
        let size : Int := Decimal.digitsValue run
        some (if negative then -size else size, rest)
    else none
  | [] => none

def decimal : Reader Float := do
  let (negative, cs) := signRun ((← get).dropWhile isGap)
  let (whole, rest) := Decimal.digitRun cs
  let (fraction, rest, point) := match rest with
    | '.' :: tail => let (f, r) := Decimal.digitRun tail; (f, r, true)
    | rest => ([], rest, false)
  if whole.isEmpty && fraction.isEmpty then throw .grammar
  let (size, rest, exponent) := match exponentRun? rest with
    | some (size, rest) => (size, rest, true)
    | none => (0, rest, false)
  if !point && !exponent then throw .grammar
  set rest
  let x := Decimal.toFloat ⟨Decimal.digitsValue (whole ++ fraction), size - fraction.length⟩
  return if negative then -x else x

def quoted : List Char → Option (List Char × List Char)
  | [] => none
  | '"' :: rest => some ([], rest)
  | '\\' :: c :: rest =>
    if c = '\n' then none else (quoted rest).map fun (s, r) => ('\\' :: c :: s, r)
  | c :: rest => if c = '\n' then none else (quoted rest).map fun (s, r) => (c :: s, r)

def text : Reader String := do
  match (← get).dropWhile isGap with
  | '"' :: cs =>
    match quoted cs with
    | some (s, rest) => set rest; return String.ofList s
    | none => throw .grammar
  | _ => throw .grammar

def itemsFrom {α : Type} (item : Reader α) : Nat → Reader (List α)
  | 0 => return []
  | size + 1 => do
    if ← accept "," then
      let a ← item
      return a :: (← itemsFrom item size)
    else return []

def items {α : Type} (item : Reader α) : Reader (List α) := do
  let first ← item
  let size := (← get).length
  return first :: (← itemsFrom item size)

def wireList : Reader (List Nat) := items number

def wireType : Reader WireType := do
  if ← accept "Qbit" then return .qubit
  expect "Cbit"
  return .bit

def assignment : Reader Wire := do
  let label ← number
  expect ":"
  return ⟨label, ← wireType⟩

def declarationFrom : Nat → Reader (List Wire)
  | 0 => throw .grammar
  | size + 1 => do
    if ← accept "," then
      if ← accept "\n" then return []
      let w ← assignment
      return w :: (← declarationFrom size)
    else
      expect "\n"
      return []

def declaration : Reader (List Wire) := do
  let first ← assignment
  let size := (← get).length
  return first :: (← declarationFrom (size + 1))

def control : Reader Control := do
  if ← accept "+" then return ⟨← number, false⟩
  expect "-"
  return ⟨← number, true⟩

def noControl : Reader Unit := do let _ ← accept "with nocontrol"

def controls : Reader (List Control) := do
  let cs ← if ← accept "with controls=[" then do
      let cs ← items control
      expect "]"
      pure cs
    else pure []
  noControl
  return cs

def inversion : Reader Bool := accept "*"

def closedWire : Reader Nat := do
  let w ← number
  expect ")"
  return w

def bracketedWire : Reader Nat := do
  expect "("
  closedWire

/-- A gate with a name, of which it is asked only at the end of the line. -/
def namedGate : Reader Gate := do
  let name ← text
  expect "]"
  let inverted ← inversion
  expect "("
  let wires ← wireList
  expect ")"
  let cs ← controls
  if !(← sees "\n") then throw .grammar
  match GateName.ofText? name with
  | some g => return .named g inverted wires cs
  | none => throw (.unknownGate name)

def exponential : Reader Gate := do
  let t ← decimal
  expect "]"
  return .exponential t (← inversion) (← bracketedWire)

def fraction : Reader Gate := do
  let n ← number
  expect "]"
  return .fraction n (← inversion) (← bracketedWire)

def phase : Reader Gate := do
  let _ ← decimal
  let _ ← controls
  expect "with anchors=["
  let _ ← wireList
  expect "]"
  return .other

def call : Reader Gate := do
  let repetitions ← if ← accept "(x" then closedWire else pure 1
  expect "["
  let name ← text
  expect ", shape"
  let shape ← text
  expect "]"
  let inverted ← inversion
  expect "("
  let inputs ← wireList
  expect ") -> ("
  let outputs ← wireList
  expect ")"
  return .call ⟨repetitions, name, shape, inverted, inputs, outputs, ← controls⟩

def labelled : Reader (Nat × String) := do
  let w ← number
  expect ":"
  return (w, ← text)

def comment : Reader Gate := do
  let _ ← text
  expect "]"
  let _ ← inversion
  expect "("
  if !(← accept ")") then
    let _ ← items labelled
    expect ")"
  return .comment

def choose {α : Type} : List (String × Reader α) → Reader α
  | [] => throw .grammar
  | (phrase, reader) :: rest => do if ← accept phrase then reader else choose rest

def wireEvent (e : Event) : Reader Gate := do
  let w ← bracketedWire
  noControl
  return .event e w

def gate : Reader Gate :=
  choose [("QGate[", namedGate), ("QRot[\"exp(-i%Z)\",", exponential),
    ("QRot[\"R(2pi/%)\",", fraction), ("Gphase() with t=", phase),
    ("CNot(", do
      let _ ← closedWire
      let _ ← controls
      return .other),
    ("CGate[", do
      let _ ← text
      expect "]"
      let _ ← inversion
      expect "("
      let _ ← wireList
      expect ")"
      noControl
      return .other),
    ("CSwap(", do
      let _ ← number
      expect ","
      let _ ← closedWire
      let _ ← controls
      return .other),
    ("QPrep(", do
      let _ ← closedWire
      noControl
      return .other),
    ("QUnprep(", do
      let _ ← closedWire
      noControl
      return .other),
    ("QInit0", wireEvent .qInit), ("QInit1", wireEvent .qInit),
    ("CInit0", wireEvent .cInit), ("CInit1", wireEvent .cInit),
    ("QTerm0", wireEvent .qTerm), ("QTerm1", wireEvent .qTerm),
    ("CTerm0", wireEvent .cTerm), ("CTerm1", wireEvent .cTerm),
    ("QMeas(", do return .event .qMeas (← closedWire)),
    ("QDiscard(", do return .event .qDiscard (← closedWire)),
    ("CDiscard(", do return .event .cDiscard (← closedWire)),
    ("DTerm0", do
      let _ ← bracketedWire
      return .other),
    ("DTerm1", do
      let _ ← bracketedWire
      return .other),
    ("Subroutine", call), ("Comment[", comment)]

def gates : Nat → Reader (List Gate)
  | 0 => throw .grammar
  | size + 1 => do
    if ← accept "Outputs:" then return []
    let g ← gate
    expect "\n"
    return g :: (← gates size)

def program : Reader Program := do
  expect "Inputs:"
  let inputs ← declaration
  let size := (← get).length
  let gs ← gates (size + 1)
  return ⟨inputs, gs, ← declaration⟩

def subroutine : Reader Subroutine := do
  let name ← text
  expect "\n"
  expect "Shape:"
  let shape ← text
  expect "\n"
  expect "Controllable:"
  if !(← accept "yes") then
    if !(← accept "no") then expect "classically"
  expect "\n"
  return ⟨name, shape, ← program⟩

def ending : Nat → Reader Unit
  | 0 => throw .grammar
  | size + 1 => do
    if ← accept "\n" then ending size
    else if ((← get).dropWhile isGap).isEmpty then return ()
    else throw .grammar

def subroutines : Nat → Reader (List Subroutine)
  | 0 => throw .grammar
  | size + 1 => do
    if ← accept "\n" then
      if ← accept "Subroutine:" then
        let s ← subroutine
        return s :: (← subroutines size)
    ending (size + 1)
    return []

def source : Reader Source := do
  let main ← program
  let size := (← get).length
  return ⟨main, ← subroutines (size + 1)⟩

/-- The text with every kind of line end written as one character. -/
def plainLines : List Char → List Char
  | [] => []
  | '\r' :: '\n' :: rest => '\n' :: plainLines rest
  | '\r' :: rest => '\n' :: plainLines rest
  | c :: rest => c :: plainLines rest

def parse (cs : List Char) : Except ParseError Source := do
  return (← source.run (plainLines cs)).1

end CircuitWorks.Quipper
