import CircuitWorks.Literal.Reader
import CircuitWorks.Circuit.Basic
import CircuitWorks.UnitId.Json

/-!
How operations, numbers, bit strings, matrices and mappings are shown, and pages that show a circuit,
with their style sheet and its images.
-/

namespace CircuitWorks.Display

inductive Real where
  | whole (n : Int)
  | decimal (x : Float)
  deriving Inhabited

namespace Real

def toFloat : Real → Float
  | whole n => Float.ofInt n
  | decimal x => x

def isZero : Real → Bool
  | whole n => n = 0
  | decimal x => x == 0

def text : Real → String
  | whole n => toString n
  | decimal x => Decimal.full (Decimal.roundPlaces 3 x)

def abs : Real → Real
  | whole n => whole n.natAbs
  | decimal x => decimal x.abs

end Real

def complexText (re im : Real) : String :=
  let imText :=
    if im.isZero then ""
    else (if im.abs.toFloat == 1 then "" else im.abs.text) ++ "i"
  let reText := if re.isZero then "" else re.text
  let sign :=
    if im.toFloat < 0 then " - "
    else if re.isZero && im.isZero then "0"
    else if re.toFloat * im.toFloat != 0 then " + "
    else ""
  reText ++ sign ++ imText

def binaryText (n : Int) : List Char :=
  let digits := Nat.toDigits 2 n.natAbs
  if n < 0 then 'b' :: digits else digits

def padded (width : Nat) (digits : List Char) : List Char :=
  List.replicate (width - digits.length) '0' ++ digits

def leading {α : Type} (width : Int) (xs : List α) : List α :=
  xs.take (if width < 0 then xs.length + width else width).toNat

def bitString (width : Int) (bytes : List Int) : String :=
  String.ofList (bytes.flatMap fun b => leading width (padded 8 (binaryText b)))

/-- The index of a unit in brackets after its register, also when there is none. -/
def unitText (u : UnitId) : String :=
  u.register ++ "[" ++ ", ".intercalate (u.index.map toString) ++ "]"

inductive Entry where
  | value (v : Literal)
  | unit (u : UnitId)
  | truths (values : List Bool)

def Entry.text : Entry → String
  | value v => v.shown
  | unit u => unitText u
  | truths values => (Literal.list (values.map fun b => .int (if b then 1 else 0))).text

def Entry.same : Entry → Entry → Bool
  | value v, value w => v.same w || v.text = w.text
  | unit u, unit v => u = v
  | truths vs, truths ws => vs = ws
  | _, _ => false

def distinctEntries (pairs : List (Entry × Entry)) : List (Entry × Entry) :=
  pairs.foldl (fun done (k, v) =>
    if done.any fun (l, _) => l.same k then done.map fun (l, w) => if l.same k then (l, v) else (l, w)
    else done ++ [(k, v)]) []

def mappingTexts (pairs : List (Entry × Entry)) : List String :=
  (distinctEntries pairs).map fun (a, b) => a.text ++ " → " ++ b.text

def basis (size : Nat) : List String :=
  let qubits := (Float.log2 size.toFloat).round.toUInt64.toNat
  (List.range (Nat.pow 2 qubits)).map fun n => String.ofList (padded qubits (Nat.toDigits 2 n))

abbrev Chart (α : Type) := List (String × List (String × α))

def chart? {α : Type} (matrix : List (List α)) : Option (Chart α) :=
  let names := basis matrix.length
  if matrix.isEmpty then none else some (names.zip (matrix.map fun row => names.zip row))

def matrixChart? (matrix : List (List Amplitude)) : Option (Chart String) :=
  chart? (matrix.map fun row => row.map fun z => complexText (.decimal z.re) (.decimal z.im))

def colour (title : String) : String :=
  if title = "H" then "h"
  else if title ∈ ["X", "Rx", "V", "Vdg", "S", "Sdg", "SX", "SXdg", "XXPhase", "PhasedX",
      "XXPhase3"] then "x"
  else if title ∈ ["Y", "Ry", "YYPhase"] then "y"
  else if title ∈ ["Z", "S", "Sdg", "T", "Tdg", "Rz", "PhasedISWAP", "ZZPhase", "ZZMax", "Measure",
      "Reset"] then "z"
  else ""

def hasInfo (title : String) : Bool :=
  title ∈ ["Unitary1qBox", "Unitary2qBox", "Unitary3qBox", "ExpBox", "PauliExpBox", "PhasePolyBox",
    "ClassicalExpBox", "Custom", "CircBox", "ConditionalGate", "QControlBox"]

def hasSubCircuit (title : String) : Bool :=
  title ∈ ["CircBox", "Custom", "ExpBox", "QControlBox"]

def isClassical (title : String) : Bool :=
  title ∈ ["ExplicitPredicate", "ExplicitModifier", "SetBits", "RangePredicate",
    "ClassicalTransform", "CopyBits", "MultiBit"]

/-- Gates with one control, whose title is that of the controlled gate after one letter. -/
def singlyControlled : List String :=
  ["CX", "CY", "CZ", "CH", "CRx", "CRy", "CRz", "CU1", "CU3", "CV", "CVdg", "CSx", "CSXdg", "CSWAP"]

/-- Gates with several controls, whose title is that of the controlled gate after two letters. -/
def multiplyControlled : List String := ["CCX", "CnRy", "CnX"]

def isControl (title : String) : Bool :=
  title ∈ singlyControlled || title ∈ multiplyControlled ||
    title ∈ ["Control", "QControlBox", "ConditionalGate"]

def controlledTitle (title : String) : String :=
  if title ∈ singlyControlled then String.ofList (title.toList.drop 1)
  else if title ∈ multiplyControlled then String.ofList (title.toList.drop 2)
  else "Unknown"

def titleUnder (title : String) : String :=
  if isControl title then controlledTitle title else title

/-- The title of what is controlled in the end, and the operation itself where it is known. -/
def innermost : Op → String × Option Op
  | .conditional _ _ op => innermost op
  | .qControl op _ _ => innermost op
  | op =>
    let title := op.type.title
    if isControl title then (controlledTitle title, none) else (title, some op)

/-- How many arguments of an operation are controls, given the number of its arguments, the width of
its condition and the number of controls of its box. -/
def controlCount (title : String) (args width controls : Nat) : Int :=
  if title ∈ singlyControlled then 1
  else if title = "CnRy" || title = "CnX" then (args : Int) - 1
  else if title = "CCX" then 2
  else if title = "QControlBox" || title = "Control" then controls
  else if title = "ConditionalGate" then width
  else 0

def commandControls (cmd : Command) : Nat :=
  let (width, controls) := match cmd.op with
    | .conditional width _ _ => (width, 0)
    | .qControl _ controls _ => (0, controls)
    | _ => (0, 0)
  (controlCount cmd.op.type.title cmd.args.length width controls).toNat

def paramTexts (op : Op) : Option (List String) :=
  if op.type.isGate then some (op.params.map Amount.text) else none

def bracketed (params : Option (List String)) : String :=
  match params with
  | none | some [] => ""
  | some texts => "(" ++ ", ".intercalate texts ++ ")"

def shownName (title : String) (op : Option Op) : String :=
  match op with
  | none => title
  | some op =>
    match op with
    | .circBox _ => "Circuit"
    | .custom name .. => name
    | op => if isClassical title then op.name else title

def label (title : String) (op : Option Op) (params : List Literal) : String :=
  shownName title op ++ (if params.isEmpty then "" else (Literal.list params).text)

def subCircuit? : Op → Option Circuit
  | .circBox c => some c
  | _ => none

structure Cell where
  quantum : Bool
  control : Bool
  /-- The position among the arguments of the command, -1 if the wire is not among them. -/
  place : Int
  deriving DecidableEq, Repr

/-- A bit is written 0 and a qubit 1; a control counts 2 more. -/
def Cell.code (c : Cell) : Nat := (if c.quantum then 1 else 0) + (if c.control then 2 else 0)

structure Block where
  op : Option (Nat × Op)
  cells : List Cell

def Block.title (b : Block) : String :=
  match b.op with
  | some (_, op) => op.type.title
  | none => "ID"

def Block.params (b : Block) : String :=
  match b.op with
  | some (_, op) => bracketed (paramTexts op)
  | none => ""

structure Grid where
  qubits : List UnitId
  bits : List UnitId
  layers : List (List Block)

def wires (qubits first last : Nat) : Block :=
  ⟨none, (List.range' first (last - first)).map fun i => ⟨i < qubits, false, 1⟩⟩

structure Sheet where
  layers : List (List Block)
  layer : List Block
  filled : Nat
  count : Nat

def Sheet.close (s : Sheet) (qubits total : Nat) : Sheet :=
  ⟨s.layers ++ [s.layer ++ [wires qubits s.filled total]], [], 0, s.count⟩

def commandCell (units : List UnitId) (qubits : Nat) (cmd : Command) (i : Nat) : Cell :=
  match units[i]? with
  | none => ⟨i < qubits, false, -1⟩
  | some u =>
    let control := isControl cmd.op.type.title && u ∈ cmd.args.take (commandControls cmd)
    ⟨i < qubits, control, match cmd.args.idxOf? u with | some k => k | none => -1⟩

def Sheet.add (units : List UnitId) (qubits : Nat) (s : Sheet) (cmd : Command) : Sheet :=
  let positions := cmd.args.map units.idxOf
  match positions with
  | [] => s
  | p :: rest =>
    let first := rest.foldl min p
    let last := rest.foldl max p
    let s := if first < s.filled then s.close qubits units.length else s
    let above := if s.filled < first then [wires qubits s.filled first] else []
    let cells := (List.range' first (last + 1 - first)).map (commandCell units qubits cmd)
    ⟨s.layers, s.layer ++ above ++ [⟨some (s.count, cmd.op), cells⟩], last + 1, s.count + 1⟩

def Grid.ofCircuit (c : Circuit) : Grid :=
  let units := c.qubits ++ c.bits
  let count := c.qubits.length
  let ends := [wires count 0 units.length]
  let s := c.commands.foldl (Sheet.add units count) ⟨[ends], [], 0, 0⟩
  let s := if s.layer.isEmpty then s else s.close count units.length
  ⟨c.qubits, c.bits, s.layers ++ [ends]⟩

def targets (cells : List Cell) : List Cell := cells.filter fun c => c.code < 2 && -1 < c.place

def skipped (cells : List Cell) : List Cell := cells.filter fun c => c.place < 0

def isPlain (b : UInt8) : Bool :=
  let c := Char.ofNat b.toNat
  b < 128 && (c.isAlphanum || c = '_' || c = '.' || c = '-' || c = '~' || c = '/')

def urlEncode (s : String) : String :=
  let encode (b : UInt8) : List Char :=
    if isPlain b then [Char.ofNat b.toNat]
    else
      let digits := (Nat.toDigits 16 b.toNat).map Char.toUpper
      '%' :: (if digits.length < 2 then '0' :: digits else digits)
  String.ofList (s.toUTF8.toList.flatMap encode)

def imageUrl (svg : String) : String := "\ndata:image/svg+xml;utf8," ++ urlEncode svg ++ "\n"

def swapImage : String :=
  "
<!-- Generated with http://jxnblk.com/paths -->
<svg
  xmlns='http://www.w3.org/2000/svg'
  viewBox='0 0 64 64'
  width='64' height='64'
  fill='currentcolor'>
  <path d='M60 0 L32 28 L4 0 L0 4 L28 32 L0 60 L4 64 L32 36 L60 64 L64 60 L36 32 L64 4' />
</svg>"

def measureImage : String :=
  "
<!-- Generated with http://jxnblk.com/paths -->
<svg
  xmlns='http://www.w3.org/2000/svg'
  viewBox='-10 -10 84 84'
  width='64' height='64'
  fill='white'
  stroke=\"black\"
  stroke-width=\"4px\"
>
  <path d='M63,63 C63,32 48,16 32,16 C16,16 1,32 1,63 L63,63' />
  <path d=\"M32,63 L56,16\" />
</svg>"

def crossImage : String :=
  "
<!-- Generated with http://jxnblk.com/paths -->
<svg
  xmlns='http://www.w3.org/2000/svg'
  viewBox='0 0 64 64'
  width='64' height='64'
  fill='currentcolor'>
  <path d='M36 64 L36 36 L64 36 L64 28 L36 28 L36 0 L28 0 L28 28 L0 28 L0 36 L28 36 L28 64' />
</svg>"

def openingRules : String :=
  "<style>
body, .circuit__preview-body \x7b
    font-family: \"roboto\", system-ui, sans-serif;
    --accent-col: green;
    --accent-col-fill: darkseagreen;
    --accent-col-alt: #aca;
    --accent-col-emph: limegreen;
    --accent-col-overlay: rgba(130,255,140,0.2);
    --accent-col-outline: rgba(30, 250, 30,0.2);
    --main-col: black;
    --mid-col: #bbb;
    --faint-col: #eee;
    --faint-col-overlay: rgba(0, 0, 0, 0.05);
    --main-bg: white;
\x7d

.row\x7b
    display: flex;
    flex-wrap: wrap;
    align-items: center;
    padding: 10px;
    border-bottom: 1px solid var(--faint-col);
    position: relative;
\x7d
.row-item\x7b
    flex-grow: 1
\x7d
.row-item-l\x7b
    text-align: left;
\x7d
.row-item-r\x7b
    text-align: right;
\x7d
.row-sub-heading\x7b
    border-color: var(--accent-col-emph);
\x7d

/* FOR DISPLAYING CIRCUITS */
/* Main preview container */
.circuit-preview \x7b
    width: 100%;
    height: 100%;
    text-align: center;
    color: black;
\x7d
.circuit_variables \x7b
    /* Define some variables */
    --box-height: 40px;
    --wire-col: black;
    --c-wire-col: #bbb;
    --box-col: #ccc;
    --box-col-overlay: rgba(0,0,0,0.05);
    --c-box-col: #ddd;
    --index-col: #888;
\x7d
.circuit-preview.condensed\x7b
    display: flex;
    flex-wrap: nowrap;
\x7d

/* Box colours */
.h \x7b
    --box-col: #ffee00;
    --box-col-overlay: rgba(255, 255, 0, 0.2);
    --c-box-col: #ffee88;
    --index-col: #ffcc00;
\x7d
.x \x7b
    --box-col: #ff8888;
    --box-col-overlay: rgba(255, 0, 0, 0.2);
    --c-box-col: #e8a6a6;
    --index-col: red;
\x7d
.y \x7b
    --box-col: #6699ff;
    --box-col-overlay: rgba(0, 0, 255, 0.2);
    --c-box-col: #86c6f6;
    --index-col: blue;
\x7d
.z \x7b
    --box-col: #ccffcc;
    --box-col-overlay: rgba(0, 255, 0, 0.2);
    --c-box-col: #e2ffe2;
    --index-col: green;
\x7d

.circuit-container\x7b
    max-width: 100%;
    display: flex;
    flex-flow: row wrap;
    justify-content: center;
    align-content: flex-start;
    margin: auto;
    width: -moz-fit-content;
    width: fit-content;
    background: rgba(255, 255, 255, 1);
\x7d
.circuit-preview.condensed > .circuit-container\x7b
    flex-wrap: nowrap;
    min-width: fit-content;
\x7d
.circuit-container.nested\x7b
    position: relative;
    flex-wrap: nowrap;
    margin: -2px 0;
\x7d
.nested-circuit-container\x7b
    display: flex;
    overflow: auto;
    max-width: 400px;
    background: var(--box-col-overlay);
    border: 1px solid var(--box-col);
\x7d
.nested-circuit-container::-webkit-scrollbar \x7b
    height: 0;
    width: 0;
\x7d
.circuit-inner-scroll\x7b
    overflow: visible;
    width: -moz-fit-content;
    width: fit-content;
    margin: auto;
    margin-top: 2px;
\x7d
.circuit-end\x7b
    width: 2px;
    height: auto;
    border: 2px solid var(--wire-col);
    margin: calc(var(--box-height)/2) 0 calc(var(--box-height)/2 + 20px);
\x7d
.circuit-layer\x7b
    min-width: 40px;
    width: max-content;
    display: flex;
    flex-flow: column nowrap;
    flex-grow: 1;
    justify-content: space-between;
    align-items: stretch;
    margin-bottom: 20px;
\x7d
.circuit-container:not(.nested) > .circuit-layer:nth-child(2),
.circuit-container:not(.nested) > .circuit-layer:nth-last-child(2),
.circuit-container.nested > .circuit-layer:nth-child(2),
.circuit-container.nested > .circuit-layer:nth-last-child(2),
.gate_container.nested > .circuit-layer:first-child,
.gate_container.nested > .circuit-layer:last-child\x7b
    min-width: 10px;
\x7d
.nested .circuit-layer\x7b
    margin-bottom: 0;
\x7d
.flex_wire\x7b
    flex-grow: 1;
\x7d
/* Display qubit names at start of circuit */
.circuit-layer.qubits\x7b
    flex-grow: 0;
    color: var(--wire-col);
\x7d
.qubit\x7b
    height: calc(var(--box-height) - 20px);
    padding: 10px;
    text-align: center;
    font-family: monospace;
    box-sizing: content-box;
\x7d
.wire\x7b
    height: 0;
    border: 1px solid var(--wire-col);
    background: var(--wire-col);
    margin: calc(var(--box-height)/2) 0;
\x7d
.wire.classical\x7b
    border-color: var(--c-wire-col) !important;
    background: var(--c-wire-col) !important;
\x7d
.wire.transparent-wire\x7b
    border-color: transparent;
    background: transparent;
\x7d

/* Generic base for our gates */
.gate_container\x7b
    position: relative;
    min-width: -moz-fit-content;
    min-width: fit-content;
\x7d
.gate_container.nested\x7b
    display: flex;
    flex-wrap: nowrap;
\x7d
.gate_container.nested:after\x7b
    display: flex;
    flex-wrap: nowrap;
\x7d
.gate_container .classical\x7b
    background: var(--c-box-col);
    border-color: var(--index-col);
\x7d
.gate\x7b
    position: relative;
    height: calc(var(--box-height) - 16px);
    margin: 0 9px;
    padding: 9px 5px;
    border: 1px solid var(--index-col);
    border-bottom: none;
    border-top: none;
    text-align: left;
    background: var(--box-col);
    display: flex;
    box-sizing: content-box;
    z-index: 1;
\x7d
.wire-label\x7b
    color: var(--index-col);
    width: -moz-fit-content;
    width: fit-content;
    height: calc(var(--box-height) - 18px);
    padding-right: 5px;
\x7d
.gate_top > .wire-label,
.gate_bottom > .wire-label \x7b
    padding-top: 0;
\x7d
.nested-label-layer\x7b
    background: var(--box-col);
    padding: 0 5px;
\x7d
.nested-label-layer .wire-label\x7b
    padding: 10px 0;
\x7d

/* Multi-qubit gates */
.gate_bottom\x7b
    height: calc(var(--box-height) - 18px);
    margin-bottom: 10px;
    padding-bottom: 0;
    border-bottom: 1px solid var(--index-col);
\x7d
.gate_top\x7b
    height: calc(var(--box-height) - 18px);
    margin-top: 10px;
    padding-top: 0;
    border-top: 1px solid var(--index-col);
\x7d
.gate_name\x7b
    text-align: center;
    flex-grow: 1;
\x7d
/* Single qubit gate*/
.gate_box\x7b
    height: calc(var(--box-height) - 20px);
    margin: 10px;
    padding: 0 5px;
    border: 1px solid var(--index-col);
    text-align: center;
\x7d

/* Special gates */
.gate_connection \x7b
    position: absolute;
    top: -3px;
    left: -1px;
    border: none;
    margin: calc(var(--box-height)/2) calc(50% - 5px);
    padding: 0;
\x7d
.gate_swap \x7b
    height: 20px;
    width: 20px;
    margin: calc(var(--box-height)/2 - 6px) calc(50% - 9px);
    background: url("

def swapRules : String :=
  ") center;
    background-size: cover;
\x7d
.gate_measure \x7b
    height: 20px;
    width: 25px;
    margin: calc(var(--box-height)/2 - 10px) calc(50% - 11px);
    background: url("

def measureRules : String :=
  ") center;
    background-size: cover;
\x7d
.gate_control \x7b
    position: absolute;
    top: 0;
    left: 0;
    border-radius: 50%;
    width: 6px;
    height: 6px;
    margin: calc(var(--box-height)/2 - 3px) calc(50% - 5px);
    padding: 0;
    border: 2px solid var(--wire-col);
    background: var(--box-col);
\x7d
.gate_control.classical\x7b
    background: var(--c-wire-col);
    border-color: var(--c-wire-col);
\x7d
.control_index\x7b
    position: absolute;
    right: calc(50% - 1em);
    top: calc(50% - 1.4em);
    color: var(--c-wire-col);
    font-size: 0.8em;
\x7d
.control_index.measure\x7b
    right: calc(50% - 1.2em);
    top: calc(50% - 1.8em);
    color: var(--index-col);
\x7d
.gate_x \x7b
    top: -10px;
    left: -6px;
    border-radius: 50%;
    border: 1px solid var(--wire-col);
    width: 20px;
    background: url("

def crossRules : String :=
  ") center;
    background-color: var(--box-col);
    background-size: cover;
\x7d
.gate_reset\x7b
    margin: 11px 10px;
    padding: 0 0 0 10px;
    border: none !important;
    border-left: 2px solid var(--wire-col) !important;
    background: transparent;
\x7d
.gate_reset_spider\x7b
    width: calc(var(--box-height) - 24px);
    height: calc(var(--box-height) - 24px);
    background: var(--box-col);
    border: 2px solid var(--wire-col);
    border-radius: 50%;
    font-size: 0.75em;
\x7d

/* Add wire sections coming in and out of the gate */
.gate_in:before, .gate_in:after\x7b
    content: '';
    position: absolute;
    display: block;
    top: calc(50% - 1px);
    border: 1px solid var(--wire-col);
    width: 9px;
    height: 0;
    background: var(--wire-col);
    box-sizing: content-box;
\x7d
.classical.gate_in:before,
.classical.gate_in:after\x7b
    border-color: var(--c-wire-col);
\x7d

.gate_in:before\x7b
    left: -12px;
\x7d
.gate_out:after\x7b
    right: -12px;
\x7d
.gate_top.gate_in:before, .gate_top.gate_out:after\x7b
    top:calc(50% - 6.5px)
\x7d
.gate_bottom.gate_in:before, .gate_bottom.gate_out:after\x7b
    top:calc(50% + 4.5px)
\x7d


.link-bottom, .link-top \x7b
    height: var(--box-height);
    width: 0;
    border: 1px solid var(--wire-col);
    background: var(--wire-col);
    position: absolute;
    display: block;
    left: calc(50% - 1px);
    box-sizing: content-box;
\x7d
.link-top\x7b
    top: calc(0px - var(--box-height)/2);
\x7d
.link-bottom\x7b
    top: calc(var(--box-height)/2)
\x7d
.half-link \x7b
    height: calc(var(--box-height) - 9px);
\x7d
.half-link.link-bottom\x7b
    top: calc(var(--box-height)/2 + 11px)
\x7d
.half-link.link-top\x7b
    top: calc(-2px - var(--box-height)/2);
\x7d
.link-bottom.measurement\x7b
    width: 3px;
    left: calc(50% - 0.5px);
    border: none;
    background: var(--c-wire-col);
    height: calc(var(--box-height) + 2px);
    z-index: 1;
\x7d



/* tool tips */
.tool-tip-container\x7b
    margin: calc(0px - var(--box-height)) auto 0;
    padding-top: var(--box-height);
    position: relative;
    bottom: 0;
    left: 0;
    right: 0;
    height: 0;
    z-index: 4;
    width: fit-content;
    overflow: hidden;
\x7d
.tool-tip-container.no-js\x7b
    overflow: visible;
\x7d
.tool-tip-container.no-js:hover\x7b
    z-index: 10;
\x7d
.nested > .tool-tip-container\x7b
    position: absolute;
    bottom: -10px;
\x7d
.tool-tip\x7b
    visibility: hidden;
    opacity: 0;
    -webkit-transition: visibility 0.2s, opacity 0.2s;
    -moz-transition: visibility 0.2s, opacity 0.2s;
    transition: visibility 0.2s, opacity 0.2s;
    max-width: 250px;
\x7d
.tool-tip-container.no-js:hover > .tool-tip\x7b
    visibility: visible;
    opacity: 1;
\x7d
.tool-tip-content\x7b
    background: var(--main-bg);
    margin: 0 auto;
    width: -moz-fit-content;
    width: fit-content;
    max-width: 100%;
\x7d
.no-js > .tool-tip > .tool-tip-content\x7b
    height: auto;
    padding: 20px;
    margin: 0 auto;
\x7d
.tool-tip-container.no-js:hover > .tool-tip > .tool-tip-content,
.no-js > tool-tip > .tool-tip-content:hover\x7b
    box-shadow: 0 -5px 20px 5px var(--faint-col-overlay);
\x7d
.tool-tip:after\x7b
    content: \" \";
    position: absolute;
    bottom: 0;
    left: 50%;
    margin-left: -5px;
    border-width: 5px;
    border-style: solid;
    border-color: transparent transparent var(--main-bg) transparent;
\x7d
.tool-tip .complex-number\x7b
    padding: 4px;
\x7d
.tool-tip-content > .gate_container.nested\x7b
    width: 100%;
    min-width: unset;
\x7d
.nested-label-layer.as-height\x7b
    padding: 0;
\x7d
.tool-tip-content > .gate_container.nested > .nested-circuit-container,
.circuit-preview.condensed > .nested-circuit-container\x7b
    background: transparent;
    border: none;
    width: 100%;
    min-width: unset;
    max-width: unset;
\x7d

/* Tool-tip modal */
.circuit-grid\x7b
    display: flex;
    flex-direction: row-reverse;
    align-items: stretch;
    align-content: stretch;
\x7d
.circuit-grid-circuit\x7b
    flex: 1 1 auto;
    margin-top: 30px;
    overflow: auto;
    max-height: inherit;
\x7d




/*  FOR DISPLAYING CHARTS  */
table\x7b
    border-collapse: collapse;
\x7d
.table-container\x7b
    margin: auto;
\x7d
.bar-chart-container\x7b
    min-width: 300px;
    width: 60%;
\x7d
.square-chart-container\x7b
    width: auto;
    min-width: 0;
    overflow: hidden;
\x7d

/* Make sure we can see the rightmost border */
.square-chart-container tbody\x7b
    position: relative;
    left: -1px;
    display: block;
\x7d
thead > tr\x7b
    background: transparent !important;
\x7d
tr:hover, tr \x7b
    background: initial !important;
\x7d

td, th\x7b
    padding: 10px;
    position: relative;
\x7d

/* COMPLEX NUMBERS AND MATRICES */
.complex-number\x7b
    padding: 10px;
\x7d
.mid-number\x7b
    padding: 5px;
    font-size: 0.75em;
\x7d
.large-number\x7b
    padding: 2px;
    font-size: 0.75em;
\x7d
.matrix_container\x7b
    border: 2px solid var(--mid-col);
    border-top: 0;
    border-bottom: 0;
    margin: auto !important;
    border-collapse: collapse;
    text-align: center;
\x7d


/* LIST RESULTS NICELY */
.list\x7b
    flex-wrap: wrap;
    justify-content: space-evenly;
    align-items: stretch;
    padding: 0;
\x7d
.list > *\x7b
    margin: 10px;
\x7d
.list > .row-sub-heading\x7b
    margin: 10px 0;
\x7d
</style>"

def styleElement : String :=
  openingRules ++ imageUrl swapImage ++ swapRules ++ imageUrl measureImage ++ measureRules ++
    imageUrl crossImage ++ crossRules

structure Options where
  recursive : Bool
  /-- The circuit is kept on one line. -/
  condensed : Bool

def given (condition : Bool) (text : String) : String := if condition then text else ""

def concat (texts : List String) : String := "".intercalate texts

def linkTop (shown : Bool) : String := given shown "<div class=\"link-top\"></div>"

def gapCell : String :=
  "<div class=\"gate_container\"><div class=\"wire transparent-wire\"></div></div>"

def wireCell (code : Nat) (link : Bool) : String :=
  "<div class=\"gate_container\"><div class=\"wire " ++ given (code % 2 = 0) "classical" ++
    "\"></div>" ++ linkTop link ++ "</div>"

def placeText (place : Int) : String := given (-1 < place) (toString place)

def swapCell (place : Int) (link bottom : Bool) : String :=
  "<div class=\"gate_container\">" ++ given (!bottom) "<div class=\"link-bottom\"></div>" ++
    linkTop link ++ wireCell 1 false ++ "<div class=\"gate gate_connection " ++
    given (-1 < place) "gate_swap" ++ "\"></div></div>"

/-- A part of a measurement: 1 is the measured qubit, 0 a wire on the way, -1 the bit. -/
def measureCell (part : Int) (code : Nat) (link : Bool) : String :=
  "<div class=\"gate_container\">" ++
    given (-1 < part) "<div class=\"link-bottom measurement\"></div>" ++ linkTop link ++
    wireCell code false ++ "<div class=\"gate gate_connection " ++
    given (part = 1) "gate_measure" ++ "\"></div>" ++
    given (part = 1) "<div class=\"control_index measure z\">z</div>" ++ "</div>"

def numberSize (columns : Nat) : String :=
  if 16 < columns then "large-number" else if 8 < columns then "mid-number" else ""

def matrixTable (matrix : List (List Amplitude)) : String :=
  let cell (columns : Nat) (ket : String) (entry : String × String) : String :=
    "<td class=\"complex-number " ++ numberSize columns ++ " \" title=\"| " ++ ket ++ " ⟩⟨ " ++
      entry.1 ++ " |\">" ++ entry.2 ++ "</td>"
  let row (ket : String) (entries : List (String × String)) : String :=
    "<tr>" ++ concat (entries.map (cell entries.length ket)) ++ "</tr>"
  "<div><h4>Matrix</h4><table class=\"matrix_container\">" ++
    concat (((matrixChart? matrix).getD []).map fun (ket, entries) => row ket entries) ++ "</table></div>"

def listItems (entries : List String) : String :=
  "<div><div class=\"chart-list-container\">" ++
    concat (entries.map fun e =>
      "<div class=\"chart-list-item complex-number\">" ++ e ++ "</div>") ++ "</div></div>"

def paramTable (names : List String) (params : List Amount) : String :=
  "<table><tr><th>Parameter</th><th>Value</th></tr>" ++
    concat (params.zipIdx.map fun (p, i) =>
      "<tr><td>" ++ (names[i]?).getD "" ++ "</td><td>" ++ Amount.text p ++ "</td></tr>") ++
    "</table>"

/-- What a tool tip is about: the title, the operation, and the number of the command. -/
structure Subject where
  title : String
  op : Option Op
  number : Option Nat

/-- A gate to be drawn: its subject, its parameters, its cells, and how many cells it has; when it is
drawn cell by cell, the count is negative and the position tells which cell it is. -/
structure Drawing where
  subject : Subject
  params : String
  cells : List Cell
  count : Int
  position : Int

def Drawing.name (d : Drawing) : String := shownName d.subject.title d.subject.op ++ d.params

def gateNCell (info : String) (kind : String) (cell : Cell) (position : Int) (name : String)
    (link : Bool) : String :=
  "<div class=\"gate_container " ++ kind ++ "\"><div class=\"gate " ++
    given (-1 < cell.place) "gate_in gate_out" ++ " " ++ given (cell.code = 0) "classical" ++ " " ++
    given (position < 0) "gate_top" ++ " " ++ given (position = 0) "gate_bottom" ++
    "\"><span class=\"wire-label\">" ++ placeText cell.place ++
    "</span><span class=\"gate_name\">" ++ name ++ "</span></div>" ++ linkTop link ++ "</div>" ++
    given (position = 0) info

def gate1Cell (info : String) (d : Drawing) (cell : Cell) (link : Bool) : String :=
  let side := "<div class=\"flex_wire\">" ++ wireCell cell.code false ++ "</div>"
  let box :=
    if d.name = "Reset" then
      "<div class=\"gate gate_box gate_in gate_out gate_reset\">" ++
        "<div class=\"gate gate_box\" style=\"margin: -1px\">" ++
        "<span class=\"gate-name\">0</span></div></div>"
    else
      "<div class=\"gate gate_box gate_in gate_out " ++ given (cell.code = 0) "classical" ++
        "\"><span class=\"gate_name\">" ++ d.name ++ "</span></div>"
  "<div class=\"gate_container nested\">" ++ side ++ "<div class=\"gate_container " ++
    colour d.subject.title ++ "\">" ++ box ++ linkTop link ++ "</div>" ++ side ++ "</div>" ++
    given (d.name ≠ "X" && d.name ≠ "Reset") info

def cellAt (cells : List Cell) (i : Nat) : Cell := cells.getD i ⟨true, false, -1⟩

def unitList (g : Grid) : String :=
  "<div class=\"circuit-layer qubits\">" ++
    concat (g.qubits.map fun u => "<div class=\"qubit\">" ++ unitText u ++ "</div>") ++
    concat (g.bits.map fun u => "<div class=\"qubit bit\">" ++ unitText u ++ "</div>") ++ "</div>"

/-- The tables of a tool tip. `nested` shows a circuit. -/
def details (op : Op) (nested : Circuit → String) : String :=
  match op with
  | .unitary matrix => matrixTable matrix
  | .expBox matrix t => matrixTable matrix ++ "<h4>Phase</h4>" ++ t.text
  | .pauliExp paulis t =>
    "<table><tr><th>Phase</th><th>Paulis</th></tr><tr><td>" ++ t.text ++ "</td><td>" ++
      listItems (paulis.map fun p => "Pauli." ++ p.letter) ++ "</td></tr></table>"
  | .custom _ names _ params => paramTable names params
  | .conditional _ value _ =>
    "<table><tr><th>Condition value</th><td>" ++ toString value ++ "</td></tr></table>"
  | .qControl (.circBox c) _ _ =>
    "<h4>Controlled Circuit</h4><div class=\"gate_container nested\">" ++ nested c ++ "</div>"
  | .classicalExp inputs both outputs _ =>
    "<h4>Expression</h4>None<table><tr><th>Input bits</th><td>" ++ toString inputs ++
      "</td></tr><tr><th>Input/Output bits</th><td>" ++ toString both ++
      "</td></tr><tr><th>Output bits</th><td>" ++ toString outputs ++ "</td></tr></table>"
  | _ => ""

def toolTip (depth : Nat) (s : Subject) (inside : Bool) (nested : Circuit → String) : String :=
  match s.op with
  | none => ""
  | some op =>
    if !hasInfo s.title then ""
    else
      let id := match s.number with
        | some n => toString n
        | none => ""
      let sub := match subCircuit? op with
        | some c =>
          given (hasSubCircuit s.title && !inside)
            ("<h4>Gate as Circuit</h4><div class=\"gate_container nested\">" ++ nested c ++ "</div>")
        | none => ""
      "<div class=\"tool-tip-container no-js\" data-modal-id=\"circuit-modal__" ++ toString depth ++
        "\" data-gate-id=\"" ++ id ++ "\" data-name=\"" ++ s.title ++ "\"><div id=\"" ++ id ++
        "__tool-tip-content\" class=\"tool-tip " ++ given (isControl s.title) "control" ++
        "\"><div class=\"tool-tip-content\"><div class=\"row row-sub-heading\">" ++ s.title ++
        "</div>" ++ details op nested ++ sub ++ "</div></div></div>"

def nestedBox (d : Drawing) (inner info : String) : String :=
  let side := "<div class=\"circuit-layer\">" ++
    concat (d.cells.map fun c => if -1 < c.place then wireCell c.code false else gapCell) ++ "</div>"
  let labels := "<div class=\"nested-label-layer\">" ++
    concat (d.cells.map fun c => "<div class=\"wire-label\">" ++ placeText c.place ++ "</div>") ++
    "</div>"
  "<div class=\"gate_container nested\">" ++ side ++ labels ++ inner ++ labels ++ side ++ info ++
    "</div>"

def genericGate (d : Drawing) (info : String) (link : Bool) : String :=
  let kind := colour d.subject.title
  if 1 < d.count then
    gateNCell "" "" (cellAt d.cells 0) (-1) "" link ++
      concat ((d.cells.drop 1).zipIdx.map fun (cell, k) =>
        let index : Int := (k : Int) + 1
        let named := index * 2 = d.count - 1 || index * 2 = d.count
        gateNCell info kind cell (d.count - index - 1) (given named d.name) link)
  else if d.count < -1 then gateNCell info kind (cellAt d.cells 0) d.position d.name link
  else gate1Cell info d (cellAt d.cells 0) link

def measureGate (cells : List Cell) (link : Bool) : String :=
  measureCell 1 (cellAt cells 0).code link ++
    concat (((cells.drop 1).take (cells.length - 2)).map fun c => measureCell 0 c.code false) ++
    measureCell (-1) (cellAt cells (cells.length - 1)).code link

/-- Draws a gate. `tip` gives the tool tip, inside a nested box or not; `nested` shows a circuit. -/
def drawGate (options : Options) (tip : Subject → Bool → String) (nested : Circuit → String)
    (d : Drawing) (link : Bool) : String :=
  let title := d.subject.title
  if title = "ID" then concat (d.cells.map fun c => wireCell c.code link)
  else if title = "SWAP" then
    concat (d.cells.zipIdx.map fun (c, i) => swapCell c.place link (i + 1 = d.cells.length))
  else if title = "Measure" then measureGate d.cells link
  else if hasSubCircuit title && options.recursive then
    let inner := match d.subject.op.bind subCircuit? with
      | some c => nested c
      | none => ""
    nestedBox d inner (tip d.subject true)
  else genericGate d (tip d.subject false) link

def controlledCell (options : Options) (tip : Subject → Bool → String) (parent : Subject)
    (params : String) (inner : String × Option Op) (cells : List Cell) (i : Nat) (cell : Cell) :
    String :=
  let top := i = 0
  let bottom := i + 1 = cells.length
  if -1 < cell.place then
    if cell.code < 2 then
      let d : Drawing :=
        { subject := ⟨inner.1, inner.2, none⟩
          params := match inner.2 with
            | some op => bracketed (paramTexts op)
            | none => params
          cells := [cell]
          count := -((targets cells).length : Int)
          position := if top then -1 else if bottom then 0 else 1 }
      drawGate ⟨false, options.condensed⟩ tip (fun _ => "") d (!top)
    else
      "<div class=\"gate_container\">" ++ wireCell (cell.code - 2) false ++
        given (parent.title = "ConditionalGate")
          ("<div class=\"control_index\">" ++ toString cell.place ++ "</div>") ++
        "<div class=\"gate gate_control " ++ (if cell.code % 2 = 0 then "classical" else "z") ++
        "\"></div>" ++ linkTop (!top) ++ "</div>" ++ given (cell.place = 0) (tip parent false)
  else
    "<div class=\"gate_container\">" ++ wireCell cell.code false ++
      "<div class=\"gate gate_connection " ++ given (cell.code % 2 = 0) "classical" ++ "\"></div>" ++
      linkTop (!top) ++ "</div>"

def drawBlock (options : Options) (tip : Subject → Bool → String) (nested : Circuit → String)
    (b : Block) : String :=
  let subject : Subject := ⟨b.title, b.op.map (·.2), b.op.map (·.1)⟩
  match b.op with
  | some (_, op) =>
    if isControl b.title then
      concat (b.cells.zipIdx.map fun (cell, i) =>
        controlledCell options tip subject b.params (innermost op) b.cells i cell)
    else drawGate options tip nested ⟨subject, b.params, b.cells, b.cells.length, 0⟩ false
  | none => drawGate options tip nested ⟨subject, "", b.cells, b.cells.length, 0⟩ false

def drawCircuit : Nat → Nat → Options → Bool → Circuit → String
  | 0, _, _, _, _ => ""
  | levels + 1, depth, options, isNested, c =>
    let g := Grid.ofCircuit c
    let inTip (c : Circuit) : String := drawCircuit levels (depth + 1) ⟨false, true⟩ true c
    let inBox (c : Circuit) : String := drawCircuit levels (depth + 1) ⟨options.recursive, true⟩ true c
    let tip (s : Subject) (inside : Bool) : String := toolTip depth s inside inTip
    let layers := g.layers.map fun layer =>
      "<div class=\"circuit-layer hover-highlight-circuit\">" ++
        concat (layer.map (drawBlock options tip inBox)) ++ "</div>"
    let container := "<div class=\"circuit-container " ++
      given (isNested || options.condensed) "nested" ++ "\">" ++ unitList g ++ concat layers ++
      unitList g ++ "</div>"
    let framed :=
      if options.condensed then
        "<div class=\"nested-label-layer as-height\">" ++
          concat ((g.qubits ++ g.bits).map fun _ => "<div class=\"wire-label\"></div>") ++
          "</div><div class=\"nested-circuit-container\"><div class=\"circuit-inner-scroll\">" ++
          container ++ "</div></div>"
      else container
    if isNested then framed
    else
      "<div class=\"circuit-preview circuit_variables " ++ given options.condensed "condensed" ++
        "\">" ++ framed ++ "</div>"

mutual

def opNesting : Op → Nat
  | .circBox ⟨_, _, _, _, commands⟩ => commandsNesting commands + 1
  | .conditional _ _ op => opNesting op
  | .qControl op _ _ => opNesting op
  | _ => 0

def commandsNesting : List Command → Nat
  | [] => 0
  | ⟨op, _⟩ :: rest => max (opNesting op) (commandsNesting rest)

end

def pageHead : String :=
  "<!DOCTYPE html><html lang=\"en\"><head><meta charset=\"UTF-8\">" ++ styleElement ++ "</head>"

def pageBody (options : Options) (c : Circuit) : String :=
  "<div class=\"row circuit-grid circuit__preview-body\">" ++
    "<div class=\"circuit-grid-circuit thin-scrollbar\" style=\"\">" ++
    drawCircuit (commandsNesting c.commands + 1) 1 options false c ++ "</div></div></body></html>"

def singleBlanks (afterBlank : Bool) : List Char → List Char
  | [] => []
  | c :: cs =>
    if Text.isBlank c then if afterBlank then singleBlanks true cs else ' ' :: singleBlanks true cs
    else c :: singleBlanks false cs

def tightTags (afterBracket : Bool) : List Char → List Char
  | [] => []
  | ' ' :: c :: cs =>
    if afterBracket || c = '<' || c = '>' then tightTags afterBracket (c :: cs)
    else ' ' :: tightTags false (c :: cs)
  | c :: cs =>
    if c = ' ' && afterBracket then tightTags true cs
    else c :: tightTags (c = '<' || c = '>') cs

def compact (html : String) : String :=
  String.ofList (tightTags false (singleBlanks false html.toList))

def Cell.toJson (c : Cell) : Json := .arr [.ofNat c.code, .int c.place]

def opFields (number : Nat) (op : Op) (cells : List Cell) : List (String × Json) :=
  let (name, inner) := innermost op
  let params := ((paramTexts op).getD []).map Literal.str
  [("id", .str (toString number)), ("name", .str name),
    ("label", .str (Decimal.shorten (label name inner params))),
    ("targets", .arr ((targets cells).map Cell.toJson)),
    ("skipped", .arr ((skipped cells).map Cell.toJson)),
    ("sub", .bool (subCircuit? op).isSome)]

def Block.toJson (b : Block) : Json :=
  .obj ([("type", Json.str b.title), ("params", .str (Decimal.shorten b.params)),
      ("args", .arr (b.cells.map Cell.toJson)), ("n_args", .ofNat b.cells.length)] ++
    match b.op with
    | none => [("id", .null)]
    | some (number, op) => opFields number op b.cells)

def Grid.toJson (g : Grid) : Json :=
  .obj [("qubits", .arr (g.qubits.map UnitId.textJson)), ("bits", .arr (g.bits.map UnitId.textJson)),
    ("layers", .arr (g.layers.map fun layer => .arr (layer.map Block.toJson)))]

def Real.read : Json → Real
  | .int n => .whole n
  | .bool b => .whole (if b then 1 else 0)
  | j => .decimal j.decimal

def Entry.read (kind : Json) (isKey : Bool) (j : Json) : Except Problem Entry :=
  match kind with
  | .null =>
    match j with
    | .arr xs =>
      let items := xs.map Literal.ofJson
      .ok (.value (if isKey then .tuple items else .list items))
    | j => .ok (.value (Literal.ofJson j))
  | .str "register" => do return .unit (← UnitId.readBit j)
  | .str "bool" => .ok (.truths (j.list.map Json.isTruthy))
  | _ => failed .key

def chartJson {α : Type} (f : α → Json) : Option (Chart α) → Except Problem Json
  | none => failed .value
  | some c =>
    .ok (.arr (c.map fun (k, row) => .arr [.str k, .arr (row.map fun (k, v) => .arr [.str k, f v])]))

end CircuitWorks.Display
