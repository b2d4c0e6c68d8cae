/-!
Operation types: the kinds of operation a circuit can hold, and what is fixed about each kind.
-/

namespace CircuitWorks

inductive EdgeType where
  | quantum | classical | boolean
  deriving DecidableEq, Repr, Inhabited

def EdgeType.letter : EdgeType → Char
  | .quantum => 'Q'
  | .classical => 'C'
  | .boolean => 'B'

inductive OpType where
  | input | output | create | discard | clInput | clOutput | barrier | label
  | branch | goto | stop | classicalTransform | setBits | copyBits | rangePredicate | explicitPredicate
  | explicitModifier | multiBit | z | x | y | s | sdg | t
  | tdg | v | vdg | sx | sxdg | h | rx | ry
  | rz | u3 | u2 | u1 | tk1 | cx | cy | cz
  | ch | cv | cvdg | csx | csxdg | crz | crx | cry
  | cu1 | cu3 | phaseGadget | ccx | swap | cswap | bridge | noop
  | measure | collapse | reset | ecr | iswap | phasedX | nPhasedX | zzMax
  | xxPhase | yyPhase | zzPhase | xxPhase3 | eswap | fsim | sycamore | iswapMax
  | phasedIswap | cnry | cnx | circBox | unitary1qBox | unitary2qBox | unitary3qBox | expBox
  | pauliExpBox | cliffBox | custom | phasePolyBox | qControlBox | classicalExpBox | conditional | projectorAssertionBox
  | stabiliserAssertionBox
  deriving DecidableEq, Repr, Inhabited

structure OpInfo where
  title : String
  name : String
  latex : String
  /-- For each parameter the number of half turns after which it repeats. -/
  moduli : List Nat
  signature : Option (List EdgeType)

namespace OpType

def all : List OpType :=
  [.input, .output, .create, .discard, .clInput, .clOutput, .barrier, .label,
   .branch, .goto, .stop, .classicalTransform, .setBits, .copyBits, .rangePredicate, .explicitPredicate,
   .explicitModifier, .multiBit, .z, .x, .y, .s, .sdg, .t,
   .tdg, .v, .vdg, .sx, .sxdg, .h, .rx, .ry,
   .rz, .u3, .u2, .u1, .tk1, .cx, .cy, .cz,
   .ch, .cv, .cvdg, .csx, .csxdg, .crz, .crx, .cry,
   .cu1, .cu3, .phaseGadget, .ccx, .swap, .cswap, .bridge, .noop,
   .measure, .collapse, .reset, .ecr, .iswap, .phasedX, .nPhasedX, .zzMax,
   .xxPhase, .yyPhase, .zzPhase, .xxPhase3, .eswap, .fsim, .sycamore, .iswapMax,
   .phasedIswap, .cnry, .cnx, .circBox, .unitary1qBox, .unitary2qBox, .unitary3qBox, .expBox,
   .pauliExpBox, .cliffBox, .custom, .phasePolyBox, .qControlBox, .classicalExpBox, .conditional, .projectorAssertionBox,
   .stabiliserAssertionBox]

def info : OpType → OpInfo
  | .input => ⟨"Input", "Input", "Q IN", [], some [.quantum]⟩
  | .output => ⟨"Output", "Output", "Q OUT", [], some [.quantum]⟩
  | .create => ⟨"Create", "Create", "Q CREATE", [], some [.quantum]⟩
  | .discard => ⟨"Discard", "Discard", "Q DISCARD", [], some [.quantum]⟩
  | .clInput => ⟨"ClInput", "ClInput", "C IN", [], some [.classical]⟩
  | .clOutput => ⟨"ClOutput", "ClOutput", "C OUT", [], some [.classical]⟩
  | .barrier => ⟨"Barrier", "Barrier", "Barrier", [], none⟩
  | .label => ⟨"Label", "Label", "Label", [], some []⟩
  | .branch => ⟨"Branch", "Branch", "Branch", [], some [.boolean]⟩
  | .goto => ⟨"Goto", "Goto", "Goto", [], some []⟩
  | .stop => ⟨"Stop", "Stop", "Stop", [], some []⟩
  | .classicalTransform => ⟨"ClassicalTransform", "ClassicalTransform", "ClassicalTransform", [], none⟩
  | .setBits => ⟨"SetBits", "SetBits", "SetBits", [], none⟩
  | .copyBits => ⟨"CopyBits", "CopyBits", "CopyBits", [], none⟩
  | .rangePredicate => ⟨"RangePredicate", "RangePredicate", "RangePredicate", [], none⟩
  | .explicitPredicate => ⟨"ExplicitPredicate", "ExplicitPredicate", "ExplicitPredicate", [], none⟩
  | .explicitModifier => ⟨"ExplicitModifier", "ExplicitModifier", "ExplicitModifier", [], none⟩
  | .multiBit => ⟨"MultiBit", "MultiBit", "MultiBit", [], none⟩
  | .z => ⟨"Z", "Z", "$Z$", [], some [.quantum]⟩
  | .x => ⟨"X", "X", "$X$", [], some [.quantum]⟩
  | .y => ⟨"Y", "Y", "$Y$", [], some [.quantum]⟩
  | .s => ⟨"S", "S", "$S$", [], some [.quantum]⟩
  | .sdg => ⟨"Sdg", "Sdg", "$S^\\dagger$", [], some [.quantum]⟩
  | .t => ⟨"T", "T", "$T$", [], some [.quantum]⟩
  | .tdg => ⟨"Tdg", "Tdg", "$T^\\dagger$", [], some [.quantum]⟩
  | .v => ⟨"V", "V", "$R_X\x7b\\frac12\x7d$", [], some [.quantum]⟩
  | .vdg => ⟨"Vdg", "Vdg", "$R_X(\\frac12)^\\dagger$", [], some [.quantum]⟩
  | .sx => ⟨"SX", "SX", "$\\sqrt\x7bX\x7d$", [], some [.quantum]⟩
  | .sxdg => ⟨"SXdg", "SXdg", "$\\sqrt\x7bX\x7d^\\dagger$", [], some [.quantum]⟩
  | .h => ⟨"H", "H", "$H$", [], some [.quantum]⟩
  | .rx => ⟨"Rx", "Rx", "$R_X$", [4], some [.quantum]⟩
  | .ry => ⟨"Ry", "Ry", "$R_Y$", [4], some [.quantum]⟩
  | .rz => ⟨"Rz", "Rz", "$R_Z$", [4], some [.quantum]⟩
  | .u3 => ⟨"U3", "U3", "U3", [4, 2, 2], some [.quantum]⟩
  | .u2 => ⟨"U2", "U2", "U2", [2, 2], some [.quantum]⟩
  | .u1 => ⟨"U1", "U1", "U1", [2], some [.quantum]⟩
  | .tk1 => ⟨"TK1", "tk1", "tk1", [4, 4, 4], some [.quantum]⟩
  | .cx => ⟨"CX", "CX", "CX", [], some [.quantum, .quantum]⟩
  | .cy => ⟨"CY", "CY", "CY", [], some [.quantum, .quantum]⟩
  | .cz => ⟨"CZ", "CZ", "CZ", [], some [.quantum, .quantum]⟩
  | .ch => ⟨"CH", "CH", "CH", [], some [.quantum, .quantum]⟩
  | .cv => ⟨"CV", "CV", "CV", [], some [.quantum, .quantum]⟩
  | .cvdg => ⟨"CVdg", "CVdg", "$CV^\\dagger$", [], some [.quantum, .quantum]⟩
  | .csx => ⟨"CSX", "CSX", "CSX", [], some [.quantum, .quantum]⟩
  | .csxdg => ⟨"CSXdg", "CSXdg", "$CSX^\\dagger$", [], some [.quantum, .quantum]⟩
  | .crz => ⟨"CRz", "CRz", "CRz", [4], some [.quantum, .quantum]⟩
  | .crx => ⟨"CRx", "CRx", "CRx", [4], some [.quantum, .quantum]⟩
  | .cry => ⟨"CRy", "CRy", "CRy", [4], some [.quantum, .quantum]⟩
  | .cu1 => ⟨"CU1", "CU1", "CU1", [2], some [.quantum, .quantum]⟩
  | .cu3 => ⟨"CU3", "CU3", "CU3", [4, 2, 2], some [.quantum, .quantum]⟩
  | .phaseGadget => ⟨"PhaseGadget", "PhaseGadget", "$Z^\x7b\\otimes n\x7d$", [4], none⟩
  | .ccx => ⟨"CCX", "CCX", "CCX", [], some [.quantum, .quantum, .quantum]⟩
  | .swap => ⟨"SWAP", "SWAP", "SWAP", [], some [.quantum, .quantum]⟩
  | .cswap => ⟨"CSWAP", "CSWAP", "CSWAP", [], some [.quantum, .quantum, .quantum]⟩
  | .bridge => ⟨"BRIDGE", "BRIDGE", "BRIDGE", [], some [.quantum, .quantum, .quantum]⟩
  | .noop => ⟨"noop", "noop", "-", [], some [.quantum]⟩
  | .measure => ⟨"Measure", "Measure", "Measure", [], some [.quantum, .classical]⟩
  | .collapse => ⟨"Collapse", "Collapse", "Collapse", [], some [.quantum]⟩
  | .reset => ⟨"Reset", "Reset", "Reset", [], some [.quantum]⟩
  | .ecr => ⟨"ECR", "ECR", "ECR", [], some [.quantum, .quantum]⟩
  | .iswap => ⟨"ISWAP", "ISWAPPow", "ISWAP", [4], some [.quantum, .quantum]⟩
  | .phasedX => ⟨"PhasedX", "PhasedX", "Ph$X$", [4, 2], some [.quantum]⟩
  | .nPhasedX => ⟨"NPhasedX", "NPhasedX", "n-Ph$X$", [4, 2], none⟩
  | .zzMax => ⟨"ZZMax", "ZZMax", "$ZZ(\\frac\x7b\\pi\x7d\x7b4\x7d)$", [], some [.quantum, .quantum]⟩
  | .xxPhase => ⟨"XXPhase", "Mølmer-Sørensen", "$R_\x7bXX\x7d$", [4], some [.quantum, .quantum]⟩
  | .yyPhase => ⟨"YYPhase", "YYPhase", "$R_\x7bYY\x7d$", [4], some [.quantum, .quantum]⟩
  | .zzPhase => ⟨"ZZPhase", "ZZPhase", "$R_\x7bZZ\x7d$", [4], some [.quantum, .quantum]⟩
  | .xxPhase3 => ⟨"XXPhase3", "3-Mølmer-Sørensen", "$R_\x7bX_0X_1\x7dR_\x7bX_0X_2\x7dR_\x7bX_1X_2\x7d$", [4], some [.quantum, .quantum, .quantum]⟩
  | .eswap => ⟨"ESWAP", "ESWAP", "$\\mathrm\x7beSWAP\x7d$", [4], some [.quantum, .quantum]⟩
  | .fsim => ⟨"FSim", "FSim", "$\\mathrm\x7bfSim\x7d$", [2, 2], some [.quantum, .quantum]⟩
  | .sycamore => ⟨"Sycamore", "Syc", "\\mathrm\x7bSyc\x7d", [], some [.quantum, .quantum]⟩
  | .iswapMax => ⟨"ISWAPMax", "ISWAP", "ISWAP", [], some [.quantum, .quantum]⟩
  | .phasedIswap => ⟨"PhasedISWAP", "PhasedISWAP", "PhasedISWAP", [1, 4], some [.quantum, .quantum]⟩
  | .cnry => ⟨"CnRy", "CnRy", "CnRy", [4], none⟩
  | .cnx => ⟨"CnX", "CnX", "CnX", [], none⟩
  | .circBox => ⟨"CircBox", "CircBox", "CircBox", [], none⟩
  | .unitary1qBox => ⟨"Unitary1qBox", "Unitary1qBox", "Unitary1qBox", [], some [.quantum]⟩
  | .unitary2qBox => ⟨"Unitary2qBox", "Unitary2qBox", "Unitary2qBox", [], some [.quantum, .quantum]⟩
  | .unitary3qBox => ⟨"Unitary3qBox", "Unitary3qBox", "Unitary3qBox", [], some [.quantum, .quantum, .quantum]⟩
  | .expBox => ⟨"ExpBox", "ExpBox", "ExpBox", [], some [.quantum, .quantum]⟩
  | .pauliExpBox => ⟨"PauliExpBox", "PauliExpBox", "PauliExpBox", [], none⟩
  | .cliffBox => ⟨"CliffBox", "Clifford", "Clifford", [], none⟩
  | .custom => ⟨"Custom", "CompositeGate", "CompositeGate", [], none⟩
  | .phasePolyBox => ⟨"PhasePolyBox", "PhasePolyBox", "PhasePolyBox", [], none⟩
  | .qControlBox => ⟨"QControlBox", "Control", "Ctrl", [], none⟩
  | .classicalExpBox => ⟨"ClassicalExpBox", "ClassicalExpBox", "ClassicalExpBox", [], none⟩
  | .conditional => ⟨"ConditionalGate", "Condition", "If", [], none⟩
  | .projectorAssertionBox => ⟨"ProjectorAssertionBox", "ProjectorAssertionBox", "ProjectorAssertionBox", [], none⟩
  | .stabiliserAssertionBox => ⟨"StabiliserAssertionBox", "StabiliserAssertionBox", "StabiliserAssertionBox", [], none⟩

def title (type : OpType) : String := type.info.title
def name (type : OpType) : String := type.info.name
def signature (type : OpType) : Option (List EdgeType) := type.info.signature
def paramCount (type : OpType) : Nat := type.info.moduli.length

def ofNumber? (n : Nat) : Option OpType := all[n]?

def ofTitle? (title : String) : Option OpType := all.find? (·.title = title)

def wireCount (type : OpType) (e : EdgeType) : Option Nat := type.signature.map (·.count e)

def isGate : OpType → Bool
  | .z | .x | .y | .s | .sdg | .t | .tdg | .v | .vdg | .sx | .sxdg | .h | .rx | .ry | .rz | .u3
    | .u2 | .u1 | .tk1 | .cx | .cy | .cz | .ch | .cv | .cvdg | .csx | .csxdg | .crz | .crx |
    .cry | .cu1 | .cu3 | .phaseGadget | .ccx | .swap | .cswap | .bridge | .noop | .measure |
    .collapse | .reset | .ecr | .iswap | .phasedX | .nPhasedX | .zzMax | .xxPhase | .yyPhase |
    .zzPhase | .xxPhase3 | .eswap | .fsim | .sycamore | .iswapMax | .phasedIswap | .cnry | .cnx
    => true
  | _ => false

def isMultiQubit : OpType → Bool
  | .cx | .cy | .cz | .ch | .cv | .cvdg | .csx | .csxdg | .crz | .crx | .cry | .cu1 | .cu3 |
    .phaseGadget | .ccx | .swap | .cswap | .bridge | .ecr | .iswap | .nPhasedX | .zzMax |
    .xxPhase | .yyPhase | .zzPhase | .xxPhase3 | .eswap | .fsim | .sycamore | .iswapMax |
    .phasedIswap | .cnry | .cnx => true
  | _ => false

def isSingleQubit : OpType → Bool
  | .z | .x | .y | .s | .sdg | .t | .tdg | .v | .vdg | .sx | .sxdg | .h | .rx | .ry | .rz | .u3
    | .u2 | .u1 | .tk1 | .noop | .measure | .collapse | .reset | .phasedX => true
  | _ => false

def isProjective : OpType → Bool
  | .measure | .collapse | .reset => true
  | _ => false

def isMeta : OpType → Bool
  | .input | .output | .create | .discard | .clInput | .clOutput | .barrier => true
  | _ => false

def isBox : OpType → Bool
  | .circBox | .unitary1qBox | .unitary2qBox | .unitary3qBox | .expBox | .pauliExpBox |
    .cliffBox | .custom | .phasePolyBox | .qControlBox | .classicalExpBox |
    .projectorAssertionBox | .stabiliserAssertionBox => true
  | _ => false

def isFlow : OpType → Bool
  | .label | .branch | .goto | .stop => true
  | _ => false

def isRotation : OpType → Bool
  | .rx | .ry | .rz | .u1 | .crz | .crx | .cry | .cu1 | .iswap | .xxPhase | .yyPhase | .zzPhase
    | .xxPhase3 | .eswap | .cnry => true
  | _ => false

def isPauliRotation : OpType → Bool
  | .rx | .ry | .rz | .u1 => true
  | _ => false

def isOneWay : OpType → Bool
  | .input | .output | .create | .discard | .clInput | .clOutput | .barrier | .measure |
    .collapse | .reset | .custom | .phasePolyBox => true
  | _ => false

def isClifford : OpType → Bool
  | .z | .x | .y | .s | .sdg | .v | .vdg | .sx | .sxdg | .h | .cx | .cy | .cz | .swap | .bridge
    | .noop | .ecr | .zzMax | .iswapMax => true
  | _ => false

def isClassical : OpType → Bool
  | .classicalTransform | .setBits | .copyBits | .rangePredicate | .explicitPredicate |
    .explicitModifier | .multiBit => true
  | _ => false

def isInitialQ (type : OpType) : Bool := type = .input || type = .create
def isFinalQ (type : OpType) : Bool := type = .output || type = .discard
def isBoundaryQ (type : OpType) : Bool := type.isInitialQ || type.isFinalQ
def isBoundaryC (type : OpType) : Bool := type = .clInput || type = .clOutput

def isSingleQubitUnitary (type : OpType) : Bool := type.wireCount .quantum = some 1 && !type.isOneWay

end OpType

end CircuitWorks
