import CircuitWorks.Problem
import CircuitWorks.Json.Basic

/-!
Compilation passes, sequences and repetitions of them, and scripts: arguments stand in round brackets, a
sequence in square brackets, and a repetition as `repeat(...)`. As JSON, a pass has a name, the arguments
in order, and those that have names.
-/

namespace CircuitWorks

namespace Pass

inductive Axis where
  | rx | ry | rz
  deriving DecidableEq, Repr

inductive Strategy where
  | individual | pairwise | sets
  deriving DecidableEq, Repr

inductive Arrangement where
  | snake | star | tree | multiQGate
  deriving DecidableEq, Repr

inductive Simple where
  | cliffordSimp | cliffordSimpNoSwaps | commuteThroughMultis | contextSimp
  | contextSimpNoClassical | decomposeArbitrarilyControlledGates | decomposeBoxes
  | decomposeClassicalExp | decomposeMultiQubitsCX | decomposeSingleQubitsTK1 | delayMeasures
  | flattenRegisters | fullPeepholeOptimise | fullPeepholeOptimiseNoSwaps | kakDecomposition
  | peepholeOptimise2Q | rebaseCirq | rebaseHQS | rebaseOQC | rebaseProjectQ | rebasePyZX
  | rebaseQuil | rebaseTket | rebaseUFR | rebaseUMD | removeBarriers | removeDiscarded
  | removeRedundancies | simplifyInitial | simplifyInitialNoClassical | simplifyMeasured
  | squashHQS | synthesiseHQS | synthesiseTket | synthesiseOQC | synthesiseUMD | threeQubitSquash
  deriving DecidableEq, Repr

/-- A pass that is built from Pauli gadgets; it takes a strategy and an arrangement, or neither. -/
inductive Gadgets where
  | guidedPauliSimp | pauliSimp | pauliSquash
  deriving DecidableEq, Repr

inductive Basic where
  | simple (name : Simple)
  | eulerAngleReduction (first second : Axis)
  | optimisePhaseGadgets (arrangement : Option Arrangement)
  | gadgets (name : Gadgets) (options : Option (Strategy × Arrangement))
  deriving DecidableEq, Repr

end Pass

inductive Pass where
  | basic (pass : Pass.Basic)
  | sequence (first : Pass) (rest : List Pass)
  | repeated (pass : Pass)

namespace Pass

def Axis.text : Axis → String
  | .rx => "Rx"
  | .ry => "Ry"
  | .rz => "Rz"

def Strategy.text : Strategy → String
  | .individual => "Individual"
  | .pairwise => "Pairwise"
  | .sets => "Sets"

def Arrangement.text : Arrangement → String
  | .snake => "Snake"
  | .star => "Star"
  | .tree => "Tree"
  | .multiQGate => "MultiQGate"

def Gadgets.text : Gadgets → String
  | .guidedPauliSimp => "GuidedPauliSimp"
  | .pauliSimp => "PauliSimp"
  | .pauliSquash => "PauliSquash"

def Simple.text : Simple → String
  | .cliffordSimp => "CliffordSimp"
  | .cliffordSimpNoSwaps => "CliffordSimpNoSwaps"
  | .commuteThroughMultis => "CommuteThroughMultis"
  | .contextSimp => "ContextSimp"
  | .contextSimpNoClassical => "ContextSimpNoClassical"
  | .decomposeArbitrarilyControlledGates => "DecomposeArbitrarilyControlledGates"
  | .decomposeBoxes => "DecomposeBoxes"
  | .decomposeClassicalExp => "DecomposeClassicalExp"
  | .decomposeMultiQubitsCX => "DecomposeMultiQubitsCX"
  | .decomposeSingleQubitsTK1 => "DecomposeSingleQubitsTK1"
  | .delayMeasures => "DelayMeasures"
  | .flattenRegisters => "FlattenRegisters"
  | .fullPeepholeOptimise => "FullPeepholeOptimise"
  | .fullPeepholeOptimiseNoSwaps => "FullPeepholeOptimiseNoSwaps"
  | .kakDecomposition => "KAKDecomposition"
  | .peepholeOptimise2Q => "PeepholeOptimise2Q"
  | .rebaseCirq => "RebaseCirq"
  | .rebaseHQS => "RebaseHQS"
  | .rebaseOQC => "RebaseOQC"
  | .rebaseProjectQ => "RebaseProjectQ"
  | .rebasePyZX => "RebasePyZX"
  | .rebaseQuil => "RebaseQuil"
  | .rebaseTket => "RebaseTket"
  | .rebaseUFR => "RebaseUFR"
  | .rebaseUMD => "RebaseUMD"
  | .removeBarriers => "RemoveBarriers"
  | .removeDiscarded => "RemoveDiscarded"
  | .removeRedundancies => "RemoveRedundancies"
  | .simplifyInitial => "SimplifyInitial"
  | .simplifyInitialNoClassical => "SimplifyInitialNoClassical"
  | .simplifyMeasured => "SimplifyMeasured"
  | .squashHQS => "SquashHQS"
  | .synthesiseHQS => "SynthesiseHQS"
  | .synthesiseTket => "SynthesiseTket"
  | .synthesiseOQC => "SynthesiseOQC"
  | .synthesiseUMD => "SynthesiseUMD"
  | .threeQubitSquash => "ThreeQubitSquash"

/-- The pass of which a simple pass is a variant, and what the variant does not allow. -/
def Simple.variant : Simple → String × Option String
  | .cliffordSimpNoSwaps => (Simple.text .cliffordSimp, some "allow_swaps")
  | .contextSimpNoClassical => (Simple.text .contextSimp, some "allow_classical")
  | .fullPeepholeOptimiseNoSwaps => (Simple.text .fullPeepholeOptimise, some "allow_swaps")
  | .simplifyInitialNoClassical => (Simple.text .simplifyInitial, some "allow_classical")
  | s => (s.text, none)

def Simple.all : List Simple :=
  [.cliffordSimp, .cliffordSimpNoSwaps, .commuteThroughMultis, .contextSimp,
   .contextSimpNoClassical, .decomposeArbitrarilyControlledGates, .decomposeBoxes,
   .decomposeClassicalExp, .decomposeMultiQubitsCX, .decomposeSingleQubitsTK1, .delayMeasures,
   .flattenRegisters, .fullPeepholeOptimise, .fullPeepholeOptimiseNoSwaps, .kakDecomposition,
   .peepholeOptimise2Q, .rebaseCirq, .rebaseHQS, .rebaseOQC, .rebaseProjectQ, .rebasePyZX,
   .rebaseQuil, .rebaseTket, .rebaseUFR, .rebaseUMD, .removeBarriers, .removeDiscarded,
   .removeRedundancies, .simplifyInitial, .simplifyInitialNoClassical, .simplifyMeasured,
   .squashHQS, .synthesiseHQS, .synthesiseTket, .synthesiseOQC, .synthesiseUMD, .threeQubitSquash]

def Simple.ofText? (s : String) : Option Simple := Simple.all.find? fun p => p.text = s

def Axis.all : List Axis := [.rx, .ry, .rz]
def Axis.ofText? (s : String) : Option Axis := all.find? fun a => a.text = s

def Strategy.all : List Strategy := [.individual, .pairwise, .sets]
def Strategy.ofText? (s : String) : Option Strategy := all.find? fun a => a.text = s

def Arrangement.all : List Arrangement := [.snake, .star, .tree, .multiQGate]
def Arrangement.ofText? (s : String) : Option Arrangement := all.find? fun a => a.text = s

def Gadgets.ofText? (s : String) : Option Gadgets :=
  [.guidedPauliSimp, .pauliSimp, .pauliSquash].find? fun a => Gadgets.text a = s

end Pass

end CircuitWorks

namespace CircuitWorks.Pass

inductive Token where
  | word (text : String)
  | openList | closeList | openArgs | closeArgs | comma
  deriving DecidableEq, Repr

def mark? : Char → Option Token
  | '[' => some .openList
  | ']' => some .closeList
  | '(' => some .openArgs
  | ')' => some .closeArgs
  | ',' => some .comma
  | _ => none

def finish (word : List Char) (rest : List Token) : List Token :=
  if word.isEmpty then rest else .word (String.ofList word.reverse) :: rest

def tokensFrom (word : List Char) : List Char → Option (List Token)
  | [] => some (finish word [])
  | '\r' :: '\n' :: rest => (tokensFrom [] rest).map (finish word)
  | c :: rest =>
    if c = ' ' || c = '\t' || c = '\n' then (tokensFrom [] rest).map (finish word)
    else if c.isAlphanum then tokensFrom (c :: word) rest
    else
      match mark? c with
      | some t => (tokensFrom [] rest).map fun ts => finish word (t :: ts)
      | none => none

def tokens (cs : List Char) : Option (List Token) := tokensFrom [] cs

def choice {α : Type} (read : String → Option α) : List Token → Option α × List Token
  | .word w :: rest =>
    match read w with
    | some a => (some a, rest)
    | none => (none, .word w :: rest)
  | ts => (none, ts)

def skip (t : Token) : List Token → Option (List Token)
  | u :: rest => if u = t then some rest else none
  | [] => none

def axisAt : List Token → Option (Axis × List Token)
  | .word w :: rest => (Axis.ofText? w).map fun a => (a, rest)
  | _ => none

def eulerArgs (ts : List Token) : Option (Option Basic × List Token) := do
  let ts ← skip .openArgs ts
  let (a, ts) ← axisAt ts
  let ts ← skip .comma ts
  let (b, ts) ← axisAt ts
  let ts ← skip .closeArgs ts
  return (some (.eulerAngleReduction a b), ts)

def phaseArgs (ts : List Token) : Option (Option Basic × List Token) :=
  match ts with
  | .openArgs :: ts => do
    let (a, ts) := choice Arrangement.ofText? ts
    let ts ← skip .closeArgs ts
    return (a.map fun a => .optimisePhaseGadgets (some a), ts)
  | ts => some (some (.optimisePhaseGadgets none), ts)

def gadgetArgs (name : Gadgets) (ts : List Token) : Option (Option Basic × List Token) :=
  match ts with
  | .openArgs :: ts => do
    let (s, ts) := choice Strategy.ofText? ts
    let ts ← skip .comma ts
    let (a, ts) := choice Arrangement.ofText? ts
    let ts ← skip .closeArgs ts
    return (do return .gadgets name (some (← s, ← a)), ts)
  | ts => some (some (.gadgets name none), ts)

def basicAt (name : String) (ts : List Token) : Option (Option Basic × List Token) :=
  match Simple.ofText? name, Gadgets.ofText? name with
  | some s, _ => some (some (.simple s), ts)
  | none, some g => gadgetArgs g ts
  | none, none =>
    if name = "EulerAngleReduction" then eulerArgs ts
    else if name = "OptimisePhaseGadgets" then phaseArgs ts
    else none

def sequence? : List (Option Pass) → Option Pass
  | [] => none
  | first :: rest => do return .sequence (← first) (← rest.mapM id)

mutual

def passAt : Nat → List Token → Option (Option Pass × List Token)
  | 0, _ => none
  | fuel + 1, ts =>
    match ts with
    | .openList :: ts => do
      let (ps, ts) ← itemsAt fuel ts
      return (sequence? ps, ← skip .closeList ts)
    | .word "repeat" :: ts => do
      let (p, ts) ← passAt fuel (← skip .openArgs ts)
      return (p.map Pass.repeated, ← skip .closeArgs ts)
    | .word name :: ts => do
      let (b, ts) ← basicAt name ts
      return (b.map Pass.basic, ts)
    | ts => some (none, ts)

def itemsAt : Nat → List Token → Option (List (Option Pass) × List Token)
  | 0, _ => none
  | fuel + 1, ts => do
    let (p, ts) ← passAt fuel ts
    match ts with
    | .comma :: ts =>
      let (ps, ts) ← itemsAt fuel ts
      return (p :: ps, ts)
    | ts => return ([p], ts)

end

inductive ScriptError where
  | grammar | leftOut
  deriving DecidableEq, Repr

instance : HasProblem ScriptError where
  problem
    | .grammar => { fault := .grammar }
    | .leftOut => { fault := .index }

def ofTokens (ts : List Token) : Except ScriptError Pass :=
  match passAt (2 * ts.length + 1) ts with
  | some (some p, []) => .ok p
  | some (none, []) => .error .leftOut
  | _ => .error .grammar

def ofScript (cs : List Char) : Except ScriptError Pass :=
  match tokens cs with
  | some ts => ofTokens ts
  | none => .error .grammar

def snakeFrom (before : Char) : List Char → List Char
  | [] => []
  | c :: rest =>
    let isStart := before.isLower && !c.isLower ||
      before.isUpper && c.isUpper && rest.head?.any Char.isLower
    (if isStart then ['_'] else []) ++ c.toLower :: snakeFrom c rest

def snake (word : String) : String := String.ofList (snakeFrom '_' word.toList)

def quoted (word : String) : String := "\"" ++ word ++ "\""

/-- The name of a rule and what it reads. -/
abbrev Rule := String × String

def wordRule (name word : String) (args : List String) : Rule :=
  (name, quoted word ++
    if args.isEmpty then "" else " \"(\" " ++ " \",\" ".intercalate args ++ " \")\"")

def defaultRules (word : String) (args : List String) : List Rule :=
  [wordRule (snake word) word args, wordRule (snake word ++ "_default") word []]

def Simple.rule : Simple → String
  | .rebaseProjectQ => "rebase_projectq"
  | .rebasePyZX => "rebase_pyzx"
  | s => snake s.text

/-- The rules that stand before that of a simple pass. -/
def rulesBefore : Simple → List Rule
  | .flattenRegisters =>
    [wordRule "euler_angle_reduction" "EulerAngleReduction" ["op_type", "op_type"]]
  | .kakDecomposition => gadgetRules .guidedPauliSimp
  | .peepholeOptimise2Q => defaultRules "OptimisePhaseGadgets" ["cx_config_type"] ++
    gadgetRules .pauliSimp ++ gadgetRules .pauliSquash
  | _ => []
where
  gadgetRules (g : Gadgets) : List Rule :=
    defaultRules g.text ["pauli_synth_strat", "cx_config_type"]

def basicRules : List Rule :=
  Simple.all.flatMap fun s => rulesBefore s ++ [wordRule s.rule s.text []]

def optionRules (name : String) (words : List String) : List Rule :=
  words.map fun w => (name ++ "_" ++ snake w, quoted w)

def ruleLines (rules : List Rule) : List String := rules.map fun r => r.1 ++ ": " ++ r.2

def alternatives (rules : List Rule) : List String := rules.map fun r => "    | " ++ r.1

def grammarLines : List String :=
  let arrangements := optionRules "cx_config_type" (Arrangement.all.map Arrangement.text)
  let axes := optionRules "op_type" (Axis.all.map Axis.text)
  let strategies := optionRules "pauli_synth_strat" (Strategy.all.map Strategy.text)
  ["",
   "start: comp_pass",
   "comp_pass: ( basic_pass | seq_pass | repeat_pass )",
   "basic_pass:"] ++ alternatives basicRules ++
  ["seq_pass: \"[\" pass_list \"]\"",
   "pass_list: comp_pass (\",\" comp_pass)*",
   "repeat_pass: \"repeat\" \"(\" comp_pass \")\"",
   ""] ++ ruleLines basicRules ++
  ["", "cx_config_type:"] ++ alternatives arrangements ++ ruleLines arrangements ++
  ["op_type: ( " ++ " | ".intercalate (axes.map (·.1)) ++ " )"] ++ ruleLines axes ++
  ["pauli_synth_strat:"] ++ alternatives strategies ++ ruleLines strategies ++
  ["",
   "%import common.WS_INLINE -> WS",
   "%import common.CR",
   "%import common.LF",
   "_NEWLINE: CR? LF",
   "%ignore WS",
   "%ignore _NEWLINE",
   ""]

def grammar : String := "\n".intercalate grammarLines

def call (name : String) (args : List Json) (options : List (String × Json)) : Json :=
  .arr [.str name, .arr args, .obj options]

def Basic.toJson : Basic → Json
  | .simple s =>
    let (name, denied) := s.variant
    call name [] (denied.toList.map fun k => (k, .bool false))
  | .eulerAngleReduction a b => call "EulerAngleReduction" [.str a.text, .str b.text] []
  | .optimisePhaseGadgets a =>
    call "OptimisePhaseGadgets" [] (a.toList.map fun a => ("cx_config", .str a.text))
  | .gadgets g options =>
    call g.text [] (options.toList.flatMap fun (s, a) =>
      [("strat", .str s.text), ("cx_config", .str a.text)])

mutual

def toJson : Pass → Json
  | .basic b => b.toJson
  | .sequence first rest => call "SequencePass" [.arr (toJson first :: toJsons rest)] []
  | .repeated p => call "RepeatPass" [toJson p] []

def toJsons : List Pass → List Json
  | [] => []
  | p :: ps => toJson p :: toJsons ps

end

end CircuitWorks.Pass
