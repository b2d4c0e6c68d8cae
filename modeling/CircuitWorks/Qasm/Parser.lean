import CircuitWorks.Qasm.Export
import CircuitWorks.Text

/-!
Reading programs of the OpenQASM 2 language into circuits, with angle expressions over numbers, π and
symbols. Texts are searched outside their brackets.
-/

namespace CircuitWorks.Qasm.Angle

inductive Quantity where
  | exact (value : Rat)
  | approx (value : Float)
  deriving Inhabited

namespace Quantity

def toFloat : Quantity → Float
  | exact q => Float.ofInt q.num / Float.ofNat q.den
  | approx x => x

def lift (onExact : Rat → Rat → Rat) (onApprox : Float → Float → Float) :
    Quantity → Quantity → Quantity
  | exact p, exact q => exact (onExact p q)
  | a, b => approx (onApprox a.toFloat b.toFloat)

instance : BEq Quantity where
  beq
    | exact p, exact q => p = q
    | a, b => a.toFloat == b.toFloat

instance : Zero Quantity := ⟨exact 0⟩
instance : One Quantity := ⟨exact 1⟩
instance : Add Quantity := ⟨lift (· + ·) (· + ·)⟩
instance : Mul Quantity := ⟨lift (· * ·) (· * ·)⟩
instance : Div Quantity := ⟨lift (· / ·) (· / ·)⟩
instance : Neg Quantity where
  neg
    | exact q => exact (-q)
    | approx x => approx (-x)

end Quantity

abbrev Value := Polynomial Quantity

inductive Token where
  | number (value : Quantity)
  | name (text : String)
  | plus | minus | times | over | power | opening | closing | comma
  deriving Inhabited

def isNameStart (c : Char) : Bool := c.isAlpha || c = '_'
def isNamePart (c : Char) : Bool := c.isAlphanum || c = '_'

def readNumber (cs : List Char) : Option (Quantity × List Char) :=
  let (whole, rest) := Decimal.digitRun cs
  let (fraction, hasPoint, rest) :=
    match rest with
    | '.' :: after =>
      let (fraction, rest) := Decimal.digitRun after
      (fraction, true, rest)
    | rest => ([], false, rest)
  if whole.isEmpty && fraction.isEmpty then none
  else
    let lowered := match rest with
      | 'E' :: after => 'e' :: after
      | rest => rest
    let (exponent, size, after) := Decimal.exponentRun lowered
    let rest := if exponent.isEmpty then rest else after
    if !hasPoint && exponent.isEmpty then
      if whole.head? = some '0' && whole.any (· ≠ '0') then none
      else some (.exact (Decimal.digitsValue whole : Nat), rest)
    else
      some (.approx (Decimal.toFloat
        ⟨Decimal.digitsValue (whole ++ fraction), size - fraction.length⟩), rest)

def tokensWith : Nat → List Char → Option (List Token)
  | 0, cs => if cs.isEmpty then some [] else none
  | _ + 1, [] => some []
  | fuel + 1, c :: cs =>
    if c = ' ' || c = '\t' then tokensWith fuel cs
    else if c.isDigit || c = '.' then do
      let (value, rest) ← readNumber (c :: cs)
      return .number value :: (← tokensWith fuel rest)
    else if isNameStart c then
      let name := (c :: cs).takeWhile isNamePart
      (tokensWith fuel ((c :: cs).dropWhile isNamePart)).map (.name (String.ofList name) :: ·)
    else
      match c, cs with
      | '*', '*' :: rest => (tokensWith fuel rest).map (.power :: ·)
      | '^', rest => (tokensWith fuel rest).map (.power :: ·)
      | '*', rest => (tokensWith fuel rest).map (.times :: ·)
      | '/', rest => (tokensWith fuel rest).map (.over :: ·)
      | '+', rest => (tokensWith fuel rest).map (.plus :: ·)
      | '-', rest => (tokensWith fuel rest).map (.minus :: ·)
      | '(', rest => (tokensWith fuel rest).map (.opening :: ·)
      | ')', rest => (tokensWith fuel rest).map (.closing :: ·)
      | ',', rest => (tokensWith fuel rest).map (.comma :: ·)
      | _, _ => none

def tokens? (cs : List Char) : Option (List Token) := tokensWith cs.length cs

def number? (v : Value) : Option Float :=
  Amount.real? (v.mapCoefficients fun q => ⟨q.toFloat, 0⟩)

def halfTurns? (v : Value) : Option Rat :=
  match v.terms with
  | [] => some 0
  | [([], .exact q)] => if q = 0 then some 0 else none
  | [([(x, 1)], .exact q)] => if x = Indeterminate.pi then some q else none
  | _ => none

def sine (v : Value) : Option Value :=
  match halfTurns? v with
  | some q =>
    if (q * 2).den = 1 then
      let quarter := (q * 2).num % 4
      some (.const (.exact (if quarter = 1 then 1 else if quarter = 3 then -1 else 0)))
    else (number? v).map fun x => .const (.approx x.sin)
  | none => (number? v).map fun x => .const (.approx x.sin)

def root (v : Value) : Option Value :=
  match v.terms with
  | [([], .exact q)] =>
    let n := q.num.toNat.sqrt
    let d := q.den.sqrt
    if 0 ≤ q.num ∧ n * n = q.num.toNat ∧ d * d = q.den then
      some (.const (.exact ((n : Rat) / (d : Rat))))
    else if 0 ≤ q.num then (number? v).map fun x => .const (.approx x.sqrt)
    else none
  | _ => (number? v).bind fun x => if x < 0 then none else some (.const (.approx x.sqrt))

def call (name : String) (v : Value) : Option Value :=
  match name with
  | "sin" => sine v
  | "cos" => sine (v + Polynomial.scale (.exact (1 / 2)) Polynomial.pi)
  | "tan" => (number? v).map fun x => .const (.approx x.tan)
  | "exp" => if v.isZero then some 1 else (number? v).map fun x => .const (.approx x.exp)
  | "ln" | "log" => (number? v).bind fun x =>
    if x == 1 then some 0 else if 0 < x then some (.const (.approx x.log)) else none
  | "sqrt" => root v
  | "asin" | "acos" | "atan" | "sinh" | "cosh" | "tanh" | "Abs" =>
    if v.isZero && name ≠ "acos" && name ≠ "cosh" then some 0
    else (number? v).map fun x => .const (.approx (match name with
      | "asin" => x.asin
      | "acos" => x.acos
      | "atan" => x.atan
      | "sinh" => x.sinh
      | "cosh" => x.cosh
      | "tanh" => x.tanh
      | _ => x.abs))
  | _ => none

def divide (a b : Value) : Option Value :=
  if b.isZero then none
  else
    match b.inverse? with
    | some inv => some (a * inv)
    | none => (number? b).map fun x => a * .const (.approx (1 / x))

def raise (a b : Value) : Option Value :=
  match b.terms with
  | [] => some 1
  | [([], .exact q)] =>
    if q.den = 1 then
      if 0 ≤ q.num then some (a.power q.num.toNat) else divide 1 (a.power q.num.natAbs)
    else do
      return .const (.approx (Float.pow (← number? a) (← number? b)))
  | _ => do return .const (.approx (Float.pow (← number? a) (← number? b)))

def functions : List String :=
  ["sin", "cos", "tan", "exp", "ln", "log", "sqrt", "asin", "acos", "atan", "sinh", "cosh", "tanh",
   "Abs", "beta", "gamma", "zeta", "S", "N", "O", "Q"]

def words : List String :=
  ["lambda", "and", "or", "not", "if", "else", "in", "is", "for", "from", "import", "def", "class",
   "return", "True", "False", "None"]

def imaginaryName : String := "I"

def nameValue (name : String) : Option Value :=
  if name = "pi" then some Polynomial.pi
  else if name = "E" then some (.const (.approx (Float.exp 1)))
  else if name ∈ functions || name ∈ words then none
  else some (Polynomial.symbol name)

mutual

def readSum : Nat → List Token → Option (Value × List Token)
  | 0, _ => none
  | fuel + 1, ts => do
    let (v, rest) ← readProduct fuel ts
    readSumRest fuel v rest

def readSumRest : Nat → Value → List Token → Option (Value × List Token)
  | 0, _, _ => none
  | fuel + 1, v, .plus :: ts => do
    let (w, rest) ← readProduct fuel ts
    readSumRest fuel (v + w) rest
  | fuel + 1, v, .minus :: ts => do
    let (w, rest) ← readProduct fuel ts
    readSumRest fuel (v - w) rest
  | _ + 1, v, ts => some (v, ts)

def readProduct : Nat → List Token → Option (Value × List Token)
  | 0, _ => none
  | fuel + 1, ts => do
    let (v, rest) ← readSigned fuel ts
    readProductRest fuel v rest

def readProductRest : Nat → Value → List Token → Option (Value × List Token)
  | 0, _, _ => none
  | fuel + 1, v, .times :: ts => do
    let (w, rest) ← readSigned fuel ts
    readProductRest fuel (v * w) rest
  | fuel + 1, v, .over :: ts => do
    let (w, rest) ← readSigned fuel ts
    readProductRest fuel (← divide v w) rest
  | _ + 1, v, ts => some (v, ts)

def readSigned : Nat → List Token → Option (Value × List Token)
  | 0, _ => none
  | fuel + 1, .minus :: ts => do
    let (v, rest) ← readSigned fuel ts
    return (-v, rest)
  | fuel + 1, .plus :: ts => readSigned fuel ts
  | fuel + 1, ts => do
    let (v, rest) ← readAtom fuel ts
    match rest with
    | .power :: more =>
      let (w, rest) ← readSigned fuel more
      return (← raise v w, rest)
    | rest => some (v, rest)

def readAtom : Nat → List Token → Option (Value × List Token)
  | 0, _ => none
  | _ + 1, .number q :: ts => some (.const q, ts)
  | fuel + 1, .name f :: .opening :: ts => do
    match ← readSum fuel ts with
    | (v, .closing :: rest) => return (← call f v, rest)
    | _ => none
  | _ + 1, .name s :: ts => (nameValue s).map fun v => (v, ts)
  | fuel + 1, .opening :: ts => do
    match ← readSum fuel ts with
    | (v, .closing :: rest) => return (v, rest)
    | _ => none
  | _ + 1, _ => none

end

def evaluate? (cs : List Char) : Option Value := do
  let ts ← tokens? cs
  match ← readSum (8 * ts.length + 8) ts with
  | (v, []) => some v
  | _ => none

def halfTurns (cs : List Char) : Option Amount := do
  let v ← divide (← evaluate? cs) Polynomial.pi
  return Amount.substitute imaginaryName ImaginaryUnit.i (v.mapCoefficients fun q => ⟨q.toFloat, 0⟩)

end CircuitWorks.Qasm.Angle

namespace CircuitWorks.Qasm

def indexOf (phrase : List Char) (position : Nat) : List Char → Option Nat
  | [] => if phrase = [] then some position else none
  | c :: cs =>
    if phrase.isPrefixOf (c :: cs) then some position else indexOf phrase (position + 1) cs

/-- The first position from `start` on at which the phrase occurs. -/
def find (cs phrase : List Char) (start : Nat) : Option Nat :=
  if start ≤ cs.length then indexOf phrase start (cs.drop start) else none

/-- The next bracket from `start` on, or the end of the text. -/
def nextBracket (cs : List Char) (bracket : Char) (start : Nat) : Nat :=
  (find cs [bracket] start).getD cs.length

/-- Goes on with whichever of the phrase and the brackets comes next, and counts how many brackets are
open. A search without an end gives nothing. -/
def seek (cs phrase : List Char) (next : Option Nat) (opening closing : Nat) (depth : Int) :
    Option (Option Nat) :=
  let again : Option Nat → Nat → Nat → Int → Option (Option Nat) := by
    apply seek
    exact cs
    exact phrase
  match next with
  | none => some none
  | some place =>
    if place < opening ∧ place < closing then
      if depth = 0 then some (some place)
      else again (find cs phrase (place + 1)) opening closing depth
    else if opening < closing then
      again next (nextBracket cs '(' (opening + 1)) closing (depth + 1)
    else again next opening (nextBracket cs ')' (closing + 1)) (depth - 1)
partial_fixpoint

/-- The position that a start stands for: one below zero counts from the end. -/
def placeOf (cs : List Char) (start : Int) : Nat :=
  if start < 0 then (start + cs.length).toNat else start.toNat

/-- The first position from `start` on at which the phrase occurs with no bracket open. -/
def findOutside (cs phrase : List Char) (start : Int) : Option (Option Nat) :=
  let first := placeOf cs start
  seek cs phrase (find cs phrase first) (nextBracket cs '(' first) (nextBracket cs ')' first) 0

/-- The pieces of a text between the marks outside brackets, after those before `start`. -/
def splitOutside (cs : List Char) (mark : Char) (start : Nat) (pieces : List (List Char)) :
    Option (List (List Char)) := do
  let again : Nat → List (List Char) → Option (List (List Char)) := by
    apply splitOutside
    exact cs
    exact mark
  match ← findOutside cs [mark] start with
  | none => return pieces ++ [cs.drop start]
  | some stop => again (stop + 1) (pieces ++ [(cs.drop start).take (stop - start)])
partial_fixpoint

inductive ParseError where
  | noDeclaration
  | header (name : String)
  | gateDefinition
  | ifPhrase (text : String)
  | writesBits
  | angle (text : String)
  | gateHeader (gate file : String)
  | gateType (name : String)
  | circuit (cause : Circuit.Error)
  /-- There are too few lines or arguments. -/
  | missing
  /-- A mark is missing or occurs too often, or a number is not one. -/
  | malformed | unknownRegister | negative
  /-- A parameter of a definition that is no name. -/
  | parameter
  /-- A parameter of a definition with the name of a function. -/
  | functionName
  deriving Repr

def ParseError.message? : ParseError → Option String
  | noDeclaration => some "File must declare OPENQASM version and its includes."
  | header name => some ("Header " ++ name ++ ".inc not recognised")
  | gateDefinition => some "Custom gate definition is invalid."
  | ifPhrase text => some ("Error in parsing: cannot match \"" ++ text ++ "\" against \"if\"")
  | writesBits =>
    some "Error in parsing: cannot accept a non-Measure gate writing to classical register"
  | angle text => some ("Cannot parse angle: " ++ text)
  | gateHeader gate file =>
    some ("Gate of type " ++ gate ++ " is not defined in header " ++ file ++ ".inc")
  | gateType name => some ("Cannot parse gate of type: " ++ name)
  | circuit cause => some cause.message
  | _ => none

instance : HasProblem ParseError where
  problem
    | .circuit cause => HasProblem.problem cause
    | .missing => { fault := .index }
    | .malformed => { fault := .value }
    | .unknownRegister => { fault := .key }
    | .negative | .functionName => { fault := .type }
    | .parameter => { fault := .formula }
    | e => { fault := .program, message := e.message? }

structure Definition where
  name : String
  params : List String
  circuit : Circuit

structure Scope where
  circuit : Circuit
  registers : List (String × List UnitId)

namespace Scope

def lookup (s : Scope) (name : List Char) : Except ParseError (List UnitId) :=
  match s.registers.lookup (String.ofList name) with
  | some units => .ok units
  | none => .error .unknownRegister

def define (s : Scope) (name : String) (units : List UnitId) : Scope :=
  { s with registers := (name, units) :: s.registers.filter (·.1 ≠ name) }

def update (s : Scope) (result : Except Circuit.Error Circuit) : Except ParseError Scope :=
  match result with
  | .ok c => .ok { s with circuit := c }
  | .error e => .error (.circuit e)

end Scope

def orMalformed {α : Type} (x : Option α) : Except ParseError α :=
  match x with
  | some a => .ok a
  | none => .error .malformed

def cut (phrase cs : List Char) : Except ParseError (List Char × List Char) :=
  orMalformed (Text.cut? phrase cs)

def cutSingle (mark : Char) (cs : List Char) : Except ParseError (List Char × List Char) :=
  match Text.pieces mark cs with
  | [a, b] => .ok (a, b)
  | _ => .error .malformed

def integer (cs : List Char) : Except ParseError Int := orMalformed (Text.int? cs)

def indexed (register : List Char) (index : Int) : Except ParseError UnitId :=
  if index < 0 then .error .negative else .ok ⟨String.ofList register, [index.toNat]⟩

def measured (s : Scope) (cs : List Char) : Except ParseError (List UnitId) := do
  if '[' ∈ cs then
    let (register, rest) ← cutSingle '[' cs
    let (index, _) ← cutSingle ']' rest
    return [← indexed register (← integer index)]
  else s.lookup cs

def argument (s : Scope) (cs : List Char) : Except ParseError (List UnitId) := do
  if '[' ∈ cs then
    let (register, rest) ← cut ['['] cs
    return [← indexed register (← integer rest.dropLast)]
  else s.lookup cs

/-- The argument lists of the gates that a statement stands for: the `j`-th takes the `j`-th unit of
every argument, as long as all have one. -/
def rows : List (List UnitId) → List (List UnitId)
  | [] => []
  | [units] => units.map fun u => [u]
  | units :: rest => (units.zip (rows rest)).map fun (u, row) => u :: row

abbrev Guard := Option (List UnitId × Int)

def addGuarded (s : Scope) (op : Except Circuit.Error Op) (guard : Guard) (args : List UnitId) :
    Except ParseError Scope :=
  s.update do
    let op ← op
    match guard with
    | none => s.circuit.addOp op args
    | some (bits, value) => s.circuit.addConditional op bits (some value) args

def addRows (s : Scope) (op : Except Circuit.Error Op) (guard : Guard)
    (args : List (List UnitId)) : Except ParseError Scope :=
  (rows args).foldlM (fun s row => addGuarded s op guard row) s

def readGuard (s : Scope) (cs : List Char) : Except ParseError (Guard × List Char) := do
  if ['i', 'f'].isPrefixOf cs then
    let (word, rest) ← cut ['('] cs
    if Text.strip word ≠ ['i', 'f'] then throw (.ifPhrase (String.ofList word))
    let (condition, rest) ← cut [')'] rest
    let (register, value) ← cut ['=', '='] condition
    let bits ← s.lookup (Text.strip register)
    let value ← integer value
    return (some (bits, value), Text.strip rest)
  else return (none, cs)

def readMeasure (s : Scope) (guard : Guard) (source target : List Char) :
    Except ParseError Scope := do
  let word := ['m', 'e', 'a', 's', 'u', 'r', 'e']
  if !Text.contains word source then throw .writesBits
  let qubits ← measured s (Text.remove [' '] (Text.remove word source))
  let bits ← measured s (Text.remove [' '] target)
  (qubits.zip bits).foldlM
    (fun s (q, b) => addGuarded s (Circuit.gateOp .measure []) guard [q, b]) s

def readDeclaration (s : Scope) (kind : UnitKind) (args : List (List Char)) :
    Except ParseError Scope := do
  match args with
  | [] => throw .missing
  | arg :: _ =>
    let (name, rest) ← cut ['['] arg
    let size ← integer rest.dropLast
    if size < 0 then throw .negative
    let register : Register := ⟨String.ofList name, size.toNat⟩
    let s ← s.update (s.circuit.addRegister kind register)
    return s.define register.name register.bits

def readAngles (cs : List Char) : Except ParseError (List Amount) :=
  (((splitOutside cs ',' 0 []).getD []).map Text.strip).mapM fun angle =>
    match Angle.halfTurns angle with
    | some x => .ok x
    | none => .error (.angle (String.ofList angle))

def customOp (d : Definition) (params : List Amount) : Except Circuit.Error Op :=
  if params.length ≠ d.params.length then .error .paramCount
  else .ok (.custom d.name d.params d.circuit params)

def namedOp (header : String) (definitions : List Definition) (known : List (String × OpType))
    (name : String) (params : List Amount) : Except ParseError (Except Circuit.Error Op) :=
  match known.lookup name with
  | some type =>
    if header ≠ "hqslib1" && isExtended name then .error (.gateHeader name header)
    else .ok (Circuit.gateOp type params)
  | none =>
    match definitions.find? (·.name = name) with
    | some d => .ok (customOp d params)
    | none => .error (.gateType name)

def readGate (header : String) (definitions : List Definition) (s : Scope) (guard : Guard)
    (name : List Char) (args : List (List Char)) : Except ParseError Scope := do
  let units ← args.mapM (argument s)
  match Text.cut? ['('] name with
  | some (name, params) =>
    let angles ← readAngles params.dropLast
    let op ← namedOp header definitions paramGates (String.ofList name) angles
    addRows s op guard units
  | none =>
    if name = "barrier".toList then s.update (s.circuit.addBarrier units.flatten)
    else
      let op ← namedOp header definitions plainGates (String.ofList name) []
      addRows s op guard units

def splitInstruction (cs : List Char) : List Char × List (List Char) :=
  let (name, rest) :=
    match findOutside cs [' '] 0 with
    | some (some i) => (cs.take i, cs.drop (i + 1))
    | _ => (cs.dropLast, cs)
  (name, Text.items ',' rest)

def readInstruction (header : String) (definitions : List Definition) (s : Scope)
    (cs : List Char) : Except ParseError Scope := do
  let (guard, cs) ← readGuard s cs
  match Text.cut? ['-', '>'] cs with
  | some (source, target) => readMeasure s guard source target
  | none =>
    let (name, args) := splitInstruction cs
    if name = "qreg".toList then readDeclaration s .qubit args
    else if name = "creg".toList then readDeclaration s .bit args
    else readGate header definitions s guard name args

def readParameter (cs : List Char) : Except ParseError String :=
  let name := String.ofList cs
  match cs with
  | [] => .error .parameter
  | c :: rest =>
    if !(Angle.isNameStart c && rest.all Angle.isNamePart) || name ∈ Angle.words then
      .error .parameter
    else .ok name

def readSignature (cs : List Char) :
    Except ParseError (List Char × List String × List (List Char)) := do
  let (_, cs) ← cut [' '] cs
  let (name, params, args) ←
    if '(' ∈ cs then do
      let (name, rest) ← cutSingle '(' cs
      let (params, args) ← cutSingle ')' rest
      pure (name, params, args)
    else do
      let (name, args) ← cut [' '] cs
      pure (name, [], args)
  let params ← ((Text.pieces ',' params).map Text.strip).mapM readParameter
  return (Text.strip name, params, (Text.pieces ',' args).map Text.strip)

mutual

def substituteOp (values : List (String × Amount)) : Op → Op
  | .gate type params => .gate type (params.map fun p =>
    values.foldl (fun p (name, value) => Amount.substitute name value p) p)
  | .custom name args definition params => .custom name args definition (params.map fun p =>
    values.foldl (fun p (name, value) => Amount.substitute name value p) p)
  | .conditional width value op => .conditional width value (substituteOp values op)
  | op => op

end

def renameUnits (names : List (UnitId × UnitId)) (c : Circuit) : Circuit :=
  let rename (u : UnitId) : UnitId := (names.lookup u).getD u
  { c with
    qubits := UnitId.sort (c.qubits.map rename)
    bits := UnitId.sort (c.bits.map rename)
    commands := c.commands.map fun cmd => ⟨cmd.op, cmd.args.map rename⟩ }

/-- A gate definition from its first word to the closing brace. Angles in it are in radians, so each
parameter is turned into half turns. -/
def readDefinition (header : String) (definitions : List Definition) (cs : List Char) :
    Except ParseError Definition := do
  let (signature, rest) ← cut ['\x7b'] cs
  let (name, params, args) ← readSignature signature
  let units : List UnitId := args.map fun a => ⟨String.ofList a, []⟩
  let start : Scope := ⟨Circuit.empty, []⟩
  let scope ← units.foldlM (fun s u => do
    let s ← s.update (s.circuit.addQubit u)
    return s.define u.register [u]) start
  let (body, _) ← cut ['\x7d'] rest
  let scope ← (Text.items ';' body).foldlM (readInstruction header definitions) scope
  if params.any (· ∈ Angle.functions) then throw .functionName
  let renamed := renameUnits (units.zipIdx.map fun (u, i) => (u, UnitId.qubit i)) scope.circuit
  let values := params.eraseDups.map fun p => (p, Amount.symbol p * Amount.pi)
  let circuit := { renamed with
    commands := renamed.commands.map fun cmd => ⟨substituteOp values cmd.op, cmd.args⟩ }
  return ⟨String.ofList name, params, circuit⟩

def takeDefinition (cs : List Char) :
    Except ParseError (Option (List Char × List Char)) :=
  let word := "gate ".toList
  match Text.cut? word cs with
  | none => .ok none
  | some (before, after) =>
    match Text.cut? ['\x7d'] after with
    | none => .error .gateDefinition
    | some (inside, rest) => .ok (some (word ++ inside ++ ['\x7d'], before ++ rest))

/-- Reads the definitions of a text one by one, at most `fuel` of them: the definitions and the text
without them. -/
def takeDefinitions (header : String) :
    Nat → List Definition → List Char → Except ParseError (List Definition × List Char)
  | 0, definitions, cs => .ok (definitions, cs)
  | fuel + 1, definitions, cs => do
    match ← takeDefinition cs with
    | none => return (definitions, cs)
    | some (text, rest) =>
      let d ← readDefinition header definitions text
      takeDefinitions header fuel (d :: definitions.filter (·.name ≠ d.name)) rest

def cleanLine (cs : List Char) : List Char :=
  match Text.cut? ['/', '/'] cs with
  | some (before, _) => Text.strip before
  | none => Text.strip cs

def includeName? (row : List Char) : Option (List Char) :=
  let opening := "include \"".toList
  let closing := ".inc\";".toList
  if opening.isPrefixOf row && closing.isSuffixOf row then
    some ((row.drop opening.length).take (row.length - opening.length - closing.length))
  else none

def readPreamble (cs : List Char) : Except ParseError (String × List Char) := do
  match ((Text.lines cs).map cleanLine).filter (fun row => !row.isEmpty) with
  | [] => throw .missing
  | first :: rest =>
    if !"OPENQASM 2.0".toList.isPrefixOf first then throw .noDeclaration
    match rest with
    | [] => throw .missing
    | second :: rows =>
      match includeName? second with
      | none => throw .noDeclaration
      | some name =>
        let name := String.ofList name
        if name ≠ "qelib1" ∧ name ≠ "hqslib1" then throw (.header name)
        return (name, ['\n'].intercalate rows)

def parse (program : List Char) : Except ParseError Circuit := do
  let (header, cs) ← readPreamble program
  let (definitions, cs) ← takeDefinitions header cs.length [] cs
  let scope ← (Text.items ';' cs).foldlM (readInstruction header definitions)
    ⟨Circuit.empty, []⟩
  return scope.circuit

end CircuitWorks.Qasm
