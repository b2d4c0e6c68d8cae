import CircuitWorks.Logic.Basic
import CircuitWorks.OpType
import CircuitWorks.Pauli.Operator

/-!
Circuits: lists of commands over qubits and bits, with boxes that hold circuits in turn, and scratch
space for classical expressions. A step of building that fails leaves the circuit as it was.
-/

namespace CircuitWorks

inductive BitOperation where
  | and | or | xor | not
  deriving DecidableEq, Repr, Inhabited

def BitOperation.name : BitOperation → String
  | .and => "AND"
  | .or => "OR"
  | .xor => "XOR"
  | .not => "NOT"

inductive BoxAngle where
  | whole (n : Int)
  | amount (a : Amount)
  deriving BEq, Inhabited

def BoxAngle.toAmount : BoxAngle → Amount
  | whole n => Amount.ofInt n
  | amount a => a

def BoxAngle.text : BoxAngle → String
  | whole n => toString n
  | amount a => Amount.text a

mutual

inductive Op where
  | gate (type : OpType) (params : List Amount)
  | barrier (signature : List EdgeType)
  | setBits (values : List Bool)
  | copyBits (count : Nat)
  /-- Writes whether the number held by the first bits lies between two bounds. -/
  | range (lower upper count : Nat)
  /-- Writes the result of a logic operation to a further bit. -/
  | predicate (op : BitOperation)
  | modifier (op : BitOperation)
  /-- A classical operation repeated on successive groups of arguments. -/
  | multiBit (op : Op) (count : Nat)
  /-- Evaluates an expression: how many arguments are only read, read and written, only written. -/
  | classicalExp (inputs both outputs : Nat) (exp : Logic.Term)
  | circBox (circuit : Circuit)
  /-- An operation on the last arguments under the control of the first. -/
  | qControl (op : Op) (controls targets : Nat)
  | unitary (matrix : List (List Amplitude))
  | expBox (matrix : List (List Amplitude)) (t : BoxAngle)
  | pauliExp (paulis : List Pauli) (t : BoxAngle)
  /-- A gate with a definition: its name, the names of its parameters, and its circuit. -/
  | custom (name : String) (args : List String) (definition : Circuit) (params : List Amount)
  /-- An operation done if the first arguments hold a value. -/
  | conditional (width value : Nat) (op : Op)

structure Command where
  op : Op
  args : List UnitId

structure Circuit where
  name : Option String
  phase : Amount
  /-- In ascending order. -/
  qubits : List UnitId
  /-- In ascending order. -/
  bits : List UnitId
  commands : List Command

end

deriving instance BEq for Op, Command, Circuit
deriving instance Inhabited for Op, Circuit, Command

namespace Op

def type : Op → OpType
  | gate type _ => type
  | barrier _ => .barrier
  | setBits _ => .setBits
  | copyBits _ => .copyBits
  | range .. => .rangePredicate
  | predicate _ => .explicitPredicate
  | modifier _ => .explicitModifier
  | multiBit .. => .multiBit
  | classicalExp .. => .classicalExpBox
  | circBox _ => .circBox
  | qControl .. => .qControlBox
  | unitary matrix =>
    if matrix.length ≤ 2 then .unitary1qBox
    else if matrix.length ≤ 4 then .unitary2qBox
    else .unitary3qBox
  | expBox .. => .expBox
  | pauliExp .. => .pauliExpBox
  | custom .. => .custom
  | conditional .. => .conditional

def name : Op → String
  | setBits values => "SetBits(" ++ String.ofList (values.map fun v => if v then '1' else '0') ++ ")"
  | range lower upper _ => "RangePredicate([" ++ toString lower ++ "," ++ toString upper ++ "])"
  | predicate op => op.name
  | modifier op => op.name
  | multiBit op count => op.name ++ " (*" ++ toString count ++ ")"
  | custom name .. => name
  | op => op.type.name

def params : Op → List Amount
  | gate _ params => params
  | custom _ _ _ params => params
  | _ => []

def signature (count : Nat) : Op → List EdgeType
  | gate type _ => type.signature.getD (List.replicate count .quantum)
  | barrier signature => signature
  | setBits values => List.replicate values.length .classical
  | copyBits n => List.replicate n .boolean ++ List.replicate n .classical
  | range _ _ n => List.replicate n .boolean ++ [.classical]
  | predicate .not => [.boolean, .classical]
  | predicate _ => [.boolean, .boolean, .classical]
  | modifier _ => [.boolean, .classical]
  | multiBit op n => (List.replicate n (op.signature 0)).flatten
  | classicalExp inputs both outputs _ =>
    List.replicate inputs .boolean ++ List.replicate (both + outputs) .classical
  | circBox c => List.replicate c.qubits.length .quantum ++ List.replicate c.bits.length .classical
  | qControl _ controls targets => List.replicate (controls + targets) .quantum
  | unitary matrix => List.replicate matrix.length.log2 .quantum
  | expBox .. => [.quantum, .quantum]
  | pauliExp paulis _ => List.replicate paulis.length .quantum
  | custom _ _ c _ => List.replicate c.qubits.length .quantum
  | conditional width _ op => List.replicate width .boolean ++ op.signature (count - width)

def isMeasure (op : Op) : Bool := op.type = .measure

end Op

def Command.text (c : Command) : String :=
  let separator := if c.op.type = .measure then " --> " else ", "
  c.op.name ++ " " ++ separator.intercalate (c.args.map UnitId.text) ++ ";"

end CircuitWorks

namespace CircuitWorks.Scratch

def bitName : String := "tk_SCRATCH_BIT"

def registerBase : String := "tk_SCRATCH_BITREG"

def registerSize : Nat := 32

inductive Error where
  | exhausted | unindexed | unnumbered
  deriving DecidableEq, Repr

instance : HasProblem Error where
  problem
    | .unnumbered => { fault := .value }
    | _ => { fault := .index }

/-- Variables in use or free for reuse. -/
structure Pool (α : Type) where
  /-- Free variables in ascending order; one may occur more than once. -/
  free : List α
  /-- All variables that were ever pooled, without repetition. -/
  known : List α
  deriving Repr, Inhabited

namespace Pool

variable {α : Type}

def empty : Pool α := ⟨[], []⟩

def insertBy (le : α → α → Bool) (a : α) : List α → List α
  | [] => [a]
  | b :: rest => if le a b then a :: b :: rest else b :: insertBy le a rest

variable [DecidableEq α]

def use (p : Pool α) (a : α) : Pool α := if a ∈ p.known then p else { p with known := a :: p.known }

def push (le : α → α → Bool) (p : Pool α) (a : α) : Pool α :=
  { p.use a with free := insertBy le a p.free }

def pop (p : Pool α) : Except Error (α × Pool α) :=
  match p.free with
  | [] => .error .exhausted
  | a :: rest => .ok (a, { p with free := rest })

def isKnown (p : Pool α) (a : α) : Bool := a ∈ p.known

def release (le : α → α → Bool) (p : Pool α) (a : α) : Pool α :=
  if p.isKnown a then p.push le a else p

def fresh (p : Pool α) (make : Except Error α) : Except Error (α × Pool α) :=
  match p.free with
  | [] => do
    let a ← make
    return (a, p.use a)
  | a :: rest => .ok (a, { p with free := rest })

end Pool

def nextAfter (numbers : List Int) : Int := numbers.foldl max (-1) + 1

def bitNumber (b : UnitId) : Except Error Int :=
  match b.index with
  | [] => .error .unindexed
  | i :: _ => .ok i

def digits? (digits : List Char) : Option Nat :=
  if digits.isEmpty || !digits.all Char.isDigit then none else some (Nat.ofDigitChars 10 digits 0)

def number? (s : String) : Option Int :=
  match s.toList with
  | '-' :: digits => (digits? digits).map fun n => -(n : Int)
  | '+' :: digits => (digits? digits).map fun n => (n : Int)
  | digits => (digits? digits).map fun n => (n : Int)

def nameEnd (name : String) : String :=
  String.ofList (name.toList.reverse.takeWhile (· ≠ '_')).reverse

def nameNumber (name : String) : Except Error Int :=
  match number? (nameEnd name) with
  | some n => .ok n
  | none => .error .unnumbered

abbrev BitPool := Pool UnitId

namespace BitPool

def push (p : BitPool) (b : UnitId) : BitPool := Pool.push UnitId.le p b
def release (p : BitPool) (b : UnitId) : BitPool := Pool.release UnitId.le p b

def nextIndex (p : BitPool) : Except Error Int := do
  return nextAfter (← p.known.mapM bitNumber)

def fresh (p : BitPool) (register : String) : Except Error (UnitId × BitPool) :=
  Pool.fresh p do return ⟨register, [(← nextIndex p).toNat]⟩

end BitPool

abbrev RegisterPool := Pool Register

namespace RegisterPool

def push (p : RegisterPool) (r : Register) : RegisterPool := Pool.push Register.le p r
def release (p : RegisterPool) (r : Register) : RegisterPool := Pool.release Register.le p r

def nextIndex (p : RegisterPool) : Except Error Int := do
  return nextAfter (← p.known.mapM fun r => nameNumber r.name)

def fresh (p : RegisterPool) (base : String) (size : Nat) : Except Error (Register × RegisterPool) :=
  Pool.fresh p do return ⟨base ++ "_" ++ toString (← nextIndex p), size⟩

end RegisterPool

def registerOf? (bits : List UnitId) : Option Register :=
  (bits.find? fun b => b.register.startsWith registerBase).map fun b => ⟨b.register, registerSize⟩

end CircuitWorks.Scratch

namespace CircuitWorks

inductive Circuit.Error where
  | unitExists (unit : UnitId)
  | kindTaken (kind : UnitKind) (unit : UnitId)
  | incompatibleRegister (kind : UnitKind) (unit : UnitId)
  | registerExists (name : String)
  | registerSize (name : String)
  | notGate | paramCount | metaOp | twoConditions | valueWithoutBits | negativeValue | noArguments
  | argCount (given : Nat) (name : String) (required : Nat)
  | repeatedArgument (unit : UnitId)
  | missingUnit (unit : UnitId)
  | notReadable | edgeType
  /-- The bounds of a range are not numbers of 32 bits. -/
  | bounds
  /-- The position lies outside the register. -/
  | registerIndex
  deriving DecidableEq, Repr

def Circuit.Error.message : Circuit.Error → String
  | unitExists u => "A unit with ID \"" ++ u.text ++ "\" already exists"
  | kindTaken kind u => "A " ++ kind.name ++ " with ID \"" ++ u.text ++ "\" already exists"
  | incompatibleRegister kind u =>
    "Cannot add " ++ kind.name ++ " with ID \"" ++ u.text ++ "\" as register is not compatible"
  | registerExists name => "A register with name \"" ++ name ++ "\" already exists"
  | registerSize name =>
    "Existing register with name \"" ++ name ++
      "\" already exists, and does not match the requested size."
  | notGate => "Not valid."
  | paramCount => "Gate has an invalid number of parameters"
  | metaOp => "Cannot add metaop. Please use `add_barrier` to add a barrier."
  | twoConditions => "Both `condition` and `condition_bits` specified"
  | valueWithoutBits => "`condition_value` specified without `condition_bits`"
  | negativeValue => "Unable to cast Python instance"
  | noArguments => "An operation must act on at least one wire"
  | argCount given name required =>
    toString given ++ " args provided, but " ++ name ++ " requires " ++ toString required
  | repeatedArgument u => "Multiple operation arguments reference " ++ u.text
  | missingUnit u => "Circuit does not contain unit with id: " ++ u.text
  | notReadable => "Cannot rewire; Boolean needs a classical value to read from"
  | edgeType => "Cannot rewire; changing type of edge"
  | bounds => ""
  | registerIndex => "Index out of range of UnitRegister."

instance Circuit.Error.instHasProblem : HasProblem Circuit.Error where
  problem
    | .bounds => { fault := .type }
    | .registerIndex => { fault := .index, message := some (Circuit.Error.message .registerIndex) }
    | e => { fault := .operation, message := some e.message }

def Register.bit (r : Register) (i : Nat) : Except Circuit.Error UnitId :=
  match r.bit? i with
  | some b => .ok b
  | none => .error .registerIndex

namespace Circuit

def empty : Circuit := ⟨none, 0, [], [], []⟩

def kindOf? (c : Circuit) (u : UnitId) : Option UnitKind :=
  if u ∈ c.qubits then some .qubit
  else if u ∈ c.bits then some .bit
  else none

def registerInfo? (c : Circuit) (name : String) : Option (UnitKind × Nat) :=
  match c.qubits.find? (·.register = name) with
  | some u => some (.qubit, u.index.length)
  | none => (c.bits.find? (·.register = name)).map fun u => (.bit, u.index.length)

def insertUnit (c : Circuit) (kind : UnitKind) (u : UnitId) : Circuit :=
  match kind with
  | .qubit => { c with qubits := UnitId.insertSorted u c.qubits }
  | .bit => { c with bits := UnitId.insertSorted u c.bits }

/-- A new unit, whose register must be new or of the same kind and dimension. -/
def insertNew (c : Circuit) (kind : UnitKind) (u : UnitId) : Except Error Circuit :=
  match c.registerInfo? u.register with
  | none => .ok (c.insertUnit kind u)
  | some info =>
    if info = (kind, u.index.length) then .ok (c.insertUnit kind u)
    else .error (.incompatibleRegister kind u)

def addUnit (c : Circuit) (kind : UnitKind) (u : UnitId) : Except Error Circuit :=
  if (c.kindOf? u).isSome then .error (.unitExists u) else c.insertNew kind u

def ensureUnit (c : Circuit) (kind : UnitKind) (u : UnitId) : Except Error Circuit :=
  match c.kindOf? u with
  | some existing => if existing = kind then .ok c else .error (.kindTaken existing u)
  | none => c.insertNew kind u

def addQubit (c : Circuit) (u : UnitId) : Except Error Circuit := c.addUnit .qubit u
def addBit (c : Circuit) (u : UnitId) : Except Error Circuit := c.addUnit .bit u
def ensureBit (c : Circuit) (u : UnitId) : Except Error Circuit := c.ensureUnit .bit u

def ensureBits (c : Circuit) (units : List UnitId) : Except Error Circuit :=
  units.foldlM ensureBit c

def addRegister (c : Circuit) (kind : UnitKind) (r : Register) : Except Error Circuit :=
  if (c.registerInfo? r.name).isSome then .error (.registerExists r.name)
  else .ok (r.bits.foldl (fun c u => c.insertUnit kind u) c)

def registerUnits (c : Circuit) (name : String) : List UnitId :=
  (c.qubits ++ c.bits).filter (·.register = name)

def ensureRegister (c : Circuit) (r : Register) : Except Error Circuit :=
  match c.registerUnits r.name with
  | [] => .ok (r.bits.foldl (fun c u => c.insertUnit .bit u) c)
  | units => if units.length = r.size then .ok c else .error (.registerSize r.name)

def blank (qubits bits : Nat) : Circuit :=
  { empty with
    qubits := (List.range qubits).map UnitId.qubit
    bits := (List.range bits).map UnitId.bit }

def checkArgs (c : Circuit) (written : List UnitId) : List (UnitId × EdgeType) → Except Error Unit
  | [] => .ok ()
  | (u, e) :: rest =>
    if e ≠ .boolean ∧ u ∈ written then .error (.repeatedArgument u)
    else if (c.kindOf? u).isNone then .error (.missingUnit u)
    else checkArgs c (if e = .boolean then written else u :: written) rest

def checkKinds (c : Circuit) : List (UnitId × EdgeType) → Except Error Unit
  | [] => .ok ()
  | (u, e) :: rest =>
    match e, c.kindOf? u with
    | .boolean, some .bit => checkKinds c rest
    | .boolean, _ => .error .notReadable
    | .quantum, some .qubit => checkKinds c rest
    | .classical, some .bit => checkKinds c rest
    | _, _ => .error .edgeType

def checkOp (c : Circuit) (op : Op) (args : List UnitId) : Except Error Unit := do
  let signature := op.signature args.length
  if args.isEmpty then throw .noArguments
  if args.length ≠ signature.length then
    throw (.argCount args.length op.name signature.length)
  checkArgs c [] (args.zip signature)
  checkKinds c (args.zip signature)

def addOp (c : Circuit) (op : Op) (args : List UnitId) : Except Error Circuit := do
  c.checkOp op args
  return { c with commands := c.commands ++ [⟨op, args⟩] }

def addBarrier (c : Circuit) (args : List UnitId) : Except Error Circuit :=
  c.addOp (.barrier (args.map fun u => if u ∈ c.bits then .classical else .quantum)) args

def gateOp (type : OpType) (params : List Amount) : Except Error Op :=
  if type = .barrier then .error .metaOp
  else if !type.isGate then .error .notGate
  else if params.length ≠ type.paramCount then .error .paramCount
  else .ok (.gate type params)

def addGate (c : Circuit) (type : OpType) (params : List Amount) (args : List UnitId) :
    Except Error Circuit := do
  c.addOp (← gateOp type params) args

def addSetBits (c : Circuit) (values : List Bool) (args : List UnitId) : Except Error Circuit :=
  c.addOp (.setBits values) args

def addCopyBits (c : Circuit) (source target : List UnitId) : Except Error Circuit :=
  c.addOp (.copyBits source.length) (source ++ target)

def addRange (c : Circuit) (lower upper : Int) (source : List UnitId) (target : UnitId) :
    Except Error Circuit :=
  if 0 ≤ lower ∧ lower < 4294967296 ∧ 0 ≤ upper ∧ upper < 4294967296 then
    c.addOp (.range lower.toNat upper.toNat source.length) (source ++ [target])
  else .error .bounds

/-- The form of a binary operation and its operands: if the result goes to an operand, that operand
is combined with the other in place. -/
def binaryForm {α : Type} [DecidableEq α] (op : BitOperation) (a b out : α) : Op × List α :=
  if a = out then (.modifier op, [b, out])
  else if b = out then (.modifier op, [a, out])
  else (.predicate op, [a, b, out])

def addBinary (c : Circuit) (op : BitOperation) (a b out : UnitId) : Except Error Circuit :=
  let (form, args) := binaryForm op a b out
  c.addOp form args

def addNot (c : Circuit) (a out : UnitId) : Except Error Circuit :=
  c.addOp (.predicate .not) [a, out]

def addRegisterBinary (c : Circuit) (op : BitOperation) (a b out : Register) :
    Except Error Circuit :=
  let (form, registers) := binaryForm op a b out
  let size := (registers.map Register.size).foldl min out.size
  let args := (List.range size).flatMap fun i => registers.map fun r => ⟨r.name, [i]⟩
  c.addOp (.multiBit form size) args

def expressionInputs : Logic.Term → List UnitId
  | .constant _ => []
  | .bit e => Logic.bitInputs e
  | .reg e => UnitId.sort (UnitId.distinct ((Logic.regInputs e).flatMap Register.bits))

def addExpression (c : Circuit) (exp : Logic.Term) (outputs : List UnitId) :
    Except Error Circuit :=
  let inputs := expressionInputs exp
  let fresh := outputs.filter fun u => u ∉ inputs
  let both := outputs.length - fresh.length
  c.addOp (.classicalExp (inputs.length - both) both fresh.length exp) (inputs ++ fresh)

def addPhase (c : Circuit) (phase : Amount) : Circuit := { c with phase := c.phase + phase }

def conditionOp (op : Op) (bits : List UnitId) (value : Option Int) : Except Error Op :=
  match value with
  | none => .ok (.conditional bits.length ((Nat.pow 2 bits.length : Nat) - 1) op)
  | some v =>
    if v < 0 then .error .negativeValue else .ok (.conditional bits.length v.toNat op)

def addConditional (c : Circuit) (op : Op) (bits : List UnitId) (value : Option Int)
    (args : List UnitId) : Except Error Circuit := do
  c.addOp (← conditionOp op bits value) (bits ++ args)

def append (c d : Circuit) : Except Error Circuit := do
  let c ← d.qubits.foldlM (fun c u => c.ensureUnit .qubit u) c
  let c ← d.bits.foldlM (fun c u => c.ensureUnit .bit u) c
  let c ← d.commands.foldlM (fun c cmd => c.addOp cmd.op cmd.args) c
  return c.addPhase d.phase

def inverseType : OpType → OpType
  | .s => .sdg
  | .sdg => .s
  | .t => .tdg
  | .tdg => .t
  | .v => .vdg
  | .vdg => .v
  | .sx => .sxdg
  | .sxdg => .sx
  | type => type

mutual

def daggerOp : Op → Op
  | .gate type params => .gate (inverseType type) (params.map (- ·))
  | .custom name args definition params => .custom name args definition (params.map (- ·))
  | .circBox ⟨name, phase, qubits, bits, commands⟩ =>
    .circBox ⟨name, -phase, qubits, bits, daggerCommands commands []⟩
  | op => op

/-- The inverses of the commands in front of `done`, last command first. -/
def daggerCommands : List Command → List Command → List Command
  | [], done => done
  | ⟨op, args⟩ :: rest, done => daggerCommands rest (⟨daggerOp op, args⟩ :: done)

end

def dagger (c : Circuit) : Circuit :=
  { c with phase := -c.phase, commands := daggerCommands c.commands [] }

def lastCommands (c : Circuit) : List (UnitId × Nat) :=
  (c.commands.zipIdx).foldl
    (fun found (cmd, i) =>
      cmd.args.foldl (fun found u => (u, i) :: found.filter (·.1 ≠ u)) found) []

/-- The qubits whose last command is a measurement that is also the last command on its bit, each
with that bit. -/
def finalMeasurements (c : Circuit) : List (UnitId × UnitId) :=
  let last := c.lastCommands
  c.qubits.filterMap fun q =>
    (last.lookup q).bind fun i =>
      c.commands[i]?.bind fun cmd =>
        match cmd.op.type, cmd.args with
        | .measure, [_, b] => if last.lookup b = some i then some (q, b) else none
        | _, _ => none

def countOf (c : Circuit) (type : OpType) : Nat := c.commands.countP fun cmd => cmd.op.type = type

end Circuit

end CircuitWorks
