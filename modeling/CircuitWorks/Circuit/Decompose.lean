import CircuitWorks.Circuit.Basic

namespace CircuitWorks.Condition

open Logic (Term Constant RegBinary)

inductive Error where
  | circuit (cause : Circuit.Error)
  | scratch (cause : Scratch.Error)
  /-- The term is no bit, bit expression or comparison. -/
  | notCondition (term : Term)
  | noRegister | notConstant
  deriving Repr

def Error.message? : Error → Option String
  | .circuit cause => some cause.message
  | .notCondition t =>
    some ("Condition " ++ t.text ++ " must be of type Bit, BitLogicExp or ConstPredicate")
  | _ => none

instance : HasProblem Error where
  problem
    | .circuit cause => HasProblem.problem cause
    | .scratch cause => HasProblem.problem cause
    | .notConstant => { fault := .assumption }
    | e => { fault := .value, message := e.message? }

/-- Steps that change a circuit and may fail part way. -/
abbrev Build := ExceptT Error (StateM Circuit)

/-- A step that is done wholly or not at all. -/
def step (f : Circuit → Except Circuit.Error Circuit) : Build Unit := do
  match f (← get) with
  | .ok c => set c
  | .error e => throw (.circuit e)

def orScratch {α : Type} (x : Except Scratch.Error α) : Build α :=
  match x with
  | .ok a => pure a
  | .error e => throw (.scratch e)

def nextBit (c : Circuit) : Except Scratch.Error UnitId := do
  let numbers ← (c.bits.filter (·.register = Scratch.bitName)).mapM Scratch.bitNumber
  return ⟨Scratch.bitName, [(Scratch.nextAfter numbers).toNat]⟩

def nextRegister (c : Circuit) : Except Scratch.Error Register := do
  let names := (c.bits.map (·.register)).filter (·.startsWith Scratch.registerBase)
  let numbers ← names.mapM Scratch.nameNumber
  return ⟨Scratch.registerBase ++ "_" ++ toString (Scratch.nextAfter numbers), Scratch.registerSize⟩

def greatest : Int := 4294967295

def bounds (op : RegBinary) (value : Int) : Int × Int :=
  match op with
  | .lt => (0, value - 1)
  | .gt => (value + 1, greatest)
  | .leq => (0, value)
  | .geq => (value, greatest)
  | .eq | .neq => (value, value)
  | _ => (0, greatest)

def boundsValue (op : RegBinary) : Bool := op ≠ .neq

/-- The bits that hold a register expression; an operation is first written to a scratch
register. -/
def registerBits (exp : Logic.RegExp) : Build (List UnitId) :=
  match exp with
  | .var r => return r.bits
  | exp => do
    match (Logic.regInputs exp).map Register.size with
    | [] => throw .noRegister
    | size :: sizes =>
      let scratch ← orScratch (nextRegister (← get))
      step fun c => c.ensureRegister scratch
      let bits := scratch.bits.take (sizes.foldl min size)
      step fun c => c.addExpression (.reg exp) bits
      return bits

def addComparison (op : RegBinary) (exp : Logic.RegExp) (value : Int) : Build (UnitId × Bool) := do
  let bit ← orScratch (nextBit (← get))
  step fun c => c.addBit bit
  let bits ← registerBits exp
  let (lower, upper) := bounds op value
  step fun c => c.addRange lower upper bits bit
  return (bit, boundsValue op)

def addBitExp (exp : Logic.BitExp) (value : Bool) : Build (UnitId × Bool) := do
  let bit ← orScratch (nextBit (← get))
  match exp with
  | .var b => return (b, value)
  | exp =>
    step fun c => c.addBit bit
    step fun c => c.addExpression (.bit exp) [bit]
    return (bit, value)

/-- Adds the commands that evaluate a condition: the bit that tells, and the value it then has. -/
def add (condition : Term) : Build (UnitId × Bool) :=
  match condition with
  | .bit (.var b) => return (b, true)
  | .bit (.binary .eq x (.const c)) => addBitExp x (c.toInt ≠ 0)
  | .bit (.binary .eq _ _) => throw .notConstant
  | .bit (.const _) => throw (.notCondition condition)
  | .bit e => addBitExp e true
  | .reg (.binary op x y) =>
    if Term.RegBinary.isComparison op then
      match y with
      | .const c => addComparison op x c.toInt
      | _ => throw .notConstant
    else throw (.notCondition condition)
  | t => throw (.notCondition t)

structure Request where
  bits : Option (List UnitId) := none
  value : Option Int := none
  exp : Option Term := none

def addOp (op : Op) (args : List UnitId) (request : Request) : Build Unit := do
  match request.exp, request.bits, request.value with
  | some _, some _, _ => throw (.circuit .twoConditions)
  | _, none, some _ => throw (.circuit .valueWithoutBits)
  | none, none, none => step fun c => c.addOp op args
  | none, some bits, value => step fun c => c.addConditional op bits value args
  | some exp, none, none =>
    let (bit, value) ← add exp
    step fun c => c.addConditional op [bit] (some (if value then 1 else 0)) args

def addGate (type : OpType) (params : List Amount) (args : List UnitId) (request : Request) :
    Build Unit := do
  match Circuit.gateOp type params with
  | .ok op => addOp op args request
  | .error e => throw (.circuit e)

end CircuitWorks.Condition

namespace CircuitWorks.Decompose

open Logic (Constant BitBinary RegBinary BitExp RegExp)
open Scratch (BitPool RegisterPool)

inductive Error where
  | circuit (cause : Circuit.Error)
  | scratch (cause : Scratch.Error)
  /-- A box, condition or constant of a form that is not expected. -/
  | unexpected
  /-- An operation that does not have two operands, or a constant that has no binary form. -/
  | operands
  /-- An operation that no classical command computes. -/
  | noCommand
  /-- A register expression without a scratch register for its result. -/
  | noTarget
  deriving DecidableEq, Repr

instance : HasProblem Error where
  problem
    | .circuit cause => HasProblem.problem cause
    | .scratch cause => HasProblem.problem cause
    | .unexpected => { fault := .assumption }
    | .operands => { fault := .value }
    | .noCommand => { fault := .key }
    | .noTarget => { fault := .type }

structure State where
  circuit : Circuit
  bits : BitPool
  registers : RegisterPool
  /-- Where the results written to scratch bits are found. -/
  movedBits : List (UnitId × UnitId)
  /-- Where the results written to scratch registers are found. -/
  movedRegisters : List (Register × Register)
  modified : Bool

abbrev Run := StateT State (Except Error)

def liftCircuit (f : Circuit → Except Circuit.Error Circuit) : Run Unit := do
  let s ← get
  match f s.circuit with
  | .ok c => set { s with circuit := c }
  | .error e => throw (.circuit e)

def freshBit : Run UnitId := do
  let s ← get
  match s.bits.fresh Scratch.bitName with
  | .ok (b, pool) =>
    set { s with bits := pool }
    return b
  | .error e => throw (.scratch e)

def freshRegister : Run Register := do
  let s ← get
  match s.registers.fresh Scratch.registerBase Scratch.registerSize with
  | .ok (r, pool) =>
    set { s with registers := pool }
    return r
  | .error e => throw (.scratch e)

def freeBit (b : UnitId) : Run Unit := modify fun s => { s with bits := s.bits.push b }

def freeRegister (r : Register) : Run Unit :=
  modify fun s => { s with registers := s.registers.push r }

def releaseBit (b : UnitId) : Run Unit := modify fun s => { s with bits := s.bits.release b }

def releaseRegister (r : Register) : Run Unit :=
  modify fun s => { s with registers := s.registers.release r }

/-- What an operand has become: a constant still, or a variable that holds it. -/
inductive Operand (V : Type) where
  | value (c : Constant)
  | held (v : V)

/-- The variable that holds an operand; `hold` writes a constant to one. -/
def Operand.settle {V : Type} (hold : Constant → Run V) : Operand V → Run V
  | .value c => hold c
  | .held v => return v

/-- Replaces the operations of a tree from the leaves up: `hold` writes a constant to a variable and
`combine` writes the result of an operation on two variables to a third. -/
def walk {U B V : Type} (hold : Constant → Run V) (combine : B → V → V → Run V) :
    Logic.Exp U B V → Run (Operand V)
  | .const c => return .value c
  | .var v => return .held v
  | .unary _ x => do
    let a ← walk hold combine x
    let _ ← a.settle hold
    throw .operands
  | .binary op x y => do
    let a ← walk hold combine x
    let b ← walk hold combine y
    let u ← a.settle hold
    let v ← b.settle hold
    return .held (← combine op u v)

def holdBit (c : Constant) : Run UnitId := do
  let b ← freshBit
  liftCircuit fun circ => circ.ensureBit b
  liftCircuit fun circ => circ.addSetBits [c.toInt ≠ 0] [b]
  return b

def bitOperation? : BitBinary → Option BitOperation
  | .and => some .and
  | .or => some .or
  | .xor => some .xor
  | .eq => none

/-- Writes the result of an operation on two bits to a scratch bit. Scratch operands are freed
first, so that the result may take their place. -/
def combineBits (op : BitBinary) (a b : UnitId) : Run UnitId := do
  releaseBit a
  releaseBit b
  let out ← freshBit
  liftCircuit fun circ => circ.ensureBit out
  match bitOperation? op with
  | some operation => liftCircuit fun circ => circ.addBinary operation a b out
  | none => throw .noCommand
  return out

def bitWidth (n : Nat) : Nat := if n = 0 then 1 else n.log2 + 1

def lowBits (width n : Nat) : List Bool := (List.range width).map n.testBit

def holdRegister (c : Constant) : Run Register := do
  let r ← freshRegister
  liftCircuit fun circ => circ.ensureBits r.bits
  let n := c.toInt
  if n < 0 then throw .operands
  let width := bitWidth n.toNat
  if Scratch.registerSize < width then throw .unexpected
  let part : Register := ⟨r.name, width⟩
  liftCircuit fun circ => circ.ensureBits part.bits
  liftCircuit fun circ => circ.addSetBits (lowBits width n.toNat) part.bits
  return r

def registerOperation? : RegBinary → Option BitOperation
  | .and => some .and
  | .or => some .or
  | .xor => some .xor
  | _ => none

def combineRegisters (op : RegBinary) (a b : Register) : Run Register := do
  releaseRegister a
  releaseRegister b
  let out ← freshRegister
  liftCircuit fun circ => circ.ensureBits out.bits
  match registerOperation? op with
  | some operation => liftCircuit fun circ => circ.addRegisterBinary operation a b out
  | none => throw .noCommand
  return out

def result {V : Type} : Operand V → Run V
  | .held v => return v
  | .value _ => throw .unexpected

def moved {V : Type} [DecidableEq V] (source target : V) (known : List (V × V)) : List (V × V) :=
  (source, target) :: known.filter (·.1 ≠ source)

def boxOfBits (exp : BitExp) (target : UnitId) : Run Unit := do
  freeBit target
  let out ← result (← walk holdBit combineBits exp)
  modify fun s => { s with movedBits := moved target out s.movedBits }

def boxOfRegisters (exp : RegExp) (target : Register) : Run Unit := do
  freeRegister target
  let out ← result (← walk holdRegister combineRegisters exp)
  modify fun s => { s with movedRegisters := moved target out s.movedRegisters }

def box (outputs : Nat) (exp : Logic.Term) (args : List UnitId) : Run Unit := do
  if outputs = 1 then
    match exp, args.getLast? with
    | .bit e, some target => boxOfBits e target
    | _, _ => throw .unexpected
  else
    match exp, Scratch.registerOf? args with
    | .reg e, some target => boxOfRegisters e target
    | .reg _, none => throw .noTarget
    | _, none => throw (if (← get).registers.free.isEmpty then .unexpected else .noTarget)
    | _, some _ => throw .unexpected
  modify fun s => { s with modified := true }

def moveBit (source target : Register) (b : UnitId) : Except Scratch.Error UnitId :=
  if b.register = source.name then do return ⟨target.name, [(← Scratch.bitNumber b).toNat]⟩
  else .ok b

def range (op : Op) (args : List UnitId) : Run Unit := do
  let some target := args.getLast? | throw .unexpected
  liftCircuit fun c => c.ensureBit target
  let known := (← get).movedRegisters
  let found := (Scratch.registerOf? args).bind fun r => (known.lookup r).map fun new => (r, new)
  match found with
  | none => liftCircuit fun c => c.addOp op args
  | some (source, new) =>
    match args.mapM (moveBit source new) with
    | .error e => throw (.scratch e)
    | .ok args =>
      modify fun s => { s with movedBits := moved target target s.movedBits }
      liftCircuit fun c => c.addOp op args

/-- An operation conditional on the result of a replaced box reads it from where it has gone, and
the scratch bit is free afterwards. -/
def conditional (width value : Nat) (op : Op) (args : List UnitId) : Run Unit := do
  let known := (← get).movedBits
  let found := match args.take width with
    | [b] => known.lookup b
    | _ => none
  match found with
  | none => liftCircuit fun c => c.addOp (.conditional width value op) args
  | some b =>
    if 1 < value then throw .unexpected
    freeBit b
    liftCircuit fun c => c.addConditional op [b] (some value) (args.drop width)

def command (cmd : Command) : Run Unit :=
  match cmd.op with
  | .conditional width value op => conditional width value op cmd.args
  | .range lower upper count => range (.range lower upper count) cmd.args
  | .classicalExp _ _ outputs exp => box outputs exp cmd.args
  | .barrier _ => liftCircuit fun c => c.addBarrier cmd.args
  | op => liftCircuit fun c => c.addOp op cmd.args

def poolsOf (c : Circuit) : BitPool × RegisterPool :=
  c.bits.foldl
    (fun (bits, registers) b =>
      if b.register = Scratch.bitName then (bits.use b, registers)
      else if b.register.startsWith Scratch.registerBase then
        (bits, registers.use ⟨b.register, Scratch.registerSize⟩)
      else (bits, registers))
    (Scratch.Pool.empty, Scratch.Pool.empty)

def isUserBit (b : UnitId) : Bool := !b.register.startsWith Scratch.bitName

/-- The circuit with its expression boxes replaced, and whether there were any. The global phase is
not kept. -/
def circuit (c : Circuit) : Except Error (Circuit × Bool) := do
  let (bits, registers) := poolsOf c
  let start : Circuit :=
    { Circuit.empty with name := c.name, qubits := c.qubits, bits := c.bits.filter isUserBit }
  let (_, s) ← (c.commands.forM command).run ⟨start, bits, registers, [], [], false⟩
  return (s.circuit, s.modified)

end CircuitWorks.Decompose
