import CircuitWorks.Circuit.Basic

/-!
The gate names of the language, programs as they are written, and circuits as programs. A range predicate
is not written where it stands: it becomes the condition of the next command that depends on its bit.
-/

namespace CircuitWorks.Qasm

def plainGates : List (String × OpType) :=
  [("CX", .cx), ("cx", .cx), ("x", .x), ("y", .y), ("z", .z), ("h", .h), ("s", .s), ("sdg", .sdg),
   ("t", .t), ("tdg", .tdg), ("sx", .sx), ("sxdg", .sxdg), ("cz", .cz), ("cy", .cy), ("ch", .ch),
   ("csx", .csx), ("ccx", .ccx), ("ZZ", .zzMax), ("measure", .measure), ("reset", .reset),
   ("id", .noop), ("barrier", .barrier), ("swap", .swap), ("cswap", .cswap), ("ecr", .ecr)]

def paramGates : List (String × OpType) :=
  [("p", .u1), ("u", .u3), ("U", .u3), ("u3", .u3), ("u2", .u2), ("u1", .u1), ("rx", .rx),
   ("ry", .ry), ("rz", .rz), ("Rz", .rz), ("U1q", .phasedX), ("crz", .crz), ("crx", .crx),
   ("cry", .cry), ("cu1", .cu1), ("cu3", .cu3)]

def plainName? : OpType → Option String
  | .cx => some "cx"
  | type => (plainGates.find? (·.2 = type)).map (·.1)

def paramName? : OpType → Option String
  | .u3 => some "u3"
  | .u1 => some "u1"
  | .rz => some "rz"
  | type => (paramGates.find? (·.2 = type)).map (·.1)

def standardNames : List String :=
  ["CX", "cx", "x", "y", "z", "h", "s", "sdg", "t", "tdg", "sx", "sxdg", "cz", "cy", "ch", "csx",
   "ccx", "measure", "reset", "id", "barrier", "p", "U", "u", "u3", "u2", "u1", "rx", "ry", "rz",
   "crz", "crx", "cry", "cu1", "cu3", "swap", "cswap", "ecr"]

def headerNames? : String → Option (List String)
  | "qelib1" => some standardNames
  | "oqc" => some ["sx", "rz", "ecr", "barrier", "measure"]
  | "hqslib1" =>
    some ((standardNames.filter fun name =>
      name ∉ ["crx", "cry", "sx", "sxdg", "csx", "swap", "cswap"]) ++ ["U1q", "ZZ"])
  | _ => none

def isExtended (name : String) : Bool := name = "U1q" || name = "ZZ"

inductive Subject where
  | bit (b : UnitId)
  | register (name : String)
  deriving DecidableEq, Repr

def Subject.text : Subject → String
  | .bit b => b.text
  | .register name => name

inductive Comparator where
  | eq | neq | leq | geq
  deriving DecidableEq, Repr

def Comparator.text : Comparator → String
  | .eq => "=="
  | .neq => "!="
  | .leq => "<="
  | .geq => ">="

def Comparator.holds : Comparator → Int → Int → Bool
  | .eq, x, y => x = y
  | .neq, x, y => x ≠ y
  | .leq, x, y => x ≤ y
  | .geq, x, y => y ≤ x

structure Test where
  subject : Subject
  comparator : Comparator
  value : Int
  deriving DecidableEq, Repr

def Test.text (t : Test) : String :=
  "if(" ++ t.subject.text ++ t.comparator.text ++ toString t.value ++ ") "

inductive Statement where
  | gate (name : String) (params : Option (List Amount)) (args : List UnitId)
  | measure (qubit bit : UnitId)
  | assign (target : Subject) (value : Nat)
  | combine (target : Subject) (left : Subject) (symbol : String) (right : Subject)

def angleText (a : Amount) : String :=
  match Amount.real? a with
  | some x => Decimal.full x ++ "*pi"
  | none => "(" ++ Amount.text a ++ ")*pi"

def Statement.text : Statement → String
  | gate name none args => name ++ " " ++ ",".intercalate (args.map UnitId.text) ++ ";\n"
  | gate name (some params) args =>
    name ++ "(" ++ ",".intercalate (params.map angleText) ++ ") " ++
      ",".intercalate (args.map UnitId.text) ++ ";\n"
  | measure q b => "measure " ++ q.text ++ " -> " ++ b.text ++ ";\n"
  | assign target value => target.text ++ " = " ++ toString value ++ ";\n"
  | combine target left symbol right =>
    target.text ++ " = " ++ left.text ++ " " ++ symbol ++ " " ++ right.text ++ ";\n"

/-- A statement, done only if the test in front of it holds. -/
structure Line where
  test : Option Test
  statement : Statement

def Line.text (l : Line) : String :=
  (match l.test with | some t => t.text | none => "") ++ l.statement.text

structure Program where
  file : String
  qregs : List Register
  cregs : List Register
  lines : List Line

def preamble (file : String) : String := "OPENQASM 2.0;\ninclude \"" ++ file ++ ".inc\";\n\n"

def declarations (qregs cregs : List Register) : String :=
  "".intercalate (qregs.map fun r => "qreg " ++ r.name ++ "[" ++ toString r.size ++ "];\n") ++
    "".intercalate (cregs.map fun r => "creg " ++ r.name ++ "[" ++ toString r.size ++ "];\n")

def Program.text (p : Program) : String :=
  preamble p.file ++ declarations p.qregs p.cregs ++ "".intercalate (p.lines.map Line.text)

inductive ExportError where
  | classicalOps | indices | range | oneBit | wholeRegister | singleRegister
  | logicOp (name : String)
  | commandType (name : String)
  | gateHeader (gate header : String)
  | unknownHeader | unknownRegister
  /-- There are too few arguments. -/
  | missing
  deriving DecidableEq, Repr

def ExportError.message? : ExportError → Option String
  | classicalOps => some "Complex classical gates only supported with hqslib1."
  | indices => some "OPENQASM registers must use a single index"
  | range => some "Range can only be bounded on one side."
  | oneBit => some "HQS OpenQASM conditions must act on one bit."
  | wholeRegister => some "OpenQASM conditions must be an entire classical register"
  | singleRegister => some "OpenQASM conditions must be a single classical register"
  | logicOp name => some ("Classical gate " ++ name ++ " not supported.")
  | commandType name => some ("Cannot print command of type: " ++ name)
  | gateHeader gate header =>
    some ("Gate of type " ++ gate ++ " is not defined in header " ++ header ++ ".inc")
  | unknownHeader | unknownRegister | missing => none

instance : HasProblem ExportError where
  problem
    | .unknownHeader | .unknownRegister => { fault := .key }
    | .missing => { fault := .index }
    | .indices => { fault := .unsupported, message := ExportError.message? .indices }
    | .range => { fault := .unsupported, message := ExportError.message? .range }
    | e => { fault := .unwritable, message := e.message? }

def spanned : List UnitId → List Register
  | [] => []
  | u :: rest =>
    match spanned rest with
    | [] => [⟨u.register, u.index.headD 0 + 1⟩]
    | r :: others =>
      if r.name = u.register then r :: others
      else ⟨u.register, u.index.headD 0 + 1⟩ :: r :: others

def registersOf (units : List UnitId) : Except ExportError (List Register) :=
  if units.any fun u => u.index.length ≠ 1 then .error .indices else .ok (spanned units)

def rangeTest (lower upper : Int) : Except ExportError (Comparator × Int) :=
  if lower = upper then .ok (.eq, lower)
  else if lower = 0 then .ok (.leq, upper)
  else if upper = 4294967295 then .ok (.geq, lower)
  else .error .range

/-- What is known while commands are written: the header, the registers of bits, and the range
predicates that wait for a command to depend on them. -/
structure Context where
  header : String
  cregs : List Register
  pending : List (UnitId × Nat × Nat × List UnitId)

def Context.extended (ctx : Context) : Bool := ctx.header = "hqslib1"

def Context.register (ctx : Context) (name : String) : Except ExportError Register :=
  match ctx.cregs.find? (·.name = name) with
  | some r => .ok r
  | none => .error .unknownRegister

/-- The angles of a `u3` that stands for a gate of three Euler angles. -/
def eulerAngles {α : Type} [Add α] [Sub α] (half a b c : α) : List α := [b, a - half, c + half]

def writtenForm : Op → OpType × List Amount
  | .gate .tk1 [a, b, c] => (.u3, eulerAngles (Amount.ofFloat 0.5) a b c)
  | op => (op.type, op.params)

/-- Constants written to bits: at once if they make up a register, else bit by bit. -/
def setBitsLines (ctx : Context) (values : List Bool) (args : List UnitId) :
    Except ExportError (List Statement) := do
  match args with
  | [] => throw .missing
  | first :: _ =>
    let pairs := (args.zip values).mergeSort fun a b => a.1.le b.1
    let register ← ctx.register first.register
    if pairs.map (·.1) = register.bits then
      let value := pairs.foldr (fun (_, v) acc => 2 * acc + (if v then 1 else 0)) 0
      return [.assign (.register register.name) value]
    else return pairs.map fun (b, v) => .assign (.bit b) (if v then 1 else 0)

def logicSymbol : BitOperation → Except ExportError String
  | .and => .ok "&"
  | .or => .ok "|"
  | .xor => .ok "^"
  | .not => .error (.logicOp "NOT")

def combineLine (op : BitOperation) (operands : List Subject) : Except ExportError (List Statement) := do
  let symbol ← logicSymbol op
  match operands, operands.getLast? with
  | left :: right :: _, some target => return [.combine target left symbol right]
  | _, _ => throw .missing

def involved (args : List UnitId) : Except ExportError (List String) :=
  match args with
  | a :: b :: c :: _ =>
    let names := [a.register, b.register]
    .ok (if c.register ∈ names then names else names ++ [c.register])
  | _ => .error .missing

def gateLine (ctx : Context) (op : Op) (args : List UnitId) : Except ExportError (List Statement) := do
  let (type, params) := writtenForm op
  let (name, params) ←
    match plainName? type, paramName? type with
    | some name, _ => pure (name, none)
    | none, some name => pure (name, some params)
    | none, none => throw (.commandType op.name)
  match headerNames? ctx.header with
  | none => throw .unknownHeader
  | some names =>
    if name ∉ names then throw (.gateHeader name ctx.header)
    match type, args with
    | .measure, [q, b] => return [.measure q b]
    | _, _ => return [.gate name params args]

def statements (ctx : Context) (op : Op) (args : List UnitId) : Except ExportError (List Statement) :=
  match op with
  | .setBits values => setBitsLines ctx values args
  | .multiBit (.predicate basic) _ | .multiBit (.modifier basic) _ => do
    let names ← involved args
    let registers ← names.mapM ctx.register
    combineLine basic (registers.map fun r => .register r.name)
  | .predicate basic | .modifier basic => combineLine basic (args.map .bit)
  | op => gateLine ctx op args

/-- The test that stands for the condition of an operation, and the context afterwards. -/
def conditionTest (ctx : Context) (width value : Nat) (bits : List UnitId) :
    Except ExportError (Test × Context) := do
  match bits with
  | [] => throw .missing
  | control :: _ =>
    let (test, ctx) ←
      match ctx.pending.lookup control with
      | some (lower, upper, source) => do
        let (comparator, bound) ← rangeTest lower upper
        let comparator := if value = 0 ∧ comparator = .eq then .neq else comparator
        let name := (source.headD control).register
        pure (Test.mk (.register name) comparator bound,
          { ctx with pending := ctx.pending.filter (·.1 ≠ control) })
      | none =>
        let subject := if ctx.extended then .bit control else .register control.register
        pure (Test.mk subject .eq value, ctx)
    if ctx.extended then
      if width ≠ 1 ∨ 1 < value then throw .oneBit
    else
      let register ← ctx.register control.register
      if width ≠ register.size then throw .wholeRegister
      if UnitId.sort bits ≠ register.bits then throw .singleRegister
    return (test, ctx)

/-- The lines of a command, and the context afterwards. A condition stands in front of the first
line only. -/
def commandLines (ctx : Context) (cmd : Command) : Except ExportError (List Line × Context) := do
  match cmd.op with
  | .range lower upper _ =>
    match cmd.args.getLast? with
    | none => throw .missing
    | some target =>
      let entry := (target, lower, upper, cmd.args.dropLast)
      return ([], { ctx with pending := entry :: ctx.pending.filter (·.1 ≠ target) })
  | .conditional width value op =>
    let (test, ctx) ← conditionTest ctx width value (cmd.args.take width)
    match ← statements ctx op (cmd.args.drop width) with
    | [] => return ([], ctx)
    | first :: rest => return (⟨some test, first⟩ :: rest.map (⟨none, ·⟩), ctx)
  | op => return ((← statements ctx op cmd.args).map (⟨none, ·⟩), ctx)

def allLines (ctx : Context) : List Command → Except ExportError (List Line)
  | [] => .ok []
  | cmd :: rest => do
    let (lines, ctx) ← commandLines ctx cmd
    return lines ++ (← allLines ctx rest)

def isExtendedOp (op : Op) : Bool :=
  op.type ∈ [OpType.rangePredicate, .multiBit, .explicitPredicate, .explicitModifier, .setBits]

def needsExtension (c : Circuit) (header : String) : Bool :=
  header ≠ "hqslib1" && c.commands.any fun cmd => isExtendedOp cmd.op

def includedFile (header : String) : String := if header = "oqc" then "qelib1" else header

def Program.ofCircuit (c : Circuit) (header : String) : Except ExportError Program := do
  if needsExtension c header then throw .classicalOps
  let qregs ← registersOf c.qubits
  let cregs ← registersOf c.bits
  let lines ← allLines ⟨header, cregs, []⟩ c.commands
  return ⟨includedFile header, qregs, cregs, lines⟩

end CircuitWorks.Qasm
