import CircuitWorks.Logic.Stored
import CircuitWorks.Circuit.Decompose

/-!
Circuits as JSON: the units, the commands, and what an operation is made of. In requests, registers,
units and commands are listed and added one after the other.
-/

namespace CircuitWorks

def Op.headFields (op : Op) : List (String × Json) :=
  ("type", .str op.type.title) ::
    if op.params.isEmpty then [] else [("params", .arr (op.params.map Amount.toJson))]

def Op.plainFields : Op → List (String × Json)
  | .range lower upper _ => [("lower", .ofNat lower), ("upper", .ofNat upper)]
  | .setBits values => [("values", .ofBits values)]
  | .predicate op => [("name", .str op.name)]
  | .modifier op => [("name", .str op.name)]
  | .multiBit basic count =>
    [("name", .str (Op.multiBit basic count).name), ("basic", .str basic.type.title)]
  | .classicalExp inputs both outputs exp =>
    [("n_i", .ofNat inputs), ("n_io", .ofNat both), ("n_o", .ofNat outputs), ("exp", exp.answer)]
  | .pauliExp paulis t =>
    [("paulis", .ofStrings (paulis.map Pauli.letter)), ("t", t.toAmount.toJson)]
  | _ => []

mutual

def Op.toJson : Op → Json
  | .conditional width value inner =>
    .obj ((Op.conditional width value inner).headFields ++
      [("width", .ofNat width), ("value", .ofNat value), ("op", Op.toJson inner)])
  | .circBox c => .obj ((Op.circBox c).headFields ++ [("circuit", Circuit.toJson c)])
  | .qControl inner n size =>
    .obj ((Op.qControl inner n size).headFields ++ [("n", .ofNat n), ("op", Op.toJson inner)])
  | .custom name args c params =>
    .obj ((Op.custom name args c params).headFields ++
      [("gate", .str name), ("args", .ofStrings args), ("def", Circuit.toJson c)])
  | op => .obj (op.headFields ++ op.plainFields)

def Circuit.toJson : Circuit → Json
  | ⟨name, phase, qubits, bits, commands⟩ =>
    .obj ([("qubits", Json.arr (qubits.map UnitId.textJson)),
        ("bits", Json.arr (bits.map UnitId.textJson)),
        ("commands", Json.arr (Circuit.commandsJson commands))] ++
      (match name with
        | some n => [("name", Json.str n)]
        | none => []) ++
      if phase.isZero then [] else [("phase", Amount.toJson phase)])

def Circuit.commandsJson : List Command → List Json
  | [] => []
  | ⟨op, args⟩ :: rest =>
    .arr [Op.toJson op, .arr (args.map UnitId.textJson)] :: Circuit.commandsJson rest

end

def OpType.read (j : Json) : Except Problem OpType :=
  match OpType.ofTitle? j.string with
  | some type => .ok type
  | none => failed .part

def Pauli.read (j : Json) : Except Problem Pauli :=
  match Pauli.ofLetter? j.string with
  | some p => .ok p
  | none => failed .key

def BoxAngle.read (j : Json) : BoxAngle :=
  match j with
  | .int n => .whole n
  | j => .amount (Amount.ofJson j)

namespace Circuit

/-- Steps on a circuit that may leave it changed even if they fail. -/
abbrev Building := ExceptT Problem (StateM Circuit)

def readMatrix (j : Json) : List (List Amplitude) :=
  j.list.map fun row => row.list.map Amplitude.ofJson

def readPairs (j : Json) : List (List Amplitude) :=
  j.list.map fun row => row.list.map fun z => ⟨(z.item 0).decimal, (z.item 1).decimal⟩

def readWire (c : Circuit) (j : Json) : Except Problem UnitId := do
  let b ← UnitId.readBit j
  if b ∈ c.bits then return b else UnitId.readQubit j

def readRequest (j : Json) : Except Problem Condition.Request := do
  let bits ← (j.get? "cb").mapM fun bs => bs.list.mapM UnitId.readBit
  let exp ← (j.get? "cond").mapM Logic.Term.read
  return { bits, value := (j.get? "cv").map Json.integer, exp }

def run (x : Condition.Build Unit) : Building Unit := do
  let (r, c) := x.run (← get)
  set c
  match r with
  | .ok () => return ()
  | .error e => throw (HasProblem.problem e)

def step (f : Circuit → Except Circuit.Error Circuit) : Building Unit := run (Condition.step f)

def got {α : Type} (x : Except Problem α) : Building α := x

def binaryNames : List (String × BitOperation) := [("and", .and), ("or", .or), ("xor", .xor)]

def readBinary? (j : Json) : Option (Building Unit) :=
  binaryNames.findSome? fun (name, op) =>
    match j.get? name, j.get? ("reg_" ++ name) with
    | some args, _ => some do
      match ← got (args.list.mapM UnitId.readBit) with
      | [a, b, out] => step fun c => c.addBinary op a b out
      | _ => throw { fault := .type }
    | none, some args => some do
      match ← got (args.list.mapM Register.read) with
      | [a, b, out] => step fun c => c.addRegisterBinary op a b out
      | _ => throw { fault := .type }
    | none, none => none

def readClassical? (j : Json) : Option (Building Unit) :=
  let bits (key : String) : Building (List UnitId) := got ((j.listAt key).mapM UnitId.readBit)
  if j.has "setbits" then some do
    let args ← bits "a"
    step fun c => c.addSetBits ((j.listAt "setbits").map Json.isTruthy) args
  else if j.has "range" then some do
    let args ← bits "a"
    let out ← got (UnitId.readBit (j.field "out"))
    let bounds := j.field "range"
    step fun c => c.addRange (bounds.item 0).integer (bounds.item 1).integer args out
  else if j.has "copy" then some do
    let source ← bits "copy"
    let target ← bits "a"
    step fun c => c.addCopyBits source target
  else if j.has "not" then some do
    match ← bits "not" with
    | [a, out] => step fun c => c.addNot a out
    | _ => throw { fault := .type }
  else readBinary? j

def readBox? (j : Json) : Option (Except Problem Op) :=
  if j.has "qcontrol" then some do
    match j.listAt "qcontrol" with
    | [type, controls, targets] =>
      let type ← OpType.read type
      let op ← exposed (gateOp type ((j.listAt "p").map Amount.ofJson))
      return .qControl op controls.natural targets.natural
    | _ => failed .type
  else if j.has "unitary" then some (.ok (.unitary (readMatrix (j.field "unitary"))))
  else if j.has "expbox" then
    some (.ok (.expBox (readPairs (j.field "expbox")) (BoxAngle.read (j.field "t"))))
  else if j.has "pauliexp" then some do
    return .pauliExp (← (j.listAt "pauliexp").mapM Pauli.read) (BoxAngle.read (j.field "t"))
  else none

mutual

def readWith : Nat → Json → Except Problem Circuit
  | 0, _ => failed .endless
  | depth + 1, j => do
    let c := blank (j.field "n").natural (j.field "m").natural
    let c := match j.get? "name" with
      | some (.str s) => { c with name := some s }
      | _ => c
    let c ← (j.listAt "qregs").foldlM (fun c r => do exposed (c.addRegister .qubit (← Register.read r))) c
    let c ← (j.listAt "cregs").foldlM (fun c r => do exposed (c.addRegister .bit (← Register.read r))) c
    let c ← (j.listAt "qubits").foldlM (fun c u => do exposed (c.addQubit (← UnitId.readQubit u))) c
    let c ← (j.listAt "bits").foldlM (fun c u => do exposed (c.addBit (← UnitId.readBit u))) c
    (j.listAt "cmds").zipIdx.foldlM (fun c (cmd, i) =>
      match (addWith depth cmd).run c with
      | (.ok (), c) => .ok c
      | (.error p, _) => .error { p with place := some (p.place.getD i) }) c

def addWith : Nat → Json → Building Unit
  | 0, _ => throw { fault := .endless }
  | depth + 1, j => do
    let c ← get
    let units (key : String) : Building (List UnitId) := got ((j.listAt key).mapM (readWire c))
    let box (op : Op) : Building Unit := do
      run (Condition.addOp op (← units "a") (← got (readRequest j)))
    match j.get? "g", readClassical? j, readBox? j with
    | some type, _, _ =>
      let type ← got (OpType.read type)
      run (Condition.addGate type ((j.listAt "p").map Amount.ofJson) (← units "a")
        (← got (readRequest j)))
    | none, some build, _ => build
    | none, none, some op => box (← got op)
    | none, none, none =>
      if j.has "barrier" then
        let args ← units "barrier"
        step fun c => c.addBarrier args
      else if j.has "circbox" then box (.circBox (← got (readWith depth (j.field "circbox"))))
      else if j.has "qcontrol_box" then
        let inner ← got (readWith depth (j.field "qcontrol_box"))
        box (.qControl (.circBox inner) (j.field "n").natural inner.qubits.length)
      else if j.has "phase" then modify fun c => c.addPhase (Amount.ofJson (j.field "phase"))
      else throw { fault := .key }

end

def read (j : Json) : Except Problem Circuit := readWith (2 * j.depth + 2) j

def add (j : Json) : Building Unit := addWith (2 * j.depth + 2) j

end Circuit

namespace PauliString

def read (j : Json) : Except Problem PauliString := do
  return ofList (← j.list.mapM fun f => do
    return (← UnitId.readQubit (f.item 0), ← Pauli.read (f.item 1)))

def toJson (s : PauliString) : Json :=
  .arr (s.factors.map fun (u, p) => .arr [u.toJson, .str p.letter])

end PauliString

namespace PauliOperator

mutual

def readCoefficient : Json → Amount
  | .obj [("mul", .arr factors)] => readProduct factors
  | j => Amount.ofJson j

def readProduct : List Json → Amount
  | [] => 1
  | [j] => readCoefficient j
  | j :: rest => readCoefficient j * readProduct rest

end

def read (j : Json) : Except Problem (PauliOperator Amount) := do
  return ofEntries (← j.list.mapM fun t => do
    return (← PauliString.read (t.item 0), readCoefficient (t.item 1)))

def coefficientJson (c : Amount) : Json :=
  match Amount.value? c with
  | some z => z.toJson
  | none => .obj [("symbols", .ofStrings c.symbols)]

def toJson (a : PauliOperator Amount) : Json :=
  .obj [("terms", .arr (Json.sortByText (a.terms.map fun (s, c) =>
      .arr [s.toJson, coefficientJson c]))),
    ("qubits", .arr (a.qubits.map UnitId.textJson))]

def toStored (a : PauliOperator Amount) : Except Error (List Json) :=
  a.terms.mapM fun (s, c) => do
    return .obj [("string", s.toJson), ("coefficient", (← coefficient c).toJson)]

def typeName (j : Json) : String :=
  match j with
  | .int _ => "int"
  | .bool _ => "bool"
  | .obj _ => "complex"
  | _ => "float"

end PauliOperator

end CircuitWorks
