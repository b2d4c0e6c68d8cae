import CircuitWorks.Logic.Basic
import CircuitWorks.Text
import CircuitWorks.UnitId.Json

/-!
Logic expressions as JSON: an object with the name of the operator and the list of its arguments.
Logic expressions in requests: constants, `b` for a bit, `r` for a register, `dict` for a stored
expression, and lists of an operator and its arguments.
-/

namespace CircuitWorks.Logic

def registerJson (r : Register) : Json := .obj [("name", .str r.name), ("size", .int r.size)]

def Constant.toJson : Constant → Json
  | .int n => .int n
  | .truth b => .bool b

def BitBinary.storedName : BitBinary → String
  | .and => "AND"
  | .or => "OR"
  | .xor => "XOR"
  | .eq => "EQ"

def RegBinary.storedName : RegBinary → String
  | .and => "AND"
  | .or => "OR"
  | .xor => "XOR"
  | .eq => "EQ"
  | .neq => "NEQ"
  | .lt => "LT"
  | .gt => "GT"
  | .leq => "LEQ"
  | .geq => "GEQ"

inductive Operator where
  | not
  | bit (op : BitBinary)
  | reg (op : RegBinary)
  deriving DecidableEq, Repr

namespace Operator

def storedName : Operator → String
  | .not => "BitWiseOp.NOT"
  | .bit op => "BitWiseOp." ++ op.storedName
  | .reg op => "RegWiseOp." ++ op.storedName

/-- An operator by the two halves of its stored name; a set that is not that of bits is that of
registers. -/
def find? (set name : String) : Option Operator :=
  if set = "BitWiseOp" then
    if name = "NOT" then some .not
    else ([.and, .or, .xor, .eq].find? fun op => BitBinary.storedName op = name).map .bit
  else
    ([.and, .or, .xor, .eq, .neq, .lt, .gt, .leq, .geq].find? fun op =>
      RegBinary.storedName op = name).map .reg

def apply : Operator → List Term → Except Error Term
  | .not, [x] => Term.bitNot x
  | .bit op, [x, y] => Term.bitBinary op x y
  | .reg op, [x, y] => Term.regBinary op x y
  | _, _ => .error .arity

end Operator

def operationJson (op : Operator) (args : List Json) : Json :=
  .obj [("op", .str op.storedName), ("args", .arr args)]

def BitExp.toJson : BitExp → Json
  | .const c => c.toJson
  | .var b => b.toJson
  | .unary .not x => operationJson .not [BitExp.toJson x]
  | .binary op x y => operationJson (.bit op) [BitExp.toJson x, BitExp.toJson y]

def RegExp.toJson : RegExp → Json
  | .const c => c.toJson
  | .var r => registerJson r
  | .unary op _ => nomatch op
  | .binary op x y => operationJson (.reg op) [RegExp.toJson x, RegExp.toJson y]

def Term.toJson (t : Term) : Except Error Json :=
  if t.isNode then
    match t with
    | .constant c => .ok c.toJson
    | .bit e => .ok (BitExp.toJson e)
    | .reg e => .ok (RegExp.toJson e)
  else .error .noOperation

def natOf? : Json → Option Nat
  | .int n => if 0 ≤ n then some n.toNat else none
  | _ => none

def indexOf (j : Json) : Except Error (List Nat) :=
  match j with
  | .arr items =>
    match items.mapM natOf? with
    | some index => .ok index
    | none => .error .unit
  | j =>
    match natOf? j with
    | some i => .ok [i]
    | none => .error .unit

def bitOf : List Json → Except Error Term
  | .str name :: index :: _ => do return .ofBit ⟨name, ← indexOf index⟩
  | _ :: _ :: _ => .error .unit
  | _ => .error .missingIndex

def registerOf (fields : List (String × Json)) : Except Error Term :=
  match Json.lookup "name" fields, Json.lookup "size" fields with
  | some (.str name), some size =>
    match natOf? size with
    | some n => .ok (.ofRegister ⟨name, n⟩)
    | none => .error .unit
  | some _, some _ => .error .unit
  | _, _ => .error .missingField

def splitOperator (name : String) : Except Error Operator :=
  match Text.pieces '.' name.toList with
  | [set, op] =>
    match Operator.find? (String.ofList set) (String.ofList op) with
    | some found => .ok found
    | none => .error .unknownOperator
  | _ => .error .operatorForm

def operatorOf (fields : List (String × Json)) : Except Error Operator :=
  match Json.lookup "op" fields with
  | some (.str name) => splitOperator name
  | some _ => .error .operatorNotText
  | none => .error .missingField

mutual

def readTerm : Json → Except Error Term
  | .obj fields => do
    let op ← operatorOf fields
    let args ← readArgs fields
    op.apply args
  | _ => .error .unit

def readArgs : List (String × Json) → Except Error (List Term)
  | [] => .error .missingField
  | (name, value) :: rest =>
    if name = "args" then
      match value with
      | .arr items => readItems items
      | _ => .error .unit
    else readArgs rest

def readItems : List Json → Except Error (List Term)
  | [] => .ok []
  | .int n :: rest => do return .constant (.int n) :: (← readItems rest)
  | .bool b :: rest => do return .constant (.truth b) :: (← readItems rest)
  | .arr items :: rest => do
    let bit ← bitOf items
    return bit :: (← readItems rest)
  | .obj fields :: rest => do
    let item ← if (Json.lookup "op" fields).isSome then readTerm (.obj fields) else registerOf fields
    return item :: (← readItems rest)
  | _ :: rest => readItems rest

end

def Term.roundTrip (t : Term) : Except Error Bool := do
  let stored ← t.toJson
  return (← readTerm stored).same t

def requestOperators : List (String × Operator) :=
  [("BitAnd", .bit .and), ("BitOr", .bit .or), ("BitXor", .bit .xor), ("BitEq", .bit .eq),
   ("BitNot", .not), ("RegAnd", .reg .and), ("RegOr", .reg .or), ("RegXor", .reg .xor),
   ("RegEq", .reg .eq), ("RegNeq", .reg .neq), ("RegLt", .reg .lt), ("RegGt", .reg .gt),
   ("RegLeq", .reg .leq), ("RegGeq", .reg .geq), ("eq", .reg .eq), ("neq", .reg .neq),
   ("lt", .reg .lt), ("gt", .reg .gt), ("leq", .reg .leq), ("geq", .reg .geq)]

def applyRequested (op : String) (args : List Term) : Except Problem Term :=
  match op, args with
  | "&", [x, y] => exposed (Term.connect .and x y)
  | "|", [x, y] => exposed (Term.connect .or x y)
  | "^", [x, y] => exposed (Term.connect .xor x y)
  | "if", [x] => exposed x.ifBit
  | "ifnot", [x] => exposed x.ifNotBit
  | op, args =>
    match requestOperators.lookup op with
    | some o => exposed (o.apply args)
    | none => failed .part

def readLeaf (j : Json) : Except Problem Term :=
  match j.get? "b", j.get? "r", j.get? "dict" with
  | some u, _, _ => do return .ofBit (← UnitId.readBit u)
  | _, some r, _ => do return .ofRegister (← Register.read r)
  | _, _, some d => exposed (readTerm d)
  | _, _, _ => failed .key

mutual

def Term.read : Json → Except Problem Term
  | .int n => .ok (.constant (.int n))
  | .bool b => .ok (.constant (.truth b))
  | .arr (.str op :: args) => do applyRequested op (← Term.readAll args)
  | j => match j with
    | .obj _ => readLeaf j
    | _ => failed .type

def Term.readAll : List Json → Except Problem (List Term)
  | [] => .ok []
  | j :: rest => do
    let t ← Term.read j
    return t :: (← Term.readAll rest)

end

def Term.answer (t : Term) : Json :=
  match t.toJson with
  | .ok j => j
  | .error _ =>
    match t with
    | .constant (.int n) => .int n
    | .constant (.truth b) => .bool b
    | .reg (.var r) => .str r.text
    | t => .str t.text

end CircuitWorks.Logic
