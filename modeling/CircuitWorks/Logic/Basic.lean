import CircuitWorks.Problem
import CircuitWorks.UnitId

/-!
Logic expressions over bits and over registers of bits, their constants, and the terms that can stand as
arguments.
-/

namespace CircuitWorks.Logic

inductive Constant where
  | int (value : Int)
  | truth (value : Bool)
  deriving DecidableEq, Repr, Inhabited

def bitAnd : Int → Int → Int
  | .ofNat m, .ofNat n => (m &&& n : Nat)
  | .ofNat m, .negSucc n => (m ^^^ (m &&& n) : Nat)
  | .negSucc m, .ofNat n => (n ^^^ (n &&& m) : Nat)
  | .negSucc m, .negSucc n => .negSucc (m ||| n)

def bitOr : Int → Int → Int
  | .ofNat m, .ofNat n => (m ||| n : Nat)
  | .ofNat m, .negSucc n => .negSucc (n ^^^ (n &&& m))
  | .negSucc m, .ofNat n => .negSucc (m ^^^ (m &&& n))
  | .negSucc m, .negSucc n => .negSucc (m &&& n)

def bitXor : Int → Int → Int
  | .ofNat m, .ofNat n => (m ^^^ n : Nat)
  | .ofNat m, .negSucc n => .negSucc (m ^^^ n)
  | .negSucc m, .ofNat n => .negSucc (m ^^^ n)
  | .negSucc m, .negSucc n => (m ^^^ n : Nat)

namespace Constant

def toInt : Constant → Int
  | .int n => n
  | .truth b => if b then 1 else 0

/-- Equality of value: a truth value equals its number. -/
def same (a b : Constant) : Bool := a.toInt = b.toInt

def and : Constant → Constant → Constant
  | .truth a, .truth b => .truth (a && b)
  | a, b => .int (bitAnd a.toInt b.toInt)

def or : Constant → Constant → Constant
  | .truth a, .truth b => .truth (a || b)
  | a, b => .int (bitOr a.toInt b.toInt)

def xor : Constant → Constant → Constant
  | .truth a, .truth b => .truth (a != b)
  | a, b => .int (bitXor a.toInt b.toInt)

def complement (a : Constant) : Constant := .int (1 - a.toInt)

def text : Constant → String
  | .int n => toString n
  | .truth b => if b then "True" else "False"

end Constant

inductive Exp (Unary Binary Var : Type) where
  | const (value : Constant)
  | var (name : Var)
  | unary (op : Unary) (x : Exp Unary Binary Var)
  | binary (op : Binary) (x y : Exp Unary Binary Var)
  deriving DecidableEq, Repr, Inhabited

class Operators (Unary Binary : Type) where
  unaryValue : Unary → Constant → Constant
  binaryValue : Binary → Constant → Constant → Constant
  /-- A value that, as one argument, decides the result and is the result. -/
  absorbing : Binary → Option Int
  unarySymbol : Unary → String
  binarySymbol : Binary → String

inductive BitUnary where
  | not
  deriving DecidableEq, Repr, Inhabited

inductive BitBinary where
  | and | or | xor | eq
  deriving DecidableEq, Repr, Inhabited

inductive RegBinary where
  | and | or | xor | eq | neq | lt | gt | leq | geq
  deriving DecidableEq, Repr, Inhabited

abbrev BitExp := Exp BitUnary BitBinary UnitId

abbrev RegExp := Exp Empty RegBinary Register

instance : Operators BitUnary BitBinary where
  unaryValue
    | .not, x => x.complement
  binaryValue
    | .and, x, y => x.and y
    | .or, x, y => x.or y
    | .xor, x, y => x.xor y
    | .eq, x, y => .truth (x.same y)
  absorbing
    | .and => some 0
    | .or => some 1
    | _ => none
  unarySymbol
    | .not => "~"
  binarySymbol
    | .and => "&"
    | .or => "|"
    | .xor => "^"
    | .eq => "=="

instance : Operators Empty RegBinary where
  unaryValue := nofun
  binaryValue
    | .and, x, y => x.and y
    | .or, x, y => x.or y
    | .xor, x, y => x.xor y
    | .eq, x, y => .truth (x.same y)
    | .neq, x, y => (Constant.truth (x.same y)).complement
    | .lt, x, y => .truth (x.toInt < y.toInt)
    | .gt, x, y => .truth (y.toInt < x.toInt)
    | .leq, x, y => .truth (x.toInt ≤ y.toInt)
    | .geq, x, y => .truth (y.toInt ≤ x.toInt)
  absorbing
    | .and => some 0
    | _ => none
  unarySymbol := nofun
  binarySymbol
    | .and => "&"
    | .or => "|"
    | .xor => "^"
    | .eq => "=="
    | .neq => "!="
    | .lt => "<"
    | .gt => ">"
    | .leq => "<="
    | .geq => ">="

namespace Exp

variable {U B V : Type}

def value [Operators U B] (env : V → Constant) : Exp U B V → Constant
  | const c => c
  | var v => env v
  | unary op x => Operators.unaryValue B op (x.value env)
  | binary op x y => Operators.binaryValue U op (x.value env) (y.value env)

def set [DecidableEq V] (v : V) (c : Constant) : Exp U B V → Exp U B V
  | const d => const d
  | var w => if w = v then const c else var w
  | unary op x => unary op (x.set v c)
  | binary op x y => binary op (x.set v c) (y.set v c)

def isConst (n : Int) : Exp U B V → Bool
  | const c => c.toInt = n
  | _ => false

def foldBinary [Operators U B] (op : B) (x y : Exp U B V) : Exp U B V :=
  match Operators.absorbing U op with
  | some n =>
    if x.isConst n || y.isConst n then const (.int n)
    else
      match x, y with
      | const c, const d => const (Operators.binaryValue U op c d)
      | _, _ => binary op x y
  | none =>
    match x, y with
    | const c, const d => const (Operators.binaryValue U op c d)
    | _, _ => binary op x y

def foldUnary [Operators U B] (op : U) (x : Exp U B V) : Exp U B V :=
  match x with
  | const c => const (Operators.unaryValue B op c)
  | _ => unary op x

/-- Evaluates every subexpression whose value is already decided. -/
def fold [Operators U B] : Exp U B V → Exp U B V
  | const c => const c
  | var v => var v
  | unary op x => foldUnary op x.fold
  | binary op x y => foldBinary op x.fold y.fold

def vars : Exp U B V → List V
  | const _ => []
  | var v => [v]
  | unary _ x => x.vars
  | binary _ x y => x.vars ++ y.vars

def same [DecidableEq U] [DecidableEq B] [DecidableEq V] : Exp U B V → Exp U B V → Bool
  | const c, const d => c.same d
  | var v, var w => v = w
  | unary op x, unary op' x' => op = op' && x.same x'
  | binary op x y, binary op' x' y' => op = op' && x.same x' && y.same y'
  | _, _ => false

def isNode : Exp U B V → Bool
  | unary .. | binary .. => true
  | _ => false

def text [Operators U B] (name : V → String) : Exp U B V → String
  | const c => c.text
  | var v => name v
  | unary op x => "(" ++ Operators.unarySymbol B op ++ " " ++ x.text name ++ ")"
  | binary op x y =>
    "(" ++ x.text name ++ " " ++ Operators.binarySymbol U op ++ " " ++ y.text name ++ ")"

/-- The expression as it is displayed: no brackets around a unary operation. -/
def display [Operators U B] (name : V → String) : Exp U B V → String
  | const c => c.text
  | var v => name v
  | unary op x => Operators.unarySymbol B op ++ x.display name
  | binary op x y =>
    "(" ++ x.display name ++ " " ++ Operators.binarySymbol U op ++ " " ++ y.display name ++ ")"

end Exp

def bitInputs (e : BitExp) : List UnitId := UnitId.sort (UnitId.distinct e.vars)

def regInputs (e : RegExp) : List Register := e.vars.eraseDups

inductive Term where
  | constant (value : Constant)
  | bit (e : BitExp)
  | reg (e : RegExp)
  deriving DecidableEq, Repr, Inhabited

inductive Error where
  /-- An argument of a kind or value that the operation does not take. -/
  | argument
  /-- Too few or too many arguments. -/
  | arity
  /-- The stored name of an operator is not of the form `set.operator`. -/
  | operatorForm | unknownOperator | missingField | operatorNotText | missingIndex | unit
  /-- A constant has no operators of this kind. -/
  | noOperation
  deriving DecidableEq, Repr

instance : HasProblem Error where
  problem
    | .argument => { fault := .assumption }
    | .arity | .unit => { fault := .type }
    | .operatorForm => { fault := .value }
    | .unknownOperator => { fault := .exhausted }
    | .missingField => { fault := .key }
    | .operatorNotText | .noOperation => { fault := .part }
    | .missingIndex => { fault := .index }

namespace Term

def ofBit (b : UnitId) : Term := .bit (.var b)
def ofRegister (r : Register) : Term := .reg (.var r)

def asBit : Term → Except Error BitExp
  | .constant c => if c.toInt = 0 ∨ c.toInt = 1 then .ok (.const c) else .error .argument
  | .bit e => .ok e
  | .reg _ => .error .argument

def asReg : Term → Except Error RegExp
  | .constant c => .ok (.const c)
  | .reg e => .ok e
  | .bit _ => .error .argument

def isConstant : Term → Bool
  | .constant _ => true
  | _ => false

def checkComparison (x y : Term) : Except Error Unit :=
  if !x.isConstant && y.isConstant then .ok () else .error .argument

def BitBinary.isComparison : BitBinary → Bool
  | .eq => true
  | _ => false

def RegBinary.isComparison : RegBinary → Bool
  | .and | .or | .xor => false
  | _ => true

def bitBinary (op : BitBinary) (x y : Term) : Except Error Term := do
  let a ← x.asBit
  let b ← y.asBit
  if BitBinary.isComparison op then checkComparison x y
  return .bit (.binary op a b)

def bitNot (x : Term) : Except Error Term := do
  return .bit (.unary .not (← x.asBit))

def regBinary (op : RegBinary) (x y : Term) : Except Error Term := do
  let a ← x.asReg
  let b ← y.asReg
  if RegBinary.isComparison op then checkComparison x y
  return .reg (.binary op a b)

inductive Connective where
  | and | or | xor
  deriving DecidableEq, Repr

/-- `x op y`. The kind of operation is that of `x`; when `x` is a constant and `y` is not, the
arguments change places. -/
def connect (op : Connective) (x y : Term) : Except Error Term :=
  let bitOp : BitBinary := match op with | .and => .and | .or => .or | .xor => .xor
  let regOp : RegBinary := match op with | .and => .and | .or => .or | .xor => .xor
  match x, y with
  | .bit _, _ => bitBinary bitOp x y
  | .reg _, _ => regBinary regOp x y
  | .constant _, .bit _ => bitBinary bitOp y x
  | .constant _, .reg _ => regBinary regOp y x
  | .constant c, .constant d =>
    .ok (.constant (match op with | .and => c.and d | .or => c.or d | .xor => c.xor d))

def ifBit (x : Term) : Except Error Term := bitBinary .eq x (.constant (.int 1))

def ifNotBit (x : Term) : Except Error Term := bitBinary .eq x (.constant (.int 0))

def isNode : Term → Bool
  | .constant _ => false
  | .bit e => e.isNode
  | .reg e => e.isNode

/-- A folded bit expression is a constant term if it came out constant. -/
def ofBitExp : BitExp → Term
  | .const c => .constant c
  | e => .bit e

def ofRegExp : RegExp → Term
  | .const c => .constant c
  | e => .reg e

def fold (t : Term) : Except Error Term :=
  if t.isNode then
    match t with
    | .constant c => .ok (.constant c)
    | .bit e => .ok (ofBitExp e.fold)
    | .reg e => .ok (ofRegExp e.fold)
  else .error .noOperation

def set (t v : Term) (c : Constant) : Except Error Term :=
  if t.isNode then
    match t, v with
    | .bit e, .bit (.var b) => .ok (.bit (e.set b c))
    | .reg e, .reg (.var r) => .ok (.reg (e.set r c))
    | t, _ => .ok t
  else .error .noOperation

def inputs (t : Term) : Except Error (List String) :=
  if t.isNode then
    match t with
    | .constant _ => .ok []
    | .bit e => .ok (e.vars.eraseDups.map UnitId.text)
    | .reg e => .ok (e.vars.eraseDups.map Register.text)
  else .error .noOperation

def same : Term → Term → Bool
  | .constant c, .constant d => c.same d
  | .bit e, .bit f => e.same f
  | .reg e, .reg f => e.same f
  | _, _ => false

def text : Term → String
  | .constant c => c.text
  | .bit e => e.text UnitId.text
  | .reg e => e.text Register.name

def display : Term → String
  | .constant c => c.text
  | .bit e => e.display UnitId.text
  | .reg e => e.display Register.name

def title : Term → String
  | .constant (.int _) => "int"
  | .constant (.truth _) => "bool"
  | .bit (.const (.int _)) => "int"
  | .bit (.const (.truth _)) => "bool"
  | .bit (.var _) => "Bit"
  | .bit (.unary .not _) => "BitNot"
  | .bit (.binary .and _ _) => "BitAnd"
  | .bit (.binary .or _ _) => "BitOr"
  | .bit (.binary .xor _ _) => "BitXor"
  | .bit (.binary .eq _ _) => "BitEq"
  | .reg (.const (.int _)) => "int"
  | .reg (.const (.truth _)) => "bool"
  | .reg (.var _) => "BitRegister"
  | .reg (.binary .and _ _) => "RegAnd"
  | .reg (.binary .or _ _) => "RegOr"
  | .reg (.binary .xor _ _) => "RegXor"
  | .reg (.binary .eq _ _) => "RegEq"
  | .reg (.binary .neq _ _) => "RegNeq"
  | .reg (.binary .lt _ _) => "RegLt"
  | .reg (.binary .gt _ _) => "RegGt"
  | .reg (.binary .leq _ _) => "RegLeq"
  | .reg (.binary .geq _ _) => "RegGeq"

end Term

end CircuitWorks.Logic
