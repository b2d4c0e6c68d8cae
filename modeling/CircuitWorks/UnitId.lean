/-!
Unit ids: the names of qubits, bits and device nodes.
-/

namespace CircuitWorks

structure UnitId where
  register : String
  index : List Nat
  deriving DecidableEq, Repr, Inhabited, Hashable

inductive UnitKind where
  | qubit
  | bit
  deriving DecidableEq, Repr, Inhabited

def UnitKind.name : UnitKind → String
  | .qubit => "qubit"
  | .bit => "bit"

namespace UnitId

def compareIndex : List Nat → List Nat → Ordering
  | [], [] => .eq
  | [], _ :: _ => .lt
  | _ :: _, [] => .gt
  | i :: is, j :: js => (compare i j).then (compareIndex is js)

def compare (a b : UnitId) : Ordering :=
  (Ord.compare a.register b.register).then (compareIndex a.index b.index)

instance : Ord UnitId := ⟨UnitId.compare⟩

def lt (a b : UnitId) : Bool := a.compare b = .lt
def le (a b : UnitId) : Bool := a.compare b ≠ .gt

def text (u : UnitId) : String :=
  if u.index.isEmpty then u.register
  else u.register ++ "[" ++ ", ".intercalate (u.index.map toString) ++ "]"

instance : ToString UnitId := ⟨text⟩

def qubit (i : Nat) : UnitId := ⟨"q", [i]⟩

def bit (i : Nat) : UnitId := ⟨"c", [i]⟩

def node (i : Nat) : UnitId := ⟨"node", [i]⟩

def sort (units : List UnitId) : List UnitId := units.mergeSort le

def insertSorted (u : UnitId) : List UnitId → List UnitId
  | [] => [u]
  | v :: rest => if u.le v then u :: v :: rest else v :: insertSorted u rest

/-- Puts a unit into an ascending list, unless it is there. -/
def join (u : UnitId) : List UnitId → List UnitId
  | [] => [u]
  | v :: rest =>
    match u.compare v with
    | .lt => u :: v :: rest
    | .eq => v :: rest
    | .gt => v :: join u rest

def distinct : List UnitId → List UnitId
  | [] => []
  | u :: rest => u :: (distinct rest).filter (· ≠ u)

end UnitId

structure Register where
  name : String
  size : Nat
  deriving DecidableEq, Repr, Inhabited, Hashable

namespace Register

def bits (r : Register) : List UnitId := (List.range r.size).map fun i => ⟨r.name, [i]⟩

def bit? (r : Register) (i : Nat) : Option UnitId :=
  if i < r.size then some ⟨r.name, [i]⟩ else none

def compare (a b : Register) : Ordering :=
  (Ord.compare a.name b.name).then (Ord.compare a.size b.size)

def le (a b : Register) : Bool := a.compare b ≠ .gt

def text (r : Register) : String := "BitRegister(\"" ++ r.name ++ "\", " ++ toString r.size ++ ")"

end Register

structure TypedUnit where
  id : UnitId
  kind : UnitKind
  deriving DecidableEq, Repr

structure ConversionError where
  unit : UnitId
  target : UnitKind
  deriving DecidableEq, Repr

def ConversionError.message (e : ConversionError) : String :=
  "Cannot convert " ++ e.unit.text ++ " to " ++
    (match e.target with | .qubit => "Qubit" | .bit => "Bit")

def TypedUnit.convert (u : TypedUnit) (target : UnitKind) : Except ConversionError TypedUnit :=
  if u.kind = target then .ok u else .error ⟨u.id, target⟩

end CircuitWorks
