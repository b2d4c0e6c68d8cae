import CircuitWorks.Result.Basic
import CircuitWorks.UnitId.Json
import CircuitWorks.Amount

/-!
Results as JSON: an object with the units in storage order and one field for each form of data that
is there.
-/

namespace CircuitWorks

mutual

def Json.nested : Json → Nested Json
  | .arr items => .node (Json.nestedItems items)
  | j => .leaf j

def Json.nestedItems : List Json → List (Nested Json)
  | [] => []
  | j :: rest => Json.nested j :: Json.nestedItems rest

end

def Json.tensor? (j : Json) : Option (Tensor Json) := j.nested.tensor?

def Json.whole (j : Json) : Int :=
  match j with
  | .float x => (Decimal.truncate? x).getD 0
  | j => (j.int?).getD 0

def Tensor.mapM? {α β : Type} (f : α → Option β) (t : Tensor α) : Option (Tensor β) :=
  (t.entries.mapM f).map fun xs => ⟨t.shape, xs⟩

namespace Outcomes

def byte? (j : Json) : Option UInt8 :=
  let v := j.whole
  if 0 ≤ v ∧ v < 256 then some (UInt8.ofNat v.toNat) else none

def ofReadoutsJson (j : Json) : Except Error Outcomes :=
  match j.tensor? with
  | none => .error .ragged
  | some t => ofReadouts (t.map Json.whole)

def ofJson (j : Json) : Except Error Outcomes := do
  let some array := j.get? "array" | throw .field
  let some t := array.tensor? | throw .ragged
  let some bytes := t.mapM? byte? | throw .byte
  let some width := j.get? "width" | throw .field
  ofBytes bytes (width.whole.toNat)

end Outcomes

namespace Result

mutual

def nestedJson {α : Type} (f : α → Json) : Nested α → Json
  | .leaf a => f a
  | .node items => .arr (nestedItems f items)

def nestedItems {α : Type} (f : α → Json) : List (Nested α) → List Json
  | [] => []
  | n :: rest => nestedJson f n :: nestedItems f rest

end

def arrayJson (t : Tensor Amplitude) : Json :=
  .obj [("real", nestedJson Json.float (t.map Amplitude.re).nested),
    ("imag", nestedJson Json.float (t.map Amplitude.im).nested)]

def countJson (e : Outcomes × Int) : Json := .obj [("outcome", e.1.toJson), ("count", .int e.2)]

def field {α : Type} (name : String) (f : α → Json) : Option α → List (String × Json)
  | some a => [(name, f a)]
  | none => []

def toJson (r : Result) : Json :=
  .obj ([("qubits", Json.arr (r.qubitList.map UnitId.toJson)),
      ("bits", Json.arr (r.bitList.map UnitId.toJson))] ++
    field "shots" Outcomes.toJson r.shots ++
    field "counts" (fun c => .arr (c.map countJson)) r.counts ++
    field "state" arrayJson r.state ++ field "unitary" arrayJson r.unitary ++
    field "density_matrix" arrayJson r.density)

def required (j : Json) (name : String) : Except Error Json :=
  match j.get? name with
  | some v => .ok v
  | none => .error .field

def numbersOf (j : Json) : Except Error (Tensor Float) :=
  match j.tensor?.bind (Tensor.mapM? Json.number?) with
  | some t => .ok t
  | none => .error .ragged

def arrayOf (j : Json) : Except Error (Tensor Amplitude) := do
  let re ← numbersOf (← required j "real")
  let im ← numbersOf (← required j "imag")
  let some im := im.broadcast re.shape | throw .ragged
  return ⟨re.shape, (re.entries.zip im.entries).map fun (x, y) => ⟨x, y⟩⟩

def unitsOf (j : Json) : Except Error (List UnitId) :=
  (j.items?.getD []).mapM fun u => match UnitId.ofJson? u with
    | some u => .ok u
    | none => .error .field

def countOf (j : Json) : Except Error (Outcomes × Int) := do
  let a ← liftOutcome (Outcomes.ofJson (← required j "outcome"))
  return (a, (← required j "count").whole)

def optional {α : Type} (j : Json) (name : String) (read : Json → Except Error α) :
    Except Error (Option α) :=
  match j.get? name with
  | some v => do return some (← read v)
  | none => .ok none

def ofJson (j : Json) : Except Error Result := do
  let qubits ← optional j "qubits" unitsOf
  let bits ← optional j "bits" unitsOf
  let shots ← optional j "shots" fun v => liftOutcome (Outcomes.ofJson v)
  let counts ← optional j "counts" fun v => do
    return Counter.ofEntries (← (v.items?.getD []).mapM countOf)
  let state ← optional j "state" arrayOf
  let unitary ← optional j "unitary" arrayOf
  let density ← optional j "density_matrix" arrayOf
  ofStored { counts, shots, state, unitary, density } (bits.getD []) (qubits.getD []) none

end Result

def Json.optional {α : Type} (j : Json) (key : String) (read : Json → Except Problem α) :
    Except Problem (Option α) :=
  match j.get? key with
  | some .null | none => .ok none
  | some v => do return some (← read v)

def Json.isOn (j : Json) : Bool :=
  match j with
  | .null => true
  | j => j.isTruthy

def Outcomes.read (j : Json) : Except Problem Outcomes :=
  match j.get? "readouts", j.get? "ints" with
  | some rows, _ => exposed (Outcomes.ofReadoutsJson rows)
  | none, some numbers =>
    .ok (Outcomes.ofNumbers (numbers.list.map Json.integer) (j.field "width").natural
      (j.field "big_endian").isOn)
  | none, none => exposed (Outcomes.ofJson j)

def Tensor.read (j : Json) : Except Problem (Tensor Amplitude) :=
  match j.tensor? with
  | some t => .ok (t.map Amplitude.ofJson)
  | none => failed .value

def Tensor.readInts (j : Json) : Except Problem (Tensor Int) :=
  match j.tensor? with
  | some t => .ok (t.map Json.whole)
  | none => failed .value

def Tensor.toJson (t : Tensor Amplitude) : Json := Result.nestedJson Amplitude.toJson t.nested

def BasisOrder.read (j : Json) : BasisOrder := if j.string = "dlo" then .dlo else .ilo

def TypedUnit.read (j : Json) : Except Problem TypedUnit :=
  match j.get? "b" with
  | some u => do return ⟨← UnitId.readBit u, .bit⟩
  | none => do return ⟨← UnitId.readQubit (j.field "q"), .qubit⟩

def Counter.readInts (j : Json) : Counter (List Int) :=
  Counter.ofEntries (j.list.map fun e => ((e.item 0).list.map Json.integer, (e.item 1).integer))

def Counter.read (j : Json) : Except Problem (Counter Outcomes) := do
  return Counter.ofEntries (← j.list.mapM fun e => do
    return (← exposed (Outcomes.ofReadoutsJson (.arr [e.item 0])), (e.item 1).integer))

def readoutLe (a b : List Bool) : Bool := lexLe (a.map fun b => b.toNat) (b.map fun b => b.toNat)

def Counter.toJson (c : Counter (List Bool)) : Json := Json.ofPairs readoutLe Json.ofBits Json.int c

def sharesJson (shares : List (List Bool × Float)) : Json :=
  Json.ofPairs readoutLe Json.ofBits Json.ofFloat shares

def Counter.outcomesJson (c : Counter Outcomes) : Json :=
  .arr (Json.sortByText (c.map fun (a, n) => .arr [a.toJson, .int n]))

def Processor.read (j : Json) : Except Problem (Option Processor) :=
  match j with
  | .null => .ok none
  | j => do
    let rules ← j.list.mapM fun r => do
      return (⟨← UnitId.readBit (r.item 0), ← UnitId.readBit (r.item 1), (r.item 2).isTruthy⟩ : Rule)
    return some (Valuation.follow rules)

def Stored.toJson (s : Stored) : Json :=
  .obj [("counts", .ofOption Counter.outcomesJson s.counts),
    ("shots", .ofOption Outcomes.toJson s.shots), ("state", .ofOption Tensor.toJson s.state),
    ("unitary", .ofOption Tensor.toJson s.unitary),
    ("density_matrix", .ofOption Tensor.toJson s.density)]

namespace Result

def read (j : Json) : Except Problem Result := do
  let counts ← j.optional "counts" Counter.read
  let shots ← j.optional "shots" Outcomes.read
  let state ← j.optional "state" Tensor.read
  let unitary ← j.optional "unitary" Tensor.read
  let density ← j.optional "density_matrix" Tensor.read
  let bits ← (j.listAt "c_bits").mapM UnitId.readBit
  let qubits ← (j.listAt "q_bits").mapM UnitId.readQubit
  let process ← Processor.read (j.field "ppcirc")
  exposed (ofStored { counts, shots, state, unitary, density } bits qubits process)

def answer (r : Result) : Json :=
  match r.toJson.plain with
  | .obj fields => .obj (fields.map fun (k, v) =>
    if k = "counts" then (k, .arr (Json.sortByText v.list)) else (k, v))
  | j => j

end Result

end CircuitWorks
