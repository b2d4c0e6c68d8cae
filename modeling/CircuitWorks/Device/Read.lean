import CircuitWorks.Circuit.Json

/-!
Devices: the nodes that circuits run on, how they are connected, and what is known about them.
-/

namespace CircuitWorks

inductive Architecture where
  | coupled (edges : List (UnitId × UnitId))
  | complete (nodes : List UnitId)
  deriving DecidableEq, Repr

namespace Architecture

def ofSize (n : Nat) : Architecture := complete ((List.range n).map fun i => ⟨"fcNode", [i]⟩)

def nodes : Architecture → List UnitId
  | coupled edges => edges.foldl (fun us (a, b) => UnitId.join b (UnitId.join a us)) []
  | complete nodes => nodes

def toJson (a : Architecture) : Json :=
  let nodes := ("nodes", Json.arr (a.nodes.map UnitId.toJson))
  match a with
  | coupled edges =>
    .obj [nodes, ("links", .arr (edges.map fun (u, v) => .arr [u.toJson, v.toJson]))]
  | complete _ => .obj [nodes]

end Architecture

inductive ErrorTable where
  | nodeGates | edgeGates | readout | nodeMeans | edgeMeans | readoutMeans
  deriving DecidableEq, Repr

namespace ErrorTable

def all : List ErrorTable := [nodeGates, edgeGates, readout, nodeMeans, edgeMeans, readoutMeans]

def name : ErrorTable → String
  | nodeGates => "all_node_gate_errors"
  | edgeGates => "all_edge_gate_errors"
  | readout => "all_readout_errors"
  | nodeMeans => "averaged_node_gate_errors"
  | edgeMeans => "averaged_edge_gate_errors"
  | readoutMeans => "averaged_readout_errors"

end ErrorTable

structure Device where
  name : Json
  deviceName : Json
  version : Json
  architecture : Architecture
  gates : List OpType
  fastFeedforward : Bool := false
  reset : Bool := false
  midcircuitMeasurement : Bool := false
  errors : List (ErrorTable × List (UnitId × Json)) := []
  notes : List (String × Json) := []

namespace Device

inductive Error where
  | noteExists | noNote | field | arguments
  deriving DecidableEq, Repr

def Error.message? : Error → Option String
  | .noteExists => some "'Attempting to add an already existing entry to misc dict'"
  | _ => none

instance : HasProblem Error where
  problem e :=
    { fault := match e with
        | .arguments => .type
        | _ => .key
      message := e.message? }

def nodes (d : Device) : List UnitId := d.architecture.nodes

def addNote (d : Device) (key : String) (value : Json) : Except Error Device :=
  if (d.notes.lookup key).isSome then .error .noteExists
  else .ok { d with notes := d.notes ++ [(key, value)] }

def note (d : Device) (key : String) : Except Error Json :=
  match d.notes.lookup key with
  | some value => .ok value
  | none => .error .noNote

def flags (d : Device) : List (String × Bool) :=
  [("supports_fast_feedforward", d.fastFeedforward), ("supports_reset", d.reset),
   ("supports_midcircuit_measurement", d.midcircuitMeasurement)]

def toJson (d : Device) : Json :=
  .obj ([("name", d.name), ("device_name", d.deviceName), ("version", d.version),
    ("architecture", d.architecture.toJson),
    ("gate_set", .ofStrings (Json.sortStrings (d.gates.map OpType.title).eraseDups))] ++
    (d.flags.map fun (k, v) => (k, Json.bool v)) ++
    (ErrorTable.all.map fun t => (t.name, Json.ofOption (fun rates =>
      .arr (Json.sortByText (rates.map fun (u, x) => .arr [u.textJson, x.plain])))
      (d.errors.lookup t))) ++
    [("misc", .obj d.notes)])

def optionalFields : List String :=
  ["supports_fast_feedforward", "supports_reset", "supports_midcircuit_measurement", "misc"] ++
    ErrorTable.all.map ErrorTable.name

def requiredFields : List String := ["name", "device_name", "version", "gate_set"]

def readRates (j : Json) : Except Problem (List (UnitId × Json)) :=
  j.list.mapM fun e => do return (← UnitId.readNode (e.item 0), e.item 1)

def ofFields (j : Json) (known : List String) (architecture : Except Problem Architecture) :
    Except Problem Device := do
  let keys : List String := match j with
    | .obj fields => fields.map (·.1)
    | _ => []
  let gates ← (j.listAt "gate_set").mapM OpType.read
  let architecture ← architecture
  if keys.any fun k => !(known ++ requiredFields ++ optionalFields).contains k then
    exposed (.error Error.arguments)
  else if requiredFields.any fun k => !keys.contains k then exposed (.error Error.arguments)
  else
    let given := ErrorTable.all.filter fun (t : ErrorTable) => !(j.field t.name).isNull
    let errors ← given.mapM fun (t : ErrorTable) => do
      return (t, ← readRates (j.field t.name))
    return {
      name := j.field "name", deviceName := j.field "device_name", version := j.field "version"
      architecture, gates, errors
      fastFeedforward := (j.field "supports_fast_feedforward").isTruthy
      reset := (j.field "supports_reset").isTruthy
      midcircuitMeasurement := (j.field "supports_midcircuit_measurement").isTruthy
      notes := match j.field "misc" with
        | .obj fields => fields
        | _ => [] }

def read (j : Json) : Except Problem Device :=
  ofFields j ["edges", "nodes"] (
    match j.get? "edges", j.get? "nodes" with
    | some edges, _ => do
      return .coupled (← edges.list.mapM fun e => do
        return (← UnitId.readNode (e.item 0), ← UnitId.readNode (e.item 1)))
    | none, some n => .ok (.ofSize n.natural)
    | none, none => exposed (.error Error.arguments))

def storedUnit (j : Json) : Except Problem UnitId :=
  match UnitId.ofJson? j with
  | some u => .ok u
  | none => failed .type

def ofJson (j : Json) : Except Problem Device :=
  if !j.has "architecture" || !j.has "gate_set" then exposed (.error Error.field)
  else
    ofFields j ["architecture"] (
      let a := j.field "architecture"
      match a.get? "links" with
      | some links => do
        return .coupled (← links.list.mapM fun e => do
          return (← storedUnit (e.item 0), ← storedUnit (e.item 1)))
      | none =>
        match a.get? "nodes" with
        | some nodes => do return .complete (← nodes.list.mapM storedUnit)
        | none => exposed (.error Error.field))

def ofSize (n : Nat) (further : List (String × Json)) : Except Problem Device :=
  if further.any fun (k, _) => !optionalFields.contains k then exposed (.error Error.arguments)
  else
    ofFields (.obj (further ++ [("name", .str "name"), ("device_name", .null),
      ("version", .str "0.1"), ("gate_set", .arr [.str "CX"])])) [] (.ok (.ofSize n))

end Device

end CircuitWorks
