import CircuitWorks.Problem
import CircuitWorks.Json.Basic

/-!
The directed graph of a circuit, from inputs through gates to outputs, and its drawing in the DOT language.
-/

namespace CircuitWorks

namespace Dag

inductive Kind where
  | quantum | boolean | classical
  | other (code : Int)
  deriving DecidableEq, Repr

structure Edge where
  source : Int
  target : Int
  sourcePort : Int
  targetPort : Int
  kind : Kind
  deriving DecidableEq, Repr

inductive Error where
  /-- Two edges enter the port from which an edge leaves. -/
  | parents | cyclic
  | unnamed (vertex : Int)
  | undescribed (vertex : Int)
  | uncoloured (code : Int)
  deriving DecidableEq, Repr

instance Error.instHasProblem : HasProblem Error where
  problem e :=
    { fault := match e with
        | .parents => .assumption
        | .cyclic => .cyclic
        | _ => .key }

end Dag

structure Dag where
  quantumInputs : List Int
  classicalInputs : List Int
  quantumOutputs : List Int
  classicalOutputs : List Int
  inputNames : List (Int × String)
  outputNames : List (Int × String)
  labels : List (Int × String)
  edges : List Dag.Edge
  deriving DecidableEq, Repr

namespace Dag

def vertices (d : Dag) : List Int :=
  (d.labels.map (·.1) ++ d.edges.flatMap fun e => [e.source, e.target]).eraseDups

def outDegree (d : Dag) (v : Int) : Nat := d.edges.countP (·.source = v)

def inDegree (d : Dag) (v : Int) : Nat := d.edges.countP (·.target = v)

def inputName (d : Dag) (v : Int) : Except Error String :=
  match d.inputNames.lookup v with
  | some name => .ok name
  | none => .error (.unnamed v)

def outputName (d : Dag) (v : Int) : Except Error String :=
  match d.outputNames.lookup v with
  | some name => .ok name
  | none => .error (.unnamed v)

/-- The edge that an edge goes on from: it enters the vertex at the port from which the other leaves. -/
def Edge.precedes (p e : Edge) : Bool := p.target = e.source && p.targetPort = e.sourcePort

/-- The beginning of the wire of an edge, given those found so far: none as long as some edge into its
source has none. -/
def beginning (found : List (Edge × Option Int)) (e : Edge) : Except Error (Option Int) :=
  if found.any fun (p, unit) => p.target = e.source && unit.isNone then .ok none
  else
    match found.filter fun (p, _) => p.precedes e with
    | [] => .ok (some e.source)
    | [(_, unit)] => .ok unit
    | _ => .error .parents

def advance (found : List (Edge × Option Int)) : Except Error (List (Edge × Option Int)) :=
  found.mapM fun (e, unit) =>
    match unit with
    | some v => .ok (e, some v)
    | none => (beginning found e).map fun unit => (e, unit)

def advances : Nat → List (Edge × Option Int) → Except Error (List (Edge × Option Int))
  | 0, found => .ok found
  | n + 1, found => do advances n (← advance found)

/-- Each edge with the vertex where its wire begins. In each round at least one more edge is traced,
unless only edges behind a cycle are left. -/
def traced (d : Dag) : Except Error (List (Edge × Int)) := do
  let found ← advances d.edges.length (d.edges.map fun e => (e, none))
  found.mapM fun (e, unit) =>
    match unit with
    | some v => .ok (e, v)
    | none => .error .cyclic

/-- An edge as it is shown: `key` numbers the edges between the same two vertices, and a port is left out
if it is the only one. -/
structure Shown where
  edge : Edge
  key : Nat
  sourcePort : Option Int
  targetPort : Option Int
  unit : Int
  deriving DecidableEq, Repr

def Shown.le (a b : Shown) : Bool :=
  if a.edge.source ≠ b.edge.source then a.edge.source < b.edge.source
  else if a.edge.target ≠ b.edge.target then a.edge.target < b.edge.target
  else a.key ≤ b.key

def keyAt (d : Dag) (i : Nat) (e : Edge) : Nat :=
  (d.edges.take i).countP fun p => p.source = e.source && p.target = e.target

def shown (d : Dag) : Except Error (List Shown) := do
  let found ← d.traced
  return (found.zipIdx.map fun ((e, unit), i) =>
    ({ edge := e, key := d.keyAt i e, unit
       sourcePort := if d.outDegree e.source = 1 then none else some e.sourcePort
       targetPort := if d.inDegree e.target = 1 then none else some e.targetPort } : Shown)).mergeSort
      Shown.le

def portCounts (d : Dag) : List (Int × Int × Nat) :=
  let ports := (d.edges.map fun e => (e.source, e.sourcePort)).eraseDups
  let sorted := ports.mergeSort fun a b => a.1 < b.1 || (a.1 == b.1 && a.2 ≤ b.2)
  sorted.map fun (v, p) => (v, p, d.edges.countP fun e => e.source = v && e.sourcePort = p)

def pairs : List Int → List (Int × Int)
  | [] => []
  | v :: rest => rest.map (fun w => (v, w)) ++ pairs rest

def qubitsAt (d : Dag) (found : List (Edge × Int)) (v : Int) : List Int :=
  (found.filter fun (e, unit) => e.target = v && d.quantumInputs.contains unit).map (·.2)

def connectivity (d : Dag) : Except Error (List (Int × Int)) := do
  let found ← d.traced
  let met := d.vertices.flatMap fun v => pairs (d.qubitsAt found v)
  return (met.map fun (v, w) => (min v w, max v w)).eraseDups

end Dag

end CircuitWorks

namespace CircuitWorks.Dag.Dot

def isNameStart (c : Char) : Bool := c.isAlpha || c = '_'

def isName : List Char → Bool
  | c :: rest => isNameStart c && rest.all fun c => isNameStart c || c.isDigit
  | [] => false

def isDigits (cs : List Char) : Bool := !cs.isEmpty && cs.all Char.isDigit

def isUnsigned (cs : List Char) : Bool :=
  match cs.span Char.isDigit with
  | ([], '.' :: rest) => isDigits rest
  | ([], _) => false
  | (_, []) => true
  | (_, '.' :: rest) => rest.all Char.isDigit
  | _ => false

def isNumber : List Char → Bool
  | '-' :: rest => isUnsigned rest
  | cs => isUnsigned cs

def isKeyword (cs : List Char) : Bool :=
  ["node", "edge", "graph", "digraph", "subgraph", "strict"].contains
    (String.ofList (cs.map Char.toLower))

def isMarkup (cs : List Char) : Bool := cs.length ≥ 2 && cs.head? = some '<' && cs.getLast? = some '>'

/-- Sets a backslash before each quote that has an even number of backslashes before it. -/
def escape : Bool → List Char → List Char
  | _, [] => []
  | odd, c :: rest =>
    if c = '"' then (if odd then [c] else ['\\', c]) ++ escape false rest
    else c :: escape (c = '\\' && !odd) rest

def word (s : String) : String :=
  let cs := s.toList
  if isMarkup cs then s
  else if (isName cs || isNumber cs) && !isKeyword cs then s
  else "\"" ++ String.ofList (escape false cs) ++ "\""

def endpoint (s : String) : String :=
  match s.splitOn ":" with
  | [v] => word v
  | [v, port] => if port = "" then word v else word v ++ ":" ++ word port
  | v :: port :: rest =>
    let direction := ":".intercalate rest
    word v ++ ":" ++ word port ++ (if direction = "" then "" else ":" ++ direction)
  | [] => word s

abbrev Attributes := List (String × String)

def attributes (as : Attributes) : String :=
  " ".intercalate ((as.mergeSort fun a b => a.1 ≤ b.1).map fun (k, v) => word k ++ "=" ++ word v)

def node (name : String) (as : Attributes) : String := s!"{word name} [{attributes as}]"

def common (as : Attributes) : String := s!"node [{attributes as}]"

def place (v port : Int) : String := s!"({v}, {port})"

def block (heading : String) (lines : List String) : List String :=
  [heading ++ " \x7b"] ++ lines ++ ["\x7d"]

def filled (colour : String) : Attributes := [("style", "rounded, filled"), ("color", colour), ("margin", "5")]

def boundary (title rank colour : String) (vs : List Int) (name : Int → Except Error String) :
    Except Error (List String) := do
  let nodes ← vs.eraseDups.mapM fun v => do
    return node (place v 0) [("fontname", "Courier"), ("fontsize", "8"), ("xlabel", ← name v)]
  return block s!"subgraph cluster_{title}" ([attributes (("rank", rank) :: filled "lightgrey"),
    common [("shape", "point"), ("color", colour)]] ++ nodes)

def gate (d : Dag) (v : Int) : Except Error (List String) := do
  let some label := d.labels.lookup v | throw (.undescribed v)
  let points : Attributes :=
    [("shape", "point"), ("weight", "2"), ("fontname", "Helvetica"), ("fontsize", "8")]
  let nodes := match d.inDegree v with
    | 1 => [node (place v 0) points]
    | n => (List.range n).map fun (i : Nat) => node (place v i) (("xlabel", toString i) :: points)
  let look := filled "lightblue" ++ [("fontname", "Times-Roman"), ("fontsize", "10"), ("lheight", "100")]
  return block ("subgraph " ++ word s!"cluster_{v}") (attributes (("label", label) :: look) :: nodes)

def colour : Kind → Except Error String
  | .quantum => .ok "blue"
  | .boolean => .ok "gray"
  | .classical => .ok "slategray"
  | .other code => .error (.uncoloured code)

def edge (s : Shown) : Except Error String := do
  let look : Attributes := [("weight", "2"), ("arrowhead", "vee"), ("arrowsize", "0.2"),
    ("headclip", "true"), ("tailclip", "true"), ("color", ← colour s.edge.kind)]
  let start := endpoint (place s.edge.source (s.sourcePort.getD 0))
  let finish := endpoint (place s.edge.target (s.targetPort.getD 0))
  return s!"{start} -> {finish} [{attributes look}]"

def drawing (d : Dag) : Except Error (List String) := do
  let starts ← boundary "q_inputs" "source" "blue" d.quantumInputs d.inputName
  let bitStarts ← boundary "c_inputs" "source" "slategray" d.classicalInputs d.inputName
  let ends ← boundary "q_outputs" "sink" "blue" d.quantumOutputs d.outputName
  let bitEnds ← boundary "c_outputs" "sink" "slategray" d.classicalOutputs d.outputName
  let shown ← d.shown
  let rim := d.quantumInputs ++ d.classicalInputs ++ d.quantumOutputs ++ d.classicalOutputs
  let gates ← (d.vertices.filter fun v => !rim.contains v).mapM (gate d)
  let edges ← shown.mapM edge
  let layout : Attributes := [("rankdir", "LR"), ("ranksep", "0.3"), ("nodesep", "0.15"), ("margin", "0")]
  return Json.sortStrings (block "strict digraph Circuit" (attributes layout :: starts ++ bitStarts ++
    ends ++ bitEnds ++ gates.flatten ++ edges))

def qubits (d : Dag) : Except Error (List String) := do
  let edges ← (← d.connectivity).mapM fun (v, w) => do
    return " -- ".intercalate
      (Json.sortStrings [endpoint (← d.inputName v), endpoint (← d.inputName w)])
  let look : Attributes :=
    [("shape", "circle"), ("color", "blue"), ("fontname", "Courier"), ("fontsize", "10")]
  return Json.sortStrings (block "graph \"Qubit connectivity\"" (common look :: edges))

end CircuitWorks.Dag.Dot

namespace CircuitWorks.Dag

def readKind (j : Json) : Kind :=
  match j.integer with
  | 0 => .quantum
  | 1 => .boolean
  | 2 => .classical
  | code => .other code

def Kind.code : Kind → Int
  | .quantum => 0
  | .boolean => 1
  | .classical => 2
  | .other code => code

def readEdge (j : Json) : Edge :=
  ⟨(j.item 0).integer, (j.item 1).integer, (j.item 2).integer, (j.item 3).integer, readKind (j.item 4)⟩

def readTexts (j : Json) : List (Int × String) :=
  (j.fields?.getD []).map fun (v, text) => (v.toInt?.getD 0, text.string)

def read (j : Json) : Dag :=
  let vertices (key : String) := (j.listAt key).map Json.integer
  { quantumInputs := vertices "q_in", classicalInputs := vertices "c_in"
    quantumOutputs := vertices "q_out", classicalOutputs := vertices "c_out"
    inputNames := readTexts (j.field "in_names"), outputNames := readTexts (j.field "out_names")
    labels := readTexts (j.field "nodes"), edges := (j.listAt "edges").map readEdge }

def Shown.toJson (s : Shown) : Json :=
  .arr [.int s.edge.source, .int s.edge.target, .ofNat s.key, .ofOption .int s.sourcePort,
    .ofOption .int s.targetPort, .int s.edge.kind.code, .int s.unit]

def toJson (d : Dag) : Except Error Json := do
  let edges ← d.shown
  let nodes := (d.vertices.mergeSort (· ≤ ·)).map fun v =>
    Json.arr [.int v, .ofOption .str (d.labels.lookup v)]
  return .obj [("nodes", .arr nodes), ("edges", .arr (edges.map Shown.toJson))]

def portsJson (d : Dag) : Json :=
  .arr (d.portCounts.map fun (v, p, n) => .arr [.int v, .int p, .ofNat n])

end CircuitWorks.Dag
