import CircuitWorks.Device.Read
import CircuitWorks.Result.Read
import CircuitWorks.Spam.Corrector

/-!
Transition matrices and correctors in requests and answers, and their stored form.
-/

namespace CircuitWorks.Spam

def readVector (j : Json) : List Float := j.list.map Json.decimal

def readMatrix (j : Json) : Dense Float := j.list.map readVector

def vectorJson (v : List Float) : Json := .arr (v.map Json.ofFloat)

def matrixJson (m : Dense Float) : Json := .arr (m.map vectorJson)

def readTensor (j : Json) : Except Problem (Tensor Float) :=
  match j.tensor? with
  | some t => .ok (t.map Json.decimal)
  | none => failed .value

def tensorJson (t : Tensor Float) : Json := Result.nestedJson Json.ofFloat t.nested

def processCount (isRounded : Bool) (j : Json) : Json :=
  match isRounded, j with
  | true, .float x => ((Decimal.nearestInt? x).map Json.int).getD j
  | _, j => j

def setCount (key : List Int) (x : Json) : List (List Int × Json) → List (List Int × Json)
  | [] => [(key, x)]
  | (k, y) :: rest => if k = key then (k, x) :: rest else (k, y) :: setCount key x rest

def compress (counts : List (List Int × Json)) (tolerance : Float) (isRounded : Bool) :
    List (List Int × Json) :=
  let large := counts.filter fun (_, x) => tolerance < x.decimal
  (large.map fun (k, x) => (k, processCount isRounded x)).filter fun (_, x) => 0 < x.decimal

def readCounts (j : Json) : List (List Int × Json) :=
  j.list.foldl (fun counts e => setCount ((e.item 0).list.map Json.integer) (e.item 1) counts) []

def countsJson (counts : List (List Int × Json)) : Json :=
  Json.ofPairs lexLe (fun k => .arr (k.map Json.int)) Json.plain counts

def readMeasures (j : Json) : Except Problem (List (UnitId × UnitId)) :=
  j.list.foldlM (fun ms e => do
    let u ← UnitId.readNode (e.item 0)
    let b ← UnitId.readBit (e.item 1)
    if ms.any (·.1 = u) then return ms.map fun (v, c) => if v = u then (v, b) else (v, c)
    else return ms ++ [(u, b)]) []

def Method.read (name options : Json) : Method Float :=
  if name.isNull || name.string = "bayesian" then
    .bayesian (options.field "tol").number? (options.field "maxiter").integer
  else if name.string = "invert" then .invert
  else .unknown

def circuitJson (c : Circuit) : Json :=
  .obj [("flips", .arr ((c.commands.filter fun cmd => cmd.op.type = .circBox).flatMap fun cmd =>
      cmd.args.map UnitId.textJson)),
    ("measures", .arr ((c.commands.filter fun cmd => cmd.op.isMeasure).map fun cmd =>
      .arr (cmd.args.map UnitId.textJson)))]

def preparationJson (p : Preparation) : Json :=
  .arr (p.states.map fun (subset, bits) => .arr [.arr (subset.map UnitId.textJson), .ofBits bits])

def resultJson (r : Result) : Json :=
  .obj [("bits", .arr (r.bitList.map UnitId.textJson)), ("counts", (r.counts.getD []).outcomesJson)]

def measuresJson (ms : List (UnitId × UnitId)) : Json :=
  .arr (Json.sortByText (ms.map fun (u, b) => .arr [u.textJson, b.textJson]))

namespace Corrector

def read (j : Json) : Except Problem (Corrector Float) := do
  let subsets ← (j.listAt "subsets").mapM fun s => s.list.mapM UnitId.readNode
  let c ← exposed (ofSubsets subsets)
  match j.field "backend" with
  | .null => return c
  | backend =>
    match backend.get? "info" with
    | none => exposed (.error Error.noProperties)
    | some .null => do exposed (c.checkNodes none); return c
    | some info => do exposed (c.checkNodes (some (← Device.read info).nodes)); return c

def preparationsJson (c : Corrector Float) : Except Error Json :=
  match c.preparations with
  | some ps => .ok (.arr (ps.map preparationJson))
  | none => .error .notComputed

def toJson (c : Corrector Float) (number : Float → Json) : Except Error Json :=
  match c.places, c.matrices with
  | some places, some matrices => .ok (.obj [
      ("correlations", .arr (c.correlations.map fun s => .arr (s.map UnitId.toJson))),
      ("node_index_dict", .arr (places.map fun (u, m, i) => .arr [u.toJson, .arr [.int m, .int i]])),
      ("characterisation_matrices",
        .arr (matrices.map fun m => .arr (m.map fun row => .arr (row.map number))))])
  | _, _ => .error .notComputed

def storedNode (j : Json) : Except Problem UnitId :=
  match UnitId.ofJson? j with
  | some u => .ok u
  | none => UnitId.readNode j

def ofJson (j : Json) : Except Problem (Corrector Float) := do
  let needed (key : String) : Except Problem (List Json) :=
    match j.get? key with
    | some v => .ok v.list
    | none => failed .key
  let nodes ← (← needed "correlations").mapM fun s => s.list.mapM storedNode
  let c : Corrector Float ← exposed (ofSubsets (nodes.flatten.map ([·])))
  let places ← (← needed "node_index_dict").foldlM (fun places e => do
    let place := e.item 1
    return setPlace (← storedNode (e.item 0)) ((place.item 0).integer, (place.item 1).integer)
      places) []
  return { c with
    places := some places
    matrices := some ((← needed "characterisation_matrices").map readMatrix) }

end Corrector

end CircuitWorks.Spam
