import CircuitWorks.Circuit.Basic
import CircuitWorks.Result.Basic

/-!
Correctors: they measure the errors of state preparation and measurement on subsets of nodes, take transition
matrices from the results, a column for each state that was prepared, and mend the counts of other circuits.
-/

namespace CircuitWorks.Spam

section

variable {α : Type}

/-- Row `k` has the entries whose digit is `k` at a place of `size` digits, `after` being the number
of entries for each digit and `before` that of the blocks. -/
def unfold (before size after : Nat) (xs : List α) : List (List α) :=
  (List.range size).map fun k =>
    (List.range before).flatMap fun p => Tensor.part after (p * size + k) xs

def refold (before after : Nat) (rows : List (List α)) : List α :=
  (List.range before).flatMap fun p => rows.flatMap (Tensor.part after p)

section

variable {κ : Type} [Zero κ] [Add κ] [Mul κ]

def applyAt (before after : Nat) (a : Dense κ) (xs : List κ) : List κ :=
  refold before after (a.mul (unfold before a.length after xs))

def applyAll (before : Nat) : List (Dense κ) → List κ → List κ
  | [], xs => xs
  | a :: as, xs =>
    applyAll (before * a.length) as (applyAt before (Tensor.volume (as.map List.length)) a xs)

def isSquare (a : Dense κ) : Bool := !a.isEmpty && a.all fun row => row.length = a.length

/-- The Kronecker product of square matrices, times a vector, if the sizes fit. -/
def kronMulVec? (as : List (Dense κ)) (v : List κ) : Option (List κ) :=
  if v.length = Tensor.volume (as.map List.length) && as.all isSquare then some (applyAll 1 as v)
  else none

end

inductive Error where
  | notDisjoint | noProperties | noArchitecture | foreignNode | noSubset | notPrepared | notComputed
  | uncharacterised (u : UnitId)
  | notInvertible | method | key | place | axis | size | undefined | negative | empty | vanishing
  | circuit (e : Circuit.Error)
  | result (e : Result.Error)

def Error.message? : Error → Option String
  | .notDisjoint => some "Qubit subsets are not mutually disjoint."
  | .noProperties => some "Backend does not provide any device properties."
  | .noArchitecture => some "No architecture associated with backend."
  | .foreignNode => some "Nodes do not all belong to architecture."
  | .notPrepared => some "Ensure calibration states/circuits have been calculated first."
  | .uncharacterised u => some s!"Measured qubit {u.text} is not characterised by SpamCorrecter"
  | .notInvertible =>
    some ("Unable to invert calibration matrix: please re-run calibration experiments or use an " ++
      "alternative correction method.")
  | .method => some "('Method must be one of: ', 'invert', 'bayesian')"
  | .vanishing => some ""
  | _ => none

instance : HasProblem Error where
  problem e :=
    match e with
    | .circuit e => HasProblem.problem e
    | .result e => HasProblem.problem e
    | e =>
      { fault := match e with
          | .noProperties => .unsupported
          | .noSubset | .place => .index
          | .notPrepared => .operation
          | .notComputed => .part
          | .key => .key
          | .axis => .axis
          | .vanishing | .empty => .division
          | _ => .value
        message := e.message? }

def toBinary (v width : Nat) : List Bool :=
  let digits := (Nat.toDigits 2 v).map (· == '1')
  List.replicate (width - digits.length) false ++ digits

def binaryDigits (v width : Int) : Except Error (List Bool) :=
  match v, width with
  | .ofNat v, .ofNat width => .ok (toBinary v width)
  | _, _ => .error .negative

def ofBinary (bits : List Bool) : Nat := bits.foldl (fun n b => 2 * n + b.toNat) 0

def insertAt {α : Type} (x : α) (place : Int) (xs : List α) : List α :=
  let k := (if place < 0 then place + xs.length else place).toNat
  xs.take k ++ x :: xs.drop k

def widen (removed : List Int) (width index : Nat) : Nat :=
  ofBinary ((removed.mergeSort (· ≤ ·)).foldl (fun bits i => insertAt false i bits)
    (toBinary index width))

/-- The matrix of the remaining qubits, the removed ones being 0; there is none if none remain. -/
def reduceMatrix {α : Type} (removed : List Int) (m : Dense α) : Except Error (Dense α) :=
  if m.isEmpty then .error .size
  else
    let width : Int := Nat.log2 m.length - removed.length
    if width = 0 then .ok []
    else if width < 0 then .error .size
    else
      let places := (List.range (Nat.pow 2 width.toNat)).map (widen removed width.toNat)
      match places.mapM fun r => (m[r]?).bind fun row => places.mapM fun c => row[c]? with
      | some rows => .ok rows
      | none => .error .place

section

variable {κ : Type} [Arithmetic κ]

def normalise (m : Dense κ) : Dense κ :=
  let sums := m.transpose.map Dense.sum
  m.map fun row => List.zipWith (· / ·) row sums

/-- Removes qubits from matrices. An entry to be removed is the number of a matrix and the place of a
qubit in it. -/
def reduceMatrices (entries : List (Int × Int)) (ms : List (Dense κ)) :
    Except Error (List (Dense κ)) := do
  if entries.any fun (k, _) => k < 0 || ms.length ≤ k.toNat then throw .key
  let reduced ← ms.zipIdx.mapM fun (m, k) =>
    reduceMatrix ((entries.filter fun (n, _) => n = (k : Int)).map (·.2)) m
  return (reduced.filter fun m => !m.isEmpty).map normalise

def pivot (rows : Dense κ) : Nat :=
  (rows.zipIdx.foldl (fun (best, place) (row, k) =>
    let x := Arithmetic.magnitude (row.headD 0)
    if Arithmetic.isLess best x then (x, k) else (best, place)) (0, 0)).2

def eliminate (p row : List κ) : List κ :=
  let factor := row.headD 0 / p.headD 0
  List.zipWith (fun x y => x - factor * y) row.tail p.tail

def triangular : Nat → Dense κ → Option (Dense κ)
  | 0, _ => some []
  | n + 1, rows =>
    let k := pivot rows
    match rows[k]?, rows.head? with
    | some p, some first =>
      if Arithmetic.isZero (p.headD 0) then none
      else do
        let rest := (rows.set k first).tail
        return p :: (← triangular n (rest.map (eliminate p)))
    | _, _ => some []

def solve (width : Nat) : Dense κ → Dense κ
  | [] => []
  | row :: rows =>
    let below := solve width rows
    let coefficients := row.tail.take below.length
    let right := row.drop (1 + below.length)
    let left := (coefficients.zip below).foldr (fun (a, xs) rhs =>
      List.zipWith (fun r x => r - a * x) rhs xs) right
    (left.map (· / row.headD 0)) :: below

def inverse? (m : Dense κ) : Option (Dense κ) :=
  if isSquare m then
    let n := m.length
    (triangular n (List.zipWith (· ++ ·) m (Dense.identity n))).map (solve n)
  else none

end

def shape? (volume : Nat) (sides : List Int) : Option (List Nat) :=
  let known := Tensor.volume ((sides.filter (0 ≤ ·)).map Int.toNat)
  match sides.countP (· < 0) with
  | 0 => if known = volume then some (sides.map Int.toNat) else none
  | 1 =>
    if known ≠ 0 && volume % known = 0 then
      some (sides.map fun d => if d < 0 then volume / known else d.toNat)
    else none
  | _ => none

def reshape (t : Tensor α) (sides : List Int) : Except Error (Tensor α) :=
  match shape? t.entries.length sides with
  | some shape => .ok ⟨shape, t.entries⟩
  | none => .error .size

def axis (rank : Nat) (mode : Int) : Except Error Nat :=
  let k := if mode < 0 then mode + rank else mode
  if 0 ≤ k && k < rank then .ok k.toNat else .error .axis

def sideAt (sides : List Int) (mode : Int) : Except Error Int :=
  let k := if mode < 0 then mode + sides.length else mode
  if k < 0 then .error .place
  else match sides[k.toNat]? with
    | some d => .ok d
    | none => .error .place

def toFront (k : Nat) (t : Tensor α) : Tensor α :=
  let size := t.shape.getD k 1
  let before := Tensor.volume (t.shape.take k)
  let after := Tensor.volume (t.shape.drop (k + 1))
  ⟨size :: t.shape.eraseIdx k, (unfold before size after t.entries).flatten⟩

def fromFront (k : Nat) (t : Tensor α) : Tensor α :=
  let rest := t.shape.tail
  let before := Tensor.volume (rest.take k)
  let after := Tensor.volume (rest.drop k)
  ⟨rest.take k ++ t.shape.headD 1 :: rest.drop k, refold before after (t.slices.map Tensor.entries)⟩

def unfoldTensor (t : Tensor α) (mode : Int) (sides : List Int) : Except Error (Tensor α) := do
  let moved ← if mode = 0 then pure t else (axis t.shape.length mode).map fun k => toFront k t
  reshape moved [← sideAt sides mode, -1]

def refoldTensor (xs : List α) (mode : Int) (sides : List Int) : Except Error (Tensor α) := do
  if mode = 0 then reshape (Tensor.ofList xs) sides
  else
    let others := (sides.zipIdx.filter fun (_, k) => (k : Int) ≠ mode).map (·.1)
    let t ← reshape (Tensor.ofList xs) ((← sideAt sides mode) :: others)
    return fromFront (← axis t.shape.length mode) t

end

section

variable {κ : Type} [Arithmetic κ]

open Arithmetic

def kronMulVec (as : List (Dense κ)) (v : List κ) : Except Error (List κ) :=
  match kronMulVec? as v with
  | some w => .ok w
  | none => .error .size

def soften (epsilon : κ) (a : Dense κ) : Dense κ :=
  if isZero epsilon then a
  else a.map fun row => row.map fun x => epsilon / ofInt a.length + (1 - epsilon) * x

def isNegligible (x : κ) : Bool := isAtMost (magnitude x) (ratio 1 100000000)

def iteration (as : List (Dense κ)) (measured estimate : List κ) (epsilon : κ) :
    Except Error (List κ) := do
  let as := as.map (soften epsilon)
  let z ← kronMulVec as estimate
  if z.any isNegligible then throw .vanishing
  if measured.length ≠ z.length then throw .size
  let ratios ← kronMulVec (as.map Dense.transpose) (List.zipWith (· / ·) measured z)
  return List.zipWith (· * ·) estimate ratios

def isClose (tolerance : κ) (xs ys : List κ) : Bool :=
  (xs.zip ys).all fun (x, y) =>
    isAtMost (magnitude (x - y)) (tolerance + ratio 1 100000 * magnitude y)

/-- A step of the loop: an estimate, whether it has settled, and how much the matrices are softened.
They are softened more as soon as a probability vanishes. -/
def settle (as : List (Dense κ)) (measured : List κ) (tolerance : κ) :
    Nat → List κ → κ → Except Error (List κ)
  | 0, estimate, _ => .ok estimate
  | fuel + 1, estimate, epsilon =>
    match iteration as measured estimate epsilon with
    | .ok next =>
      if isClose tolerance next estimate then .ok next
      else settle as measured tolerance fuel next epsilon
    | .error .vanishing =>
      settle as measured tolerance fuel estimate (ratio 99 100 * epsilon + ratio 5 1000)
    | .error e => .error e

def roundLimit : Nat := 10000000

/-- The distribution that explains a measured one, from the uniform one on. A limit of 0 is none, and
a negative one stops at once. -/
def bayes (as : List (Dense κ)) (measured : List κ) (tolerance : κ) (limit : Int) :
    Except Error (List κ) :=
  let size := measured.length
  let rounds := if limit = 0 then roundLimit else limit.toNat
  if size = 0 then .error .empty
  else settle as measured tolerance rounds (List.replicate size (1 / ofInt size)) 0

end

structure Preparation where
  states : List (List UnitId × List Bool)
  bits : List (UnitId × UnitId)

structure Corrector (κ : Type) where
  correlations : List (List UnitId)
  /-- The different subsets, large ones first. -/
  subsets : List (List UnitId)
  preparations : Option (List Preparation) := none
  /-- The matrix of each node and its place in that. -/
  places : Option (List (UnitId × Int × Int)) := none
  matrices : Option (List (Dense κ)) := none
  /-- The numbers of shots for each subset that were added up last. -/
  sums : Option (List (Dense κ)) := none

inductive Method (κ : Type) where
  | invert
  /-- With a tolerance and a limit on the number of rounds, 0 for none. -/
  | bayesian (tolerance : Option κ) (limit : Int)
  | unknown

namespace Corrector

variable {κ : Type}

def nodes (c : Corrector κ) : List UnitId := c.correlations.flatten

def dimensions (c : Corrector κ) : List Nat := c.subsets.map List.length

def ofSubsets (subsets : List (List UnitId)) : Except Error (Corrector κ) :=
  let all := subsets.flatten
  if (UnitId.distinct all).length ≠ all.length then .error .notDisjoint
  else .ok {
    correlations := subsets
    subsets := (subsets.mergeSort fun a b => a.length ≥ b.length).eraseDups }

def checkNodes (c : Corrector κ) (nodes : Option (List UnitId)) : Except Error Unit :=
  match nodes with
  | none => .error .noArchitecture
  | some known => if c.nodes.all known.contains then .ok () else .error .foreignNode

def building {α : Type} : Except Circuit.Error α → Except Error α
  | .ok a => .ok a
  | .error e => .error (.circuit e)

def flip : Circuit :=
  { Circuit.blank 1 0 with commands := [⟨.gate .x [], [UnitId.qubit 0]⟩] }

def baseCircuit (c : Corrector κ) : Except Circuit.Error Circuit :=
  c.nodes.zipIdx.foldlM (fun d (u, k) => do (← d.addQubit u).addBit (UnitId.bit k)) Circuit.empty

def states (c : Corrector κ) (major : List Bool) : List (List UnitId × List Bool) :=
  c.subsets.map fun subset => (subset, major.take subset.length)

def stateCircuit (c : Corrector κ) (base : Circuit) (major : List Bool) :
    Except Circuit.Error Circuit := do
  let flipped := (c.states major).flatMap fun (subset, bits) =>
    (subset.zip bits).filterMap fun (u, b) => if b then some u else none
  let prepared ← flipped.foldlM (fun d u => d.addOp (.circBox flip) [u]) base
  c.nodes.zipIdx.foldlM (fun d (u, k) => d.addGate .measure [] [u, UnitId.bit k]) prepared

def calibrationCircuits (c : Corrector κ) : Corrector κ × Except Error (List Circuit) :=
  match c.dimensions with
  | [] => (c, .error .noSubset)
  | width :: _ =>
    let circuits := building do
      let base ← c.baseCircuit
      (List.range (Nat.pow 2 width)).mapM fun k => do
        let major := toBinary k width
        return (major, ← c.stateCircuit base major)
    match circuits with
    | .error e => ({ c with preparations := some [] }, .error e)
    | .ok all =>
      ({ c with preparations := some (all.map fun (major, circuit) =>
          ⟨c.states major, circuit.finalMeasurements⟩) }, .ok (all.map (·.2)))

section

variable [Arithmetic κ]

open Arithmetic

def addEntry (m : Dense κ) (r k : Nat) (x : κ) : Dense κ :=
  m.modify r fun row => row.modify k (· + x)

def results {α : Type} : Except Result.Error α → Except Error α
  | .ok a => .ok a
  | .error e => .error (.result e)

def addCounts (p : Preparation) (r : Result) (subset : List UnitId) (m : Dense κ) :
    Except Error (Dense κ) := do
  let bits ← subset.mapM fun u => (p.bits.lookup u).elim (.error .key) .ok
  let counts ← results (r.countTable (some (Result.typed .bit bits)) .ilo none)
  let prepared := ofBinary ((p.states.lookup subset).getD [])
  return counts.foldl (fun m (row, n) => addEntry m (ofBinary row) prepared (ofInt n)) m

/-- Adds a result subset by subset, up to the first for which it cannot be used. -/
def addResult (p : Preparation) (r : Result) :
    List (List UnitId × Dense κ) → List (Dense κ) × Option Error
  | [] => ([], none)
  | (subset, m) :: rest =>
    match addCounts p r subset m with
    | .error e => (m :: rest.map (·.2), some e)
    | .ok m => (addResult p r rest).map (m :: ·) id

def addResults (subsets : List (List UnitId)) :
    List (Result × Preparation) → List (Dense κ) → List (Dense κ) × Option Error
  | [], ms => (ms, none)
  | (r, p) :: runs, ms =>
    match addResult p r (subsets.zip ms) with
    | (ms, some e) => (ms, some e)
    | (ms, none) => addResults subsets runs ms

def nodePlaces (c : Corrector κ) : List (UnitId × Int × Int) :=
  c.subsets.zipIdx.flatMap fun (subset, k) => subset.zipIdx.map fun (u, i) => (u, (k : Int), (i : Int))

def setPlace (u : UnitId) (place : Int × Int) : List (UnitId × Int × Int) → List (UnitId × Int × Int)
  | [] => [(u, place)]
  | (v, p) :: rest => if u = v then (v, place) :: rest else (v, p) :: setPlace u place rest

def zeros (n : Nat) : Dense κ := List.replicate n (List.replicate n 0)

/-- The matrices from the results of the circuits. If a result cannot be used, the places of the nodes are
set all the same and the sums keep what was added before it. -/
def calibrate (c : Corrector κ) (rs : List Result) : Corrector κ × Except Error (List (Dense κ)) :=
  match c.preparations with
  | none => (c, .error .notComputed)
  | some [] => (c, .error .notPrepared)
  | some preparations =>
    let c := { c with places := some c.nodePlaces }
    let start : List (Dense κ) := c.subsets.map fun subset => zeros (Nat.pow 2 subset.length)
    match addResults c.subsets (rs.zip preparations) start with
    | (sums, some e) => ({ c with sums := some sums }, .error e)
    | (sums, none) =>
      let ms := sums.map normalise
      ({ c with sums := some sums, matrices := some ms }, .ok ms)

def part (c : Corrector κ) (measures : List (UnitId × UnitId)) :
    Except Error (List UnitId × List (Dense κ)) := do
  match measures.find? fun (u, _) => !c.nodes.contains u with
  | some (u, _) => throw (.uncharacterised u)
  | none => pure ()
  let unused := c.nodes.filter fun u => !measures.any (·.1 = u)
  let entries ← unused.mapM fun u =>
    match c.places with
    | none => .error .notComputed
    | some places => (places.lookup u).elim (.error .key) .ok
  match c.matrices with
  | none => throw .notComputed
  | some ms => return (measures.map (·.2), ← reduceMatrices entries ms)

def distribution (width : Nat) (counts : Counter (List Bool)) : κ × List κ :=
  let v := counts.foldl (fun v (row, n) => v.set (ofBinary row) (ofInt n))
    (List.replicate (Nat.pow 2 width) (0 : κ))
  let total := Dense.sum v
  (total, v.map (· / total))

/-- The distribution that the inverses of the matrices give, its negative entries set to 0. -/
def inverted (ms : List (Dense κ)) (v : List κ) : Except Error (List κ) := do
  match ms.mapM inverse? with
  | none => throw .notInvertible
  | some inverses =>
    let positive := (← kronMulVec inverses v).map fun x => if isLess x 0 then 0 else x
    let total := Dense.sum positive
    return positive.map (· / total)

def arrangement (c : Corrector κ) (measures : List (List (UnitId × UnitId))) :
    Except Error (List UnitId × List (Dense κ)) := do
  let parts ← measures.mapM c.part
  return (parts.flatMap (·.1), parts.flatMap (·.2))

def mend (r : Result) (method : Method κ) (bits : List UnitId) (matrices : List (Dense κ)) :
    Except Error Result := do
  let counts ← results (r.countTable (some (Result.typed .bit bits)) .ilo none)
  let (total, v) : κ × List κ := distribution bits.length counts
  let mended ← match method with
    | .invert => inverted matrices v
    | .bayesian tolerance limit => bayes matrices v (tolerance.getD (1 / total)) limit
    | .unknown => throw .method
  let entries ← mended.zipIdx.mapM fun (x, k) =>
    match ceil? (x * total) with
    | some n =>
      let key := toBinary k bits.length
      .ok (Outcomes.ofTable key.length [key], n)
    | none => .error Error.undefined
  results (Result.ofStored { counts := some (Counter.ofEntries entries) } bits [] none)

def correct (c : Corrector κ) (r : Result) (measures : List (List (UnitId × UnitId)))
    (method : Method κ) : Except Error Result := do
  let (bits, matrices) ← c.arrangement measures
  mend r method bits matrices

end

end Corrector

end CircuitWorks.Spam
