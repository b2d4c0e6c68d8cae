import CircuitWorks.Amplitude
import CircuitWorks.Outcome.Basic
import CircuitWorks.UnitId

/-!
Rows of measured bits, and the results of running a circuit: measured outcomes and simulated arrays.
A permuter of digits remembers its answers, and with each the way back.
-/

namespace CircuitWorks

class Arithmetic (κ : Type) extends Zero κ, One κ, Add κ, Sub κ, Neg κ, Mul κ, Div κ where
  ofInt : Int → κ
  isLess : κ → κ → Bool
  isAtMost : κ → κ → Bool
  /-- The least whole number that is not less, if the number is one. -/
  ceil? : κ → Option Int

namespace Arithmetic

variable {κ : Type} [Arithmetic κ]

def magnitude (x : κ) : κ := if isLess x 0 then -x else x

def ratio (n d : Int) : κ := ofInt n / ofInt d

def isZero (x : κ) : Bool := isAtMost x 0 && isAtMost 0 x

instance : Arithmetic Float where
  zero := 0
  one := 1
  add := (· + ·)
  sub := (· - ·)
  neg := (- ·)
  mul := (· * ·)
  div := (· / ·)
  ofInt := Float.ofInt
  isLess x y := x < y
  isAtMost x y := x ≤ y
  ceil? := Decimal.ceil?

instance : Arithmetic Rat where
  zero := 0
  one := 1
  add := (· + ·)
  sub := (· - ·)
  neg := (- ·)
  mul := (· * ·)
  div := (· / ·)
  ofInt n := n
  isLess x y := x < y
  isAtMost x y := x ≤ y
  ceil? x := some x.ceil

end Arithmetic

structure BitPermuter where
  places : List Nat
  forward : List (Int × Int) := []
  backward : List (Int × Int) := []
  deriving DecidableEq, Repr

namespace BitPermuter

def isPermutation (places : List Int) : Bool :=
  places.mergeSort (· ≤ ·) = (List.range places.length).map fun (i : Nat) => (i : Int)

/-- The permuter that moves digit `i` to place `places[i]`, both counted from the highest. -/
def ofPlaces? (places : List Int) : Option BitPermuter :=
  if isPermutation places then some { places := places.map Int.toNat } else none

def digit (v : Int) (k : Nat) : Bool := v / (Nat.pow 2 k : Nat) % 2 = 1

def moved (places : List Nat) (inverse : Bool) (v : Int) : Nat :=
  places.zipIdx.foldl (fun r (target, source) =>
    let (source, target) := if inverse then (target, source) else (source, target)
    if digit v (places.length - 1 - source) then r ||| 1 <<< (places.length - 1 - target) else r) 0

def record (key value : Int) : List (Int × Int) → List (Int × Int)
  | [] => [(key, value)]
  | (k, v) :: rest => if k = key then (key, value) :: rest else (k, v) :: record key value rest

/-- The number with its digits moved, from memory if it was asked for before. -/
def permute (p : BitPermuter) (v : Int) (inverse : Bool) : Int × BitPermuter :=
  match (if inverse then p.backward else p.forward).lookup v with
  | some r => (r, p)
  | none =>
    let r : Int := moved p.places inverse v
    if inverse then (r, { p with backward := record v r p.backward, forward := record r v p.forward })
    else (r, { p with forward := record v r p.forward, backward := record r v p.backward })

def permuteFrom (p : BitPermuter) : List Nat → List Int × BitPermuter
  | [] => ([], p)
  | v :: rest =>
    let (r, p) := p.permute v false
    let (rs, p) := p.permuteFrom rest
    (r :: rs, p)

def permuteAll (p : BitPermuter) : List Int × BitPermuter :=
  p.permuteFrom (List.range (Nat.pow 2 p.places.length))

end BitPermuter

inductive BasisOrder where
  | ilo | dlo
  deriving DecidableEq, Repr

namespace Readout

inductive Error where
  | notPowerOfTwo | empty | permutation | permutationLength | place | size | total | table
  | register
  deriving DecidableEq, Repr

def Error.message? : Error → Option String
  | .notPowerOfTwo => some "Size is not a power of 2"
  | .permutation => some "Permutation is not a valid complete permutation."
  | .permutationLength => some "Invalid permutation: length does not match number of qubits"
  | .register => some "Non-default qubit register"
  | _ => none

instance : HasProblem Error where
  problem
    | .empty => { fault := .overflow }
    | .place => { fault := .index }
    | .total => { fault := .division }
    | .table => { fault := .type }
    | e => { fault := .value, message := e.message? }

def ofIndex (index : Int) (width : Nat) (basis : BasisOrder) : List Bool :=
  let digits := (List.range width).map (BitPermuter.digit index)
  match basis with
  | .ilo => digits.reverse
  | .dlo => digits

def reverseDigits (index : Int) (width : Nat) : Int :=
  BitPermuter.moved (List.range width).reverse false index

def countRows (t : Tensor Int) : Except Error (Counter (List Int)) :=
  match t.shape, t.rows? with
  | [_, _], some rows => .ok (Counter.tally lexLe rows)
  | 0 :: _, _ => .ok []
  | _, _ => .error .table

def shares {κ : Type} (c : Counter κ) : Except Error (List (κ × Float)) :=
  let total := Counter.total c
  if c.isEmpty then .ok []
  else if total = 0 then .error .total
  else .ok (c.map fun (k, n) => (k, Float.ofInt n / Float.ofInt total))

def qubitCount (size : Nat) : Except Error Nat :=
  if size = 0 then .error .empty else .ok (Nat.log2 size)

def stateQubits (size : Nat) : Except Error Nat := do
  let n ← qubitCount size
  if Nat.pow 2 n = size then return n else throw .notPowerOfTwo

/-- The probabilities of the basis states, scaled to the sum 1; those below the least one are left
out, and the rest is scaled again. -/
def probabilities (state : List Amplitude) (least : Float) :
    Except Error (List (List Bool × Float)) := do
  let width ← stateQubits state.length
  let scaled (ps : List Float) : List Float :=
    let total := ps.foldl (· + ·) 0
    ps.map (· / total)
  let first := scaled (state.map fun a => a.re * a.re + a.im * a.im)
  let second := scaled (first.map fun p => if p < least then 0 else p)
  return ((first.zip second).zipIdx.filter fun ((p, _), _) => !(p < least)).map
    fun ((_, q), i) => (ofIndex i width .ilo, q)

def permuter (places : List Int) : Except Error BitPermuter :=
  match BitPermuter.ofPlaces? places with
  | some p => .ok p
  | none => .error .permutation

def basisPlaces (size : Nat) (places : List Int) : Except Error (List Nat) := do
  if Nat.pow 2 places.length ≠ size then throw .permutationLength
  let p ← permuter places
  return p.permuteAll.1.map Int.toNat

def permuteBasis {α : Type} (t : Tensor α) (places : List Int) : Except Error (Tensor α) := do
  match t.shape with
  | [] => throw .place
  | n :: _ =>
    let all ← basisPlaces n places
    match t.pick all with
    | some u => return u
    | none => throw .place

def permuteSides {α : Type} (t : Tensor α) (places : List Int) : Except Error (Tensor α) := do
  match t.shape with
  | [] => throw .place
  | n :: _ =>
    let all ← basisPlaces n places
    match (t.pickColumns all).bind fun u => u.pick all with
    | some u => return u
    | none => throw .place

def isClose (a b : Amplitude) : Bool := (a - b).abs ≤ 1e-8 + 1e-5 * b.abs

def sameState (a b : List Amplitude) : Except Error Bool :=
  if a.length ≠ b.length then .error .size
  else
    let product := (a.zip b).foldl (fun s (x, y) => s + x.conj * y) Amplitude.zero
    .ok (isClose (.ofReal product.abs) .one)

def spread {α : Type} (n : Nat) : List α → List α
  | [v] => List.replicate n v
  | row => row

/-- Whether two matrices agree up to a phase: the product of one with the adjoint of the other is a
multiple of the identity. A single row or column of the product stands for as many as the other side
has. -/
def sameMatrix (a b : Tensor Amplitude) : Except Error Bool :=
  match a.shape, b.shape, a.rows?, b.rows? with
  | [_, k], [_, l], some ra, some rb =>
    if k ≠ l then .error .size
    else
      let product := ra.map fun r => rb.map fun s =>
        (r.zip s).foldl (fun v (x, y) => v + x * y.conj) Amplitude.zero
      if ra.length ≠ rb.length ∧ rb.length ≠ 1 ∧ ra.length ≠ 1 then .error .size
      else
        match product with
        | (corner :: _) :: _ =>
          .ok (product.zipIdx.all fun (row, i) => (spread ra.length row).zipIdx.all fun (v, j) =>
            isClose v (if ra.length = 1 ∨ i = j then corner else .zero))
        | _ => .error .place
  | _, _, _, _ => .error .place

def parity {κ : Type} [Arithmetic κ] (odd total : κ) : κ := Arithmetic.ofInt (-2) * odd / total + 1

def expectationOfRows {κ : Type} [Arithmetic κ] (t : Tensor Int) : Except Error κ :=
  match t.shape with
  | [] => .error .table
  | 0 :: _ => .error .total
  | n :: _ =>
    let odd := Counter.addUp (t.slices.map fun s => Counter.addUp s.entries % 2)
    .ok (parity (Arithmetic.ofInt odd) (Arithmetic.ofInt n))

def expectationOfCounts {κ : Type} [Arithmetic κ] (c : Counter (List Int)) : Except Error κ :=
  let odd := Counter.addUp (c.map fun (row, n) => n * (Counter.addUp row % 2))
  let total := Counter.total c
  if total = 0 then .error .total
  else .ok (parity (Arithmetic.ofInt odd) (Arithmetic.ofInt total))

def defaultIndex (u : UnitId) : Except Error Nat :=
  match u.register, u.index with
  | "q", [i] => .ok i
  | _, _ => .error .register

end Readout

abbrev Valuation := List (UnitId × Bool)

structure Rule where
  target : UnitId
  source : UnitId
  invert : Bool
  deriving DecidableEq, Repr

namespace Valuation

def set (u : UnitId) (b : Bool) : Valuation → Valuation
  | [] => [(u, b)]
  | (v, c) :: rest => if v = u then (u, b) :: rest else (v, c) :: set u b rest

/-- The values after all rules, each of which reads the values before them. -/
def follow (rules : List Rule) (values : Valuation) : Option Valuation :=
  rules.foldlM (fun after r => do return after.set r.target ((← values.lookup r.source) ^^ r.invert))
    values

end Valuation

abbrev Processor := Valuation → Option Valuation

structure Stored where
  counts : Option (Counter Outcomes) := none
  shots : Option Outcomes := none
  state : Option (Tensor Amplitude) := none
  unitary : Option (Tensor Amplitude) := none
  density : Option (Tensor Amplitude) := none

structure Result extends Stored where
  bits : List (UnitId × Nat)
  qubits : List (UnitId × Nat)
  process : Option Processor := none

namespace Result

inductive Form where
  | any | measured | simulated | shots | counts | state | unitary | density
  deriving DecidableEq, Repr

def Form.name : Form → String
  | .any => "No results stored."
  | .measured => "shots/counts"
  | .simulated => "state/unitary/density_matrix"
  | .shots => "shots"
  | .counts => "counts"
  | .state => "state"
  | .unitary => "unitary"
  | .density => "density_matrix"

inductive Error where
  | both | noCount
  | length (kind : UnitKind) (given data : Nat)
  | missing (form : Form)
  | processed | unknownBit | notPermutation | mixture | place | value | field | ragged
  | outcome (e : Outcomes.Error)
  | readout (e : Readout.Error)
  deriving DecidableEq, Repr

def listName : UnitKind → String
  | .qubit => "q_bits"
  | .bit => "c_bits"

def Error.message? : Error → Option String
  | .both => some "Provide either counts or shots, both is not valid."
  | .length kind given data =>
    some ("Length of " ++ listName kind ++ " (" ++ toString given ++
      ") does not match input data dimensions (" ++ toString data ++ ").")
  | .missing form => some ("BackendResult cannot produce result of type " ++ form.name ++ ".")
  | .processed => some "Postprocessing circuit already provided."
  | .unknownBit => some "Requested Bit not in result."
  | .notPermutation =>
    some ("For state/unitary/density_matrix results only a permutation of all qubits can be " ++
      "requested.")
  | .mixture => some "Requested UnitIds (request_ids) contain a mixture of qubits and bits."
  | .outcome e => e.message?
  | .readout e => e.message?
  | _ => none

instance : HasProblem Error where
  problem
    | .noCount => { fault := .exhausted }
    | .missing form => { fault := .result, message := Error.message? (.missing form) }
    | .place => { fault := .index }
    | .value | .field => { fault := .key }
    | .outcome e => HasProblem.problem e
    | .readout e => HasProblem.problem e
    | e => { fault := .value, message := e.message? }

def liftOutcome {α : Type} : Except Outcomes.Error α → Except Error α
  | .ok a => .ok a
  | .error e => .error (.outcome e)

def liftReadout {α : Type} : Except Readout.Error α → Except Error α
  | .ok a => .ok a
  | .error e => .error (.readout e)

def number (u : UnitId) (i : Nat) : List (UnitId × Nat) → List (UnitId × Nat)
  | [] => [(u, i)]
  | (v, j) :: rest => if v = u then (u, i) :: rest else (v, j) :: number u i rest

def numbered (units : List UnitId) : List (UnitId × Nat) :=
  units.zipIdx.foldl (fun m (u, i) => number u i m) []

def assign (kind : UnitKind) (units : List UnitId) (count : Nat) :
    Except Error (List (UnitId × Nat)) :=
  if units.isEmpty then
    .ok ((List.range count).map fun i => match kind with
      | .qubit => (UnitId.qubit i, i)
      | .bit => (UnitId.bit i, i))
  else if units.length = count then .ok (numbered units)
  else .error (.length kind units.length count)

def lastSide (t : Tensor Amplitude) : Except Error Nat :=
  match t.shape.getLast? with
  | some n => .ok n
  | none => .error .place

def firstSide (t : Tensor Amplitude) : Except Error Nat :=
  match t.shape.head? with
  | some n => .ok n
  | none => .error .place

def columnCount? (s : Stored) : Except Error (Option Nat) :=
  match s.counts, s.shots with
  | some _, some _ => .error .both
  | some c, none =>
    match c.find? fun e => 0 < e.2 with
    | some (a, _) => .ok (some a.width)
    | none => .error .noCount
  | none, some a => .ok (some a.width)
  | none, none => .ok none

def qubitCount? (s : Stored) : Except Error (Option Nat) :=
  match s.unitary, s.state, s.density with
  | some u, _, _ => do return some (← liftReadout (Readout.qubitCount (← lastSide u)))
  | none, some v, _ => do return some (← liftReadout (Readout.stateQubits (← firstSide v)))
  | none, none, some d => do return some (← liftReadout (Readout.qubitCount (← lastSide d)))
  | none, none, none => .ok none

def ofStored (s : Stored) (bits qubits : List UnitId) (process : Option Processor) :
    Except Error Result := do
  let bits ← match ← columnCount? s with
    | some n => assign .bit bits n
    | none => pure []
  let qubits ← match ← qubitCount? s with
    | some n => assign .qubit qubits n
    | none => pure []
  return { toStored := s, bits, qubits, process }

def isMeasured (r : Result) : Bool := r.counts.isSome || r.shots.isSome

def isSimulated (r : Result) : Bool := r.state.isSome || r.unitary.isSome || r.density.isSome

def storageOrder (units : List (UnitId × Nat)) : List UnitId :=
  (units.mergeSort fun a b => a.2 ≤ b.2).map (·.1)

def bitList (r : Result) : List UnitId := storageOrder r.bits
def qubitList (r : Result) : List UnitId := storageOrder r.qubits

def valuation (bits : List (UnitId × Nat)) (row : List Bool) : Except Error Valuation :=
  bits.mapM fun (u, i) => match row[i]? with
    | some b => .ok (u, b)
    | none => .error .place

def processed (bits : List (UnitId × Nat)) (process : Processor) (row : List Bool) :
    Except Error Valuation := do
  match process (← valuation bits row) with
  | some v => return v
  | none => throw .value

def valueOf (v : Valuation) (u : UnitId) : Except Error Bool :=
  match v.lookup u with
  | some b => .ok b
  | none => .error .value

def processCounts (bits : List (UnitId × Nat)) (process : Processor) (request : List UnitId)
    (c : Counter Outcomes) : Except Error (Counter Outcomes) :=
  c.foldlM (fun (after : Counter Outcomes) (a, n) => do
    let values ← processed bits process (← liftOutcome a.readout)
    let row ← request.mapM (valueOf values)
    return after.bump (Outcomes.ofTable request.length [row]) n) []

/-- A post-processed row: the column of each bit has its new value, all others are 0. -/
def processRow (bits : List (UnitId × Nat)) (process : Processor) (width : Nat) (row : List Bool) :
    Except Error (List Bool) := do
  let values ← processed bits process row
  bits.foldlM (fun (after : List Bool) (u, i) => do
    return if ← valueOf values u then after.set i true else after) (List.replicate width false)

def processShots (bits : List (UnitId × Nat)) (process : Processor) (a : Outcomes) :
    Except Error Outcomes := do
  let rows ← a.readouts.mapM (processRow bits process a.width)
  if rows.isEmpty then throw (.outcome .shape) else return Outcomes.ofTable a.width rows

def processorOf (r : Result) (process : Option Processor) : Except Error (Option Processor) :=
  match r.process, process with
  | some _, some _ => .error .processed
  | some p, none => .ok (some p)
  | none, p => .ok p

def measured (r : Result) (request : List UnitId) (process : Option Processor) :
    Except Error Stored := do
  if !r.isMeasured then throw (.missing .measured)
  let process ← r.processorOf process
  let some columns := request.mapM fun u => r.bits.lookup u | throw .unknownBit
  let columns := columns.map fun (i : Nat) => (i : Int)
  let counts ← match r.counts with
    | none => pure none
    | some c => do
      let c ← match process with
        | some p => processCounts r.bits p request c
        | none => pure c
      let parts ← c.mapM fun (a, n) => do return [(← liftOutcome (a.choose columns), n)]
      pure (Counter.mergeAll parts)
  let shots ← match r.shots with
    | none => pure none
    | some a => do
      let a ← match process with
        | some p => processShots r.bits p a
        | none => pure a
      pure (some (← liftOutcome (a.choose columns)))
  return { counts, shots }

/-- Where the qubits of the storage order stand in a request: qubit `i` takes the place of the qubit
that is requested at its number. -/
def permutation (r : Result) (request : List UnitId) : Except Error (List Int) :=
  r.qubitList.mapM fun u => do
    let some i := r.qubits.lookup u | throw .place
    let some v := request[i]? | throw .place
    let some k := r.qubitList.findIdx? (· = v) | throw .place
    return (k : Int)

def relabel (places : List Int) (t : Tensor Amplitude) : Except Error (Tensor Amplitude) :=
  liftReadout (if t.shape.length = 1 then Readout.permuteBasis t places
    else Readout.permuteSides t places)

def simulated (r : Result) (request : List UnitId) : Except Error Stored := do
  if !r.isSimulated then throw (.missing .simulated)
  let known := r.qubits.map (·.1)
  if request.length ≠ known.length || !request.all (known.contains ·) ||
      !known.all (request.contains ·) then
    throw .notPermutation
  let places ← r.permutation request
  let state ← r.state.mapM (relabel places)
  let unitary ← r.unitary.mapM (relabel places)
  let density ← r.density.mapM (relabel places)
  return { state, unitary, density }

def ordered (basis : BasisOrder) (units : List (UnitId × Nat)) : List UnitId :=
  let up := UnitId.sort (units.map (·.1))
  match basis with
  | .ilo => up
  | .dlo => up.reverse

def resultFor (r : Result) (request : List TypedUnit) (process : Option Processor) :
    Except Error Stored :=
  if request.all fun u => u.kind = .bit then r.measured (request.map (·.id)) process
  else if request.all fun u => u.kind = .qubit then r.simulated (request.map (·.id))
  else .error .mixture

def typed (kind : UnitKind) (units : List UnitId) : List TypedUnit := units.map fun u => ⟨u, kind⟩

def result (r : Result) (request : Option (List TypedUnit)) (basis : BasisOrder)
    (process : Option Processor) : Except Error Stored :=
  match request with
  | some units => r.resultFor units process
  | none =>
    if r.isMeasured then r.resultFor (typed .bit (ordered basis r.bits)) process
    else if r.isSimulated then r.resultFor (typed .qubit (ordered basis r.qubits)) process
    else .error (.missing .any)

def ofBits (r : Result) (request : Option (List TypedUnit)) (basis : BasisOrder)
    (process : Option Processor) : Except Error Stored :=
  r.resultFor (request.getD (typed .bit (ordered basis r.bits))) process

def ofQubits (r : Result) (request : Option (List TypedUnit)) (basis : BasisOrder) :
    Except Error Stored :=
  r.resultFor (request.getD (typed .qubit (ordered basis r.qubits))) none

def shotTable (r : Result) (request : Option (List TypedUnit)) (basis : BasisOrder)
    (process : Option Processor) : Except Error (List (List Bool)) := do
  match (← r.ofBits request basis process).shots with
  | some a => return a.readouts
  | none => throw (.missing .shots)

def countTable (r : Result) (request : Option (List TypedUnit)) (basis : BasisOrder)
    (process : Option Processor) : Except Error (Counter (List Bool)) := do
  let s ← r.ofBits request basis process
  match s.counts, s.shots with
  | some c, _ => liftOutcome (Outcomes.readoutCounts c)
  | none, some a => liftOutcome (Outcomes.readoutCounts a.counts)
  | none, none => throw (.missing .counts)

def firstColumn (t : Tensor Amplitude) : Except Error (Tensor Amplitude) :=
  match t.shape, t.pickColumns [0] with
  | n :: _ :: rest, some u => .ok ⟨n :: rest, u.entries⟩
  | _, _ => .error .place

def stateVector (r : Result) (request : Option (List TypedUnit)) (basis : BasisOrder) :
    Except Error (Tensor Amplitude) := do
  let s ← r.ofQubits request basis
  match s.state, s.unitary with
  | some v, _ => return v
  | none, some u => firstColumn u
  | none, none => throw (.missing .state)

def unitaryMatrix (r : Result) (request : Option (List TypedUnit)) (basis : BasisOrder) :
    Except Error (Tensor Amplitude) := do
  match (← r.ofQubits request basis).unitary with
  | some u => return u
  | none => throw (.missing .unitary)

def densityMatrix (r : Result) (request : Option (List TypedUnit)) (basis : BasisOrder) :
    Except Error (Tensor Amplitude) := do
  match (← r.ofQubits request basis).density with
  | some d => return d
  | none => throw (.missing .density)

def leastProbability : Float := 1e-10

def distribution (r : Result) (request : Option (List TypedUnit)) :
    Except Error (List (List Bool × Float)) :=
  match r.stateVector request .ilo with
  | .ok v => liftReadout (Readout.probabilities v.entries leastProbability)
  | .error (.missing _) => do
    liftReadout (Readout.shares (← r.countTable request .ilo none))
  | .error e => .error e

def assertionOf? (u : UnitId) : Option (String × Bool) :=
  if u.register.startsWith "tk_DEBUG_ZERO_REG_" then
    some ((u.register.drop "tk_DEBUG_ZERO_REG_".length).toString, false)
  else if u.register.startsWith "tk_DEBUG_ONE_REG_" then
    some ((u.register.drop "tk_DEBUG_ONE_REG_".length).toString, true)
  else none

def assertions (units : List UnitId) : List (String × List (UnitId × Bool)) :=
  let named := units.filterMap fun u => (assertionOf? u).map fun (name, b) => (name, u, b)
  (named.map (·.1)).eraseDups.map fun name =>
    (name, (named.filter fun e => e.1 = name).map fun e => e.2)

def successRates (r : Result) : Except Error (List (String × Float)) :=
  (assertions (r.bits.map (·.1))).mapM fun (name, bits) => do
    let c ← r.countTable (some (typed .bit (bits.map (·.1)))) .ilo none
    let total := Counter.total c
    if total = 0 then throw (.readout .total)
    return (name, Float.ofInt (Counter.get c (bits.map (·.2))) / Float.ofInt total)

def sameNumbers (a b : List (UnitId × Nat)) : Bool :=
  a.length = b.length && a.all fun (u, i) => b.lookup u = some i

def same (a b : Result) : Bool :=
  sameNumbers a.qubits b.qubits && sameNumbers a.bits b.bits && a.shots = b.shots &&
    (match a.counts, b.counts with
      | some c, some d => Counter.same c d
      | none, none => true
      | _, _ => false) &&
    a.state == b.state && a.unitary == b.unitary && a.density == b.density

def numbersText (units : List (UnitId × Nat)) : String :=
  "\x7b" ++ ", ".intercalate (units.map fun (u, i) => u.text ++ ": " ++ toString i) ++ "\x7d"

def bytesText (rows : List (List UInt8)) : String :=
  let cells := rows.map fun row => row.map fun b => toString b.toNat
  let width := cells.flatten.foldl (fun w s => max w s.length) 0
  let pad (s : String) : String := String.ofList (List.replicate (width - s.length) ' ') ++ s
  if cells.flatten.isEmpty then "[]"
  else "[" ++ "\n ".intercalate (cells.map fun row => "[" ++ " ".intercalate (row.map pad) ++ "]") ++
    "]"

def text (r : Result) : String :=
  "BackendResult(q_bits=" ++ numbersText r.qubits ++ ",c_bits=" ++ numbersText r.bits ++
    ",counts=None,shots=" ++ (match r.shots with | some a => bytesText a.rows | none => "None") ++
    ",state=None,unitary=None,density_matrix=None)"

end Result

end CircuitWorks
