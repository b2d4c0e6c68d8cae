import CircuitWorks.Device.Read
import CircuitWorks.Handle
import CircuitWorks.Measurement
import CircuitWorks.Result.Read

/-!
Backends, which take circuits to be run and keep the results until these are fetched, and expectation
values from states and from the parities of shots.
-/

namespace CircuitWorks

inductive Ability where
  | shots | counts | state | unitary | densityMatrix | expectation | nonhermitian
  | contextualOptimisation | persistentHandles
  deriving DecidableEq, Repr

namespace Ability

def all : List Ability :=
  [shots, counts, state, unitary, densityMatrix, expectation, nonhermitian, contextualOptimisation,
   persistentHandles]

def name : Ability → String
  | shots => "supports_shots"
  | counts => "supports_counts"
  | state => "supports_state"
  | unitary => "supports_unitary"
  | densityMatrix => "supports_density_matrix"
  | expectation => "supports_expectation"
  | nonhermitian => "expectation_allows_nonhermitian"
  | contextualOptimisation => "supports_contextual_optimisation"
  | persistentHandles => "persistent_handles"

def ofName? (name : String) : Option Ability := all.find? (·.name = name)

end Ability

structure Requirement where
  label : String
  isMet : Circuit → Bool

structure Extension where
  parts : List String
  name : Option String
  version : Option String
  isInstalled : Bool

structure LogEntry where
  size : Nat
  shots : Json
  phase : Amount

structure Backend where
  abilities : List Ability := []
  requirements : List Requirement := []
  /-- The circuit that a level of optimisation gives. -/
  compile : Nat → Circuit → Circuit
  areShotsOptional : Bool := true
  areNoShotsZero : Bool := false
  expectation : Json := .null
  device : Option (Option Device) := none
  extension : Option Extension := none
  waiting : List Result := []
  jobs : Nat := 0
  cache : List (Handle × Result) := []
  log : List LogEntry := []

namespace Backend

inductive Error where
  | notValid (index : Int) (requirement : Option String)
  | rejected (message : String)
  | notRun (handle : Handle)
  | handleType (handle : Handle)
  | shotsOfAll | shotsOfOne | shotsCount | shotsType | shotsOrder | noCancelling
  | noCharacterisation | noProperties | noDevices | extensionParts | notInstalled | symbols
  | symbolicCoefficient | notMeasured | unknownString | place | noCounts
  | circuit (e : Circuit.Error)
  | result (e : Result.Error)
  | readout (e : Readout.Error)
  | operator (e : PauliOperator.Error)

def Error.message? : Error → Option String
  | .notValid index requirement =>
    some (s!"Circuit with index {index} in submitted does not satisfy " ++
      requirement.getD "all predicates" ++
      " (try compiling with backend.get_compiled_circuits first).")
  | .rejected message => some message
  | .notRun h =>
    some ("Circuit corresponding to " ++ h.label ++ " has not been run by this backend instance.")
  | .handleType h =>
    some (h.label ++ " does not match expected identifier types (<class 'str'>, <class 'int'>)")
  | .shotsOfAll => some "n_shots values are required for all circuits for this backend"
  | .shotsOfOne => some "Parameter n_shots is required for this backend"
  | .shotsCount => some "The length of n_shots and circuits must match"
  | .noCancelling => some "Backend does not support job cancellation."
  | .noCharacterisation => some "Backend does not support retrieving characterisation."
  | .noProperties => some "Backend does not provide any device properties."
  | .noDevices => some "Backend does not provide information about available devices."
  | .symbols => some "QubitPauliOperator contains unevaluated symbols."
  | .notMeasured => some "Backend does not support counts or shots"
  | _ => none

instance : HasProblem Error where
  problem e :=
    match e with
    | .circuit e => HasProblem.problem e
    | .result e => HasProblem.problem e
    | .readout e => HasProblem.problem e
    | .operator e => HasProblem.problem e
    | e =>
      { fault := match e with
          | .notValid _ _ | .rejected _ => .invalidCircuit
          | .notRun _ => .notRun
          | .handleType _ | .shotsOrder | .symbolicCoefficient => .type
          | .shotsType => .assumption
          | .noCancelling | .noCharacterisation | .noProperties | .noDevices => .unsupported
          | .extensionParts | .place => .index
          | .notInstalled => .module
          | .unknownString => .key
          | .noCounts => .division
          | _ => .value
        message := e.message? }

def can (b : Backend) (a : Ability) : Bool := b.abilities.contains a

def isValid (b : Backend) (c : Circuit) : Bool := b.requirements.all (·.isMet c)

def check (b : Backend) (cs : List Circuit) : Except Error Unit :=
  match cs.zipIdx.findSome? fun (c, i) =>
    (b.requirements.find? fun r => !r.isMet c).map fun r => (i, r.label) with
  | some (i, label) => .error (.notValid i (some label))
  | none => .ok ()

def isPositive (n : Json) : Except Error Bool :=
  match n with
  | .null => .ok false
  | .int k => .ok (0 < k)
  | .bool b => .ok b
  | .float x => .ok (0 < x)
  | _ => .error .shotsOrder

def arePositive : List Json → Except Error Bool
  | [] => .ok true
  | n :: ns => do if ← isPositive n then arePositive ns else return false

def shotItems? : Json → Option (List Json)
  | .arr items => some items
  | .str s => some (s.toList.map fun c => .str (String.singleton c))
  | .obj fields => some (fields.map fun (k, _) => .str k)
  | _ => none

/-- The number of shots of each of some circuits, from one number for all or from a list. -/
def shotsOfEach (shots : Json) (count : Nat) (isOptional isZeroed : Bool) :
    Except Error (List Json) := do
  let each ← match shotItems? shots, shots with
    | some items, _ => do
      if !isOptional then
        if !(← arePositive items) then throw .shotsOfAll
      pure items
    | none, .float _ => throw .shotsType
    | none, n => do
      if !isOptional then
        if !(← isPositive n) then throw .shotsOfOne
      pure (List.replicate count n)
  if each.length ≠ count then throw .shotsCount
  return if isZeroed then each.map fun n => if n.isTruthy then n else .int 0 else each

def jobHandle (k : Nat) : Handle := ⟨[.str "job", .int k]⟩

def checkHandle (h : Handle) : Except Error Unit :=
  match h.items with
  | [.str _, .int _] | [.str _, .bool _] => .ok ()
  | _ => .error (.handleType h)

def submit (b : Backend) (c : Circuit) (shots : Json) : Backend × Handle :=
  let h := jobHandle b.jobs
  let entry : LogEntry := ⟨c.commands.length, shots, c.phase⟩
  let b := { b with jobs := b.jobs + 1, log := b.log ++ [entry] }
  match b.waiting with
  | r :: rest => ({ b with waiting := rest, cache := b.cache ++ [(h, r)] }, h)
  | [] => (b, h)

def submitAll : Backend → List (Circuit × Json) → Backend × List Handle
  | b, [] => (b, [])
  | b, (c, shots) :: rest =>
    let (b, h) := b.submit c shots
    let (b, hs) := b.submitAll rest
    (b, h :: hs)

/-- What is done with a backend: it keeps its changes also if there is an error. -/
abbrev Action (α : Type) := ExceptT Error (StateM Backend) α

def lifted {α : Type} : Except Error α → Action α
  | .ok a => pure a
  | .error e => throw e

def process (cs : List Circuit) (shots : Json) (isChecked : Bool) : Action (List Handle) := do
  let b ← get
  let each ← lifted (shotsOfEach shots cs.length b.areShotsOptional b.areNoShotsZero)
  if isChecked then lifted (b.check cs)
  modifyGet fun b => ((b.submitAll (cs.zip each)).2, (b.submitAll (cs.zip each)).1)

def find? (b : Backend) (h : Handle) : Option Result :=
  (b.cache.find? fun (k, _) => k.same h).map (·.2)

def result (b : Backend) (h : Handle) : Except Error Result := do
  checkHandle h
  match b.find? h with
  | some r => return r
  | none => throw (.notRun h)

def fetch (hs : List Handle) : Action (List Result) := do
  let b ← get
  lifted (hs.mapM b.result)

def drop (b : Backend) (h : Handle) : Backend :=
  { b with cache := b.cache.filter fun (k, _) => !k.same h }

def discard (hs : List Handle) : Action Unit := modify fun b => hs.foldl drop b

def run (cs : List Circuit) (shots : Json) : Action (List Result) := do
  let hs ← process cs shots true
  let rs ← fetch hs
  discard hs
  return rs

def runOne (c : Circuit) (shots : Json) : Action Result := do
  match ← run [c] shots with
  | r :: _ => return r
  | [] => throw .place

def nodeCount (b : Backend) : Except Error (Option Nat) :=
  match b.device with
  | some d => .ok (d.map fun d => d.nodes.length)
  | none => .error .noProperties

def extensionOf (b : Backend) (first second : String) :
    Except Error (Option String × Option String) :=
  match b.extension with
  | none => .ok (none, none)
  | some x =>
    match x.parts with
    | a :: rest =>
      if a ≠ first then .ok (none, none)
      else match rest with
        | [] => .error .extensionParts
        | c :: _ =>
          if c ≠ second then .ok (none, none)
          else if x.isInstalled then .ok (x.name, x.version)
          else .error .notInstalled
    | [] => .ok (none, none)

end Backend

inductive Estimate where
  | whole (n : Int)
  | real (x : Float)
  | complex (z : Amplitude)
  | given (value : Json)

/-- Which bits of a circuit's readouts give the value of a string, and whether its sign is turned. -/
structure BitMap where
  circuit : Int
  bits : List Int
  isInverted : Bool

namespace Backend

def numbers (row : List Bool) : List Int := row.map fun b => (b.toNat : Int)

def building {α : Type} : Except Circuit.Error α → Except Error α
  | .ok a => .ok a
  | .error e => .error (.circuit e)

def reading {α : Type} : Except Result.Error α → Except Error α
  | .ok a => .ok a
  | .error e => .error (.result e)

def averaging {α : Type} : Except Readout.Error α → Except Error α
  | .ok a => .ok a
  | .error e => .error (.readout e)

def operating {α : Type} : Except PauliOperator.Error α → Except Error α
  | .ok a => .ok a
  | .error e => .error (.operator e)

def countsOf (r : Result) : Except Error (Counter (List Int)) := do
  return (← reading (r.countTable none .ilo none)).map fun (row, n) => (numbers row, n)

def shotsOf (r : Result) : Except Error (List (List Int)) := do
  return (← reading (r.shotTable none .ilo none)).map numbers

def stateOf (r : Result) : Except Error (List Amplitude) := do
  return (← reading (r.stateVector none .ilo)).entries

def parityOfCounts (r : Result) : Except Error Float := do
  averaging (Readout.expectationOfCounts (← countsOf r))

def parityOfShots (r : Result) : Except Error Float := do
  let rows ← shotsOf r
  averaging (Readout.expectationOfRows ⟨[rows.length, (rows.headD []).length], rows.flatten⟩)

/-- How the backend's results give parities: by counts if there are any, else by shots. -/
def parity? (b : Backend) : Option (Result → Except Error Float) :=
  if b.can .counts then some parityOfCounts
  else if b.can .shots then some parityOfShots
  else none

def fitted (b : Backend) (c : Circuit) : Circuit := if b.isValid c then c else b.compile 1 c

def pauliExpectation (c : Circuit) (s : PauliString) (shots : Json) : Action Estimate := do
  let b ← get
  if shots.isTruthy then
    let measured ← lifted (building (c.addMeasurement s))
    match b.parity? with
    | none => throw .notMeasured
    | some parity => do
      let r ← runOne (b.compile 1 measured) shots
      return .real (← lifted (parity r))
  else if b.can .expectation then return .given b.expectation
  else
    let r ← runOne (b.fitted c) .null
    return .complex (← lifted (do operating (s.expectation (← stateOf r) [])))

def valueOf (c : Amount) : Except Error Amplitude :=
  match Amount.value? c with
  | some z => .ok z
  | none => .error .symbolicCoefficient

def identityPart (a : PauliOperator Amount) : Except Error (Option Amplitude) :=
  (a.get? PauliString.empty).mapM valueOf

def estimateOf : Option Amplitude → Estimate
  | some z => .complex z
  | none => .whole 0

def addEnergy (sum : Option Amplitude) (z : Amplitude) : Option Amplitude :=
  some (sum.getD .zero + z)

def otherCoefficients (a : PauliOperator Amount) : Except Error (List Amplitude) :=
  (a.terms.filter fun (s, _) => !s.same PauliString.empty).mapM fun (_, c) => valueOf c

def energy (parity : Result → Except Error Float) (start : Option Amplitude)
    (terms : List (Result × Amplitude)) : Except Error (Option Amplitude) :=
  terms.foldlM (fun sum (r, z) => do return addEnergy sum (z * Amplitude.ofReal (← parity r))) start

def operatorFromShots (c : Circuit) (a : PauliOperator Amount) (shots : Json) :
    Action Estimate := do
  let b ← get
  let start ← lifted (identityPart a)
  let coefficients ← lifted (otherCoefficients a)
  let circuits ← lifted (building (c.measurements a))
  let hs ← process (circuits.map (b.compile 1)) shots true
  let results ← fetch hs
  match b.parity? with
  | none => throw .notMeasured
  | some parity => do
    let total ← lifted (energy parity start (results.zip coefficients))
    discard hs
    return estimateOf total

def operatorExpectation (c : Circuit) (a : PauliOperator Amount) (shots : Json) :
    Action Estimate := do
  let b ← get
  if shots.isTruthy then operatorFromShots c a shots
  else
    match a.terms.mapM fun (_, z) => Amount.value? z with
    | none => throw .symbols
    | some values =>
      if b.can .expectation && (b.can .nonhermitian || values.all fun z => z.im == 0) then
        return .given b.expectation
      else
        let r ← runOne (b.fitted c) .null
        return estimateOf (← lifted (do operating (a.expectation (← stateOf r) [])))

def itemAt {α : Type} (xs : List α) (i : Int) : Except Error α :=
  let k := if i < 0 then i + xs.length else i
  if k < 0 then .error .place
  else match xs[k.toNat]? with
    | some x => .ok x
    | none => .error .place

def parityAt (bits : List Int) (row : List Int) : Except Error Int := do
  return Counter.addUp (← bits.mapM (itemAt row)) % 2

def partialParity (bits : List Int) (c : Counter (List Int)) : Except Error Float := do
  let odd ← c.mapM fun (row, n) => do return n * (← parityAt bits row)
  let total := Counter.total c
  if total = 0 then throw .noCounts
  return Readout.parity (Float.ofInt (Counter.addUp odd)) (Float.ofInt total)

def tableOf (b : Backend) (r : Result) : Except Error (Counter (List Int)) :=
  if b.can .counts then countsOf r
  else if b.can .shots then do return (← shotsOf r).map fun row => (row, 1)
  else .error .notMeasured

/-- The part of an expectation value that belongs to one way of reading a string. -/
def bitMapEnergy (b : Backend) (results : List Result) (coefficient : Amount) (m : BitMap) :
    Except Error Amplitude := do
  if !b.can .counts && !b.can .shots then throw .notMeasured
  let x ← partialParity m.bits (← b.tableOf (← itemAt results m.circuit))
  let z ← valueOf coefficient
  return Amplitude.scale (if m.isInverted then -x else x) z

def sharedExpectation (c : Circuit) (a : PauliOperator Amount) (shots : Json)
    (circuits : List Circuit) (maps : List (PauliString × List BitMap)) : Action Estimate := do
  let b ← get
  if !shots.isTruthy then operatorExpectation c a shots
  else
    let start ← lifted (identityPart a)
    let all ← lifted (building (circuits.mapM c.append))
    let hs ← process (all.map (b.compile 1)) shots true
    let results ← fetch hs
    let total ← lifted (maps.foldlM (fun sum (s, ms) =>
      match a.get? s with
      | none => .error .unknownString
      | some z => ms.foldlM (fun sum m => do return addEnergy sum (← b.bitMapEnergy results z m)) sum)
      start)
    discard hs
    return estimateOf total

end Backend

def Requirement.read (j : Json) : Requirement :=
  ⟨(j.item 0).string, fun c => (c.commands.length : Int) ≤ (j.item 1).integer⟩

def Extension.read (j : Json) : Extension where
  parts := (((j.field "module").string.splitOn ".").take 3)
  name := (j.field "name").text?
  version := (j.field "version").text?
  isInstalled := (j.field "exists").isOn

def Handle.read (j : Json) : Handle := ⟨j.list.map Literal.ofJson⟩

def Estimate.toJson : Estimate → Json
  | .whole n => .int n
  | .real x => .ofFloat x
  | .complex z => z.toJson
  | .given j => j.plain

def BitMap.read (j : Json) : BitMap :=
  ⟨(j.item 0).integer, (j.item 1).list.map Json.integer, (j.item 2).isTruthy⟩

def LogEntry.toJson (e : LogEntry) : Json := .arr [.ofNat e.size, e.shots.plain, e.phase.toJson]

namespace Backend

/-- Each level of optimisation turns the phase by half a turn. -/
def turnPhase (level : Nat) (c : Circuit) : Circuit :=
  if level = 0 then c else c.addPhase (Amount.ofFloat (Float.ofNat level / 2))

def readDevice (j : Json) : Except Problem (Option (Option Device)) :=
  match j.get? "info" with
  | none => .ok none
  | some .null => .ok (some none)
  | some info => do return some (some (← Device.read info))

def read (j : Json) : Except Problem Backend := do
  let mode := j.field "shots_mode"
  return {
    abilities := (j.listAt "supports").filterMap fun a => Ability.ofName? a.string
    requirements := (j.listAt "predicates").map Requirement.read
    compile := turnPhase
    areShotsOptional := (mode.field "optional").isOn
    areNoShotsZero := (mode.field "set_zero").isTruthy
    expectation := j.field "expectation"
    device := ← readDevice j
    extension := (j.get? "extension").map Extension.read
    waiting := ← (j.listAt "results").mapM Result.read }

def abilitiesJson (b : Backend) : Json :=
  .obj (Ability.all.map fun a => (a.name, .bool (b.can a)))

def cacheJson (b : Backend) : Json :=
  .ofStrings (Json.sortStrings (b.cache.map fun (h, _) => h.text))

def readMaps (j : Json) : Except Problem (List (PauliString × List BitMap)) :=
  j.list.foldlM (fun maps e => do
    let s ← PauliString.read (e.item 0)
    let ms := (e.item 1).list.map BitMap.read
    if maps.any fun (t, _) => t.same s then
      return maps.map fun (t, old) => if t.same s then (t, ms) else (t, old)
    else return maps ++ [(s, ms)]) []

def emptyResult (c : Circuit) (shots : Nat) : Except Problem Result := do
  let row := Json.arr (List.replicate c.bits.length (.int 0))
  let rows ← exposed (Outcomes.ofReadoutsJson (.arr (List.replicate shots row)))
  exposed (Result.ofStored { shots := some rows } ((List.range c.bits.length).map UnitId.bit) [] none)

end Backend

end CircuitWorks
