import CircuitWorks.Amount
import CircuitWorks.Problem
import CircuitWorks.UnitId

/-!
Pauli operators, their strings on different qubits, and linear combinations of strings, over any type
of coefficients; strings and combinations as matrices.
-/

namespace CircuitWorks

inductive Pauli where
  | I | X | Y | Z
  deriving DecidableEq, Repr, Inhabited

namespace Pauli

def letter : Pauli → String
  | I => "I"
  | X => "X"
  | Y => "Y"
  | Z => "Z"

def ofLetter? : String → Option Pauli
  | "I" => some I
  | "X" => some X
  | "Y" => some Y
  | "Z" => some Z
  | _ => none

def mul : Pauli → Pauli → Fin 4 × Pauli
  | I, p => (0, p)
  | p, I => (0, p)
  | X, X => (0, I)
  | Y, Y => (0, I)
  | Z, Z => (0, I)
  | X, Y => (1, Z)
  | Y, Z => (1, X)
  | Z, X => (1, Y)
  | Y, X => (3, Z)
  | Z, Y => (3, X)
  | X, Z => (3, Y)

end Pauli

structure PauliString where
  /-- In the order of the qubits. -/
  factors : List (UnitId × Pauli)
  deriving DecidableEq, Repr

namespace PauliString

def empty : PauliString := ⟨[]⟩

def setFactor (u : UnitId) (p : Pauli) : List (UnitId × Pauli) → List (UnitId × Pauli)
  | [] => [(u, p)]
  | (v, q) :: rest =>
    match u.compare v with
    | .lt => (u, p) :: (v, q) :: rest
    | .eq => (v, p) :: rest
    | .gt => (v, q) :: setFactor u p rest

def ofList (factors : List (UnitId × Pauli)) : PauliString :=
  ⟨factors.foldl (fun fs (u, p) => setFactor u p fs) []⟩

def qubits (s : PauliString) : List UnitId := s.factors.map (·.1)

def support (s : PauliString) : List (UnitId × Pauli) := s.factors.filter fun (_, p) => p ≠ .I

def same (s t : PauliString) : Bool := s.support = t.support

/-- Multiplies by a factor from the left: the power of the imaginary unit that comes out, and the
factors of the product. -/
def mulFactor (u : UnitId) (p : Pauli) :
    List (UnitId × Pauli) → Fin 4 × List (UnitId × Pauli)
  | [] => (⟨0, by decide⟩, [(u, p)])
  | (v, q) :: rest =>
    match u.compare v with
    | .lt => (⟨0, by decide⟩, (u, p) :: (v, q) :: rest)
    | .eq =>
      let (k, r) := p.mul q
      (k, if r = .I then rest else (v, r) :: rest)
    | .gt =>
      let (k, fs) := mulFactor u p rest
      (k, (v, q) :: fs)

def mulFactors (fs gs : List (UnitId × Pauli)) : Fin 4 × List (UnitId × Pauli) :=
  fs.foldr (fun (u, p) (k, hs) =>
    let (l, hs) := mulFactor u p hs
    (Fin.add k l, hs)) (⟨0, by decide⟩, gs)

/-- The product of two strings: the power of the imaginary unit in front, and a string without
identity factors. -/
def mul (s t : PauliString) : Fin 4 × PauliString :=
  let (k, fs) := mulFactors s.support t.support
  (k, ⟨fs⟩)

def factorOn (s : PauliString) (u : UnitId) : Pauli :=
  ((s.factors.find? fun (v, _) => v = u).map (·.2)).getD .I

def text (s : PauliString) : String :=
  "(" ++ ", ".intercalate (s.factors.map fun (u, p) => p.letter ++ u.text) ++ ")"

end PauliString

structure PauliOperator (κ : Type) where
  terms : List (PauliString × κ)
  qubits : List UnitId

namespace PauliOperator

variable {κ : Type}

def find? (s : PauliString) : List (PauliString × κ) → Option κ
  | [] => none
  | (t, c) :: rest => if t.same s then some c else find? s rest

/-- Sets the coefficient of a string. A string that is there keeps its place and its form. -/
def put (s : PauliString) (c : κ) : List (PauliString × κ) → List (PauliString × κ)
  | [] => [(s, c)]
  | (t, d) :: rest => if t.same s then (t, c) :: rest else (t, d) :: put s c rest

def addTerm [Add κ] (s : PauliString) (c : κ) : List (PauliString × κ) → List (PauliString × κ)
  | [] => [(s, c)]
  | (t, d) :: rest => if t.same s then (t, d + c) :: rest else (t, d) :: addTerm s c rest

def collect (terms : List (PauliString × κ)) : List UnitId :=
  terms.foldl (fun us (s, _) => s.qubits.foldl (fun us u => UnitId.join u us) us) []

def ofTerms (terms : List (PauliString × κ)) : PauliOperator κ := ⟨terms, collect terms⟩

def ofEntries (entries : List (PauliString × κ)) : PauliOperator κ :=
  ofTerms (entries.foldl (fun terms (s, c) => put s c terms) [])

/-- The operator again, on the qubits of its strings. -/
def renew (a : PauliOperator κ) : PauliOperator κ := ofTerms a.terms

def get? (a : PauliOperator κ) (s : PauliString) : Option κ := find? s a.terms

def set (a : PauliOperator κ) (s : PauliString) (c : κ) : PauliOperator κ :=
  { a with terms := put s c a.terms }

def joined (us vs : List UnitId) : List UnitId := vs.foldl (fun us v => UnitId.join v us) us

def increase [Add κ] (a b : PauliOperator κ) : PauliOperator κ :=
  ⟨b.terms.foldl (fun terms (s, c) => addTerm s c terms) a.terms, joined a.qubits b.qubits⟩

section

variable [One κ] [Neg κ] [Add κ] [Mul κ] [ImaginaryUnit κ]

def turn : Fin 4 → κ
  | 0 => 1
  | 1 => ImaginaryUnit.i
  | 2 => -1
  | 3 => -ImaginaryUnit.i

def products (ts us : List (PauliString × κ)) : List (PauliString × κ) :=
  ts.flatMap fun (s, c) => us.map fun (t, d) =>
    let (k, st) := s.mul t
    (st, turn k * c * d)

def extend (a b : PauliOperator κ) : PauliOperator κ :=
  ⟨(products a.terms b.terms).foldl (fun terms (s, c) => addTerm s c terms) [],
    joined a.qubits b.qubits⟩

end

def scale [Mul κ] (a : PauliOperator κ) (c : κ) : PauliOperator κ :=
  { a with terms := a.terms.map fun (s, d) => (s, d * c) }

def add [Add κ] (a b : PauliOperator κ) : PauliOperator κ := a.renew.increase b

def mul [One κ] [Neg κ] [Add κ] [Mul κ] [ImaginaryUnit κ] (a b : PauliOperator κ) :
    PauliOperator κ := a.renew.extend b

def same (alike : κ → κ → Bool) (a b : PauliOperator κ) : Bool :=
  a.terms.length = b.terms.length && a.terms.all fun (s, c) => (b.get? s).any (alike c)

end PauliOperator

def Pauli.matrix {κ : Type} [Zero κ] [One κ] [Neg κ] [ImaginaryUnit κ] : Pauli → Dense κ
  | .I => [[1, 0], [0, 1]]
  | .X => [[0, 1], [1, 0]]
  | .Y => [[0, -ImaginaryUnit.i], [ImaginaryUnit.i, 0]]
  | .Z => [[1, 0], [0, -1]]

inductive PauliOperator.Error where
  | absent | symbolic
  /-- A list of qubits without some qubit of a string. -/
  | uncovered | size
  | addend (type : String)
  | factor (type : String)
  | notInstalled
  deriving DecidableEq, Repr

def PauliOperator.Error.message? : PauliOperator.Error → Option String
  | .uncovered => some "qubit list does not cover the string"
  | .addend type => some s!"Cannot add <class '{type}'> to QubitPauliOperator."
  | .factor type => some s!"Cannot multiply QubitPauliOperator with <class '{type}'>"
  | .notInstalled => some "Install OpenFermion to use QubitOperator converters"
  | _ => none

instance PauliOperator.Error.instHasProblem : HasProblem PauliOperator.Error where
  problem e :=
    { fault := match e with
        | .absent => .key
        | .symbolic | .addend _ | .factor _ => .type
        | .uncovered | .size => .value
        | .notInstalled => .package
      message := e.message? }

namespace PauliString

def matrix (s : PauliString) (qubits : List UnitId) :
    Except PauliOperator.Error (Dense Amplitude) :=
  if s.support.all fun (u, _) => qubits.contains u then
    .ok (qubits.foldr (fun u m => Dense.kron (s.factorOn u).matrix m) [[1]])
  else .error .uncovered

def defaultQubits (size : Nat) : List UnitId := (List.range (Nat.log2 size)).map UnitId.qubit

def apply (s : PauliString) (state : List Amplitude) (qubits : List UnitId) :
    Except PauliOperator.Error (List Amplitude) := do
  let qubits := if qubits.isEmpty then defaultQubits state.length else qubits
  let m ← s.matrix qubits
  if m.length = state.length then return Dense.mulVec m state
  throw .size

def expectation (s : PauliString) (state : List Amplitude) (qubits : List UnitId) :
    Except PauliOperator.Error Amplitude := do
  return Dense.dot (state.map Amplitude.conj) (← s.apply state qubits)

end PauliString

namespace PauliOperator

def coefficient (c : Amount) : Except Error Amplitude :=
  match Amount.value? c with
  | some z => .ok z
  | none => .error .symbolic

def total {α : Type} (scale : Amplitude → α → α) (add : α → α → α)
    (part : PauliString → Except Error α) (a : PauliOperator Amount) : Except Error (Option α) :=
  a.terms.foldlM (fun sum (s, c) => do
    let z ← coefficient c
    let term := scale z (← part s)
    return match sum with
      | some x => some (add x term)
      | none => some term) none

def matrix (a : PauliOperator Amount) (qubits : List UnitId) :
    Except Error (Option (Dense Amplitude)) :=
  a.total Dense.scale Dense.add fun s => s.matrix qubits

def apply (a : PauliOperator Amount) (state : List Amplitude) (qubits : List UnitId) :
    Except Error (Option (List Amplitude)) :=
  a.total (fun z v => v.map (z * ·)) (List.zipWith (· + ·)) fun s => s.apply state qubits

def expectation (a : PauliOperator Amount) (state : List Amplitude) (qubits : List UnitId) :
    Except Error (Option Amplitude) :=
  a.total (· * ·) (· + ·) fun s => s.expectation state qubits

def substitute (a : PauliOperator Amount) (values : List (String × Amount)) :
    PauliOperator Amount :=
  { a with terms := a.terms.map fun (s, c) =>
      (s, values.foldl (fun c (name, v) => Amount.substitute name v c) c) }

/-- What is left of a coefficient whose parts vanish if they are at most `least`, all symbols being
taken as 1. -/
def compressed (least : Float) (c : Amount) : Option Amount :=
  let z := Amount.placeholder c
  if z.re.abs ≤ least then
    if z.im.abs ≤ least then none else some (Amount.im c * ImaginaryUnit.i)
  else if z.im.abs ≤ least then some (Amount.re c)
  else some c

def compress (a : PauliOperator Amount) (least : Float) : PauliOperator Amount :=
  { a with terms := a.terms.filterMap fun (s, c) => (compressed least c).map (s, ·) }

def coefficientText (c : Amount) : String :=
  match Amount.real? c with
  | some x =>
    match Decimal.nearestInt? x with
    | some n => if Float.ofInt n == x then toString n else Decimal.full x
    | none => Decimal.full x
  | none => Amount.text c

def text (a : PauliOperator Amount) : String :=
  "\x7b" ++ ", ".intercalate (a.terms.map fun (s, c) => s.text ++ ": " ++ coefficientText c) ++ "\x7d"

end PauliOperator

end CircuitWorks
