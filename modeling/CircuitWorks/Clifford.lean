import CircuitWorks.Unitary.Circuit

/-!
The standard form of the Clifford gates on one qubit: some of the gates Z, X, S, V and S, in this
order, and a phase.
-/

namespace CircuitWorks.Clifford

inductive Error where
  | shapes | empty
  /-- A number of quarter turns that the table does not have. -/
  | row (i : Int)
  | form
  deriving DecidableEq, Repr

instance Error.instHasProblem : HasProblem Error where
  problem
    | .shapes => { fault := .value }
    | .empty => { fault := .index }
    | .row _ => { fault := .key }
    | .form => { fault := .operation }

def isClose (a b : Amplitude) : Bool := (a - b).abs ≤ 1e-8 + 1e-5 * b.abs

/-- A single row stands for as many equal rows as are needed. -/
def stretch (n : Nat) (m : Dense Amplitude) : Dense Amplitude :=
  match m with
  | [row] => List.replicate n row
  | rows => rows

def isScalar (m : Dense Amplitude) (size : Nat) (x : Amplitude) : Bool :=
  let n := max m.length size
  ((stretch n m).zip (stretch n (Dense.scale x (Dense.identity size)))).all fun (row, unit) =>
    (row.zip unit).all fun (a, b) => isClose a b

def phase? (a b : Dense Amplitude) : Except Error (Option Float) := do
  if a.columnCount ≠ b.columnCount then throw .shapes
  let adjoint : Dense Amplitude := Dense.transpose (a.map fun row => row.map Amplitude.conj)
  let m := b.mul adjoint
  let some x := m.head?.bind List.head? | throw .empty
  if m.length ≠ a.length && m.length ≠ 1 && a.length ≠ 1 then throw .shapes
  return if isScalar m a.length x then some (x.arg / pi) else none

/-- A phase less whole turns. What is a whole turn up to rounding is none. -/
def reduce (x : Float) : Float :=
  let r := 2 * (x / 2 - (x / 2).floor)
  if r > 2 - 1e-10 then 0 else r

abbrev Form := List Bool

def forms : Nat → List Form
  | 0 => [[]]
  | n + 1 => [false, true].flatMap fun b => (forms n).map (b :: ·)

def gates : List (Dense Amplitude) :=
  let s : Dense Amplitude := [[1, 0], [0, Amplitude.i]]
  [[[1, 0], [0, -1]], [[0, 1], [1, 0]], s, Unitary.rx (0.5 : Float), s]

def Form.matrix (f : Form) : Dense Amplitude :=
  (f.zip gates).foldl (fun m (isThere, g) => if isThere then g.mul m else m) (Dense.identity 2)

def decompose (u : Dense Amplitude) : Except Error (Form × Float) := do
  let found ← (forms 5).filterMapM fun f => do
    return (← phase? f.matrix u).map fun p => (f, Decimal.roundPlaces 3 p)
  let size (f : Form) := f.count true
  match found with
  | [] => throw .form
  | first :: rest => return rest.foldl (fun best m => if size m.1 < size best.1 then m else best) first

def rotation (i j k : Nat) : Dense Amplitude :=
  Unitary.tk1 (i.toFloat / 2) (j.toFloat / 2) (k.toFloat / 2)

/-- The forms of the rotations that end with the given number of quarter turns. -/
def row (i : Int) : Except Error (List (List (Form × Float))) :=
  if 0 ≤ i && i < 4 then
    (List.range 4).mapM fun j => (List.range 4).mapM fun k => decompose (rotation i.toNat j k)
  else .error (.row i)

def phaseJson (x : Float) : Json := .ofFloat (reduce x)

def entryJson (e : Form × Float) : Json := .arr [.ofBits e.1, phaseJson e.2]

def rowJson (row : List (List (Form × Float))) : Json := .arr (row.map fun es => .arr (es.map entryJson))

end CircuitWorks.Clifford
