import CircuitWorks.Json.Basic
import CircuitWorks.Problem
import CircuitWorks.Tensor

/-!
Counters: a number for each of finitely many keys, in the order in which the keys came. Outcome tables: the
results of measuring some bits again and again, one row of packed bits per run.
-/

namespace CircuitWorks

abbrev Counter (κ : Type) := List (κ × Int)

namespace Counter

variable {κ : Type} [DecidableEq κ]

def get : Counter κ → κ → Int
  | [], _ => 0
  | (k, n) :: rest, key => if k = key then n else get rest key

def set : Counter κ → κ → Int → Counter κ
  | [], key, n => [(key, n)]
  | (k, m) :: rest, key, n => if k = key then (key, n) :: rest else (k, m) :: set rest key n

def bump (c : Counter κ) (key : κ) (n : Int) : Counter κ := c.set key (c.get key + n)

def ofEntries (entries : List (κ × Int)) : Counter κ :=
  entries.foldl (fun c (k, n) => c.set k n) []

def keys (c : Counter κ) : List κ := c.map (·.1)

def addUp : List Int → Int
  | [] => 0
  | n :: rest => n + addUp rest

def total (c : Counter κ) : Int := addUp (c.map (·.2))

/-- The sum of two counters, of which only the positive numbers stay. -/
def merge (a b : Counter κ) : Counter κ :=
  (b.foldl (fun c (k, n) => c.bump k n) a).filter fun (_, n) => 0 < n

def mergeAll : List (Counter κ) → Option (Counter κ)
  | [] => none
  | c :: rest => some (rest.foldl merge c)

def same (a b : Counter κ) : Bool :=
  (a.keys ++ b.keys).all fun k => a.get k == b.get k

def tally (le : κ → κ → Bool) (items : List κ) : Counter κ :=
  (items.mergeSort le).eraseDups.map fun k => (k, (items.count k : Int))

end Counter

def lexLe : List Int → List Int → Bool
  | [], _ => true
  | _ :: _, [] => false
  | a :: as, b :: bs => if a = b then lexLe as bs else a < b

namespace Outcome

def byteOf (digit : Nat → Bool) : UInt8 :=
  UInt8.ofNat ((List.range 8).foldl (fun v j => 2 * v + (digit j).toNat) 0)

def digitOf (b : UInt8) (j : Nat) : Bool := b.toNat.testBit (7 - j)

def byteCount (bits : Nat) : Nat := (bits + 7) / 8

def pack (bits : List Bool) : List UInt8 :=
  (List.range (byteCount bits.length)).map fun k => byteOf fun j => bits.getD (8 * k + j) false

def unpack (bytes : List UInt8) : List Bool :=
  bytes.flatMap fun b => (List.range 8).map (digitOf b)

/-- The bytes as one word, the first in the highest place; those before the last eight are lost. -/
def wordOf (bytes : List UInt8) : BitVec 64 :=
  bytes.foldl (fun w b => (w <<< 8) ||| BitVec.ofNat 64 b.toNat) 0#64

end Outcome

structure Outcomes where
  width : Nat
  bytes : Nat
  rows : List (List UInt8)
  deriving DecidableEq, Repr

namespace Outcomes

open Outcome

inductive Error where
  | shape | ragged
  | width (given capacity : Nat)
  | byte | field
  | several (count : Nat)
  | noRow | noNumbers | column
  deriving DecidableEq, Repr

def Error.message? : Error → Option String
  | .shape => some "OutcomeArray must be a two dimensional array of dtype uint8."
  | .width given capacity =>
    some ("Width " ++ toString given ++ " is larger than maxium bitlength of array: " ++
      toString capacity ++ ".")
  | .several count => some ("Not a singleton: " ++ toString count ++ " readouts")
  | _ => none

instance : HasProblem Error where
  problem
    | .byte => { fault := .overflow }
    | .field => { fault := .key }
    | .noRow | .column => { fault := .index }
    | e => { fault := .value, message := e.message? }

def ofTable (width : Nat) (table : List (List Bool)) : Outcomes :=
  ⟨width, byteCount width, table.map pack⟩

def ofReadouts (t : Tensor Int) : Except Error Outcomes :=
  match t.shape, t.rows? with
  | [_, width], some rows => .ok (ofTable width (rows.map fun row => row.map (· ≠ 0)))
  | _, _ => .error .shape

def ofBytes (t : Tensor UInt8) (width : Nat) : Except Error Outcomes :=
  match t.shape, t.rows? with
  | [_, bytes], some rows =>
    if 8 * bytes < width then .error (.width width (8 * bytes)) else .ok ⟨width, bytes, rows⟩
  | _, _ => .error .shape

/-- The digits of a number, the highest first. The sign of a negative number leaves a digit in front
that counts as set. -/
def digits (v : Int) : List Bool :=
  let magnitude := (Nat.toDigits 2 v.natAbs).map (· == '1')
  if v < 0 then true :: magnitude else magnitude

def padded (width : Nat) (v : Int) : List Bool :=
  let ds := digits v
  List.replicate (width - ds.length) false ++ ds

def cutRows (width : Nat) : Nat → List Bool → List (List Bool)
  | 0, _ => []
  | n + 1, bits => bits.take width :: cutRows width n (bits.drop width)

/-- The outcomes that are given as numbers. The digits of all numbers stand one after the other and
are cut into rows, so that a number with too many digits moves those that follow. -/
def ofNumbers (numbers : List Int) (width : Nat) (highestFirst : Bool) : Outcomes :=
  let digits := numbers.flatMap fun v =>
    if highestFirst then padded width v else (padded width v).reverse
  ofTable width (cutRows width numbers.length digits)

def count (a : Outcomes) : Nat := a.rows.length

def readouts (a : Outcomes) : List (List Bool) := a.rows.map fun row => (unpack row).take a.width

def readout (a : Outcomes) : Except Error (List Bool) :=
  match a.readouts with
  | [] => .error .noRow
  | [row] => .ok row
  | rows => .error (.several rows.length)

/-- The bits of a packed row as a signed word, the first in the highest place. What does not fit into
64 bits is lost in front, and the top bit is the sign. -/
def rowNumber (width : Nat) (row : List UInt8) : Int :=
  ((wordOf row).sshiftRight (8 * row.length - width)).toInt

def numbers (a : Outcomes) (highestFirst : Bool) : Except Error (List Int) :=
  if a.rows.isEmpty then .error .noNumbers
  else if highestFirst then .ok (a.rows.map (rowNumber a.width))
  else .ok (a.readouts.map fun row => rowNumber row.length (pack row.reverse))

def place? (width : Nat) (i : Int) : Option Nat :=
  if 0 ≤ i ∧ i < width then some i.toNat
  else if i < 0 ∧ 0 ≤ width + i then some (width + i).toNat
  else none

def choose (a : Outcomes) (columns : List Int) : Except Error Outcomes :=
  match columns.mapM (place? a.width) with
  | some places =>
    .ok (ofTable places.length (a.readouts.map fun row => places.map fun i => row.getD i false))
  | none => .error .column

def rowLe : List UInt8 → List UInt8 → Bool
  | [], _ => true
  | _ :: _, [] => false
  | a :: as, b :: bs => if a = b then rowLe as bs else a < b

def counts (a : Outcomes) : Counter Outcomes :=
  (Counter.tally rowLe a.rows).map fun (row, n) => (⟨a.width, a.bytes, [row]⟩, n)

def readoutCounts (c : Counter Outcomes) : Except Error (Counter (List Bool)) := do
  return Counter.ofEntries (← c.mapM fun (a, n) => do return (← a.readout, n))

def hashKey (a : Outcomes) : List UInt8 × Nat := (a.rows.flatten, a.width)

def toJson (a : Outcomes) : Json :=
  .obj [("width", .int (a.width : Nat)),
    ("array", .arr (a.rows.map fun row => .arr (row.map fun b => .int (b.toNat : Nat))))]

end Outcomes

end CircuitWorks
