import CircuitWorks.Literal.Reader
import CircuitWorks.Problem

/-!
Fingerprints of literals: equal values have equal fingerprints, whatever their types.
Handles: the identifiers of a circuit that was sent away to be run, which can be kept as a text.
-/

namespace CircuitWorks

namespace Literal

inductive Fingerprint where
  | number (n : Int)
  | bytes (bs : List Nat)
  deriving DecidableEq, Repr

def primeBits : Nat := 61

def prime : Nat := Nat.pow 2 primeBits - 1

def residue (negative : Bool) (n : Nat) : Int :=
  let r : Int := if negative then -(n % prime : Nat) else (n % prime : Nat)
  if r = -1 then -2 else r

/-- Halving is multiplication by a power of two, since `2 ^ 61` has residue 1. -/
def floatResidue (x : Float) : Int :=
  match Binary.ofFloat x with
  | .undefined => 0
  | .infinite negative => if negative then -314159 else 314159
  | .finite b => residue b.negative (b.mantissa * Nat.pow 2 (b.exponent.emod primeBits).toNat)

def complexResidue (z : Amplitude) : Int :=
  let r := Int.bmod (floatResidue z.re + 1000003 * floatResidue z.im) (Nat.pow 2 64)
  if r = -1 then -2 else r

def codeBytes (width n : Nat) : List Nat := (List.range width).map fun i => n / Nat.pow 256 i % 256

def textBytes (s : String) : List Nat :=
  let codes := s.toList.map Char.toNat
  let top := codes.foldl max 0
  codes.flatMap (codeBytes (if top < 0x100 then 1 else if top < 0x10000 then 2 else 4))

def bytesPrint : List Nat → Fingerprint
  | [] => .number 0
  | bs => .bytes bs

def fingerprint : Literal → Fingerprint
  | .bool b => .number (if b then 1 else 0)
  | .int n => .number (residue (n < 0) n.natAbs)
  | .float x => .number (floatResidue x)
  | .complex z => .number (complexResidue z)
  | .str s => bytesPrint (textBytes s)
  | .bytes bs => bytesPrint (bs.map UInt8.toNat)
  | _ => .number 0

end Literal

structure Handle where
  items : List Literal

namespace Handle

inductive Error where
  | expression | format | index | absent
  deriving DecidableEq, Repr

def Error.message? : Error → Option String
  | .format => some "ResultHandle string format invalid."
  | _ => none

instance : HasProblem Error where
  problem
    | .expression => { fault := .expression }
    | .index => { fault := .index }
    | e => { fault := .value, message := e.message? }

def isSimple : Literal → Bool
  | .bool _ | .int _ | .float _ | .complex _ | .str _ | .bytes _ => true
  | _ => false

def text (h : Handle) : String := (Literal.tuple h.items).text

def label (h : Handle) : String := "ResultHandle" ++ h.text

def ofText (s : String) : Except Error Handle :=
  match Literal.read s.toList with
  | .ok (.tuple items) => if items.all isSimple then .ok ⟨items⟩ else .error .format
  | .ok _ => .error .format
  | .error .notLiteral => .error .format
  | .error .syntactic => .error .expression

def size (h : Handle) : Nat := h.items.length

def item (h : Handle) (i : Int) : Except Error Literal :=
  let place := if i < 0 then i + h.size else i
  match place with
  | .ofNat n => (h.items[n]?).elim (.error .index) .ok
  | .negSucc _ => .error .index

def bound (h : Handle) (i : Int) : Nat := (if i < 0 then i + h.size else i).toNat

def slice (h : Handle) (first last : Option Int) : List Literal :=
  (h.items.take ((last.map h.bound).getD h.size)).drop ((first.map h.bound).getD 0)

def same (a b : Handle) : Bool :=
  a.size = b.size && (a.items.zip b.items).all fun (x, y) => x.same y

def sameFingerprint (a b : Handle) : Bool :=
  a.items.map Literal.fingerprint = b.items.map Literal.fingerprint

def has (h : Handle) (v : Literal) : Bool := h.items.any v.same

def indexOf (h : Handle) (v : Literal) : Except Error Nat :=
  (h.items.findIdx? v.same).elim (.error .absent) .ok

def countOf (h : Handle) (v : Literal) : Nat := h.items.countP v.same

end Handle

inductive Phase where
  | completed | queued | submitted | running | cancelled | errored
  deriving DecidableEq, Repr

namespace Phase

def all : List Phase := [completed, queued, submitted, running, cancelled, errored]

def name : Phase → String
  | completed => "COMPLETED"
  | queued => "QUEUED"
  | submitted => "SUBMITTED"
  | running => "RUNNING"
  | cancelled => "CANCELLED"
  | errored => "ERROR"

def description : Phase → String
  | completed => "Circuit has completed. Results are ready."
  | queued => "Circuit is queued."
  | submitted => "Circuit has been submitted."
  | running => "Circuit is running."
  | cancelled => "Circuit has been cancelled."
  | errored => "Circuit has errored. Check CircuitStatus.message for error message."

def isWaiting : Phase → Bool
  | queued | submitted | running => true
  | _ => false

end Phase

structure Status where
  phase : Phase
  message : Json

namespace Status

inductive Error where
  | format (value : Json)

def Error.message : Error → String
  | .format value => "Dictionary invalid format for CircuitStatus: " ++ (Literal.ofJson value).text

instance : HasProblem Error := ⟨fun e => { fault := .value, message := some e.message }⟩

def ofJson (j : Json) : Except Error Status :=
  match j.get? "message", j.get? "status" with
  | some message, some (.str name) =>
    match Phase.all.find? (·.name == name) with
    | some phase => .ok ⟨phase, message⟩
    | none => .error (.format j)
  | _, _ => .error (.format j)

def toJson (s : Status) : Json := .obj [("status", .str s.phase.name), ("message", s.message)]

end Status

end CircuitWorks
