/-!
Tensors, their entries row by row, and the binary digits of places, the leading digit being digit 0.
-/

namespace CircuitWorks.Digits

def digitAt (n k i : Nat) : Nat := i / Nat.pow 2 (n - 1 - k) % 2

def readAt (n : Nat) (digits : List Nat) (i : Nat) : Nat :=
  digits.foldl (fun r k => 2 * r + digitAt n k i) 0

def setDigit (n k i bit : Nat) : Nat :=
  i - digitAt n k i * Nat.pow 2 (n - 1 - k) + bit * Nat.pow 2 (n - 1 - k)

def writeAt (n : Nat) (digits : List Nat) (i c : Nat) : Nat :=
  digits.zipIdx.foldl (fun j (k, p) => setDigit n k j (digitAt digits.length p c)) i

end CircuitWorks.Digits

namespace CircuitWorks

structure Tensor (α : Type) where
  shape : List Nat
  entries : List α
  deriving DecidableEq, BEq, Repr

inductive Nested (α : Type) where
  | leaf (value : α)
  | node (items : List (Nested α))

namespace Tensor

variable {α β : Type}

def volume (shape : List Nat) : Nat := shape.foldl (· * ·) 1

def ofList (xs : List α) : Tensor α := ⟨[xs.length], xs⟩

def map (f : α → β) (t : Tensor α) : Tensor β := ⟨t.shape, t.entries.map f⟩

def part (size k : Nat) (xs : List α) : List α := (xs.drop (k * size)).take size

def slices (t : Tensor α) : List (Tensor α) :=
  match t.shape with
  | [] => []
  | n :: rest => (List.range n).map fun k => ⟨rest, part (volume rest) k t.entries⟩

def stack? : List (Tensor α) → Option (Tensor α)
  | [] => some ⟨[0], []⟩
  | t :: rest =>
    if rest.all fun u => u.shape = t.shape then
      some ⟨(rest.length + 1) :: t.shape, t.entries ++ rest.flatMap Tensor.entries⟩
    else none

def rows? (t : Tensor α) : Option (List (List α)) :=
  match t.shape with
  | [_, _] => some (t.slices.map Tensor.entries)
  | _ => none

def ofRows (width : Nat) (rows : List (List α)) : Tensor α := ⟨[rows.length, width], rows.flatten⟩

def nest : List Nat → List α → Nested α
  | [], xs => match xs with
    | x :: _ => .leaf x
    | [] => .node []
  | n :: rest, xs => .node ((List.range n).map fun k => nest rest (part (volume rest) k xs))

def nested (t : Tensor α) : Nested α := nest t.shape t.entries

def pick (t : Tensor α) (places : List Nat) : Option (Tensor α) :=
  match t.shape with
  | [] => none
  | _ :: rest => do
    let parts ← places.mapM fun k => t.slices[k]?
    return ⟨places.length :: rest, parts.flatMap Tensor.entries⟩

def pickColumns (t : Tensor α) (places : List Nat) : Option (Tensor α) := do
  match t.shape with
  | n :: _ :: rest =>
    let parts ← t.slices.mapM fun s => s.pick places
    return ⟨n :: places.length :: rest, parts.flatMap Tensor.entries⟩
  | _ => none

/-- Entry `i` along a dimension of the array from which one of size 1 is repeated. -/
def stretchTo : List Nat → List Nat → List α → Option (List α)
  | [], [], xs => some xs
  | m :: target, n :: shape, xs => do
    let parts := (List.range n).map fun k => part (volume shape) k xs
    let parts ← parts.mapM (stretchTo target shape)
    if n = m then return parts.flatten
    else if n = 1 then return (List.replicate m parts.flatten).flatten
    else none
  | _, _, _ => none

/-- The array repeated along dimensions that are missing in front or have size 1, so that it gets a
given shape. -/
def broadcast (t : Tensor α) (target : List Nat) : Option (Tensor α) :=
  if t.shape.length ≤ target.length then
    let shape := List.replicate (target.length - t.shape.length) 1 ++ t.shape
    (stretchTo target shape t.entries).map fun xs => ⟨target, xs⟩
  else none

end Tensor

mutual

def Nested.tensor? {α : Type} : Nested α → Option (Tensor α)
  | .leaf a => some ⟨[], [a]⟩
  | .node items => (Nested.tensors? items).bind Tensor.stack?

def Nested.tensors? {α : Type} : List (Nested α) → Option (List (Tensor α))
  | [] => some []
  | n :: rest => do
    let t ← Nested.tensor? n
    let ts ← Nested.tensors? rest
    return t :: ts

end

end CircuitWorks
