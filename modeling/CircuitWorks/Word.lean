import CircuitWorks.Problem

/-!
Words of bits: their reversal, the cyclic list in which neighbouring words differ in one place, and
the spreading of a word over the places that a mask leaves free.
-/

namespace CircuitWorks.Word

def grayCode : Nat → List (List Bool)
  | 0 => []
  | 1 => [[false], [true]]
  | n + 2 =>
    (grayCode (n + 1)).map (· ++ [false]) ++ (grayCode (n + 1)).reverse.map (· ++ [true])

def reverseLow {w : Nat} (v : BitVec w) : Nat → BitVec w
  | 0 => 0
  | width + 1 => ((v &&& 1#w) <<< width) ||| reverseLow (v >>> 1) width

inductive Error where
  | noPlaceLeft
  deriving DecidableEq, Repr

def Error.message : Error → String
  | .noPlaceLeft => "Ran out of bits"

instance : HasProblem Error := ⟨fun e => { fault := .computation, message := some e.message }⟩

/-- Masks of bits, each with the number of places by which they are moved up. -/
abbrev Expansion (w : Nat) := List (BitVec w × Nat)

/-- The least number of places, from `shift` on, by which `bit` is moved to a free place. -/
def freeShift {w : Nat} (bit taken : BitVec w) : Nat → Nat → Option Nat
  | 0, _ => none
  | tries + 1, shift =>
    let place := bit <<< shift
    if place = 0#w then none
    else if place &&& taken = 0#w then some shift
    else freeShift bit taken tries (shift + 1)

/-- Adds a bit to the last mask if both are moved by the same number of places. -/
def Expansion.push {w : Nat} (e : Expansion w) (bit : BitVec w) (shift : Nat) : Expansion w :=
  match e.getLast? with
  | some (mask, s) => if s = shift then e.dropLast ++ [(mask ||| bit, s)] else e ++ [(bit, shift)]
  | none => [(bit, shift)]

/-- Finds places for `count` bits, from `bit` on. -/
def Expansion.extend {w : Nat} (e : Expansion w) (taken bit : BitVec w) :
    Nat → Except Error (Expansion w)
  | 0 => .ok e
  | count + 1 =>
    match freeShift bit taken (w + 1) 0 with
    | none => .error .noPlaceLeft
    | some shift => (e.push bit shift).extend (taken ||| bit <<< shift) (bit <<< 1) count

/-- The moves that bring the lowest `count` bits, in order, to the lowest places that are not
forbidden. -/
def Expansion.ofForbidden {w : Nat} (forbidden : BitVec w) (count : Nat) :
    Except Error (Expansion w) :=
  Expansion.extend [] forbidden 1#w count

def Expansion.apply {w : Nat} (e : Expansion w) (bits : BitVec w) : BitVec w :=
  e.foldl (fun out (mask, shift) => out ||| ((bits &&& mask) <<< shift)) 0#w

end CircuitWorks.Word
