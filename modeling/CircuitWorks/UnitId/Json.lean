import CircuitWorks.Json.Basic
import CircuitWorks.Problem
import CircuitWorks.UnitId

/-!
Unit ids as JSON. Stored, a unit is a pair of the register name and the list of indices.
-/

namespace CircuitWorks

namespace UnitId

def toJson (u : UnitId) : Json := .arr [.str u.register, .arr (u.index.map fun i => .int (i : Nat))]

def indexOf? : Json → Option Nat
  | .int n => if 0 ≤ n then some n.toNat else none
  | _ => none

def ofJson? : Json → Option UnitId
  | .arr [.str register, .arr index] => do return ⟨register, ← index.mapM indexOf?⟩
  | _ => none

def readIndex (j : Json) : Except Problem Nat :=
  match indexOf? j with
  | some n => .ok n
  | none => failed .type

def read (register : String) : Json → Except Problem UnitId
  | .str name => .ok ⟨name, []⟩
  | .arr (.str name :: index) => do return ⟨name, ← index.mapM readIndex⟩
  | j => do return ⟨register, [← readIndex j]⟩

def readQubit : Json → Except Problem UnitId := read "q"
def readBit : Json → Except Problem UnitId := read "c"
def readNode : Json → Except Problem UnitId := read "node"

def textJson (u : UnitId) : Json := .str u.text

end UnitId

def Register.read : Json → Except Problem Register
  | .arr [.str name, .int size] => if size < 0 then failed .type else .ok ⟨name, size.toNat⟩
  | _ => failed .type

end CircuitWorks
