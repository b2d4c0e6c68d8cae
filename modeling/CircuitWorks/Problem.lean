/-!
Files, and problems: the failures of all parts of the library as a caller sees them.
-/

namespace CircuitWorks

abbrev Files := List (String × String)

namespace Files

def read? (path : String) (files : Files) : Option String := files.lookup path

def write (path content : String) : Files → Files
  | [] => [(path, content)]
  | (p, old) :: rest =>
    if p = path then (path, content) :: rest else (p, old) :: write path content rest

end Files

inductive Fault where
  | value | key | index | type | operation | unsupported
  /-- A condition that was taken for granted. -/
  | assumption | part | overflow | division | exhausted
  /-- Nesting without end. -/
  | endless | expression | grammar | formula | program | unwritable | file | notJson | encoding
  | result | invalidCircuit | notRun | package | module | state | cyclic | usage | computation
  | axis | request
  deriving DecidableEq, Repr

/-- A failure: its sort, a message, and the number of the command at which it arose. -/
structure Problem where
  fault : Fault
  message : Option String := none
  place : Option Nat := none
  deriving DecidableEq, Repr

class HasProblem (ε : Type) where
  problem : ε → Problem

instance : HasProblem Problem := ⟨id⟩

def exposed {ε α : Type} [HasProblem ε] : Except ε α → Except Problem α
  | .ok a => .ok a
  | .error e => .error (HasProblem.problem e)

def failed {α : Type} (fault : Fault) : Except Problem α := .error { fault }

end CircuitWorks
