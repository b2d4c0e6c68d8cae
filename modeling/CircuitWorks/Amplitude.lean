/-! Matrices as lists of rows, over any type of numbers, and complex numbers with double components. -/

namespace CircuitWorks

abbrev Dense (κ : Type) := List (List κ)

class ImaginaryUnit (κ : Type) where
  i : κ

namespace Dense

variable {κ : Type} [Zero κ] [One κ] [Add κ] [Mul κ]

def identity (n : Nat) : Dense κ :=
  (List.range n).map fun r => (List.range n).map fun c => if r = c then 1 else 0

def scale (c : κ) (a : Dense κ) : Dense κ := a.map fun row => row.map (c * ·)

def add (a b : Dense κ) : Dense κ := List.zipWith (List.zipWith (· + ·)) a b

def sum (xs : List κ) : κ := xs.foldl (· + ·) 0

def dot (u v : List κ) : κ := sum (List.zipWith (· * ·) u v)

def mulVec (a : Dense κ) (v : List κ) : List κ := a.map fun row => dot row v

def column (a : Dense κ) (c : Nat) : List κ := a.map fun row => row.getD c 0

def columnCount (a : Dense κ) : Nat := (a.head?.map List.length).getD 0

def transpose (a : Dense κ) : Dense κ := (List.range a.columnCount).map a.column

def mul (a b : Dense κ) : Dense κ := a.map fun row => b.transpose.map (dot row)

/-- The Kronecker product: the first factor gives the leading digits of the places. -/
def kron (a b : Dense κ) : Dense κ :=
  a.flatMap fun r => b.map fun s => r.flatMap fun x => s.map (x * ·)

end Dense

structure Amplitude where
  re : Float
  im : Float
  deriving BEq, Repr, Inhabited

namespace Amplitude

def zero : Amplitude := ⟨0, 0⟩
def one : Amplitude := ⟨1, 0⟩
def i : Amplitude := ⟨0, 1⟩
def ofReal (x : Float) : Amplitude := ⟨x, 0⟩

instance : Zero Amplitude := ⟨zero⟩
instance : One Amplitude := ⟨one⟩
instance : Add Amplitude := ⟨fun a b => ⟨a.re + b.re, a.im + b.im⟩⟩
instance : Sub Amplitude := ⟨fun a b => ⟨a.re - b.re, a.im - b.im⟩⟩
instance : Neg Amplitude := ⟨fun a => ⟨-a.re, -a.im⟩⟩
instance : Mul Amplitude :=
  ⟨fun a b => ⟨a.re * b.re - a.im * b.im, a.re * b.im + a.im * b.re⟩⟩

instance : ImaginaryUnit Amplitude := ⟨i⟩

def scale (x : Float) (a : Amplitude) : Amplitude := ⟨x * a.re, x * a.im⟩
def conj (a : Amplitude) : Amplitude := ⟨a.re, -a.im⟩
def normSq (a : Amplitude) : Float := a.re * a.re + a.im * a.im
def abs (a : Amplitude) : Float := a.normSq.sqrt

instance : Div Amplitude := ⟨fun a b => scale (1 / b.normSq) (a * b.conj)⟩

def arg (a : Amplitude) : Float := Float.atan2 a.im a.re

def unit (angle : Float) : Amplitude := ⟨angle.cos, angle.sin⟩

def sqrt (a : Amplitude) : Amplitude := scale a.abs.sqrt (unit (a.arg / 2))

end Amplitude

def pi : Float := 3.141592653589793

end CircuitWorks
