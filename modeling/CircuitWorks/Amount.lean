import CircuitWorks.Amplitude
import CircuitWorks.Json.Basic

/-!
Laurent polynomials in named indeterminates, and the amounts made of them: gate parameters, global phases
and operator coefficients.
-/

namespace CircuitWorks

/-- A symbol, or the conjugate of one. -/
structure Indeterminate where
  name : String
  conjugate : Bool := false
  deriving DecidableEq, Repr

namespace Indeterminate

def pi : Indeterminate := ⟨"pi", false⟩

def compare (a b : Indeterminate) : Ordering :=
  (Ord.compare a.name b.name).then (Ord.compare a.conjugate b.conjugate)

def conj (x : Indeterminate) : Indeterminate := if x = pi then x else ⟨x.name, !x.conjugate⟩

end Indeterminate

/-- A product of powers, by ascending indeterminates, no exponent being 0. -/
abbrev Monomial := List (Indeterminate × Int)

namespace Monomial

def mulPower (x : Indeterminate) (n : Int) : Monomial → Monomial
  | [] => if n = 0 then [] else [(x, n)]
  | (y, m) :: rest =>
    match x.compare y with
    | .lt => if n = 0 then (y, m) :: rest else (x, n) :: (y, m) :: rest
    | .eq => if n + m = 0 then rest else (x, n + m) :: rest
    | .gt => (y, m) :: mulPower x n rest

def mul (a b : Monomial) : Monomial := a.foldl (fun acc (x, n) => mulPower x n acc) b

def inverse (a : Monomial) : Monomial := a.map fun (x, n) => (x, -n)

def conj (a : Monomial) : Monomial := a.foldl (fun acc (x, n) => mulPower x.conj n acc) []

def symbols (a : Monomial) : List String :=
  (a.filter fun (x, _) => x ≠ Indeterminate.pi).map fun (x, _) => x.name

end Monomial

structure Polynomial (κ : Type) where
  terms : List (Monomial × κ)
  deriving BEq, Inhabited

namespace Polynomial

variable {κ : Type}

def symbols (a : Polynomial κ) : List String :=
  ((a.terms.flatMap fun (m, _) => m.symbols).eraseDups).mergeSort fun x y => x ≤ y

def isNumber (a : Polynomial κ) : Bool := a.symbols.isEmpty

/-- A constant; zero is kept, so that it keeps its sign. -/
def const (c : κ) : Polynomial κ := ⟨[([], c)]⟩

def mapCoefficients {μ : Type} (f : κ → μ) (a : Polynomial κ) : Polynomial μ :=
  ⟨a.terms.map fun (m, c) => (m, f c)⟩

section

variable [Zero κ] [One κ] [Add κ] [Mul κ] [Neg κ] [BEq κ]

def symbol (name : String) : Polynomial κ := ⟨[([(⟨name, false⟩, 1)], 1)]⟩
def pi : Polynomial κ := ⟨[([(Indeterminate.pi, 1)], 1)]⟩

def addTerm (m : Monomial) (c : κ) : List (Monomial × κ) → List (Monomial × κ)
  | [] => if c == 0 then [] else [(m, c)]
  | (n, d) :: rest =>
    if m = n then (if c + d == 0 then rest else (n, c + d) :: rest) else (n, d) :: addTerm m c rest

def isZero (a : Polynomial κ) : Bool := a.terms.all fun (_, c) => c == 0

def add (a b : Polynomial κ) : Polynomial κ :=
  if b.isZero then a
  else if a.isZero then b
  else ⟨b.terms.foldl (fun acc (m, c) => addTerm m c acc) a.terms⟩

def neg (a : Polynomial κ) : Polynomial κ := a.mapCoefficients (- ·)

def mul (a b : Polynomial κ) : Polynomial κ :=
  ⟨a.terms.foldl (fun acc (m, c) =>
    b.terms.foldl (fun acc (n, d) => addTerm (m.mul n) (c * d) acc) acc) []⟩

def scale (c : κ) (a : Polynomial κ) : Polynomial κ := mul (const c) a

instance : Zero (Polynomial κ) := ⟨⟨[]⟩⟩
instance : One (Polynomial κ) := ⟨const 1⟩
instance : Add (Polynomial κ) := ⟨add⟩
instance : Mul (Polynomial κ) := ⟨mul⟩
instance : Neg (Polynomial κ) := ⟨neg⟩
instance : Sub (Polynomial κ) := ⟨fun a b => a + -b⟩

def inverse? [Div κ] (a : Polynomial κ) : Option (Polynomial κ) :=
  match a.terms with
  | [(m, c)] => some ⟨[(m.inverse, 1 / c)]⟩
  | _ => none

def power (a : Polynomial κ) (n : Nat) : Polynomial κ := (List.replicate n a).foldl (· * ·) 1

end

end Polynomial

abbrev Amount := Polynomial Amplitude

namespace Amount

def ofAmplitude (c : Amplitude) : Amount := .const c
def ofFloat (x : Float) : Amount := ofAmplitude ⟨x, 0⟩
def ofInt (n : Int) : Amount := ofFloat (Float.ofInt n)
def symbol (name : String) : Amount := Polynomial.symbol name
def pi : Amount := Polynomial.pi

instance : Coe Float Amount := ⟨ofFloat⟩
instance : ImaginaryUnit Amount := ⟨ofAmplitude Amplitude.i⟩

def conj (a : Amount) : Amount :=
  ⟨a.terms.foldl (fun acc (m, c) => Polynomial.addTerm m.conj c.conj acc) []⟩

def re (a : Amount) : Amount := Polynomial.scale ⟨0.5, 0⟩ (a + conj a)

def im (a : Amount) : Amount := Polynomial.scale ⟨0, -0.5⟩ (a - conj a)

def same (a b : Amount) : Bool := (a - b).isZero

def floatPower (x : Float) (n : Int) : Float :=
  let size := (List.replicate n.natAbs x).foldl (· * ·) 1
  if n < 0 then 1 / size else size

def termValue (m : Monomial) (c : Amplitude) : Amplitude :=
  m.foldl (fun acc (_, n) => acc.scale (floatPower CircuitWorks.pi n)) c

def value? (a : Amount) : Option Amplitude :=
  if a.isNumber then
    match a.terms with
    | [(m, c)] => some (termValue m c)
    | terms => some (terms.foldl (fun acc (m, c) => acc + termValue m c) 0)
  else none

def real? (a : Amount) : Option Float :=
  (value? a).bind fun z => if z.im == 0 then some z.re else none

def substitute (name : String) (value : Amount) (a : Amount) : Amount :=
  let power (base : Amount) (n : Int) : Amount :=
    let size := base.power n.natAbs
    if n < 0 then size.inverse?.getD 0 else size
  let factor (x : Indeterminate) (n : Int) : Amount :=
    if x.name ≠ name then ⟨[(Monomial.mulPower x n [], 1)]⟩
    else power (if x.conjugate then conj value else value) n
  a.terms.foldl (fun acc (m, c) =>
    acc + m.foldl (fun prod (x, n) => prod * factor x n) (ofAmplitude c)) 0

def placeholder (a : Amount) : Amplitude :=
  (value? (a.symbols.foldl (fun b name => substitute name 1 b) a)).getD 0

def ratio? (x : Float) : Option (Int × Nat) :=
  (List.range 64).findSome? fun k =>
    let scaled := x * (k + 1).toFloat
    if scaled == scaled.round && scaled.abs < 1e15 then
      (Decimal.nearestInt? scaled).map fun n => (n, k + 1)
    else none

def powerText (name : String) (n : Nat) : String :=
  if n = 1 then name else name ++ "**" ++ toString n

def termText (m : Monomial) (size : Float) : String :=
  let above := (m.filter fun (_, n) => 0 < n).map fun (x, n) => powerText x.name n.natAbs
  let below := (m.filter fun (_, n) => n < 0).map fun (x, n) => powerText x.name n.natAbs
  let (above, below) :=
    match ratio? size with
    | some (n, d) =>
      ((if n = 1 && !above.isEmpty then [] else [toString n]) ++ above,
       (if d = 1 then [] else [toString d]) ++ below)
    | none => (Decimal.full size :: above, below)
  let bottom :=
    match below with
    | [] => ""
    | [x] => "/" ++ x
    | xs => "/(" ++ "*".intercalate xs ++ ")"
  "*".intercalate above ++ bottom

/-- The terms of a sum as text, the constant last; a constant is written as a decimal. -/
def termTexts (a : Amount) : List (Bool × String) :=
  let (constants, others) := a.terms.partition fun (m, _) => m.isEmpty
  others.map (fun (m, c) => (c.re < 0, termText m c.re.abs)) ++
    constants.map fun (_, c) => (c.re < 0, Decimal.full c.re.abs)

def text (a : Amount) : String :=
  match real? a with
  | some x => Decimal.full x
  | none =>
    match termTexts a with
    | [] => "0"
    | (negative, first) :: rest =>
      rest.foldl (fun acc (negative, part) => acc ++ (if negative then " - " else " + ") ++ part)
        (Decimal.signed negative first)

end Amount

def Amplitude.ofJson (j : Json) : Amplitude :=
  match j.get? "c" with
  | some (.arr [re, im]) => ⟨re.decimal, im.decimal⟩
  | _ => ⟨j.decimal, 0⟩

def Amplitude.toJson (z : Amplitude) : Json := .arr [.ofFloat z.re, .ofFloat z.im]

def Amplitude.rowJson (v : List Amplitude) : Json := .arr (v.map toJson)

def Amplitude.matrixJson (m : Dense Amplitude) : Json := .arr (m.map rowJson)

namespace Amount

def ofJson (j : Json) : Amount :=
  match j with
  | .str name => Amount.symbol name
  | j => Amount.ofAmplitude (Amplitude.ofJson j)

def toJson (a : Amount) : Json :=
  match Amount.value? a with
  | some z => if z.im == 0 then .ofFloat z.re else z.toJson
  | none => .str ("sym:" ++ Amount.text a)

end Amount

end CircuitWorks
