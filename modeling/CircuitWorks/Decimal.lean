/-!
Doubles as exact binary fractions, and decimal numbers `digits · 10 ^ exponent`: rounding to a number of
digits or places, the fewest digits that name a double, and the styles in which they are written.
-/

namespace CircuitWorks

structure Binary where
  negative : Bool
  mantissa : Nat
  exponent : Int
  deriving DecidableEq, Repr

inductive Magnitude where
  | undefined
  | infinite (negative : Bool)
  | finite (value : Binary)
  deriving DecidableEq, Repr

namespace Binary

/-- The least exponent of a double: every finite double is a multiple of `2 ^ leastExponent`. -/
def leastExponent : Int := -1074

/-- The weight of the implicit leading digit of a normal double. -/
def leadingDigit : Nat := Nat.pow 2 52

def ofFloat (x : Float) : Magnitude :=
  let word := x.toBits.toNat
  let negative := word / Nat.pow 2 63 == 1
  let biased := word / leadingDigit % 2048
  let fraction := word % leadingDigit
  if biased = 2047 then
    if fraction = 0 then .infinite negative else .undefined
  else if biased = 0 then .finite ⟨negative, fraction, leastExponent⟩
  else .finite ⟨negative, leadingDigit + fraction, leastExponent + (biased - 1)⟩

def ratio (x : Binary) : Nat × Nat :=
  if 0 ≤ x.exponent then (x.mantissa * Nat.pow 2 x.exponent.toNat, 1)
  else (x.mantissa, Nat.pow 2 (-x.exponent).toNat)

end Binary

structure Decimal where
  digits : Nat
  exponent : Int
  deriving DecidableEq, Repr

namespace Decimal

def roundDiv (num den : Nat) : Nat :=
  let floor := num / den
  let rest := 2 * (num % den)
  if rest < den then floor
  else if den < rest then floor + 1
  else floor + floor % 2

def digitCount (n : Nat) : Nat := (Nat.toDigits 10 n).length

/-- `num / den` scaled by `10 ^ (-exponent)`, as a fraction of naturals. -/
def scaled (num den : Nat) (exponent : Int) : Nat × Nat :=
  if 0 ≤ exponent then (num, den * Nat.pow 10 exponent.toNat)
  else (num * Nat.pow 10 (-exponent).toNat, den)

/-- The exponent `e` with `10 ^ (e - 1) ≤ num / den < 10 ^ e`, for a positive fraction. -/
def magnitude (num den : Nat) : Int :=
  let guess : Int := (digitCount num : Int) - digitCount den
  let (n, d) := scaled num den guess
  if d ≤ n then guess + 1 else guess

def significant (count num den : Nat) : Decimal :=
  if num = 0 then ⟨0, 0⟩
  else
    let exponent := magnitude num den - count
    let (n, d) := scaled num den exponent
    let digits := roundDiv n d
    if digitCount digits > count then ⟨digits / 10, exponent + 1⟩ else ⟨digits, exponent⟩

def places (count num den : Nat) : Decimal :=
  ⟨roundDiv (num * Nat.pow 10 count) den, -(count : Int)⟩

def trimWith : Nat → Decimal → Decimal
  | 0, x => x
  | fuel + 1, x =>
    if x.digits ≠ 0 ∧ x.digits % 10 = 0 then trimWith fuel ⟨x.digits / 10, x.exponent + 1⟩ else x

def trim (x : Decimal) : Decimal :=
  if x.digits = 0 then ⟨0, 0⟩ else trimWith (digitCount x.digits) x

def toFloat (x : Decimal) : Float :=
  if 0 ≤ x.exponent then Float.ofScientific (x.digits * Nat.pow 10 x.exponent.toNat) false 0
  else Float.ofScientific x.digits true (-x.exponent).toNat

/-- The reals that round to a double, as fractions of one denominator: the lower end, the value,
the upper end, the denominator, and whether the ends belong. -/
structure Interval where
  low : Nat
  value : Nat
  high : Nat
  den : Nat
  closed : Bool

/-- The rounding interval of a positive binary fraction in a double's normal form. -/
def Interval.ofBinary (x : Binary) : Interval :=
  let narrow := x.mantissa = Binary.leadingDigit ∧ Binary.leastExponent < x.exponent
  let (scale, den) := Binary.ratio ⟨false, 1, x.exponent - 2⟩
  { low := (4 * x.mantissa - (if narrow then 1 else 2)) * scale
    value := 4 * x.mantissa * scale
    high := (4 * x.mantissa + 2) * scale
    den := den
    closed := x.mantissa % 2 = 0 }

/-- Whether `num / den`, over the interval's own denominator, lies in it. -/
def Interval.holds (i : Interval) (num den : Nat) : Bool :=
  if i.closed then i.low * den ≤ num ∧ num ≤ i.high * den
  else i.low * den < num ∧ num < i.high * den

/-- The nearer of the value's two neighbours with `count` digits that lies in the interval. -/
def Interval.neighbour? (i : Interval) (count : Nat) : Option Decimal :=
  let exponent := magnitude i.value i.den - count
  let (n, d) := scaled i.value i.den exponent
  let floor := n / d
  -- the grid point `k · 10 ^ exponent`, as a fraction over `i.den`
  let point (k : Nat) : Nat × Nat :=
    if 0 ≤ exponent then (k * Nat.pow 10 exponent.toNat * i.den, 1)
    else (k * i.den, Nat.pow 10 (-exponent).toNat)
  let inside (k : Nat) : Bool := i.holds (point k).1 (point k).2
  let nearest := roundDiv n d
  let other := if nearest = floor then floor + 1 else floor
  if inside nearest then some ⟨nearest, exponent⟩
  else if inside other then some ⟨other, exponent⟩
  else none

/-- The first hit on the grids of `count, count + 1, …` digits, `fuel` grids at most. -/
def Interval.search (i : Interval) : Nat → Nat → Decimal
  | 0, count => significant count i.value i.den
  | fuel + 1, count =>
    match i.neighbour? count with
    | some found => found
    | none => i.search fuel (count + 1)

/-- The decimal with the fewest digits that reads back as the double, the nearest one of those. -/
def shortest (x : Binary) : Decimal :=
  if x.mantissa = 0 then ⟨0, 0⟩ else (Interval.ofBinary x |>.search 16 1).trim

end Decimal

structure Decimal.Style where
  /-- A leading digit of weight `10 ^ e` is written positionally when `least ≤ e < bound`. -/
  least : Int
  bound : Int
  /-- A whole number is written with `.0`. -/
  keepPoint : Bool

namespace Decimal

def fullStyle : Style := ⟨-4, 16, true⟩

def briefStyle : Style := ⟨-4, 10, false⟩

def leading (x : Decimal) : List Char × Int :=
  let digits := Nat.toDigits 10 x.digits
  (digits, x.exponent + digits.length - 1)

def exponentText (e : Int) : String :=
  let digits := Nat.toDigits 10 e.natAbs
  let padded := if digits.length < 2 then '0' :: digits else digits
  String.ofList ('e' :: (if e < 0 then '-' else '+') :: padded)

def text (style : Style) (x : Decimal) : String :=
  let (digits, weight) := x.leading
  if x.digits = 0 then (if style.keepPoint then "0.0" else "0")
  else if style.least ≤ weight ∧ weight < style.bound then
    if weight < 0 then
      String.ofList ('0' :: '.' :: List.replicate (-weight - 1).toNat '0' ++ digits)
    else
      let whole := (weight + 1).toNat
      let front := digits.take whole ++ List.replicate (whole - digits.length) '0'
      let back := digits.drop whole
      if back.isEmpty then String.ofList front ++ (if style.keepPoint then ".0" else "")
      else String.ofList (front ++ '.' :: back)
  else
    match digits with
    | [] => ""
    | d :: rest =>
      String.ofList (if rest.isEmpty then [d] else d :: '.' :: rest) ++ exponentText weight

def signed (negative : Bool) (body : String) : String :=
  if negative then "-" ++ body else body

def full (x : Float) : String :=
  match Binary.ofFloat x with
  | .undefined => "nan"
  | .infinite negative => signed negative "inf"
  | .finite b => signed b.negative ((shortest b).text fullStyle)

/-- The text of a double with at most ten significant digits; tiny numbers are written `0`. -/
def brief (x : Float) : String :=
  match Binary.ofFloat x with
  | .undefined => "nan"
  | .infinite negative => signed negative "inf"
  | .finite b =>
    if x.abs < 1e-12 then "0"
    else
      let (num, den) := b.ratio
      signed b.negative ((significant 10 num den).trim.text briefStyle)

def roundPlaces (count : Nat) (x : Float) : Float :=
  match Binary.ofFloat x with
  | .finite b =>
    let (num, den) := b.ratio
    let rounded := (places count num den).toFloat
    if b.negative then -rounded else rounded
  | _ => x

def nearestInt? (x : Float) : Option Int :=
  match Binary.ofFloat x with
  | .finite b =>
    let (num, den) := b.ratio
    some (if b.negative then -(roundDiv num den : Int) else roundDiv num den)
  | _ => none

def ceil? (x : Float) : Option Int :=
  match Binary.ofFloat x with
  | .finite b =>
    let (num, den) := b.ratio
    some (if b.negative then -((num / den : Nat) : Int) else ((num + den - 1) / den : Nat))
  | _ => none

def truncate? (x : Float) : Option Int :=
  match Binary.ofFloat x with
  | .finite b =>
    let (num, den) := b.ratio
    some (if b.negative then -((num / den : Nat) : Int) else (num / den : Nat))
  | _ => none

def digitRun (cs : List Char) : List Char × List Char :=
  (cs.takeWhile Char.isDigit, cs.dropWhile Char.isDigit)

def exponentRun (cs : List Char) : List Char × Int × List Char :=
  match cs with
  | 'e' :: rest =>
    let (sign, body) :=
      match rest with
      | '-' :: body => (['-'], body)
      | '+' :: body => (['+'], body)
      | body => ([], body)
    let (digits, after) := digitRun body
    if digits.isEmpty then ([], 0, cs)
    else
      let size : Int := (String.ofList digits).toNat?.getD 0
      ('e' :: sign ++ digits, if sign = ['-'] then -size else size, after)
  | _ => ([], 0, cs)

def digitsValue (digits : List Char) : Nat :=
  digits.foldl (fun n c => 10 * n + (c.toNat - '0'.toNat)) 0

/-- A literal with more than twelve significant digits, written again with ten. -/
def shortenLiteral (whole fraction exponent : List Char) (size : Int) : List Char :=
  let digits := whole ++ fraction
  if (digits.dropWhile (· = '0')).length ≤ 12 then whole ++ '.' :: fraction ++ exponent
  else
    let x := toFloat ⟨digitsValue digits, size - fraction.length⟩
    match Binary.ofFloat x with
    | .finite b =>
      let (num, den) := b.ratio
      (full (significant 10 num den).toFloat).toList
    | _ => (full x).toList

/-- Shortens the long decimal literals of a text, `fuel` steps at most. -/
def shortenWith : Nat → List Char → List Char
  | 0, cs => cs
  | _, [] => []
  | fuel + 1, c :: cs =>
    if c.isDigit then
      let (whole, rest) := digitRun (c :: cs)
      match rest with
      | '.' :: after =>
        let (fraction, tail) := digitRun after
        if fraction.isEmpty then whole ++ '.' :: shortenWith fuel after
        else
          let (exponent, size, rest) := exponentRun tail
          shortenLiteral whole fraction exponent size ++ shortenWith fuel rest
      | rest => whole ++ shortenWith fuel rest
    else c :: shortenWith fuel cs

def shorten (s : String) : String := String.ofList (shortenWith s.length s.toList)

end Decimal

end CircuitWorks
