import CircuitWorks.Amplitude
import CircuitWorks.Json.Basic
import CircuitWorks.Text

/-!
Literals: values of simple types and collections of them, with the text that each is written as.
-/

namespace CircuitWorks

inductive Literal where
  | none
  | bool (value : Bool)
  | int (value : Int)
  | float (value : Float)
  | complex (value : Amplitude)
  | str (value : String)
  | bytes (value : List UInt8)
  | tuple (items : List Literal)
  | list (items : List Literal)
  | set (items : List Literal)
  | dict (entries : List (Literal × Literal))
  deriving Inhabited

namespace Literal

/-- Characters beyond ASCII that are written as escapes. -/
def isHidden (n : Nat) : Bool :=
  (0x7f ≤ n && n ≤ 0xa0) || n = 0xad || (0x600 ≤ n && n ≤ 0x605) || n = 0x61c || n = 0x6dd ||
    n = 0x70f || n = 0x1680 || n = 0x180e || (0x2000 ≤ n && n ≤ 0x200f) ||
    (0x2028 ≤ n && n ≤ 0x202f) || (0x205f ≤ n && n ≤ 0x206f) || n = 0x3000 ||
    (0xd800 ≤ n && n ≤ 0xf8ff) || n = 0xfeff || (0xfff0 ≤ n && n ≤ 0xfffb) || 0xe0000 ≤ n

def hexDigits (width n : Nat) : List Char :=
  let digits := Nat.toDigits 16 n
  List.replicate (width - digits.length) '0' ++ digits

def quotedChar (quote c : Char) : List Char :=
  let n := c.toNat
  if c = quote || c = '\\' then ['\\', c]
  else if c = '\n' then ['\\', 'n']
  else if c = '\r' then ['\\', 'r']
  else if c = '\t' then ['\\', 't']
  else if n < 0x20 || n = 0x7f then '\\' :: 'x' :: hexDigits 2 n
  else if isHidden n then
    if n < 0x100 then '\\' :: 'x' :: hexDigits 2 n
    else if n < 0x10000 then '\\' :: 'u' :: hexDigits 4 n
    else '\\' :: 'U' :: hexDigits 8 n
  else [c]

/-- Double quotes are used only around a text that holds single ones and no double ones. -/
def quoteFor (cs : List Char) : Char := if '\'' ∈ cs && '"' ∉ cs then '"' else '\''

def quoted (s : String) : String :=
  let quote := quoteFor s.toList
  String.ofList (quote :: s.toList.flatMap (quotedChar quote) ++ [quote])

def quotedByte (quote : Char) (b : UInt8) : List Char :=
  let n := b.toNat
  if 0x7f ≤ n then '\\' :: 'x' :: hexDigits 2 n else quotedChar quote (Char.ofNat n)

def quotedBytes (bs : List UInt8) : String :=
  let quote := quoteFor (bs.map fun b => Char.ofNat b.toNat)
  String.ofList ('b' :: quote :: bs.flatMap (quotedByte quote) ++ [quote])

/-- A component of a complex number: as a number, but without a point on whole ones. -/
def componentText (x : Float) : String :=
  let text := (Decimal.full x).toList
  String.ofList (if ['.', '0'].isSuffixOf text then text.dropLast.dropLast else text)

def complexText (z : Amplitude) : String :=
  if z.re == 0 && 0 < 1 / z.re then componentText z.im ++ "j"
  else
    let im := componentText z.im
    let sign := if "-".toList.isPrefixOf im.toList then "" else "+"
    "(" ++ componentText z.re ++ sign ++ im ++ "j)"

mutual

def text : Literal → String
  | none => "None"
  | bool b => if b then "True" else "False"
  | int n => toString n
  | float x => Decimal.full x
  | complex z => complexText z
  | str s => quoted s
  | bytes bs => quotedBytes bs
  | tuple [x] => "(" ++ x.text ++ ",)"
  | tuple xs => "(" ++ ", ".intercalate (texts xs) ++ ")"
  | list xs => "[" ++ ", ".intercalate (texts xs) ++ "]"
  | set [] => "set()"
  | set xs => "\x7b" ++ ", ".intercalate (texts xs) ++ "\x7d"
  | dict xs => "\x7b" ++ ", ".intercalate (entryTexts xs) ++ "\x7d"

def texts : List Literal → List String
  | [] => []
  | x :: xs => x.text :: texts xs

def entryTexts : List (Literal × Literal) → List String
  | [] => []
  | (k, v) :: xs => (k.text ++ ": " ++ v.text) :: entryTexts xs

end

def shown : Literal → String
  | str s => s
  | v => v.text

def typeName : Literal → String
  | none => "NoneType"
  | bool _ => "bool"
  | int _ => "int"
  | float _ => "float"
  | complex _ => "complex"
  | str _ => "str"
  | bytes _ => "bytes"
  | tuple _ => "tuple"
  | list _ => "list"
  | set _ => "set"
  | dict _ => "dict"

/-- The number that a value is; truth values count as 0 and 1. -/
inductive Number where
  | int (n : Int)
  | complex (z : Amplitude)

def number? : Literal → Option Number
  | bool b => some (.int (if b then 1 else 0))
  | int n => some (.int n)
  | float x => some (.complex ⟨x, 0⟩)
  | complex z => some (.complex z)
  | _ => Option.none

def isInt (x : Float) (n : Int) : Bool :=
  match Decimal.truncate? x with
  | some m => m = n && x == x.floor
  | Option.none => false

def Number.same : Number → Number → Bool
  | .int m, .int n => m = n
  | .int m, .complex z => z.im == 0 && isInt z.re m
  | .complex z, .int m => z.im == 0 && isInt z.re m
  | .complex z, .complex w => z == w

/-- Equality of values: numbers of different types are equal if their values are. -/
def same (a b : Literal) : Bool :=
  match a.number?, b.number? with
  | some x, some y => x.same y
  | Option.none, Option.none =>
    match a, b with
    | str s, str t => s = t
    | bytes s, bytes t => s = t
    | none, none => true
    | _, _ => false
  | _, _ => false

mutual

def ofJson : Json → Literal
  | .null => .none
  | .bool b => .bool b
  | .int n => .int n
  | .float x => .float x
  | .str s => .str s
  | .arr items => .list (ofItems items)
  | .obj fields => .dict (ofFields fields)

def ofItems : List Json → List Literal
  | [] => []
  | j :: rest => ofJson j :: ofItems rest

def ofFields : List (String × Json) → List (Literal × Literal)
  | [] => []
  | (key, j) :: rest => (.str key, ofJson j) :: ofFields rest

end

def toJson (v : Literal) : Json :=
  .arr [.str v.typeName,
    match v with
    | .str s => .str s
    | .bool b => .bool b
    | v => .str v.text]

end Literal

end CircuitWorks

namespace CircuitWorks.Literal

inductive ReadError where
  | syntactic
  /-- It is an expression, but no literal. -/
  | notLiteral
  deriving DecidableEq, Repr

inductive Token where
  | value (v : Literal)
  | name (s : String)
  | mark (s : String)
  /-- A text with holes, which is an expression but no literal. -/
  | template

def digitRun (isDigit : Char → Bool) : List Char → List Char × List Char
  | '_' :: c :: cs =>
    if isDigit c then
      let (run, rest) := digitRun isDigit cs
      (c :: run, rest)
    else ([], '_' :: c :: cs)
  | c :: cs =>
    if isDigit c then
      let (run, rest) := digitRun isDigit cs
      (c :: run, rest)
    else ([], c :: cs)
  | [] => ([], [])

def leadingRun (isDigit : Char → Bool) (cs : List Char) : List Char × List Char :=
  match cs with
  | '_' :: _ => ([], cs)
  | _ => digitRun isDigit cs

def digitValue (c : Char) : Nat :=
  if c.isDigit then c.toNat - '0'.toNat
  else if 'a' ≤ c ∧ c ≤ 'f' then c.toNat - 'a'.toNat + 10
  else if 'A' ≤ c ∧ c ≤ 'F' then c.toNat - 'A'.toNat + 10
  else 99

def valueOf (base : Nat) (digits : List Char) : Nat :=
  digits.foldl (fun n c => base * n + digitValue c) 0

def based (base : Nat) (cs : List Char) : Option (Literal × List Char) :=
  let cs := match cs with
    | '_' :: rest => rest
    | cs => cs
  let (digits, rest) := leadingRun (fun c => digitValue c < base) cs
  if digits.isEmpty then Option.none else some (.int (valueOf base digits), rest)

def exponent (cs : List Char) : Option (Int × List Char) :=
  match cs with
  | 'e' :: rest | 'E' :: rest =>
    let (negative, body) := match rest with
      | '-' :: body => (true, body)
      | '+' :: body => (false, body)
      | body => (false, body)
    let (digits, after) := leadingRun Char.isDigit body
    if digits.isEmpty then Option.none
    else
      let n : Int := valueOf 10 digits
      some (if negative then -n else n, after)
  | _ => Option.none

def decimal (cs : List Char) : Option (Literal × List Char) :=
  let (whole, rest) := leadingRun Char.isDigit cs
  let (fraction, point, rest) := match rest with
    | '.' :: after =>
      let (fraction, rest) := leadingRun Char.isDigit after
      (fraction, true, rest)
    | rest => ([], false, rest)
  if whole.isEmpty && fraction.isEmpty then Option.none
  else
    let (size, scaled, rest) := match exponent rest with
      | some (n, after) => (n, true, after)
      | Option.none => (0, false, rest)
    let x := Decimal.toFloat ⟨valueOf 10 (whole ++ fraction), size - fraction.length⟩
    match rest with
    | 'j' :: after | 'J' :: after => some (.complex ⟨0, x⟩, after)
    | rest =>
      if point || scaled then some (.float x, rest)
      else if whole.head? = some '0' && whole.any (· ≠ '0') then Option.none
      else some (.int (valueOf 10 whole), rest)

def number (cs : List Char) : Option (Literal × List Char) :=
  match cs with
  | '0' :: 'x' :: rest | '0' :: 'X' :: rest => based 16 rest
  | '0' :: 'o' :: rest | '0' :: 'O' :: rest => based 8 rest
  | '0' :: 'b' :: rest | '0' :: 'B' :: rest => based 2 rest
  | cs => decimal cs

def hexCode (count : Nat) (cs : List Char) : Option (Nat × List Char) :=
  let digits := cs.take count
  if digits.length = count && digits.all (fun c => digitValue c < 16) then
    some (valueOf 16 digits, cs.drop count)
  else Option.none

def escape (binary : Bool) (cs : List Char) : Option (List Char × List Char) :=
  match cs with
  | [] => Option.none
  | c :: rest =>
    match c with
    | '\n' => some ([], rest)
    | '\\' | '\'' | '"' => some ([c], rest)
    | 'a' => some (['\x07'], rest)
    | 'b' => some (['\x08'], rest)
    | 'f' => some (['\x0c'], rest)
    | 'n' => some (['\n'], rest)
    | 'r' => some (['\r'], rest)
    | 't' => some (['\t'], rest)
    | 'v' => some (['\x0b'], rest)
    | 'x' => (hexCode 2 rest).map fun (n, after) => ([Char.ofNat n], after)
    | 'u' =>
      if binary then some (['\\', 'u'], rest)
      else (hexCode 4 rest).map fun (n, after) => ([Char.ofNat n], after)
    | 'U' =>
      if binary then some (['\\', 'U'], rest)
      else (hexCode 8 rest).bind fun (n, after) =>
        if n < 0x110000 then some ([Char.ofNat n], after) else Option.none
    | c =>
      if '0' ≤ c ∧ c ≤ '7' then
        let digits := ((c :: rest).take 3).takeWhile fun d => '0' ≤ d ∧ d ≤ '7'
        let n := valueOf 8 digits
        some ([Char.ofNat (if binary then n % 256 else n)], (c :: rest).drop digits.length)
      else some (['\\', c], rest)

/-- The characters up to the closing quotes, `fuel` steps at most. -/
def body (raw binary : Bool) (closing : List Char) : Nat → List Char → Option (List Char × List Char)
  | 0, _ => Option.none
  | _ + 1, [] => Option.none
  | fuel + 1, c :: cs =>
    if closing.isPrefixOf (c :: cs) then some ([], (c :: cs).drop closing.length)
    else if c = '\n' && closing.length = 1 then Option.none
    else if c = '\\' then
      if raw then
        match cs with
        | [] => Option.none
        | d :: rest => (body raw binary closing fuel rest).map fun (t, after) => (c :: d :: t, after)
      else do
        let (front, rest) ← escape binary cs
        let (t, after) ← body raw binary closing fuel rest
        return (front ++ t, after)
    else if binary && 128 ≤ c.toNat then Option.none
    else (body raw binary closing fuel cs).map fun (t, after) => (c :: t, after)

def quotedText (raw binary : Bool) (cs : List Char) : Option (List Char × List Char) :=
  match cs with
  | q :: rest =>
    if q = '\'' || q = '"' then
      if [q, q].isPrefixOf rest then body raw binary [q, q, q] (cs.length + 1) (rest.drop 2)
      else body raw binary [q] (cs.length + 1) rest
    else Option.none
  | [] => Option.none

def introductions : List String := ["r", "u", "b", "f", "br", "rb", "fr", "rf"]

def isQuote (c : Option Char) : Bool := c = some '\'' || c = some '"'

def isNameStart (c : Char) : Bool := c.isAlpha || c = '_' || 128 ≤ c.toNat
def isNamePart (c : Char) : Bool := c.isAlphanum || c = '_' || 128 ≤ c.toNat

/-- Marks of two or more characters, then single ones. -/
def marks : List String :=
  ["**", "//", "<<", ">>", "<=", ">=", "==", "!=", ":=", "->", "...", "(", ")", "[", "]", "\x7b",
   "\x7d", ",", ":", "+", "-", "*", "/", "%", "@", "&", "|", "^", "~", "<", ">", "."]

def quotedToken (introduction : String) (cs : List Char) : Option (Token × List Char) := do
  let letters := introduction.toLower.toList
  let raw := 'r' ∈ letters
  let binary := 'b' ∈ letters
  let (content, rest) ← quotedText raw binary cs
  if 'f' ∈ letters then return (.template, rest)
  else if binary then return (.value (.bytes (content.map fun c => UInt8.ofNat c.toNat)), rest)
  else return (.value (.str (String.ofList content)), rest)

/-- The tokens of a text, `fuel` of them at most. Line breaks count as blanks inside brackets
only. -/
def tokensWith : Nat → Int → List Char → Option (List Token)
  | 0, _, _ => Option.none
  | _ + 1, _, [] => some []
  | fuel + 1, depth, c :: cs =>
    if c = ' ' || c = '\t' || c = '\x0c' then tokensWith fuel depth cs
    else if c = '\n' || c = '\r' then
      if 0 < depth || cs.all Text.isBlank then tokensWith fuel depth cs else Option.none
    else if c = '#' then tokensWith fuel depth (cs.dropWhile (· ≠ '\n'))
    else if c = '\\' then
      match cs with
      | '\n' :: rest => tokensWith fuel depth rest
      | _ => Option.none
    else if c.isDigit || (c = '.' && (cs.head?.map Char.isDigit).getD false) then do
      let (v, rest) ← number (c :: cs)
      if (rest.head?.map isNamePart).getD false then Option.none
      return .value v :: (← tokensWith fuel depth rest)
    else if isQuote (some c) then do
      let (t, rest) ← quotedToken "" (c :: cs)
      return t :: (← tokensWith fuel depth rest)
    else if isNameStart c then do
      let name := (c :: cs).takeWhile isNamePart
      let rest := (c :: cs).dropWhile isNamePart
      let word := String.ofList name
      if isQuote rest.head? then
        if word.toLower ∈ introductions then
          let (t, rest) ← quotedToken word rest
          return t :: (← tokensWith fuel depth rest)
        else Option.none
      else return .name word :: (← tokensWith fuel depth rest)
    else do
      let found ← marks.find? fun m => m.toList.isPrefixOf (c :: cs)
      let depth := if found ∈ ["(", "[", "\x7b"] then depth + 1
        else if found ∈ [")", "]", "\x7d"] then depth - 1 else depth
      return .mark found :: (← tokensWith fuel depth ((c :: cs).drop found.length))

/-- The values that an expression can have here: a literal, or something else. -/
inductive Expr where
  | literal (v : Literal)
  /-- A number literal as it stands, without a sign in front. -/
  | bare (v : Literal)
  /-- A number literal with one sign in front. -/
  | signed (v : Literal)
  | other

def Expr.literal? : Expr → Option Literal
  | literal v | bare v | signed v => some v
  | other => Option.none

def collect (make : List Literal → Literal) (items : List Expr) : Expr :=
  match items.mapM Expr.literal? with
  | some vs => .literal (make vs)
  | Option.none => .other

def negate : Literal → Option Literal
  | .int n => some (.int (-n))
  | .float x => some (.float (-x))
  | .complex z => some (.complex (-z))
  | _ => Option.none

def isNumber : Literal → Bool
  | .int _ | .float _ | .complex _ => true
  | _ => false

def sign (negative : Bool) : Expr → Expr
  | .bare v =>
    if isNumber v then
      if negative then ((negate v).map Expr.signed).getD .other else .signed v
    else .other
  | _ => .other

def real? : Literal → Option Float
  | .int n => some (Float.ofInt n)
  | .float x => some x
  | _ => Option.none

/-- The sum or difference of a real and an imaginary number is a literal. -/
def addTo (negative : Bool) (a b : Expr) : Expr :=
  match a, b with
  | .bare v, .bare (.complex z) | .signed v, .bare (.complex z) =>
    match real? v with
    | some x => .literal (.complex (if negative then ⟨x - z.re, -z.im⟩ else ⟨x + z.re, z.im⟩))
    | Option.none => .other
  | _, _ => .other

def strength? : Token → Option Nat
  | .mark m =>
    if m ∈ ["<", ">", "<=", ">=", "==", "!="] then some 1
    else if m = "|" then some 2
    else if m = "^" then some 3
    else if m = "&" then some 4
    else if m = "<<" || m = ">>" then some 5
    else if m = "+" || m = "-" then some 6
    else if m ∈ ["*", "/", "//", "%", "@"] then some 7
    else Option.none
  | _ => Option.none

def keywords : List String :=
  ["False", "None", "True", "and", "as", "assert", "async", "await", "break", "class", "continue",
   "def", "del", "elif", "else", "except", "finally", "for", "from", "global", "if", "import", "in",
   "is", "lambda", "nonlocal", "not", "or", "pass", "raise", "return", "try", "while", "with",
   "yield"]

def nameExpr (s : String) : Option Expr :=
  if s = "True" then some (.literal (.bool true))
  else if s = "False" then some (.literal (.bool false))
  else if s = "None" then some (.literal .none)
  else if s ∈ keywords then Option.none
  else some .other

def joinStrings : Option Token → List Token → Option (Option Token × List Token)
  | acc, .value (.str s) :: ts =>
    match acc with
    | Option.none => joinStrings (some (.value (.str s))) ts
    | some (.value (.str t)) => joinStrings (some (.value (.str (t ++ s)))) ts
    | some .template => joinStrings (some .template) ts
    | some _ => Option.none
  | acc, .value (.bytes s) :: ts =>
    match acc with
    | Option.none => joinStrings (some (.value (.bytes s))) ts
    | some (.value (.bytes t)) => joinStrings (some (.value (.bytes (t ++ s)))) ts
    | some _ => Option.none
  | acc, .template :: ts =>
    match acc with
    | some (.value (.bytes _)) => Option.none
    | _ => joinStrings (some .template) ts
  | acc, ts => some (acc, ts)

mutual

/-- Expressions joined by `or`, `and`, `not`, or a choice between two. -/
def readExpr : Nat → List Token → Option (Expr × List Token)
  | 0, _ => Option.none
  | fuel + 1, .name "lambda" :: ts => do
    let (_, rest) ← readParams fuel ts
    let (_, rest) ← readExpr fuel rest
    return (.other, rest)
  | fuel + 1, ts => do
    let (e, rest) ← readLogic fuel ts
    match rest with
    | .name "if" :: rest =>
      let (_, rest) ← readLogic fuel rest
      match rest with
      | .name "else" :: rest =>
        let (_, rest) ← readExpr fuel rest
        return (.other, rest)
      | _ => Option.none
    | rest => return (e, rest)

def readParams : Nat → List Token → Option (Unit × List Token)
  | 0, _ => Option.none
  | _ + 1, .mark ":" :: ts => some ((), ts)
  | fuel + 1, .name _ :: .mark "," :: ts => readParams fuel ts
  | _ + 1, .name _ :: .mark ":" :: ts => some ((), ts)
  | _ + 1, _ => Option.none

def readLogic : Nat → List Token → Option (Expr × List Token)
  | 0, _ => Option.none
  | fuel + 1, .name "not" :: ts => do
    let (_, rest) ← readLogic fuel ts
    return (.other, rest)
  | fuel + 1, ts => do
    let (e, rest) ← readBinary fuel 1 ts
    match rest with
    | .name "and" :: rest | .name "or" :: rest =>
      let (_, rest) ← readLogic fuel rest
      return (.other, rest)
    | .name "in" :: rest | .name "is" :: .name "not" :: rest | .name "is" :: rest
    | .name "not" :: .name "in" :: rest =>
      let (_, rest) ← readLogic fuel rest
      return (.other, rest)
    | rest => return (e, rest)

def readBinary : Nat → Nat → List Token → Option (Expr × List Token)
  | 0, _, _ => Option.none
  | fuel + 1, least, ts => do
    let (e, rest) ← readUnary fuel ts
    readBinaryRest fuel least e rest

def readBinaryRest : Nat → Nat → Expr → List Token → Option (Expr × List Token)
  | 0, _, _, _ => Option.none
  | _ + 1, _, e, [] => some (e, [])
  | fuel + 1, least, e, t :: ts =>
    match strength? t with
    | Option.none => some (e, t :: ts)
    | some k =>
      if k < least then some (e, t :: ts)
      else do
        let (f, rest) ← readBinary fuel (k + 1) ts
        let joined := match t with
          | .mark "+" => addTo false e f
          | .mark "-" => addTo true e f
          | _ => .other
        readBinaryRest fuel least joined rest

def readUnary : Nat → List Token → Option (Expr × List Token)
  | 0, _ => Option.none
  | fuel + 1, .mark "-" :: ts => do
    let (e, rest) ← readUnary fuel ts
    return (sign true e, rest)
  | fuel + 1, .mark "+" :: ts => do
    let (e, rest) ← readUnary fuel ts
    return (sign false e, rest)
  | fuel + 1, .mark "~" :: ts => do
    let (_, rest) ← readUnary fuel ts
    return (.other, rest)
  | fuel + 1, ts => do
    let (e, rest) ← readTrailers fuel ts
    match rest with
    | .mark "**" :: rest =>
      let (_, rest) ← readUnary fuel rest
      return (.other, rest)
    | rest => return (e, rest)

def readTrailers : Nat → List Token → Option (Expr × List Token)
  | 0, _ => Option.none
  | _ + 1, .name "set" :: .mark "(" :: .mark ")" :: ts => some (.literal (.set []), ts)
  | fuel + 1, ts => do
    let (e, rest) ← readAtom fuel ts
    readTrailersRest fuel e rest

def readTrailersRest : Nat → Expr → List Token → Option (Expr × List Token)
  | 0, _, _ => Option.none
  | fuel + 1, _, .mark "." :: .name s :: ts =>
    if s ∈ keywords then Option.none else readTrailersRest fuel .other ts
  | fuel + 1, _, .mark "(" :: ts => do
    let (_, _, rest) ← readItems fuel ")" ts
    readTrailersRest fuel .other rest
  | fuel + 1, _, .mark "[" :: ts => do
    let (items, _, rest) ← readItems fuel "]" ts
    if items.isEmpty then Option.none else readTrailersRest fuel .other rest
  | _ + 1, e, ts => some (e, ts)

def readItems : Nat → String → List Token → Option (List Expr × Bool × List Token)
  | 0, _, _ => Option.none
  | _ + 1, _, [] => Option.none
  | fuel + 1, closing, .mark m :: ts =>
    if m = closing then some ([], false, ts) else readItem fuel closing (.mark m :: ts)
  | fuel + 1, closing, ts => readItem fuel closing ts

def readItem : Nat → String → List Token → Option (List Expr × Bool × List Token)
  | 0, _, _ => Option.none
  | fuel + 1, closing, ts => do
    let (e, rest) ← readExpr fuel ts
    match rest with
    | .mark "," :: rest =>
      let (es, _, rest) ← readItems fuel closing rest
      return (e :: es, true, rest)
    | .mark m :: rest => if m = closing then return ([e], false, rest) else Option.none
    | _ => Option.none

def readEntries : Nat → List Token → Option (List (Expr × Expr) × List Token)
  | 0, _ => Option.none
  | _ + 1, .mark "\x7d" :: ts => some ([], ts)
  | fuel + 1, ts => do
    let (k, rest) ← readExpr fuel ts
    match rest with
    | .mark ":" :: rest =>
      let (v, rest) ← readExpr fuel rest
      match rest with
      | .mark "," :: rest =>
        let (es, rest) ← readEntries fuel rest
        return ((k, v) :: es, rest)
      | .mark "\x7d" :: rest => return ([(k, v)], rest)
      | _ => Option.none
    | _ => Option.none

def readAtom : Nat → List Token → Option (Expr × List Token)
  | 0, _ => Option.none
  | _ + 1, [] => Option.none
  | fuel + 1, t :: ts =>
    match t with
    | .name s => (nameExpr s).map fun e => (e, ts)
    | .value (.str _) | .value (.bytes _) | .template => do
      let (joined, rest) ← joinStrings Option.none (t :: ts)
      match joined with
      | some (.value v) => return (.bare v, rest)
      | _ => return (.other, rest)
    | .value v => some (.bare v, ts)
    | .mark "(" => do
      let (items, comma, rest) ← readItems fuel ")" ts
      match items, comma with
      | [e], false => return (e, rest)
      | items, _ => return (collect .tuple items, rest)
    | .mark "[" => do
      let (items, _, rest) ← readItems fuel "]" ts
      return (collect .list items, rest)
    | .mark "\x7b" =>
      match readEntries fuel ts with
      | some (entries, rest) =>
        match entries.mapM fun (k, v) => do return (← k.literal?, ← v.literal?) with
        | some es => some (.literal (.dict es), rest)
        | Option.none => some (.other, rest)
      | Option.none => do
        let (items, _, rest) ← readItems fuel "\x7d" ts
        if items.isEmpty then Option.none else return (collect .set items, rest)
    | .mark "..." => some (.other, ts)
    | .mark _ => Option.none

end

def readAll (fuel : Nat) : Nat → List Token → Option (List Expr × Bool)
  | 0, _ => Option.none
  | steps + 1, ts => do
    let (e, rest) ← readExpr fuel ts
    match rest with
    | [] => return ([e], false)
    | [.mark ","] => return ([e], true)
    | .mark "," :: rest =>
      let (es, _) ← readAll fuel steps rest
      return (e :: es, true)
    | _ => Option.none

def read (cs : List Char) : Except ReadError Literal :=
  let cs := cs.dropWhile fun c => c = ' ' || c = '\t'
  let parsed := do
    let ts ← tokensWith (cs.length + 1) 0 cs
    readAll (8 * ts.length + 16) (ts.length + 1) ts
  match parsed with
  | Option.none => .error .syntactic
  | some (items, comma) =>
    let e := match items, comma with
      | [e], false => e
      | items, _ => collect .tuple items
    match e.literal? with
    | some v => .ok v
    | Option.none => .error .notLiteral

end CircuitWorks.Literal
