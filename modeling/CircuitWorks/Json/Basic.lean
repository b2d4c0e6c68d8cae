import CircuitWorks.Decimal

/-!
JSON values, which keep their fields in order, and their text, in ASCII: on one line or one item a line.
Fields that are absent read as null, and null as an empty list, an empty text or 0.

Reading JSON text. `NaN` and the infinities are accepted as numbers; a repeated field name keeps
its first place and its last value.
-/

namespace CircuitWorks

inductive Json where
  | null
  | bool (value : Bool)
  | int (value : Int)
  | float (value : Float)
  | str (value : String)
  | arr (items : List Json)
  | obj (fields : List (String × Json))
  deriving BEq, Inhabited

namespace Json

def lookup (key : String) : List (String × Json) → Option Json
  | [] => none
  | (name, value) :: rest => if name = key then some value else lookup key rest

def insert {α : Type} (key : String) (value : α) : List (String × α) → List (String × α)
  | [] => [(key, value)]
  | (name, old) :: rest =>
    if name = key then (key, value) :: rest else (name, old) :: insert key value rest

def get? (j : Json) (key : String) : Option Json :=
  match j with
  | .obj fields => lookup key fields
  | _ => none

def items? : Json → Option (List Json)
  | .arr items => some items
  | _ => none

def fields? : Json → Option (List (String × Json))
  | .obj fields => some fields
  | _ => none

def text? : Json → Option String
  | .str s => some s
  | _ => none

def int? : Json → Option Int
  | .int n => some n
  | .bool b => some (if b then 1 else 0)
  | _ => none

def number? : Json → Option Float
  | .int n => some (Float.ofInt n)
  | .float x => some x
  | .bool b => some (if b then 1 else 0)
  | _ => none

def isTruthy : Json → Bool
  | .null => false
  | .bool b => b
  | .int n => n ≠ 0
  | .float x => !(x == 0)
  | .str s => !s.isEmpty
  | .arr items => !items.isEmpty
  | .obj fields => !fields.isEmpty

end Json

end CircuitWorks

namespace CircuitWorks.Json

def hexWord (n : Nat) : List Char :=
  let digits := Nat.toDigits 16 n
  List.replicate (4 - digits.length) '0' ++ digits

def escapeChar (c : Char) : List Char :=
  if c = '"' then ['\\', '"']
  else if c = '\\' then ['\\', '\\']
  else if c = '\n' then ['\\', 'n']
  else if c = '\r' then ['\\', 'r']
  else if c = '\t' then ['\\', 't']
  else if c = '\x08' then ['\\', 'b']
  else if c = '\x0c' then ['\\', 'f']
  else if 32 ≤ c.toNat ∧ c.toNat < 127 then [c]
  else if c.toNat < 0x10000 then '\\' :: 'u' :: hexWord c.toNat
  else
    let n := c.toNat - 0x10000
    ('\\' :: 'u' :: hexWord (0xD800 + n / 0x400)) ++ ('\\' :: 'u' :: hexWord (0xDC00 + n % 0x400))

def quote (s : String) : String :=
  "\"" ++ String.ofList (s.toList.flatMap escapeChar) ++ "\""

def floatText (x : Float) : String :=
  if x.isNaN then "NaN"
  else if x.isInf then (if x < 0 then "-Infinity" else "Infinity")
  else Decimal.full x

mutual

def text : Json → String
  | .null => "null"
  | .bool true => "true"
  | .bool false => "false"
  | .int n => toString n
  | .float x => floatText x
  | .str s => quote s
  | .arr items => "[" ++ ", ".intercalate (itemTexts items) ++ "]"
  | .obj fields => "\x7b" ++ ", ".intercalate (fieldTexts fields) ++ "\x7d"

def itemTexts : List Json → List String
  | [] => []
  | item :: rest => text item :: itemTexts rest

def fieldTexts : List (String × Json) → List String
  | [] => []
  | (key, value) :: rest => (quote key ++ ": " ++ text value) :: fieldTexts rest

end

def newline (level : Nat) : String := "\n" ++ String.ofList (List.replicate (2 * level) ' ')

def block (level : Nat) (opening closing : String) (parts : List String) : String :=
  if parts.isEmpty then opening ++ closing
  else
    opening ++ newline (level + 1) ++ ("," ++ newline (level + 1)).intercalate parts ++
      newline level ++ closing

mutual

def pretty (level : Nat) : Json → String
  | .arr items => block level "[" "]" (prettyItems (level + 1) items)
  | .obj fields => block level "\x7b" "\x7d" (prettyFields (level + 1) fields)
  | .null => "null"
  | .bool true => "true"
  | .bool false => "false"
  | .int n => toString n
  | .float x => floatText x
  | .str s => quote s

def prettyItems (level : Nat) : List Json → List String
  | [] => []
  | item :: rest => pretty level item :: prettyItems level rest

def prettyFields (level : Nat) : List (String × Json) → List String
  | [] => []
  | (key, value) :: rest => (quote key ++ ": " ++ pretty level value) :: prettyFields level rest

end

def field (j : Json) (key : String) : Json := (j.get? key).getD .null

def list (j : Json) : List Json := j.items?.getD []

def listAt (j : Json) (key : String) : List Json := (j.field key).list

def string (j : Json) : String := j.text?.getD ""
def integer (j : Json) : Int := j.int?.getD 0
def natural (j : Json) : Nat := j.integer.toNat
def decimal (j : Json) : Float := j.number?.getD 0

def isNull : Json → Bool
  | .null => true
  | _ => false

def item (j : Json) (i : Nat) : Json := j.list.getD i .null

def has (j : Json) (key : String) : Bool := (j.get? key).isSome

def ofNat (n : Nat) : Json := .int n
def ofFloat (x : Float) : Json := .str (Decimal.brief x)

def ofBit (b : Bool) : Json := .int (if b then 1 else 0)

def ofBits (bits : List Bool) : Json := .arr (bits.map ofBit)
def ofStrings (texts : List String) : Json := .arr (texts.map .str)

def ofOption {α : Type} (f : α → Json) : Option α → Json
  | some a => f a
  | none => .null

def sortStrings (texts : List String) : List String := texts.mergeSort fun a b => a ≤ b

def sortByText (js : List Json) : List Json :=
  ((js.map fun j => (j.text, j)).mergeSort fun a b => a.1 ≤ b.1).map (·.2)

def ofPairs {κ ν : Type} (le : κ → κ → Bool) (key : κ → Json) (value : ν → Json)
    (pairs : List (κ × ν)) : Json :=
  .arr ((pairs.mergeSort fun a b => le a.1 b.1).map fun (k, v) => .arr [key k, value v])

mutual

def depth : Json → Nat
  | .arr items => depthItems items + 1
  | .obj fields => depthFields fields + 1
  | _ => 0

def depthItems : List Json → Nat
  | [] => 0
  | j :: rest => max (depth j) (depthItems rest)

def depthFields : List (String × Json) → Nat
  | [] => 0
  | (_, j) :: rest => max (depth j) (depthFields rest)

end

mutual

/-- The value with every number with a fractional part written as a text. -/
def plain : Json → Json
  | .float x => ofFloat x
  | .arr items => .arr (plainItems items)
  | .obj fields => .obj (plainFields fields)
  | j => j

def plainItems : List Json → List Json
  | [] => []
  | j :: rest => plain j :: plainItems rest

def plainFields : List (String × Json) → List (String × Json)
  | [] => []
  | (k, j) :: rest => (k, plain j) :: plainFields rest

end

def isBlank (c : Char) : Bool := c = ' ' || c = '\t' || c = '\n' || c = '\r'

def skipBlanks (cs : List Char) : List Char := cs.dropWhile isBlank

def hexDigit? (c : Char) : Option Nat :=
  if c.isDigit then some (c.toNat - '0'.toNat)
  else if 'a' ≤ c ∧ c ≤ 'f' then some (c.toNat - 'a'.toNat + 10)
  else if 'A' ≤ c ∧ c ≤ 'F' then some (c.toNat - 'A'.toNat + 10)
  else none

def hexWord? : List Char → Option (Nat × List Char)
  | a :: b :: c :: d :: rest => do
    let a ← hexDigit? a
    let b ← hexDigit? b
    let c ← hexDigit? c
    let d ← hexDigit? d
    some (((a * 16 + b) * 16 + c) * 16 + d, rest)
  | _ => none

/-- The character after a backslash and `u`: two halves of a pair are joined. -/
def unicodeEscape? (cs : List Char) : Option (Char × List Char) := do
  let (high, rest) ← hexWord? cs
  match rest with
  | '\\' :: 'u' :: more =>
    match hexWord? more with
    | some (low, after) =>
      if 0xD800 ≤ high ∧ high < 0xDC00 ∧ 0xDC00 ≤ low ∧ low < 0xE000 then
        some (Char.ofNat (0x10000 + (high - 0xD800) * 0x400 + (low - 0xDC00)), after)
      else some (Char.ofNat high, rest)
    | none => some (Char.ofNat high, rest)
  | _ => some (Char.ofNat high, rest)

/-- The rest of a string after its opening quote, read back to front into `acc`. -/
def readString : Nat → List Char → List Char → Option (String × List Char)
  | 0, _, _ => none
  | _, _, [] => none
  | fuel + 1, acc, c :: rest =>
    if c = '"' then some (String.ofList acc.reverse, rest)
    else if c.toNat < 32 then none
    else if c = '\\' then
      match rest with
      | '"' :: rest => readString fuel ('"' :: acc) rest
      | '\\' :: rest => readString fuel ('\\' :: acc) rest
      | '/' :: rest => readString fuel ('/' :: acc) rest
      | 'b' :: rest => readString fuel ('\x08' :: acc) rest
      | 'f' :: rest => readString fuel ('\x0c' :: acc) rest
      | 'n' :: rest => readString fuel ('\n' :: acc) rest
      | 'r' :: rest => readString fuel ('\r' :: acc) rest
      | 't' :: rest => readString fuel ('\t' :: acc) rest
      | 'u' :: rest =>
        match unicodeEscape? rest with
        | some (c, rest) => readString fuel (c :: acc) rest
        | none => none
      | _ => none
    else readString fuel (c :: acc) rest

def readExponent (cs : List Char) : Option (Int × List Char) :=
  match cs with
  | mark :: rest =>
    if mark = 'e' ∨ mark = 'E' then
      match Decimal.exponentRun ('e' :: rest) with
      | ([], _, _) => none
      | (_, size, after) => some (size, after)
    else none
  | [] => none

def readNumber (negative : Bool) (cs : List Char) : Option (Json × List Char) :=
  let (whole, rest) := Decimal.digitRun cs
  -- a leading zero stands alone
  let (whole, rest) :=
    match whole with
    | '0' :: more => (['0'], more ++ rest)
    | _ => (whole, rest)
  if whole.isEmpty then none
  else
    let (fraction, rest) :=
      match rest with
      | '.' :: after =>
        let (fraction, tail) := Decimal.digitRun after
        if fraction.isEmpty then ([], rest) else (fraction, tail)
      | _ => ([], rest)
    let exponent := readExponent rest
    let size := (exponent.map (·.1)).getD 0
    let after := (exponent.map (·.2)).getD rest
    if fraction.isEmpty ∧ exponent.isNone then
      let n : Int := Decimal.digitsValue whole
      some (.int (if negative then -n else n), after)
    else
      let x := Decimal.toFloat ⟨Decimal.digitsValue (whole ++ fraction), size - fraction.length⟩
      some (.float (if negative then -x else x), after)

def expect (word : List Char) (cs : List Char) : Option (List Char) :=
  if word.isPrefixOf cs then some (cs.drop word.length) else none

mutual

def readValue : Nat → List Char → Option (Json × List Char)
  | 0, _ => none
  | fuel + 1, cs =>
    match skipBlanks cs with
    | '"' :: rest => (readString rest.length [] rest).map fun (s, rest) => (.str s, rest)
    | '[' :: rest =>
      match skipBlanks rest with
      | ']' :: rest => some (.arr [], rest)
      | rest => (readItems fuel rest).map fun (items, rest) => (.arr items, rest)
    | '\x7b' :: rest =>
      match skipBlanks rest with
      | '\x7d' :: rest => some (.obj [], rest)
      | rest => (readFields fuel [] rest).map fun (fields, rest) => (.obj fields, rest)
    | 'n' :: rest => (expect "ull".toList rest).map fun rest => (.null, rest)
    | 't' :: rest => (expect "rue".toList rest).map fun rest => (.bool true, rest)
    | 'f' :: rest => (expect "alse".toList rest).map fun rest => (.bool false, rest)
    | 'N' :: rest => (expect "aN".toList rest).map fun rest => (.float (0.0 / 0.0), rest)
    | 'I' :: rest => (expect "nfinity".toList rest).map fun rest => (.float (1.0 / 0.0), rest)
    | '-' :: 'I' :: rest => (expect "nfinity".toList rest).map fun rest => (.float (-1.0 / 0.0), rest)
    | '-' :: rest => readNumber true rest
    | rest => readNumber false rest

def readItems : Nat → List Char → Option (List Json × List Char)
  | 0, _ => none
  | fuel + 1, cs => do
    let (item, rest) ← readValue fuel cs
    match skipBlanks rest with
    | ',' :: rest =>
      let (items, rest) ← readItems fuel rest
      some (item :: items, rest)
    | ']' :: rest => some ([item], rest)
    | _ => none

def readFields : Nat → List (String × Json) → List Char → Option (List (String × Json) × List Char)
  | 0, _, _ => none
  | fuel + 1, acc, cs =>
    match skipBlanks cs with
    | '"' :: rest => do
      let (key, rest) ← readString rest.length [] rest
      match skipBlanks rest with
      | ':' :: rest =>
        let (value, rest) ← readValue fuel rest
        let acc := insert key value acc
        match skipBlanks rest with
        | ',' :: rest => readFields fuel acc rest
        | '\x7d' :: rest => some (acc, rest)
        | _ => none
      | _ => none
    | _ => none

end

def parse? (s : String) : Option Json := do
  let cs := s.toList
  let (value, rest) ← readValue (2 * cs.length + 2) cs
  if (skipBlanks rest).isEmpty then some value else none

end CircuitWorks.Json
