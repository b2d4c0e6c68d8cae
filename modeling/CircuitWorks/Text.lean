/-!
Texts as lists of characters: blanks, lines, and splitting at marks.
-/

namespace CircuitWorks.Text

def isBlank (c : Char) : Bool :=
  let n := c.toNat
  (9 ≤ n && n ≤ 13) || (28 ≤ n && n ≤ 32) || n = 0x85 || n = 0xa0 || n = 0x1680 ||
    (0x2000 ≤ n && n ≤ 0x200a) || n = 0x2028 || n = 0x2029 || n = 0x202f || n = 0x205f || n = 0x3000

def isBreak (c : Char) : Bool :=
  let n := c.toNat
  (10 ≤ n && n ≤ 13) || (28 ≤ n && n ≤ 30) || n = 0x85 || n = 0x2028 || n = 0x2029

def stripEnd : List Char → List Char
  | [] => []
  | c :: cs =>
    match stripEnd cs with
    | [] => if isBlank c then [] else [c]
    | rest => c :: rest

def strip (cs : List Char) : List Char := stripEnd (cs.dropWhile isBlank)

def linesFrom (line : List Char) : List Char → List (List Char)
  | [] => if line.isEmpty then [] else [line.reverse]
  | '\r' :: '\n' :: rest => line.reverse :: linesFrom [] rest
  | c :: rest => if isBreak c then line.reverse :: linesFrom [] rest else linesFrom (c :: line) rest

def lines (cs : List Char) : List (List Char) := linesFrom [] cs

def cut? (phrase : List Char) : List Char → Option (List Char × List Char)
  | [] => if phrase.isEmpty then some ([], []) else none
  | c :: cs =>
    if phrase.isPrefixOf (c :: cs) then some ([], (c :: cs).drop phrase.length)
    else (cut? phrase cs).map fun (before, after) => (c :: before, after)

def contains (phrase cs : List Char) : Bool := (cut? phrase cs).isSome

def pieces (mark : Char) : List Char → List (List Char)
  | [] => [[]]
  | c :: cs =>
    match pieces mark cs with
    | [] => [[c]]
    | piece :: rest => if c = mark then [] :: piece :: rest else (c :: piece) :: rest

def items (mark : Char) (cs : List Char) : List (List Char) :=
  ((pieces mark cs).map strip).filter fun piece => !piece.isEmpty

/-- Removes a phrase wherever it occurs; `skip` characters of an occurrence are still to go. -/
def removeFrom (phrase : List Char) : Nat → List Char → List Char
  | _, [] => []
  | skip + 1, _ :: cs => removeFrom phrase skip cs
  | 0, c :: cs =>
    if !phrase.isEmpty && phrase.isPrefixOf (c :: cs) then
      removeFrom phrase (phrase.length - 1) cs
    else c :: removeFrom phrase 0 cs

def remove (phrase cs : List Char) : List Char := removeFrom phrase 0 cs

def digits? : List Char → Option Nat
  | [] => none
  | c :: cs =>
    let rec go (n : Nat) : List Char → Option Nat
      | [] => some n
      | '_' :: d :: rest => if d.isDigit then go (10 * n + (d.toNat - '0'.toNat)) rest else none
      | d :: rest => if d.isDigit then go (10 * n + (d.toNat - '0'.toNat)) rest else none
    if c.isDigit then go (c.toNat - '0'.toNat) cs else none

def int? (cs : List Char) : Option Int :=
  match strip cs with
  | '-' :: rest => (digits? rest).map fun n => -(n : Int)
  | '+' :: rest => (digits? rest).map fun n => (n : Int)
  | rest => (digits? rest).map fun n => (n : Int)

end CircuitWorks.Text
