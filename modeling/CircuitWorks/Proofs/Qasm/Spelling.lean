import CircuitWorks.Proofs.Lists
import CircuitWorks.Qasm.Parser
import Mathlib

/-!
Texts taken apart as they were put together: lines, pieces between marks, phrases cut out, and
numbers read back from their digits.
How instructions are spelled, and the way from the text of a program to its instructions.
-/

namespace CircuitWorks.Text

open List Bool

variable {mark : Char} {cs tail phrase : List Char} (ps : List Char) {parts : List (List Char)}

lemma not_mem_of_kind {kind : Char → Bool} (other : kind p = false) (chars : ∀ c ∈ cs, kind c = true) : p ∉ cs := by
  intro mem
  rw [chars p mem] at other
  cases other

lemma stripEnd_eq_self (last : ∀ c ∈ cs.getLast?, isBlank c = false) : stripEnd cs = cs := by
  induction cs with
  | nil => rfl
  | cons c rest ih =>
    cases rest with
    | nil => simp [stripEnd, last c rfl]
    | cons d more =>
      have inner := ih (by simpa using last)
      rw [stripEnd, inner]

lemma strip_eq_self (first : ∀ c ∈ cs.head?, isBlank c = false)
    (last : ∀ c ∈ cs.getLast?, isBlank c = false) : strip cs = cs := by
  cases cs with
  | nil => rfl
  | cons c rest =>
    have kept : (c :: rest).dropWhile isBlank = c :: rest := by simp [first c rfl]
    rw [strip, kept, stripEnd_eq_self last]

lemma strip_of_solid (solid : ∀ c ∈ cs, isBlank c = false) : strip cs = cs :=
  strip_eq_self (fun c first => solid c (mem_of_mem_head? first))
    fun c last => solid c (mem_of_mem_getLast? last)

lemma strip_cons (blank : isBlank c = true) (cs : List Char) : strip (c :: cs) = strip cs := by
  simp [strip, blank]

lemma stripEnd_append (cs : List Char) (blank : ∀ c ∈ tail, isBlank c = true) :
    stripEnd (cs ++ tail) = stripEnd cs := by
  induction cs with
  | nil =>
    induction tail with
    | nil => rfl
    | cons c rest ih =>
      obtain ⟨own, others⟩ := forall_mem_cons.mp blank
      have none : stripEnd rest = [] := ih others
      simp [stripEnd, none, own]
  | cons c rest ih => rw [cons_append, stripEnd, stripEnd, ih]

lemma strip_append (blank : ∀ c ∈ tail, isBlank c = true) (cs : List Char) : strip (cs ++ tail) = strip cs := by
  rw [strip, strip, dropWhile_append]
  split
  case isTrue none =>
    rw [isEmpty_iff.mp none]
    exact stripEnd_append [] fun c mem => blank c ((dropWhile_sublist _).subset mem)
  case isFalse => exact stripEnd_append _ blank

lemma isBreak_eq_false (solid : isBlank c = false) : isBreak c = false := by
  simp only [isBlank, isBreak, or_eq_false_iff, and_eq_false_iff, decide_eq_false_iff_not] at solid ⊢
  omega

lemma linesFrom_append (line : List Char) (plain : ∀ c ∈ cs, isBreak c = false) (rest : List Char) :
    linesFrom line (cs ++ '\n' :: rest) = (line.reverse ++ cs) :: linesFrom [] rest := by
  induction cs generalizing line with
  | nil => simp [linesFrom, isBreak]
  | cons c cs ih =>
    have own := plain c (by simp)
    have proper : c ≠ '\r' := by
      rintro rfl
      cases own
    rw [cons_append, linesFrom]
    · rw [own, if_neg (by simp), ih _ fun d mem => plain d (.tail _ mem)]
      simp
    · intro other same
      exact absurd same proper

lemma lines_append (plain : ∀ c ∈ cs, isBreak c = false) (rest : List Char) :
    lines (cs ++ '\n' :: rest) = cs :: lines rest := by
  rw [lines, linesFrom_append [] plain]
  rfl

lemma lines_flatMap (rows : List (List Char)) (plain : ∀ row ∈ rows, ∀ c ∈ row, isBreak c = false) :
    lines (rows.flatMap (· ++ ['\n'])) = rows := by
  induction rows with
  | nil => rfl
  | cons row rest ih =>
    have split : (row :: rest).flatMap (· ++ ['\n']) = row ++ '\n' :: rest.flatMap (· ++ ['\n']) := by simp
    rw [split, lines_append (plain row (by simp)), ih fun other mem => plain other (.tail _ mem)]

lemma cut?_append {before : List Char} (absent : p ∉ before) (after : List Char) :
    cut? (p :: ps) (before ++ (p :: ps ++ after)) = some (before, after) := by
  induction before with
  | nil =>
    have found : (p :: ps).isPrefixOf (p :: (ps ++ after)) = true := by
      rw [ isPrefixOf_iff_prefix]
      exact ⟨after, rfl⟩
    rw [nil_append, cons_append, cut?, if_pos found]
    simp
  | cons c rest ih =>
    have apart := not_or.mp (mem_cons.not.mp absent)
    have other : (p == c) = false := by simpa using apart.1
    rw [cons_append, cut?, isPrefixOf, other, ih apart.2]
    simp

lemma cut?_of_not_infix (some : phrase ≠ []) (absent : ¬phrase <:+: cs) : cut? phrase cs = none := by
  induction cs with
  | nil => simp [cut?, some]
  | cons c rest ih =>
    have notHere : phrase.isPrefixOf (c :: rest) = false := by
      rw [← not_eq_true, isPrefixOf_iff_prefix]
      exact fun here => absent here.isInfix
    have notLater : ¬phrase <:+: rest := fun later => absent (infix_cons later)
    rw [cut?, notHere, ih notLater]
    rfl

lemma exists_cut?_of_infix (found : phrase <:+: cs) :
    ∃ before after, cut? phrase cs = some (before, after) ∧ after <:+ cs := by
  induction cs with
  | nil =>
    obtain rfl := infix_nil.mp found
    exact ⟨[], [], rfl, suffix_rfl⟩
  | cons c rest ih =>
    rw [cut?]
    split
    case isTrue => exact ⟨[], _, rfl, drop_suffix ..⟩
    case isFalse other =>
      have later : phrase <:+: rest := by
        rcases infix_cons_iff.mp found with here | later
        · exact absurd ( isPrefixOf_iff_prefix.mpr here) other
        · exact later
      obtain ⟨before, after, cut, back⟩ := ih later
      exact ⟨c :: before, after, by rw [cut]; rfl, back.trans (suffix_cons c rest)⟩

lemma not_infix_of_not_mem (absent : p ∉ cs) : ¬p :: ps <:+: cs :=
  fun found => absent (found.subset (by simp))

lemma cut?_of_not_mem (absent : p ∉ cs) : cut? (p :: ps) cs = none :=
  cut?_of_not_infix (by simp) (not_infix_of_not_mem ps absent)

section

variable {phrase before after : List Char}

lemma suffix_of_append_cons (absent : c ∉ phrase) (found : phrase <:+ before ++ c :: after) : phrase <:+ after := by
  obtain ⟨x, same⟩ := found
  rcases append_eq_append_iff.mp same with ⟨_, _, rfl⟩ | ⟨_ | ⟨d, more⟩, _, tail⟩
  · simp at absent
  · rw [nil_append] at tail
    simp [← tail] at absent
  · exact ⟨more, (cons.inj tail).2.symm⟩

lemma infix_append_cons (absent : c ∉ phrase) (found : phrase <:+: before ++ c :: after) :
    phrase <:+: before ∨ phrase <:+: after := by
  obtain ⟨x, y, same⟩ := found
  rcases append_eq_append_iff.mp same with ⟨rest, rfl, _⟩ | ⟨_ | ⟨d, rest⟩, shape, tail⟩
  · exact .inl ⟨x, rest, rfl⟩
  · exact .inl ⟨x, [], by simpa using shape⟩
  · obtain ⟨rfl, rfl⟩ := cons.inj tail
    exact .inr ((suffix_of_append_cons absent ⟨x, shape⟩).isInfix.trans (infix_append_left ..))

lemma infix_concat (own : c ∉ phrase) (bare : c ∉ before)
    (found : phrase ++ [c] <:+: before ++ c :: after) : phrase <:+ before ∨ phrase ++ [c] <:+: after := by
  obtain ⟨x, y, same⟩ := found
  have split : (x ++ phrase) ++ c :: y = before ++ c :: after := by simpa using same
  rcases append_eq_append_iff.mp split with ⟨_ | ⟨d, rest⟩, rfl, tail⟩ | ⟨_ | ⟨d, rest⟩, shape, tail⟩
  · exact .inl ⟨x, by simp⟩
  · simp_all
  · exact .inl ⟨x, by simpa using shape⟩
  · obtain ⟨rfl, rfl⟩ := cons.inj tail
    obtain ⟨z, rfl⟩ := suffix_of_append_cons own ⟨x, shape⟩
    exact .inr ⟨z, y, by simp⟩

end

section

variable {phrase before after : List Char}

lemma prefix_of_append_cons (absent : c ∉ phrase) (found : phrase <+: before ++ c :: after) : phrase <+: before := by
  rcases prefix_or_prefix_of_prefix found (prefix_append before _) with own | ⟨more, rfl⟩
  · exact own
  · rcases more with _ | ⟨d, rest⟩
    · simp
    · have same := (cons_prefix_cons.mp ((prefix_append_right_inj before).mp found)).1
      simp [same] at absent

lemma removeFrom_append_cons (absent : c ∉ phrase) {skip : Nat} (inside : skip ≤ before.length) :
    removeFrom phrase skip (before ++ c :: after) = removeFrom phrase skip before ++ c :: remove phrase after := by
  induction before generalizing skip with
  | nil =>
    obtain rfl : skip = 0 := by simpa using inside
    have other : ¬(!phrase.isEmpty && phrase.isPrefixOf ([] ++ c :: after)) = true := by
      simp only [Bool.and_eq_true, Bool.not_eq_true', isPrefixOf_iff_prefix]
      rintro ⟨some, found⟩
      simp [prefix_nil.mp (prefix_of_append_cons absent found)] at some
    rw [nil_append] at other
    simp only [nil_append, removeFrom, remove, other]
    rfl
  | cons d rest ih =>
    cases skip with
    | zero =>
      have same : phrase.isPrefixOf (d :: rest ++ c :: after) = phrase.isPrefixOf (d :: rest) := by
        rw [Bool.eq_iff_iff, isPrefixOf_iff_prefix, isPrefixOf_iff_prefix]
        exact ⟨prefix_of_append_cons absent, fun own => own.trans (prefix_append ..)⟩
      rw [cons_append] at same
      rw [cons_append, removeFrom, removeFrom, same]
      split
      case isTrue found =>
        simp only [Bool.and_eq_true, isPrefixOf_iff_prefix] at found
        have short := found.2.length_le
        exact ih (by simp at short; omega)
      case isFalse => rw [ih (Nat.zero_le _), cons_append]
    | succ skip => exact ih (by simpa using inside)

lemma remove_append_cons (absent : c ∉ phrase) :
    remove phrase (before ++ c :: after) = remove phrase before ++ c :: remove phrase after :=
  removeFrom_append_cons absent (Nat.zero_le _)

lemma removeFrom_sublist (phrase : List Char) (skip : Nat) (cs : List Char) :
    (removeFrom phrase skip cs).Sublist cs := by
  induction cs generalizing skip with
  | nil => cases skip <;> exact .slnil
  | cons c rest ih =>
    cases skip with
    | zero =>
      rw [removeFrom]
      split
      · exact (ih _).cons c
      · exact (ih _).cons_cons c
    | succ skip => exact (ih _).cons c

lemma length_remove_lt (some : phrase ≠ []) (found : phrase <:+: cs) : (remove phrase cs).length < cs.length := by
  induction cs with
  | nil => exact absurd (infix_nil.mp found) some
  | cons c rest ih =>
    rw [remove, removeFrom]
    split
    case isTrue => exact Nat.lt_succ_of_le (removeFrom_sublist ..).length_le
    case isFalse other =>
      have later : phrase <:+: rest := by
        rcases infix_cons_iff.mp found with here | later
        · simp [some, isPrefixOf_iff_prefix.mpr here] at other
        · exact later
      exact Nat.succ_lt_succ (ih later)

end

lemma remove_of_not_infix (absent : ¬phrase <:+: cs) : remove phrase cs = cs := by
  induction cs with
  | nil => rfl
  | cons c rest ih =>
    have notHere : phrase.isPrefixOf (c :: rest) = false := by
      rw [← not_eq_true, isPrefixOf_iff_prefix]
      exact fun here => absent here.isInfix
    have inner : removeFrom phrase 0 rest = rest := ih fun later => absent (infix_cons later)
    simp [remove, removeFrom, notHere, inner]

lemma remove_singleton (p : Char) (cs : List Char) : remove [p] cs = cs.filter (· ≠ p) := by
  induction cs with
  | nil => rfl
  | cons c rest ih =>
    have inner : removeFrom [p] 0 rest = rest.filter (· ≠ p) := ih
    rw [remove, removeFrom, isPrefixOf]
    by_cases same : c = p
    · simp [same, inner]
    · have other : (p == c) = false := by simpa using Ne.symm same
      simp [same, other, inner]

lemma mem_intercalate (mem : c ∈ [mark].intercalate parts) : c = mark ∨ ∃ part ∈ parts, c ∈ part := by
  induction parts with
  | nil => cases mem
  | cons part rest ih =>
    cases rest with
    | nil => exact .inr ⟨part, by simp, by simpa using mem⟩
    | cons next more =>
      rw [intercalate_cons_cons, append_assoc] at mem
      grind

lemma pieces_ne_nil (mark : Char) (cs : List Char) : pieces mark cs ≠ [] := by
  cases cs with
  | nil => simp [pieces]
  | cons c rest =>
    rw [pieces]
    split
    · simp
    · split <;> simp

lemma pieces_of_not_mem (absent : mark ∉ cs) : pieces mark cs = [cs] := by
  induction cs with
  | nil => rfl
  | cons c rest ih =>
    have apart := not_or.mp (mem_cons.not.mp absent)
    rw [pieces, ih apart.2]
    simp [Ne.symm apart.1]

lemma pieces_append (absent : mark ∉ cs) (rest : List Char) :
    pieces mark (cs ++ mark :: rest) = cs :: pieces mark rest := by
  induction cs with
  | nil =>
    obtain ⟨piece, others, shape⟩ := exists_cons_of_ne_nil (pieces_ne_nil mark rest)
    rw [nil_append, pieces, shape]
    simp
  | cons c more ih =>
    have apart := not_or.mp (mem_cons.not.mp absent)
    rw [cons_append, pieces, ih apart.2]
    simp [Ne.symm apart.1]

lemma map_strip_pieces (plain : mark ∉ tail) (blank : ∀ c ∈ tail, isBlank c = true) (some : parts ≠ [])
    (bare : ∀ part ∈ parts, strip part = part) (unmarked : ∀ part ∈ parts, mark ∉ part) :
    (pieces mark ([mark].intercalate parts ++ tail)).map strip = parts := by
  induction parts with
  | nil => exact absurd rfl some
  | cons part rest ih =>
    have own := bare part (by simp)
    have absent := unmarked part (by simp)
    cases rest with
    | nil =>
      have whole : mark ∉ part ++ tail := by simp [absent, plain]
      rw [intercalate_singleton, pieces_of_not_mem whole, map_singleton, strip_append blank, own]
    | cons next more =>
      rw [intercalate_cons_cons, append_assoc, append_assoc, singleton_append, pieces_append absent, map_cons, own,
        ih (by simp) (fun p mem => bare p (.tail _ mem)) fun p mem => unmarked p (.tail _ mem)]

lemma items_intercalate (parts : List (List Char)) (whole : ∀ part ∈ parts, part ≠ [])
    (bare : ∀ part ∈ parts, strip part = part) (unmarked : ∀ part ∈ parts, mark ∉ part) :
    items mark ([mark].intercalate parts) = parts := by
  by_cases empty : parts = []
  · rw [empty]
    rfl
  · have split := map_strip_pieces not_mem_nil (by simp) empty bare unmarked
    rw [append_nil] at split
    rw [items, split, filter_eq_self]
    exact fun part mem => by simpa using whole part mem

lemma digits?_go (digits : ∀ c ∈ cs, c.isDigit = true) (n : Nat) :
    digits?.go n cs = some (Nat.ofDigitChars 10 cs n) := by
  induction cs generalizing n with
  | nil => rfl
  | cons c rest ih =>
    have own := digits c (by simp)
    rw [digits?.go, if_pos own, ih fun d mem => digits d (.tail _ mem), Nat.ofDigitChars_cons]
    rintro _ _ rfl _
    cases own

lemma isBlank_of_isDigit (digit : c.isDigit = true) : isBlank c = false := by
  have bounds : 48 ≤ c.toNat ∧ c.toNat ≤ 57 := by simpa [Char.isDigit, UInt32.le_iff_toNat_le] using digit
  simp only [isBlank, or_eq_false_iff, and_eq_false_iff, decide_eq_false_iff_not]
  omega

lemma isDigit_of_mem_toDigits (mem : c ∈ Nat.toDigits 10 k) : c.isDigit = true :=
  Nat.isDigit_of_mem_toDigits (by decide) (by decide) mem

lemma not_mem_toDigits (other : p.isDigit = false) (k : Nat) : p ∉ Nat.toDigits 10 k :=
  not_mem_of_kind other fun _ => isDigit_of_mem_toDigits

lemma int?_toDigits (k : Nat) : int? (Nat.toDigits 10 k) = some (k : Int) := by
  have bare : strip (Nat.toDigits 10 k) = Nat.toDigits 10 k :=
    strip_of_solid fun _ mem => isBlank_of_isDigit (isDigit_of_mem_toDigits mem)
  obtain ⟨c, rest, shape⟩ := exists_cons_of_ne_nil (Nat.toDigits_ne_nil (b := 10) (n := k))
  have digits : ∀ d ∈ c :: rest, d.isDigit = true := by
    intro d mem
    rw [← shape] at mem
    exact isDigit_of_mem_toDigits mem
  have own := digits c (by simp)
  have read : digits? (c :: rest) = some k := by
    rw [digits?, if_pos own, digits?_go fun d mem => digits d (.tail _ mem)]
    have whole : Nat.ofDigitChars 10 (c :: rest) 0 = k := by rw [← shape, Nat.ofDigitChars_ten_toDigits]
    rw [Nat.ofDigitChars_cons] at whole
    simpa using whole
  rw [int?, bare, shape]
  split
  case h_1 equation =>
    rw [(cons.inj equation).1] at own
    cases own
  case h_2 equation =>
    rw [(cons.inj equation).1] at own
    cases own
  case h_3 => rw [read]; rfl

end CircuitWorks.Text

namespace CircuitWorks.Qasm

open List Text Angle Bool

variable {c : Char} {cs : List Char}

inductive Action where
  | gate (word : String) (args : List UnitId)
  | measure (source target : UnitId)

inductive Sentence where
  | declare (kind : UnitKind) (r : Register)
  | act (test : Option (String × Nat)) (action : Action)

def instruction (word operands : List Char) : List Char := word ++ ' ' :: operands

def guardText (register : List Char) (value : Nat) : List Char :=
  ['i', 'f', '('] ++ (register ++ (['=', '='] ++ (Nat.toDigits 10 value ++ [')'])))

def operandText (args : List UnitId) : List Char := [','].intercalate (args.map (·.text.toList))

def arrowText (q b : UnitId) : List Char :=
  instruction q.text.toList (instruction ['-', '>'] b.text.toList)

def declarationWord : UnitKind → String
  | .qubit => "qreg"
  | .bit => "creg"

def Action.text : Action → List Char
  | gate word args => instruction word.toList (operandText args)
  | measure q b => instruction "measure".toList (arrowText q b)

def Sentence.text : Sentence → List Char
  | declare kind r => instruction (declarationWord kind).toList (operandText [⟨r.name, [r.size]⟩])
  | act none action => action.text
  | act (some (name, value)) action => instruction (guardText name.toList value) action.text

structure IsName (name : String) : Prop where
  some : name.toList ≠ []
  chars : ∀ c ∈ name.toList, isNamePart c = true

structure IsOperand (u : UnitId) : Prop where
  name : IsName u.register
  flat : u.index.length ≤ 1

def gateWords : List String := plainGates.map (·.1)

def Action.IsPlain : Action → Prop
  | gate word args => word ∈ gateWords ∧ args ≠ [] ∧ ∀ u ∈ args, IsOperand u
  | measure q b => IsOperand q ∧ IsOperand b

def Sentence.IsPlain : Sentence → Prop
  | declare _ r => IsName r.name
  | act test action => (∀ t ∈ test, IsName t.1) ∧ action.IsPlain

/-- A register that is measured whole and has a name that ends in the word for a definition. -/
def Action.IsGated : Action → Prop
  | gate .. => False
  | measure q _ => q.index = [] ∧ "gate".toList <:+ q.register.toList

def Sentence.IsGated : Sentence → Prop
  | declare .. => False
  | act _ action => action.IsGated

structure Tidy (cs : List Char) : Prop where
  first : ∃ c ∈ cs.head?, isBlank c = false
  last : ∃ c ∈ cs.getLast?, isBlank c = false
  plain : ∀ c ∈ cs, c ∉ [';', '\x7d'] ∧ isBreak c = false
  quiet : ¬['/', '/'] <:+: cs

section

def isUnitChar (c : Char) : Bool := isNamePart c || c = '[' || c = ']'

def isTextChar (c : Char) : Bool := isUnitChar c || ",->(=)".toList.contains c

lemma isBlank_of_isNamePart (part : isNamePart c = true) : isBlank c = false := by
  have kinds : ((65 ≤ c.toNat ∧ c.toNat ≤ 90 ∨ 97 ≤ c.toNat ∧ c.toNat ≤ 122) ∨
      48 ≤ c.toNat ∧ c.toNat ≤ 57) ∨ c = '_' := by
    simpa [isNamePart, Char.isAlphanum, Char.isAlpha, Char.isUpper, Char.isLower, Char.isDigit,
      UInt32.le_iff_toNat_le] using part
  have bounds : 48 ≤ c.toNat ∧ c.toNat ≤ 122 := by
    rcases kinds with inside | rfl
    · omega
    · decide
  simp only [isBlank, or_eq_false_iff, and_eq_false_iff, decide_eq_false_iff_not]
  omega

lemma isUnitChar_of_isNamePart (part : isNamePart c = true) : isUnitChar c = true := by
  rw [isUnitChar, part]
  rfl

lemma isUnitChar_of_mem_toDigits (digit : c ∈ Nat.toDigits 10 i) : isUnitChar c = true := by
  simp [isUnitChar, isNamePart, Char.isAlphanum, isDigit_of_mem_toDigits digit]

lemma isTextChar_of_isUnitChar (inside : isUnitChar c = true) : isTextChar c = true := by
  rw [isTextChar, inside]
  rfl

lemma isBlank_of_isTextChar (inside : isTextChar c = true) : isBlank c = false := by
  have marks : ∀ c ∈ ['[', ']'] ++ ",->(=)".toList, isBlank c = false := fun c mem =>
    eq_false_of_not_eq_true (any_eq_false.mp (by decide) c mem)
  simp only [isTextChar, isUnitChar, or_eq_true, decide_eq_true_eq, contains_iff_mem] at inside
  rcases inside with ((part | rfl) | rfl) | mark
  · exact isBlank_of_isNamePart part
  · decide
  · decide
  · exact marks c (mem_append_right _ mark)

lemma toList_text (name : String) (i : Nat) :
    (UnitId.text ⟨name, [i]⟩).toList = name.toList ++ '[' :: (Nat.toDigits 10 i ++ [']']) := by
  simp [UnitId.text]

variable {u : UnitId} {args : List UnitId}

lemma IsOperand.cases (known : IsOperand u) : (u.index = [] ∧ u.text.toList = u.register.toList) ∨
    ∃ i, u = ⟨u.register, [i]⟩ ∧ u.text.toList = u.register.toList ++ '[' :: (Nat.toDigits 10 i ++ [']']) := by
  obtain ⟨name, index⟩ := u
  rcases index with _ | ⟨i, _ | ⟨j, rest⟩⟩
  · exact .inl ⟨rfl, rfl⟩
  · exact .inr ⟨i, rfl, toList_text name i⟩
  · exact absurd known.flat (by simp)

lemma IsOperand.chars (known : IsOperand u) : ∀ c ∈ u.text.toList, isUnitChar c = true := by
  have named : ∀ c ∈ u.register.toList, isUnitChar c = true := fun c mem =>
    isUnitChar_of_isNamePart (known.name.chars c mem)
  rcases known.cases with ⟨_, text⟩ | ⟨i, _, text⟩ <;> rw [text]
  · exact named
  · refine forall_mem_append.mpr ⟨named, forall_mem_cons.mpr ⟨by decide, ?_⟩⟩
    exact forall_mem_append.mpr ⟨fun c => isUnitChar_of_mem_toDigits, all_eq_true.mp (by decide)⟩

lemma IsOperand.ne_nil (known : IsOperand u) : u.text.toList ≠ [] := by
  have named := known.name.some
  rcases known.cases with ⟨_, text⟩ | ⟨i, _, text⟩ <;> rw [text] <;> simp [named]

lemma IsOperand.strip_eq (known : IsOperand u) : strip u.text.toList = u.text.toList :=
  strip_of_solid fun c mem => isBlank_of_isTextChar (isTextChar_of_isUnitChar (known.chars c mem))

lemma operandText_chars (known : ∀ u ∈ args, IsOperand u) :
    ∀ c ∈ operandText args, isUnitChar c = true ∨ c = ',' := by
  intro c mem
  rcases mem_intercalate mem with rfl | ⟨part, inside, own⟩
  · exact .inr rfl
  · obtain ⟨u, listed, rfl⟩ := mem_map.mp inside
    exact .inl ((known u listed).chars c own)

lemma not_mem_operandText (other : isUnitChar p = false) (apart : p ≠ ',')
    (known : ∀ u ∈ args, IsOperand u) : p ∉ operandText args := by
  intro mem
  rcases operandText_chars known p mem with inside | same
  · rw [inside] at other
    cases other
  · exact apart same

lemma items_operandText (known : ∀ u ∈ args, IsOperand u) :
    items ',' (operandText args) = args.map (·.text.toList) := by
  refine items_intercalate _ ?_ ?_ ?_ <;> intro part mem <;>
    obtain ⟨u, inside, rfl⟩ := mem_map.mp mem
  · exact (known u inside).ne_nil
  · exact (known u inside).strip_eq
  · exact not_mem_of_kind (by decide) (known u inside).chars

end

section

structure IsSolid (cs : List Char) : Prop where
  some : cs ≠ []
  chars : ∀ c ∈ cs, isTextChar c = true

variable {front rest word : List Char} {args : List UnitId}

lemma IsSolid.tidy (solid : IsSolid front) : Tidy front := by
  have marks : ∀ c ∈ [';', '\x7d'], isTextChar c = false := fun c mem =>
    eq_false_of_not_eq_true (any_eq_false.mp (by decide) c mem)
  have sound : ∀ c ∈ front, isBlank c = false := fun c mem => isBlank_of_isTextChar (solid.chars c mem)
  refine ⟨⟨_, head?_eq_some_head solid.some, sound _ (head_mem _)⟩,
    ⟨_, getLast?_eq_some_getLast solid.some, sound _ (getLast_mem _)⟩, fun c mem => ?_,
    not_infix_of_not_mem _ (not_mem_of_kind (by decide) solid.chars)⟩
  refine ⟨fun mark => ?_, isBreak_eq_false (sound c mem)⟩
  exact absurd (solid.chars c mem) (by simp [marks c mark])

lemma IsSolid.not_infix (solid : IsSolid front) : ¬"gate ".toList <:+: front := fun found =>
  not_mem_of_kind (p := ' ') (by decide) solid.chars (found.subset (by decide))

lemma Tidy.instruction (tidy : Tidy rest) (before : Tidy front) : Tidy (instruction front rest) := by
  obtain ⟨c, final, last⟩ := tidy.last
  obtain ⟨d, head, first⟩ := before.first
  rw [Option.mem_def] at final head
  refine ⟨⟨d, ?_, first⟩, ⟨c, ?_, last⟩, ?_, fun found => ?_⟩
  · simp [Qasm.instruction, head?_append, head]
  · simp [Qasm.instruction, getLast?_append, getLast?_cons, final]
  · exact forall_mem_append.mpr ⟨before.plain, forall_mem_cons.mpr ⟨by decide, tidy.plain⟩⟩
  · rcases infix_append_cons (by decide) found with early | later
    · exact before.quiet early
    · exact tidy.quiet later

/-- The word for a definition is found at the end of a word, in front of the blank. -/
lemma IsSolid.infix_instruction (solid : IsSolid front) :
    "gate ".toList <:+: instruction front rest ↔ "gate".toList <:+ front ∨ "gate ".toList <:+: rest := by
  have ended : "gate ".toList = "gate".toList ++ [' '] := by decide
  rw [ended]
  refine ⟨infix_concat (by decide) (not_mem_of_kind (by decide) solid.chars), ?_⟩
  rintro (⟨before, rfl⟩ | ⟨before, after, rfl⟩)
  · exact ⟨before, rest, by simp [instruction]⟩
  · exact ⟨front ++ ' ' :: before, after, by simp [instruction]⟩

lemma ungated_concat (other : 'e' ≠ c) (cs : List Char) : ¬"gate".toList <:+ cs ++ [c] :=
  fun found => other (by simpa using found.getLast (by decide))

def words : List String := gateWords ++ ["qreg", "creg"]

structure IsWord (word : List Char) : Prop where
  letters : ∀ c ∈ word, isNamePart c = true
  free : ¬['i', 'f'] <+: word ++ [' ']
  ungated : ¬"gate".toList <:+ word
  some : word ≠ []

lemma isWord_of_mem {word : String} (known : word ∈ words) : IsWord word.toList := by
  have all : ∀ w ∈ words, w.toList.all isNamePart = true ∧ ¬['i', 'f'] <+: w.toList ++ [' '] ∧
      ¬"gate".toList <:+ w.toList ∧ w.toList ≠ [] := by decide
  obtain ⟨letters, free, ungated, some⟩ := all word known
  exact ⟨all_eq_true.mp letters, free, ungated, some⟩

lemma isWord_measure : IsWord "measure".toList := isWord_of_mem (by decide)

lemma IsWord.not_mem (known : IsWord word) (other : isNamePart p = false) : p ∉ word :=
  not_mem_of_kind other known.letters

lemma solid_of_isNamePart (some : front ≠ []) (chars : ∀ c ∈ front, isNamePart c = true) : IsSolid front :=
  ⟨some, fun c mem => isTextChar_of_isUnitChar (isUnitChar_of_isNamePart (chars c mem))⟩

lemma IsWord.solid (known : IsWord word) : IsSolid word :=
  solid_of_isNamePart known.some known.letters

lemma IsOperand.solid (known : IsOperand u) : IsSolid u.text.toList :=
  ⟨known.ne_nil, fun c mem => isTextChar_of_isUnitChar (known.chars c mem)⟩

lemma solid_operandText (some : args ≠ []) (operands : ∀ u ∈ args, IsOperand u) : IsSolid (operandText args) := by
  refine ⟨fun empty => ?_, fun c mem => ?_⟩
  · have none := items_operandText operands
    rw [empty] at none
    exact some (map_eq_nil_iff.mp none.symm)
  · rcases operandText_chars operands c mem with inside | rfl
    · exact isTextChar_of_isUnitChar inside
    · decide

lemma IsOperand.gated_text (known : IsOperand u) :
    "gate".toList <:+ u.text.toList ↔ u.index = [] ∧ "gate".toList <:+ u.register.toList := by
  rcases known.cases with ⟨whole, text⟩ | ⟨i, single, text⟩ <;> rw [text]
  · simp [whole]
  · have ended : ¬"gate".toList <:+ (u.register.toList ++ '[' :: Nat.toDigits 10 i) ++ [']'] :=
      ungated_concat (by decide) _
    rw [single]
    simpa using ended

lemma solid_guardText {name : String} (named : IsName name) (value : Nat) :
    IsSolid (guardText name.toList value) ∧ ¬"gate".toList <:+ guardText name.toList value := by
  have split : guardText name.toList value =
      (['i', 'f', '('] ++ (name.toList ++ (['=', '='] ++ Nat.toDigits 10 value))) ++ [')'] := by
    simp [guardText]
  have own := (solid_of_isNamePart named.some named.chars).chars
  have digits : ∀ c ∈ Nat.toDigits 10 value, isTextChar c = true := fun c mem =>
    isTextChar_of_isUnitChar (isUnitChar_of_mem_toDigits mem)
  refine ⟨⟨by simp [guardText], ?_⟩, split ▸ ungated_concat (by decide) _⟩
  simp only [guardText, forall_mem_append]
  exact ⟨all_eq_true.mp (by decide), own, all_eq_true.mp (by decide), digits, all_eq_true.mp (by decide)⟩

lemma tidy_gate {word : String} (known : word ∈ words) (some : args ≠ [])
    (operands : ∀ u ∈ args, IsOperand u) : Tidy (instruction word.toList (operandText args)) ∧
    ¬"gate ".toList <:+: instruction word.toList (operandText args) := by
  have spelled := isWord_of_mem known
  have solid := solid_operandText some operands
  refine ⟨solid.tidy.instruction spelled.solid.tidy, ?_⟩
  rw [spelled.solid.infix_instruction]
  exact not_or.mpr ⟨spelled.ungated, solid.not_infix⟩

lemma Action.tidy {a : Action} (plain : a.IsPlain) : Tidy a.text ∧ ("gate ".toList <:+: a.text ↔ a.IsGated) := by
  cases a with
  | gate word args =>
    obtain ⟨tidy, free⟩ := tidy_gate (mem_append_left _ plain.1) plain.2.1 plain.2.2
    exact ⟨tidy, iff_of_false free id⟩
  | measure q b =>
    have arrow : IsSolid ['-', '>'] := ⟨by decide, all_eq_true.mp (by decide)⟩
    have source := plain.1.solid
    have target := plain.2.solid
    refine ⟨((target.tidy.instruction arrow.tidy).instruction source.tidy).instruction isWord_measure.solid.tidy, ?_⟩
    rw [Action.text, arrowText, isWord_measure.solid.infix_instruction, source.infix_instruction,
      arrow.infix_instruction, plain.1.gated_text]
    exact (or_iff_right isWord_measure.ungated).trans
      (or_iff_left (not_or.mpr ⟨by decide, target.not_infix⟩))

lemma Sentence.tidy {t : Sentence} (plain : t.IsPlain) : Tidy t.text ∧ ("gate ".toList <:+: t.text ↔ t.IsGated) := by
  cases t with
  | declare kind r =>
    have known : declarationWord kind ∈ words := by cases kind <;> decide
    have operand : ∀ u ∈ [(⟨r.name, [r.size]⟩ : UnitId)], IsOperand u :=
      forall_mem_singleton.mpr ⟨plain, by simp⟩
    obtain ⟨tidy, free⟩ := tidy_gate known (by simp) operand
    exact ⟨tidy, iff_of_false free id⟩
  | act test action =>
    obtain ⟨tidy, gated⟩ := Action.tidy plain.2
    cases test with
    | none => exact ⟨tidy, gated⟩
    | some test =>
      obtain ⟨solid, ungated⟩ := solid_guardText (plain.1 test rfl) test.2
      refine ⟨tidy.instruction solid.tidy, solid.infix_instruction.trans ?_⟩
      rw [gated]
      exact or_iff_right ungated

end

section

def body (instructions : List (List Char)) : List Char :=
  ['\n'].intercalate (instructions.map (· ++ [';']))

def later (blank : Char) (instructions : List (List Char)) : List Char :=
  instructions.flatMap fun cs => blank :: (cs ++ [';'])

lemma intercalate_cons_eq_append (row : List Char) (rows : List (List Char)) :
    ['\n'].intercalate (row :: rows) = row ++ rows.flatMap ('\n' :: ·) := by
  induction rows generalizing row with
  | nil => simp
  | cons next more ih => simp [intercalate_cons_cons, ih next]

lemma body_cons (cs : List Char) (rest : List (List Char)) : body (cs :: rest) = cs ++ ';' :: later '\n' rest := by
  simp [body, later, intercalate_cons_eq_append, flatMap_map]

variable {instructions : List (List Char)}

lemma Tidy.strip_eq (tidy : Tidy cs) : strip cs = cs := by
  obtain ⟨c, head, first⟩ := tidy.first
  obtain ⟨d, final, last⟩ := tidy.last
  refine strip_eq_self (fun e same => ?_) fun e same => ?_
  · rw [Option.mem_unique same head, first]
  · rw [Option.mem_unique same final, last]

lemma Tidy.ne_nil (tidy : Tidy cs) : cs ≠ [] := by
  rintro rfl
  obtain ⟨c, head, -⟩ := tidy.first
  cases head

lemma Tidy.not_mem (tidy : Tidy cs) : ';' ∉ cs := fun mem =>
  (tidy.plain _ mem).1 (by simp)

lemma Tidy.items_append (tidy : Tidy cs) (rest : List Char) :
    items ';' (cs ++ ';' :: rest) = cs :: items ';' rest := by
  rw [items, pieces_append tidy.not_mem, map_cons, tidy.strip_eq,
    filter_cons_of_pos (by simpa using tidy.ne_nil), items]

lemma items_later {blank : Char} (mark : blank ≠ ';') (empty : isBlank blank = true)
    (tidy : ∀ cs ∈ instructions, Tidy cs) (tail : List Char) :
    items ';' (later blank instructions ++ tail) = instructions ++ items ';' tail := by
  induction instructions with
  | nil => rfl
  | cons cs rest ih =>
    have own := tidy cs (by simp)
    have unmarked : ';' ∉ blank :: cs := by simpa [mark.symm] using own.not_mem
    have split : later blank (cs :: rest) ++ tail = blank :: cs ++ ';' :: (later blank rest ++ tail) := by simp [later]
    have others := ih fun other mem => tidy other (.tail _ mem)
    rw [items] at others
    rw [split, items, pieces_append unmarked, map_cons, strip_cons empty, own.strip_eq,
      filter_cons_of_pos (by simpa using own.ne_nil), others]
    rfl

lemma items_lines (tidy : ∀ cs ∈ instructions, Tidy cs) : items ';' (later '\n' instructions) = instructions := by
  have all : items ';' (later '\n' instructions ++ []) = instructions ++ [] :=
    items_later (by decide) (by decide) tidy []
  rwa [append_nil, append_nil] at all

lemma items_body (tidy : ∀ cs ∈ instructions, Tidy cs) : items ';' (body instructions) = instructions := by
  cases instructions with
  | nil => rfl
  | cons cs rest =>
    rw [body_cons, (tidy cs (by simp)).items_append, items_lines fun other mem => tidy other (.tail _ mem)]

lemma free_later (free : ∀ cs ∈ instructions, ¬"gate ".toList <:+: cs) :
    ¬"gate ".toList <:+: later '\n' instructions := by
  induction instructions with
  | nil => decide
  | cons cs rest ih =>
    have split : later '\n' (cs :: rest) = [] ++ '\n' :: (cs ++ ';' :: later '\n' rest) := by simp [later]
    intro found
    rw [split] at found
    rcases infix_append_cons (by decide) found with none | inside
    · exact absurd none (by decide)
    · rcases infix_append_cons (by decide) inside with own | others
      · exact free cs (by simp) own
      · exact ih (fun other mem => free other (.tail _ mem)) others

lemma free_body (free : ∀ cs ∈ instructions, ¬"gate ".toList <:+: cs) : ¬"gate ".toList <:+: body instructions := by
  cases instructions with
  | nil => decide
  | cons cs rest =>
    intro found
    rw [body_cons] at found
    rcases infix_append_cons (by decide) found with own | others
    · exact free cs (by simp) own
    · exact free_later (fun other mem => free other (.tail _ mem)) others

lemma takeDefinitions_of_not_infix (free : ¬"gate ".toList <:+: cs) (header : String)
    (fuel : Nat) (definitions : List Definition) :
    takeDefinitions header fuel definitions cs = .ok (definitions, cs) := by
  cases fuel with
  | zero => rfl
  | succ fuel =>
    have absent : takeDefinition cs = .ok none := by rw [takeDefinition, cut?_of_not_infix (by decide) free]
    rw [takeDefinitions, absent]
    rfl

lemma Tidy.cleanLine_eq (tidy : Tidy cs) : cleanLine (cs ++ [';']) = cs ++ [';'] := by
  have quiet : ¬['/', '/'] <:+: cs ++ [';'] := by
    intro found
    rcases infix_append_cons (by decide) found with own | none
    · exact tidy.quiet own
    · exact absurd none (by decide)
  obtain ⟨c, head, first⟩ := tidy.first
  rw [cleanLine, cut?_of_not_infix (by decide) quiet]
  refine strip_eq_self (fun d same => ?_) fun d same => ?_
  · rw [head?_append_of_ne_nil _ tidy.ne_nil] at same
    rw [Option.mem_unique same head, first]
  · rw [getLast?_concat] at same
    cases same
    decide

structure IsRow (row : List Char) : Prop where
  whole : ∀ c ∈ row, isBreak c = false
  clean : cleanLine row = row
  some : row ≠ []

lemma Tidy.isRow (tidy : Tidy cs) : IsRow (cs ++ [';']) where
  whole c mem := by
    rcases mem_append.mp mem with own | last
    · exact (tidy.plain c own).2
    · rw [mem_singleton.mp last]
      decide
  clean := tidy.cleanLine_eq
  some := by simp

lemma infix_body (mem : cs ∈ instructions) : cs <:+: body instructions := by
  obtain ⟨first, rest, rfl⟩ := exists_cons_of_ne_nil (ne_nil_of_mem mem)
  rw [body_cons]
  rcases mem_cons.mp mem with rfl | other
  · exact (prefix_append ..).isInfix
  · have row : '\n' :: (cs ++ [';']) <:+: later '\n' rest :=
      infix_of_mem_flatten (mem_map.mpr ⟨cs, other, rfl⟩)
    have own : cs <:+: '\n' :: (cs ++ [';']) := ⟨['\n'], [';'], rfl⟩
    exact own.trans (row.trans ⟨first ++ [';'], [], by simp⟩)

lemma not_mem_body (tidy : ∀ cs ∈ instructions, Tidy cs) : '\x7d' ∉ body instructions := by
  have absent : ∀ cs ∈ instructions, '\x7d' ∉ cs := fun cs mem inside =>
    ((tidy cs mem).plain _ inside).1 (by simp)
  cases instructions with
  | nil => simp [body]
  | cons cs rest =>
    rw [body_cons]
    simpa [later] using absent

def headers : List String := ["qelib1", "hqslib1"]

def rowsText (file : String) (rows : List (List Char)) : List Char :=
  (preamble file).toList ++ rows.flatMap (· ++ ['\n'])

lemma readPreamble_rowsText {file : String} (known : file ∈ headers) {rows : List (List Char)}
    (fine : ∀ row ∈ rows, IsRow row) : readPreamble (rowsText file rows) = .ok (file, ['\n'].intercalate rows) := by
  have facts : ∀ file ∈ headers, (preamble file).toList =
        ["OPENQASM 2.0;".toList, ("include \"" ++ file ++ ".inc\";").toList, []].flatMap (· ++ ['\n']) ∧
      ("include \"" ++ file ++ ".inc\";").toList.all (!isBreak ·) = true ∧
      cleanLine ("include \"" ++ file ++ ".inc\";").toList = ("include \"" ++ file ++ ".inc\";").toList ∧
      includeName? ("include \"" ++ file ++ ".inc\";").toList = some file.toList := by decide
  obtain ⟨opening, whole, clean, named⟩ := facts file known
  generalize ("include \"" ++ file ++ ".inc\";").toList = second at opening whole clean named
  have first : "OPENQASM 2.0;".toList.all (!isBreak ·) = true := by decide
  simp only [all_eq_true, not_eq_true'] at first whole
  have split : lines (rowsText file rows) = "OPENQASM 2.0;".toList :: second :: [] :: rows := by
    rw [rowsText, opening, ← flatMap_append]
    refine lines_flatMap _ fun row mem => ?_
    simp only [cons_append, nil_append, mem_cons] at mem
    rcases mem with rfl | rfl | rfl | inside
    · exact first
    · exact whole
    · exact fun c none => absurd none not_mem_nil
    · exact (fine row inside).whole
  have cleaned : rows.map cleanLine = rows := by
    conv_rhs => rw [← map_id rows]
    exact map_congr_left fun row mem => (fine row mem).clean
  have kept : rows.filter (fun row => !row.isEmpty) = rows := by
    rw [filter_eq_self]
    exact fun row mem => by simpa using (fine row mem).some
  have rows : ((lines (rowsText file rows)).map cleanLine).filter (fun row => !row.isEmpty) =
      "OPENQASM 2.0;".toList :: second :: rows := by
    have start : cleanLine "OPENQASM 2.0;".toList = "OPENQASM 2.0;".toList ∧ cleanLine [] = [] := by decide
    have some : second ≠ [] := by
      rintro rfl
      cases named
    rw [split]
    simp only [map_cons, start.1, start.2, clean, cleaned]
    simp [kept, some]
  have version : (!"OPENQASM 2.0".toList.isPrefixOf "OPENQASM 2.0;".toList) = false := by decide
  have proper : ¬(file ≠ "qelib1" ∧ file ≠ "hqslib1") := by
    rintro ⟨first, second⟩
    simp [headers, first, second] at known
  unfold readPreamble
  rw [rows]
  simp only [version, named, String.ofList_toList, proper]
  rfl

def programText (file : String) (instructions : List (List Char)) : List Char :=
  rowsText file (instructions.map (· ++ [';']))

variable {file : String} (known : file ∈ headers)

include known

lemma readPreamble_programText (tidy : ∀ cs ∈ instructions, Tidy cs) :
    readPreamble (programText file instructions) = .ok (file, body instructions) := by
  refine readPreamble_rowsText known fun row mem => ?_
  obtain ⟨cs, inside, rfl⟩ := mem_map.mp mem
  exact (tidy cs inside).isRow

lemma parse_programText (tidy : ∀ cs ∈ instructions, Tidy cs)
    (free : ∀ cs ∈ instructions, ¬"gate ".toList <:+: cs) : parse (programText file instructions) =
    instructions.foldlM (readInstruction file []) ⟨Circuit.empty, []⟩ >>= (pure ·.circuit) := by
  rw [parse, readPreamble_programText known tidy]
  simp only [bind, Except.bind, takeDefinitions_of_not_infix (free_body free), items_body tidy]

/-- The word for a definition takes a closing brace, wherever it stands. -/
lemma parse_of_infix (tidy : ∀ cs ∈ instructions, Tidy cs) (found : "gate ".toList <:+: body instructions) :
    parse (programText file instructions) = .error .gateDefinition := by
  obtain ⟨before, after, cut, back⟩ := exists_cut?_of_infix found
  have unclosed : cut? ['\x7d'] after = none :=
    cut?_of_not_mem [] fun mem => not_mem_body tidy (back.subset mem)
  have refused : takeDefinition (body instructions) = .error .gateDefinition := by
    simp only [takeDefinition, cut, unclosed]
  obtain ⟨fuel, some⟩ : ∃ fuel, (body instructions).length = fuel + 1 :=
    Nat.exists_eq_succ_of_ne_zero (by have := found.length_le; simp at this; omega)
  rw [parse, readPreamble_programText known tidy]
  simp only [bind, Except.bind, some, takeDefinitions, refused]

end

end CircuitWorks.Qasm
