import CircuitWorks.Logic.Basic
import Mathlib.Data.Int.Bitwise
import CircuitWorks.Proofs.Lists

/-!
Logic expressions bit by bit.
-/

namespace CircuitWorks.Logic

lemma testBit_bitAnd (a b : Int) (i : Nat) : (bitAnd a b).testBit i = (a.testBit i && b.testBit i) := by
  rcases a with m | m <;> rcases b with n | n <;>
    simp only [bitAnd, Int.testBit, Nat.testBit_and, Nat.testBit_or, Nat.testBit_xor] <;>
    cases m.testBit i <;> cases n.testBit i <;> rfl

lemma testBit_bitOr (a b : Int) (i : Nat) : (bitOr a b).testBit i = (a.testBit i || b.testBit i) := by
  rcases a with m | m <;> rcases b with n | n <;>
    simp only [bitOr, Int.testBit, Nat.testBit_and, Nat.testBit_or, Nat.testBit_xor] <;>
    cases m.testBit i <;> cases n.testBit i <;> rfl

lemma testBit_bitXor (a b : Int) (i : Nat) : (bitXor a b).testBit i = (a.testBit i ^^ b.testBit i) := by
  rcases a with m | m <;> rcases b with n | n <;>
    simp only [bitXor, Int.testBit, Nat.testBit_xor] <;>
    cases m.testBit i <;> cases n.testBit i <;> rfl

namespace Constant

lemma toInt_and (a b : Constant) : (a.and b).toInt = bitAnd a.toInt b.toInt := by
  rcases a with _ | x <;> rcases b with _ | y <;> first | rfl | (cases x <;> cases y <;> rfl)

lemma toInt_or (a b : Constant) : (a.or b).toInt = bitOr a.toInt b.toInt := by
  rcases a with _ | x <;> rcases b with _ | y <;> first | rfl | (cases x <;> cases y <;> rfl)

lemma toInt_xor (a b : Constant) : (a.xor b).toInt = bitXor a.toInt b.toInt := by
  rcases a with _ | x <;> rcases b with _ | y <;> first | rfl | (cases x <;> cases y <;> rfl)

def digit (c : Constant) (i : Nat) : Bool := c.toInt.testBit i

def SameDigits (width : Nat) (c d : Constant) : Prop := ∀ i < width, d.digit i = c.digit i

end Constant

namespace Exp

variable {U B V : Type} {constant : Constant → Prop} {variable_ : V → Prop} {operator : B → Prop}
  {e : Exp U B V}

def Over (operator : B → Prop) (constant : Constant → Prop) (variable_ : V → Prop) :
    Exp U B V → Prop
  | const c => constant c
  | var v => variable_ v
  | unary _ _ => False
  | binary op x y =>
    operator op ∧ x.Over operator constant variable_ ∧ y.Over operator constant variable_

lemma Over.imp {operator' : B → Prop} {constant' : Constant → Prop} {variable_' : V → Prop}
    (onOperator : ∀ op, operator op → operator' op) (onConstant : ∀ c, constant c → constant' c)
    (onVariable : ∀ v, variable_ v → variable_' v) (inside : e.Over operator constant variable_) :
    e.Over operator' constant' variable_' := by
  induction e with
  | const c => exact onConstant c inside
  | var v => exact onVariable v inside
  | unary _ _ => exact inside.elim
  | binary op x y ihx ihy => exact ⟨onOperator op inside.1, ihx inside.2.1, ihy inside.2.2⟩

lemma Over.vars (inside : e.Over operator constant variable_) : ∀ v ∈ e.vars, variable_ v := by
  induction e with
  | const c => simp [Exp.vars]
  | var v =>
    intro w mem
    obtain rfl := List.mem_singleton.mp mem
    exact inside
  | unary _ _ => exact inside.elim
  | binary op x y ihx ihy =>
    intro v mem
    exact (List.mem_append.mp mem).elim (ihx inside.2.1 v) (ihy inside.2.2 v)

def isConstant : Exp U B V → Bool
  | const _ => true
  | _ => false

def renew : Exp U B V → List Nat → Exp U B V × List Nat
  | const _, n :: rest => (const (.int n), rest)
  | e, numbers => (e, numbers)

/-- The expression with the next of some numbers in the places of its constants, and the numbers left
over. The constants inside the operands of an operation come before those that are operands. -/
def refill : Exp U B V → List Nat → Exp U B V × List Nat
  | const c, numbers => (const c, numbers)
  | var v, numbers => (var v, numbers)
  | unary op x, numbers =>
    let (x, numbers) := x.refill numbers
    let (x, numbers) := x.renew numbers
    (unary op x, numbers)
  | binary op x y, numbers =>
    let (x, numbers) := x.refill numbers
    let (y, numbers) := y.refill numbers
    let (x, numbers) := x.renew numbers
    let (y, numbers) := y.renew numbers
    (binary op x y, numbers)

lemma refill_binary (op : B) {x y x' y' x'' y'' : Exp U B V}
    (left : x.refill n₀ = (x', n₁)) (right : y.refill n₁ = (y', n₂))
    (first : x'.renew n₂ = (x'', n₃)) (second : y'.renew n₃ = (y'', n₄)) :
    (binary op x y).refill n₀ = (binary op x'' y'', n₄) := by
  simp only [refill, left, right, first, second]

/-- Expressions that differ in their constants alone, each of which has changed in some way. -/
inductive Varies (change : Constant → Constant → Prop) : Exp U B V → Exp U B V → Prop
  | const {c d : Constant} (changed : change c d) : Varies change (const c) (const d)
  | var (v : V) : Varies change (var v) (var v)
  | unary (op : U) {x x' : Exp U B V} (inner : Varies change x x') :
    Varies change (unary op x) (unary op x')
  | binary (op : B) {x x' y y' : Exp U B V} (left : Varies change x x') (right : Varies change y y') :
    Varies change (binary op x y) (binary op x' y')

lemma Varies.digit [Operators U B] {change : Constant → Constant → Prop}
    (pointwise : ∀ op, operator op → ∃ f : Bool → Bool → Bool, ∀ c d : Constant,
    (Operators.binaryValue U op c d).digit i = f (c.digit i) (d.digit i))
    (kept : ∀ c d, constant c → change c d → d.digit i = c.digit i)
    (inside : e.Over operator constant variable_) (varies : e.Varies change e') (env : V → Constant) :
    (e'.value env).digit i = (e.value env).digit i := by
  induction varies with
  | const changed => exact kept _ _ inside changed
  | var v => rfl
  | unary _ _ _ => exact inside.elim
  | binary op _ _ ihx ihy =>
    obtain ⟨f, digits⟩ := pointwise op inside.1
    rw [value, value, digits, digits, ihx inside.2.1, ihy inside.2.2]

end Exp

open List Operators Constant Except

/-- Operators that look at the numbers of their arguments alone and keep within a range, in which an
absorbing argument is the result. -/
structure Operators.Sound (U B : Type) [Operators U B] (range : Int → Prop) : Prop where
  unary_congr : ∀ (op : U) (c d : Constant), c.toInt = d.toInt →
    (unaryValue B op c).toInt = (unaryValue B op d).toInt
  binary_congr : ∀ (op : B) (c c' d d' : Constant), c.toInt = c'.toInt → d.toInt = d'.toInt →
    (binaryValue U op c d).toInt = (binaryValue U op c' d').toInt
  unary_range : ∀ (op : U) (c : Constant), range c.toInt → range (unaryValue B op c).toInt
  binary_range : ∀ (op : B) (c d : Constant), range c.toInt → range d.toInt →
    range (binaryValue U op c d).toInt
  absorbing : ∀ (op : B) (n : Int), absorbing U op = some n → ∀ c d : Constant,
    range c.toInt → range d.toInt → c.toInt = n ∨ d.toInt = n →
    (binaryValue U op c d).toInt = n

def IsBitNumber (n : Int) : Prop := n = 0 ∨ n = 1

lemma isBitNumber_truth (b : Bool) : IsBitNumber (truth b).toInt := by
  cases b
  · exact .inl rfl
  · exact .inr rfl

lemma truth_ne_zero (b : Bool) : (truth b).toInt ≠ 0 ↔ b = true := by cases b <;> decide

lemma falsity_ne_zero (b : Bool) : (truth b).complement.toInt ≠ 0 ↔ b = false := by
  cases b <;> decide

lemma Constant.toInt_complement (c : Constant) : c.complement.toInt = 1 - c.toInt := rfl

lemma bitOperators_sound : Sound BitUnary BitBinary IsBitNumber where
  unary_congr op c d same := by
    simp only [unaryValue, toInt_complement, same]
  binary_congr op c c' d d' left right := by
    cases op <;>
      simp only [binaryValue, toInt_and, toInt_or, toInt_xor, same, left, right]
  unary_range op c inside := by
    rcases inside with zero | one
    · exact .inr (by simp [unaryValue, toInt_complement, zero])
    · exact .inl (by simp [unaryValue, toInt_complement, one])
  binary_range op c d left right := by
    cases op with
    | eq => exact isBitNumber_truth _
    | and | or | xor =>
      simp only [binaryValue, toInt_and, toInt_or, toInt_xor]
      rcases left with left | left <;> rcases right with right | right <;> rw [left, right] <;>
        first | exact .inl rfl | exact .inr rfl
  absorbing op n absorbs c d left right decides := by
    cases op with
    | eq | xor => cases absorbs
    | and | or =>
      obtain rfl := Option.some.inj absorbs
      simp only [binaryValue, toInt_and, toInt_or]
      rcases left with left | left <;> rcases right with right | right <;>
        rw [left, right] at decides ⊢ <;> revert decides <;> decide

lemma bitAnd_zero_left (n : Int) : bitAnd 0 n = 0 := by
  cases n with
  | ofNat m => exact congrArg Int.ofNat (Nat.zero_and m)
  | negSucc m => exact congrArg (fun k : Nat => (0 ^^^ k : Nat).cast) (Nat.zero_and m)

lemma bitAnd_zero_right (n : Int) : bitAnd n 0 = 0 := by
  cases n with
  | ofNat m => exact congrArg Int.ofNat (Nat.and_zero m)
  | negSucc m => exact congrArg (fun k : Nat => (0 ^^^ k : Nat).cast) (Nat.zero_and m)

lemma regOperators_sound : Sound Empty RegBinary (fun _ => True) where
  unary_congr op := op.elim
  binary_congr op c c' d d' left right := by
    cases op <;>
      simp only [binaryValue, toInt_and, toInt_or, toInt_xor, same, left, right]
  unary_range op := op.elim
  binary_range _ _ _ _ _ := trivial
  absorbing op n absorbs c d _ _ decides := by
    cases op with
    | and =>
      obtain rfl := Option.some.inj absorbs
      simp only [binaryValue, toInt_and]
      rcases decides with zero | zero
      · rw [zero, bitAnd_zero_left]
      · rw [zero, bitAnd_zero_right]
    | _ => cases absorbs

namespace Exp

variable {U B V : Type}

def Within (range : Int → Prop) : Exp U B V → Prop
  | const c => range c.toInt
  | var _ => True
  | unary _ x => x.Within range
  | binary _ x y => x.Within range ∧ y.Within range

lemma within_true (e : Exp U B V) : e.Within (fun _ => True) := by
  induction e with
  | const _ => trivial
  | var _ => trivial
  | unary _ _ ih => exact ih
  | binary _ _ _ ihx ihy => exact ⟨ihx, ihy⟩

variable {e : Exp U B V} {range : Int → Prop}

section

variable [Operators U B] {range : Int → Prop} {env : V → Constant}

lemma Within.value (sound : Sound U B range) (inside : e.Within range)
    (assigned : ∀ v, range (env v).toInt) : range (e.value env).toInt := by
  induction e with
  | const c => exact inside
  | var v => exact assigned v
  | unary op x ih => exact sound.unary_range op _ (ih inside)
  | binary op x y ihx ihy => exact sound.binary_range op _ _ (ihx inside.1) (ihy inside.2)

lemma value_congr (sound : Sound U B range) {env' : V → Constant}
    (same : ∀ v, (env v).toInt = (env' v).toInt) (e : Exp U B V) : (e.value env).toInt = (e.value env').toInt := by
  induction e with
  | const c => rfl
  | var v => exact same v
  | unary op x ih => exact sound.unary_congr op _ _ ih
  | binary op x y ihx ihy => exact sound.binary_congr op _ _ _ _ ihx ihy

lemma toInt_value_of_isConst (constant : e.isConst n = true) : (e.value env).toInt = n := by
  cases e with
  | const c => exact of_decide_eq_true constant
  | var _ | unary _ _ | binary _ _ _ => cases constant

lemma value_foldUnary (op : U) (x : Exp U B V) : (foldUnary op x).value env = unaryValue B op (x.value env) := by
  cases x <;> rfl

def combine (op : B) (x y : Exp U B V) : Exp U B V :=
  match x, y with
  | const c, const d => const (binaryValue U op c d)
  | _, _ => binary op x y

lemma foldBinary_eq (op : B) (x y : Exp U B V) : foldBinary op x y =
    match absorbing U op with
    | some n => if x.isConst n || y.isConst n then const (.int n) else combine op x y
    | none => combine op x y := rfl

lemma value_combine (op : B) (x y : Exp U B V) :
    (combine op x y).value env = binaryValue U op (x.value env) (y.value env) := by
  unfold combine
  split <;> rfl

lemma value_foldBinary (sound : Sound U B range) (op : B) {x y : Exp U B V}
    (left : range (x.value env).toInt) (right : range (y.value env).toInt) :
    ((foldBinary op x y).value env).toInt = (binaryValue U op (x.value env) (y.value env)).toInt := by
  rw [foldBinary_eq]
  split
  · rename_i n absorbs
    split
    · rename_i decides
      have reached : (x.value env).toInt = n ∨ (y.value env).toInt = n := by
        rcases Bool.or_eq_true_iff.mp decides with first | second
        · exact .inl (toInt_value_of_isConst first)
        · exact .inr (toInt_value_of_isConst second)
      exact (sound.absorbing op n absorbs _ _ left right reached).symm
    · rw [value_combine]
  · rw [value_combine]

lemma value_fold (sound : Sound U B range) (inside : e.Within range)
    (assigned : ∀ v, range (env v).toInt) : (e.fold.value env).toInt = (e.value env).toInt := by
  induction e with
  | const c => rfl
  | var v => rfl
  | unary op x ih =>
    rw [fold, value_foldUnary]
    exact sound.unary_congr op _ _ (ih inside)
  | binary op x y ihx ihy =>
    have left := ihx inside.1
    have right := ihy inside.2
    rw [fold, value_foldBinary sound op]
    · exact sound.binary_congr op _ _ _ _ left right
    · rw [left]
      exact inside.1.value sound assigned
    · rw [right]
      exact inside.2.value sound assigned

lemma foldBinary_const (op : B) (c d : Constant) :
    ∃ r, foldBinary op (const c) (const d) = (const r : Exp U B V) := by
  rw [foldBinary_eq]
  split
  · split
    · exact ⟨_, rfl⟩
    · exact ⟨_, rfl⟩
  · exact ⟨_, rfl⟩

lemma fold_const (closed : e.vars = []) : ∃ c, e.fold = const c := by
  induction e with
  | const c => exact ⟨c, rfl⟩
  | var v => cases closed
  | unary op x ih =>
    obtain ⟨c, folded⟩ := ih closed
    rw [fold, folded]
    exact ⟨_, rfl⟩
  | binary op x y ihx ihy =>
    have parts := append_eq_nil_iff.mp closed
    obtain ⟨c, left⟩ := ihx parts.1
    obtain ⟨d, right⟩ := ihy parts.2
    rw [fold, left, right]
    exact foldBinary_const op c d

end

section

variable [DecidableEq V] (v : V) (c : Constant)

lemma value_set [Operators U B] (env : V → Constant) (e : Exp U B V) :
    (e.set v c).value env = e.value (Function.update env v c) := by
  induction e with
  | const _ => rfl
  | var w =>
    by_cases same : w = v
    · subst same
      simp [set, value]
    · simp [set, value, same]
  | unary op x ih => rw [set, value, value, ih]
  | binary op x y ihx ihy => rw [set, value, value, ihx, ihy]

lemma vars_set (e : Exp U B V) : (e.set v c).vars = e.vars.filter (· ≠ v) := by
  induction e with
  | const _ => rfl
  | var w => by_cases same : w = v <;> simp [set, vars, same]
  | unary op x ih => exact ih
  | binary op x y ihx ihy => rw [set, vars, vars, ihx, ihy, filter_append]

lemma Within.set (inside : e.Within range) (allowed : range c.toInt) : (e.set v c).Within range := by
  induction e with
  | const _ => exact inside
  | var w =>
    rw [Exp.set]
    split
    · exact allowed
    · trivial
  | unary op x ih => exact ih inside
  | binary op x y ihx ihy => exact ⟨ihx inside.1, ihy inside.2⟩

lemma isNode_set (e : Exp U B V) (node : e.isNode = true) : (e.set v c).isNode = true := by
  cases e with
  | const _ | var _ => cases node
  | unary _ _ | binary _ _ _ => rfl

end

def setAt [DecidableEq V] (v : Option V) (c : Constant) (e : Exp U B V) : Exp U B V :=
  match v with
  | some v => e.set v c
  | none => e

def assignAt {α : Type} [DecidableEq V] (f : V → α) (v : Option V) (x : α) : V → α :=
  match v with
  | some v => Function.update f v x
  | none => f

lemma assignAt_related [DecidableEq V] (related : α → β → Prop)
    (before : ∀ u, related (f u) (g u))
    (new : v.isSome = true → related x y) (u : V) : related (assignAt f v x u) (assignAt g v y u) := by
  cases v with
  | none => exact before u
  | some v =>
    by_cases same : u = v
    · subst same
      simpa [assignAt] using new rfl
    · simpa [assignAt, same] using before u

section

variable [DecidableEq V] {v w : Option V} {c d : Constant} {e : Exp U B V}

lemma value_setAt [Operators U B] (env : V → Constant) (v : Option V) (c : Constant)
    (e : Exp U B V) : (e.setAt v c).value env = e.value (assignAt env v c) := by
  cases v with
  | none => rfl
  | some v => exact e.value_set v c env

lemma mem_vars_setAt (mem : u ∈ (e.setAt v c).vars) : u ∈ e.vars ∧ v ≠ some u := by
  cases v with
  | none => exact ⟨mem, nofun⟩
  | some v =>
    rw [setAt, vars_set] at mem
    have kept := mem_filter.mp mem
    refine ⟨kept.1, ?_⟩
    rintro ⟨⟩
    simp at kept

lemma Within.setAt (inside : e.Within range) (allowed : v.isSome = true → range c.toInt) :
    (e.setAt v c).Within range := by
  cases v with
  | none => exact inside
  | some v => exact inside.set v c (allowed rfl)

lemma isNode_setAt (node : e.isNode = true) (v : Option V) (c : Constant) : (e.setAt v c).isNode = true := by
  cases v with
  | none => exact node
  | some v => exact e.isNode_set v c node

end

end Exp

variable {v : Term}

namespace Term

def bit? : Term → Option UnitId
  | .bit (.var b) => some b
  | _ => none

def register? : Term → Option Register
  | .reg (.var r) => some r
  | _ => none

lemma bit?_eq_some : v.bit? = some b ↔ v = ofBit b := by
  rcases v with _ | (_ | _ | _ | _) | _ <;> simp [bit?, ofBit]

lemma register?_eq_some : v.register? = some r ↔ v = ofRegister r := by
  rcases v with _ | _ | (_ | _ | _ | _) <;> simp [register?, ofRegister]

end Term

structure Assignment where
  bit : UnitId → Bool
  register : Register → Int

namespace Assignment

def extend (a : Assignment) (v : Term) (c : Constant) : Assignment where
  bit := Exp.assignAt a.bit v.bit? (c.toInt = 1)
  register := Exp.assignAt a.register v.register? c.toInt

/-- The assignment with the given values for some variables. A variable that is given twice has its
first value, as nothing is left of it after that. -/
def extendAll (a : Assignment) (settings : List (Term × Constant)) : Assignment :=
  settings.foldr (fun s a => a.extend s.1 s.2) a

end Assignment

namespace Term

def value (a : Assignment) : Term → Int
  | .constant c => c.toInt
  | .bit e => (e.value fun b => .truth (a.bit b)).toInt
  | .reg e => (e.value fun r => .int (a.register r)).toInt

def unknowns : Term → List Term
  | .constant _ => []
  | .bit e => e.vars.eraseDups.map ofBit
  | .reg e => e.vars.eraseDups.map ofRegister

/-- Terms that the operations build from constants, bits and registers. -/
inductive Formed : Term → Prop
  | constant (c : Constant) : Formed (.constant c)
  | bit (b : UnitId) : Formed (ofBit b)
  | register (r : Register) : Formed (ofRegister r)
  | bitNot {x t : Term} (formed : Formed x) (built : bitNot x = .ok t) : Formed t
  | bitBinary (op : BitBinary) {x y t : Term} (left : Formed x) (right : Formed y)
      (built : bitBinary op x y = .ok t) : Formed t
  | regBinary (op : RegBinary) {x y t : Term} (left : Formed x) (right : Formed y)
      (built : regBinary op x y = .ok t) : Formed t

def IsSetting (s : Term × Constant) : Prop :=
  (∃ b, s.1 = ofBit b) ∧ IsBitNumber s.2.toInt ∨ ∃ r, s.1 = ofRegister r

def setAll (t : Term) (settings : List (Term × Constant)) : Except Error Term :=
  settings.foldlM (fun t s => t.set s.1 s.2) t

def Within : Term → Prop
  | .bit e => e.Within IsBitNumber
  | _ => True

variable {t x y : Term}

lemma bitBinary_eq_ok {op : BitBinary} (built : bitBinary op x y = .ok t) :
    ∃ a b, x.asBit = .ok a ∧ y.asBit = .ok b ∧ t = .bit (.binary op a b) := by
  obtain ⟨a, left, built⟩ := bind_eq_ok.mp built
  obtain ⟨b, right, built⟩ := bind_eq_ok.mp built
  refine ⟨a, b, left, right, ?_⟩
  split at built
  · obtain ⟨_, _, built⟩ := bind_eq_ok.mp built
    exact (ok.inj built).symm
  · exact (ok.inj built).symm

lemma regBinary_eq_ok {op : RegBinary} (built : regBinary op x y = .ok t) :
    ∃ a b, x.asReg = .ok a ∧ y.asReg = .ok b ∧ t = .reg (.binary op a b) := by
  obtain ⟨a, left, built⟩ := bind_eq_ok.mp built
  obtain ⟨b, right, built⟩ := bind_eq_ok.mp built
  refine ⟨a, b, left, right, ?_⟩
  split at built
  · obtain ⟨_, _, built⟩ := bind_eq_ok.mp built
    exact (ok.inj built).symm
  · exact (ok.inj built).symm

section

lemma set_bit (node : e.isNode = true) (v : Term) (c : Constant) :
    (bit e).set v c = .ok (.bit (e.setAt v.bit? c)) := by
  rcases v with _ | (_ | _ | _ | _) | _ <;> simp [set, isNode, node, bit?, Exp.setAt]

lemma set_reg (node : e.isNode = true) (v : Term) (c : Constant) :
    (reg e).set v c = .ok (.reg (e.setAt v.register? c)) := by
  rcases v with _ | _ | (_ | _ | _ | _) <;> simp [set, isNode, node, register?, Exp.setAt]

variable {t v : Term} {c : Constant}

/-- What is left after one constant: an operation over the other variables, whose value is that of the
whole under an assignment of the constant. -/
lemma set_node (node : t.isNode = true) (within : t.Within) (allowed : IsSetting (v, c)) :
    ∃ u, t.set v c = .ok u ∧ u.isNode = true ∧ u.Within ∧ (∀ w ∈ u.unknowns, w ∈ t.unknowns ∧ w ≠ v) ∧
    ∀ a : Assignment, u.value a = t.value (a.extend v c) := by
  cases t with
  | constant _ => cases node
  | bit e =>
    have number : v.bit?.isSome = true → IsBitNumber c.toInt := by
      intro some
      obtain ⟨b, found⟩ := Option.isSome_iff_exists.mp some
      rcases allowed with ⟨_, number⟩ | ⟨r, register⟩
      · exact number
      · rw [show v = ofRegister r from register] at found
        cases found
    refine ⟨_, set_bit node v c, Exp.isNode_setAt node _ _, within.setAt number, ?_, ?_⟩
    · intro w mem
      simp only [unknowns, mem_map, mem_eraseDups] at mem ⊢
      obtain ⟨b, inside, rfl⟩ := mem
      have kept := Exp.mem_vars_setAt inside
      exact ⟨⟨b, kept.1, rfl⟩, fun same => kept.2 (bit?_eq_some.mpr same.symm)⟩
    · intro a
      rw [value, Exp.value_setAt]
      apply Exp.value_congr bitOperators_sound
      apply Exp.assignAt_related fun (c : Constant) b => c.toInt = (truth b).toInt
      · intro b
        rfl
      · intro some
        rcases number some with zero | one
        · rw [zero]
          rfl
        · rw [one]
          rfl
  | reg e =>
    refine ⟨_, set_reg node v c, Exp.isNode_setAt node _ _, trivial, ?_, ?_⟩
    · intro w mem
      simp only [unknowns, mem_map, mem_eraseDups] at mem ⊢
      obtain ⟨r, inside, rfl⟩ := mem
      have kept := Exp.mem_vars_setAt inside
      exact ⟨⟨r, kept.1, rfl⟩, fun same => kept.2 (register?_eq_some.mpr same.symm)⟩
    · intro a
      rw [value, Exp.value_setAt]
      apply Exp.value_congr regOperators_sound
      apply Exp.assignAt_related fun (c : Constant) n => c.toInt = (int n).toInt
      · intro r
        rfl
      · intro _
        rfl

lemma setAll_node {settings : List (Term × Constant)} (node : t.isNode = true) (within : t.Within)
    (allowed : ∀ s ∈ settings, IsSetting s) : ∃ u, t.setAll settings = .ok u ∧ u.isNode = true ∧ u.Within ∧
    (∀ w ∈ u.unknowns, w ∈ t.unknowns ∧ w ∉ settings.map (·.1)) ∧
    ∀ a : Assignment, u.value a = t.value (a.extendAll settings) := by
  induction settings generalizing t with
  | nil => exact ⟨t, rfl, node, within, by simp, fun a => rfl⟩
  | cons s rest ih =>
    obtain ⟨next, first, nodeNext, withinNext, left, valueNext⟩ :=
      set_node node within (allowed s (by simp))
    obtain ⟨u, later, nodeLast, withinLast, unknown, valueLast⟩ :=
      ih nodeNext withinNext fun other mem => allowed other (.tail _ mem)
    refine ⟨u, bind_eq_ok.mpr ⟨next, first, later⟩, nodeLast, withinLast, ?_, ?_⟩
    · intro w mem
      have own := unknown w mem
      have kept := left w own.1
      exact ⟨kept.1, by simpa using ⟨kept.2, by simpa using own.2⟩⟩
    · intro a
      rw [valueLast, valueNext]
      rfl

end

lemma value_ofBitExp (e : BitExp) (a : Assignment) : (ofBitExp e).value a = (bit e).value a := by
  cases e <;> rfl

lemma value_ofRegExp (e : RegExp) (a : Assignment) : (ofRegExp e).value a = (reg e).value a := by
  cases e <;> rfl

lemma fold_bit (node : e.isNode = true) : (bit e).fold = .ok (ofBitExp e.fold) := by
  simp [fold, isNode, node]

lemma fold_reg (node : e.isNode = true) : (reg e).fold = .ok (ofRegExp e.fold) := by
  simp [fold, isNode, node]

lemma vars_eq_nil {V : Type} [DecidableEq V] {vars : List V} {name : V → Term}
    (none : vars.eraseDups.map name = []) : vars = [] := by
  apply eq_nil_iff_forall_not_mem.mpr
  intro v mem
  have listed := mem_eraseDups.mpr mem
  rw [map_eq_nil_iff.mp none] at listed
  cases listed

lemma fold_node (node : t.isNode = true) (within : t.Within) :
    ∃ r, t.fold = .ok r ∧ (∀ a : Assignment, r.value a = t.value a) ∧
    (t.unknowns = [] → r.isConstant = true) := by
  cases t with
  | constant _ => cases node
  | bit e =>
    refine ⟨ofBitExp e.fold, fold_bit node, ?_, ?_⟩
    · intro a
      rw [value_ofBitExp]
      exact Exp.value_fold bitOperators_sound within fun b => isBitNumber_truth _
    · intro closed
      obtain ⟨c, folded⟩ := Exp.fold_const (vars_eq_nil closed)
      rw [folded]
      rfl
  | reg e =>
    refine ⟨ofRegExp e.fold, fold_reg node, ?_, ?_⟩
    · intro a
      rw [value_ofRegExp]
      exact Exp.value_fold regOperators_sound e.within_true fun r => trivial
    · intro closed
      obtain ⟨c, folded⟩ := Exp.fold_const (vars_eq_nil closed)
      rw [folded]
      rfl

end Term

end CircuitWorks.Logic
