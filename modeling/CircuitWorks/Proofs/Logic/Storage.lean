import CircuitWorks.Logic.Stored
import CircuitWorks.Proofs.Logic.Evaluation

namespace CircuitWorks.Logic

namespace Exp

variable {U B V : Type}

def isSettled (compares : B → Bool) (range : Int → Prop) [DecidablePred range] : Exp U B V → Bool
  | const c => range c.toInt
  | var _ => true
  | unary _ x => x.isSettled compares range
  | binary op x y =>
    x.isSettled compares range && y.isSettled compares range &&
      (!compares op || !x.isConstant && y.isConstant)

def var? : Exp U B V → Option V
  | var v => some v
  | _ => none

/-- The variables that are themselves compared with a constant. -/
def compared (compares : B → Bool) : Exp U B V → List V
  | const _ | var _ => []
  | unary _ x => x.compared compares
  | binary op x y =>
    (if compares op then x.var?.toList else []) ++ x.compared compares ++ y.compared compares

section

variable {compares : B → Bool} {range : Int → Prop} [DecidablePred range] {e : Exp U B V}

lemma isSettled_binary {op : B} {x y : Exp U B V} : (binary op x y).isSettled compares range = true ↔
    x.isSettled compares range = true ∧ y.isSettled compares range = true ∧
    (compares op = true → x.isConstant = false ∧ y.isConstant = true) := by
  rw [isSettled]
  cases compares op <;> simp [and_assoc]

lemma isConstant_set [DecidableEq V] (v : V) (c : Constant) (e : Exp U B V) :
    (e.set v c).isConstant = (e.isConstant || e.var? = some v) := by
  cases e with
  | var w => by_cases same : w = v <;> simp [set, isConstant, var?, same]
  | _ => rfl

/-- A constant in place of a variable keeps the checks just if the variable is not itself compared,
and the constant is in range if there is a place for it. -/
lemma isSettled_setAt [DecidableEq V] (settled : e.isSettled compares range = true) (v : Option V)
    (c : Constant) : (e.setAt v c).isSettled compares range = true ↔
    ∀ u, v = some u → u ∉ e.compared compares ∧ (u ∈ e.vars → range c.toInt) := by
  cases v with
  | none => simp [setAt, settled]
  | some v =>
    simp only [setAt, Option.some.injEq, forall_eq']
    induction e with
    | const d => simpa [set, compared, vars] using settled
    | var w => by_cases same : v = w <;> simp [set, isSettled, compared, vars, same, eq_comm]
    | unary op x ih => exact ih settled
    | binary op x y ihx ihy =>
      obtain ⟨left, right, order⟩ := isSettled_binary.mp settled
      rw [set, isSettled_binary, ihx left, ihy right, isConstant_set, isConstant_set]
      cases own : compares op with
      | false => grind [compared, vars]
      | true => grind [compared, vars]

end

lemma same_self [DecidableEq U] [DecidableEq B] [DecidableEq V] (e : Exp U B V) : e.same e = true := by
  induction e with
  | const _ | var _ => exact decide_eq_true rfl
  | unary op x ih => simp [same, ih]
  | binary op x y ihx ihy => simp [same, ihx, ihy]

end Exp

instance : DecidablePred IsBitNumber := fun n => inferInstanceAs (Decidable (n = 0 ∨ n = 1))

variable (op : Operator) (args : List Json)

lemma splitOperator_storedName : splitOperator op.storedName = .ok op := by
  cases op with
  | not => rfl
  | bit op => cases op <;> rfl
  | reg op => cases op <;> rfl

lemma readTerm_operationJson : readTerm (operationJson op args) = readItems args >>= op.apply := by
  simp [operationJson, readTerm, operatorOf, Json.lookup, splitOperator_storedName, readArgs, bind, Except.bind]

/-- What is read where the value is stored as an argument. -/
def Yields (j : Json) (r : Except Error Term) : Prop := ∀ rest, readItems (j :: rest) = do
  let item ← r
  return item :: (← readItems rest)

lemma yields_constant (c : Constant) : Yields c.toJson (.ok (.constant c)) := by
  intro rest
  cases c <;> rfl

lemma natOf?_natCast (n : Nat) : natOf? (.int n) = some n := by
  simp [natOf?]

lemma yields_bit (b : UnitId) : Yields b.toJson (.ok (.ofBit b)) := by
  intro rest
  have read : (b.index.map fun i => Json.int (i : Nat)).mapM natOf? = some b.index := by
    rw [List.mapM_map, mapM_some _ id _ (by simp [natOf?_natCast]), List.map_id]
  change (do let bit ← bitOf _; return bit :: (← readItems rest)) = _
  rw [bitOf, indexOf, read]
  rfl

lemma yields_register (r : Register) : Yields (registerJson r) (.ok (.ofRegister r)) := by
  intro rest
  have read : registerOf [("name", .str r.name), ("size", .int r.size)] = .ok (.ofRegister r) := by
    simp [registerOf, Json.lookup, natOf?_natCast]
  change (do let item ← registerOf _; return item :: (← readItems rest)) = _
  rw [read]

lemma yields_operation : Yields (operationJson op args) (readTerm (operationJson op args)) := fun _ => rfl

lemma readTerm_unary (item : Yields j r) :
    readTerm (operationJson op [j]) = r >>= fun x => op.apply [x] := by
  rw [readTerm_operationJson, item, bind_assoc]
  rfl

lemma readTerm_binary (first : Yields j r) (second : Yields k s) :
    readTerm (operationJson op [j, k]) = r >>= fun x => s >>= fun y => op.apply [x, y] := by
  rw [readTerm_operationJson, first, second]
  simp only [bind_assoc]
  rfl

variable {t : Term} (e : BitExp)

namespace Term

def isSettled : Term → Bool
  | .constant _ => true
  | .bit e => e.isSettled BitBinary.isComparison IsBitNumber
  | .reg e => e.isSettled RegBinary.isComparison fun _ => True

def comparands : Term → List Term
  | .constant _ => []
  | .bit e => (e.compared BitBinary.isComparison).map ofBit
  | .reg e => (e.compared RegBinary.isComparison).map ofRegister

def itemJson : Term → Json
  | .constant c => c.toJson
  | .bit e => BitExp.toJson e
  | .reg e => RegExp.toJson e

def reread (t : Term) : Except Error Term :=
  if t.isSettled then .ok t else .error .argument

lemma reread_cases (t : Term) : t.reread = .ok t ∨ t.reread = .error .argument := by
  rw [reread]
  split
  · exact .inl rfl
  · exact .inr rfl

lemma reread_binary {operand : Term → Except Error α} (wrap : α → α → Term)
    (compares : Bool) {x y : Term} {left right : Bool}
    (first : x.reread >>= operand = if left then .ok a else .error .argument)
    (second : y.reread >>= operand = if right then .ok b else .error .argument) :
    (do
    let s ← x.reread
    let t ← y.reread
    let a ← operand s
    let b ← operand t
    if compares then checkComparison s t
    return wrap a b) =
    if left && right && (!compares || !x.isConstant && y.isConstant) then .ok (wrap a b)
    else .error .argument := by
  rcases reread_cases x with own | own
  · rw [own] at first ⊢
    rcases reread_cases y with other | other
    · rw [other] at second ⊢
      change (operand x >>= fun a => operand y >>= fun b => _) = _
      rw [show operand x = _ from first, show operand y = _ from second, checkComparison]
      cases left <;> cases right <;> cases compares <;> cases x.isConstant <;> cases y.isConstant <;> rfl
    · rw [other] at second ⊢
      cases right with
      | false => simp [bind, Except.bind]
      | true => cases second
  · rw [own] at first ⊢
    cases left with
    | false => rfl
    | true => cases first

lemma isConstant_ofBitExp : (ofBitExp e).isConstant = e.isConstant := by
  cases e <;> rfl

lemma isConstant_ofRegExp (e : RegExp) : (ofRegExp e).isConstant = e.isConstant := by
  cases e <;> rfl

lemma asBit_reread : (ofBitExp e).reread >>= asBit =
    if e.isSettled BitBinary.isComparison IsBitNumber then .ok e else .error .argument := by
  cases e with
  | const c =>
    change asBit (.constant c) = _
    by_cases bit : c.toInt = 0 ∨ c.toInt = 1 <;> simp [asBit, Exp.isSettled, IsBitNumber, bit]
  | var _ => rfl
  | unary _ _ | binary _ _ _ =>
    change (reread (.bit _) >>= asBit) = _
    rw [reread, isSettled]
    split <;> rfl

lemma asReg_reread (e : RegExp) : (ofRegExp e).reread >>= asReg =
    if e.isSettled RegBinary.isComparison fun _ => True then .ok e else .error .argument := by
  cases e with
  | const _ | var _ => rfl
  | unary op _ => cases op
  | binary _ _ _ =>
    change (reread (.reg _) >>= asReg) = _
    rw [reread, isSettled]
    split <;> rfl

lemma readTerm_bit : Yields (BitExp.toJson e) (ofBitExp e).reread ∧
    (e.isNode = true → readTerm (BitExp.toJson e) = (bit e).reread) := by
  induction e with
  | const c => exact ⟨yields_constant c, fun node => by cases node⟩
  | var b => exact ⟨yields_bit b, fun node => by cases node⟩
  | unary op x ih =>
    have read : readTerm (operationJson .not [BitExp.toJson x]) = (bit (.unary .not x)).reread := by
      calc readTerm (operationJson .not [BitExp.toJson x])
          = (ofBitExp x).reread >>= asBit >>= fun a => .ok (.bit (.unary .not a)) := by
            rw [readTerm_unary .not ih.1, bind_assoc]
            rfl
        _ = (bit (.unary .not x)).reread := by
            rw [asBit_reread]
            cases settled : x.isSettled BitBinary.isComparison IsBitNumber <;>
              simp [reread, isSettled, Exp.isSettled, settled, bind, Except.bind]
    exact ⟨read ▸ yields_operation _ _, fun _ => read⟩
  | binary op x y ihx ihy =>
    have read : readTerm (operationJson (.bit op) [BitExp.toJson x, BitExp.toJson y]) =
        (bit (.binary op x y)).reread := by
      have checked := reread_binary (fun a b => .bit (.binary op a b)) (BitBinary.isComparison op)
        (asBit_reread x) (asBit_reread y)
      rw [isConstant_ofBitExp, isConstant_ofBitExp] at checked
      rw [readTerm_binary (.bit op) ihx.1 ihy.1]
      exact checked
    exact ⟨read ▸ yields_operation _ _, fun _ => read⟩

lemma readTerm_reg (e : RegExp) : Yields (RegExp.toJson e) (ofRegExp e).reread ∧
    (e.isNode = true → readTerm (RegExp.toJson e) = (reg e).reread) := by
  induction e with
  | const c => exact ⟨yields_constant c, fun node => by cases node⟩
  | var r => exact ⟨yields_register r, fun node => by cases node⟩
  | unary op _ _ => cases op
  | binary op x y ihx ihy =>
    have read : readTerm (operationJson (.reg op) [RegExp.toJson x, RegExp.toJson y]) =
        (reg (.binary op x y)).reread := by
      have checked := reread_binary (fun a b => .reg (.binary op a b)) (RegBinary.isComparison op)
        (asReg_reread x) (asReg_reread y)
      rw [isConstant_ofRegExp, isConstant_ofRegExp] at checked
      rw [readTerm_binary (.reg op) ihx.1 ihy.1]
      exact checked
    exact ⟨read ▸ yields_operation _ _, fun _ => read⟩

lemma readTerm_node (node : t.isNode = true) : readTerm t.itemJson = t.reread := by
  cases t with
  | constant _ => cases node
  | bit e => exact (readTerm_bit e).2 node
  | reg e => exact (readTerm_reg e).2 node

lemma roundTrip_node (node : t.isNode = true) :
    t.roundTrip = if t.isSettled then .ok true else .error .argument := by
  have stored : t.toJson = .ok t.itemJson := by
    cases t with
    | constant _ => cases node
    | bit e => exact if_pos node
    | reg e => exact if_pos node
  have same : t.same t = true := by
    cases t with
    | constant _ => cases node
    | bit e => exact e.same_self
    | reg e => exact e.same_self
  rw [roundTrip, stored]
  change (readTerm t.itemJson >>= fun u => .ok (u.same t)) = _
  rw [readTerm_node node, reread]
  split
  · exact congrArg Except.ok same
  · rfl

lemma roundTrip_eq_ok (node : t.isNode = true) : t.roundTrip = .ok true ↔ t.isSettled = true := by
  rw [roundTrip_node node]
  cases t.isSettled <;> simp

lemma itemJson_asBit {e : BitExp} (read : t.asBit = .ok e) : t.itemJson = BitExp.toJson e := by
  cases t with
  | constant c =>
    by_cases bit : c.toInt = 0 ∨ c.toInt = 1
    · rw [asBit, if_pos bit] at read
      cases read
      rfl
    · rw [asBit, if_neg bit] at read
      cases read
  | bit f =>
    cases read
    rfl
  | reg _ => cases read

lemma itemJson_asReg {e : RegExp} (read : t.asReg = .ok e) : t.itemJson = RegExp.toJson e := by
  cases t with
  | constant c | reg f =>
    cases read
    rfl
  | bit _ => cases read

lemma Formed.yields (formed : Formed t) :
    Yields t.itemJson (.ok t) ∧ (t.isNode = true → readTerm t.itemJson = .ok t) := by
  induction formed with
  | constant c => exact ⟨yields_constant c, fun node => by cases node⟩
  | bit b => exact ⟨yields_bit b, fun node => by cases node⟩
  | register r => exact ⟨yields_register r, fun node => by cases node⟩
  | bitNot _ built ih =>
    have read := (readTerm_unary .not ih.1).trans built
    obtain ⟨a, operand, built⟩ := bind_eq_ok.mp built
    cases built
    rw [itemJson_asBit operand] at read
    exact ⟨read ▸ yields_operation _ _, fun _ => read⟩
  | bitBinary op _ _ built ihx ihy =>
    have read := (readTerm_binary (.bit op) ihx.1 ihy.1).trans built
    obtain ⟨a, b, left, right, rfl⟩ := bitBinary_eq_ok built
    rw [itemJson_asBit left, itemJson_asBit right] at read
    exact ⟨read ▸ yields_operation _ _, fun _ => read⟩
  | regBinary op _ _ built ihx ihy =>
    have read := (readTerm_binary (.reg op) ihx.1 ihy.1).trans built
    obtain ⟨a, b, left, right, rfl⟩ := regBinary_eq_ok built
    rw [itemJson_asReg left, itemJson_asReg right] at read
    exact ⟨read ▸ yields_operation _ _, fun _ => read⟩

lemma Formed.isSettled (formed : Formed t) (node : t.isNode = true) : t.isSettled = true := by
  have read := formed.yields.2 node
  rw [readTerm_node node, reread] at read
  by_contra broken
  rw [if_neg broken] at read
  cases read

lemma isSettled_set (node : t.isNode = true) (settled : t.isSettled = true)
    (done : t.set v c = .ok u) : u.isNode = true ∧
    (u.isSettled = true ↔ v ∉ t.comparands ∧ (v ∈ t.unknowns → IsSetting (v, c))) := by
  cases t with
  | constant _ => cases node
  | bit e =>
    rw [set_bit node] at done
    cases done
    refine ⟨Exp.isNode_setAt node _ _, (Exp.isSettled_setAt settled v.bit? c).trans ?_⟩
    cases found : v.bit? with
    | none =>
      have other (b : UnitId) : ofBit b ≠ v := fun same => by simp [← same, ofBit, bit?] at found
      simp [comparands, unknowns, other]
    | some b =>
      obtain rfl := bit?_eq_some.mp found
      simp [comparands, unknowns, IsSetting, ofBit, ofRegister]
  | reg e =>
    rw [set_reg node] at done
    cases done
    refine ⟨Exp.isNode_setAt node _ _, (Exp.isSettled_setAt settled v.register? c).trans ?_⟩
    cases found : v.register? with
    | none =>
      have other (r : Register) : ofRegister r ≠ v := fun same => by
        simp [← same, ofRegister, register?] at found
      simp [comparands, unknowns, other]
    | some r =>
      obtain rfl := register?_eq_some.mp found
      simp [comparands, unknowns, IsSetting, ofRegister]

/-- Changes of an expression in place. -/
inductive Update where
  | set (v : Term) (c : Constant)
  | fold

def Update.apply (t : Term) : Update → Except Error Term
  | .set v c => t.set v c
  | .fold => t.fold

/-- After any changes of an expression that was built, the expression is read back just if it could
have been built as it is; otherwise a check of building fails. An expression that was not changed is
read back. For one that is read back, a constant in place of a variable breaks this just if the
variable is itself compared, or cannot have the constant. -/
theorem roundTrip_of_updates {t u : Term} {updates : List Update} (formed : Formed t)
    (done : updates.foldlM Update.apply t = .ok u) (node : u.isNode = true) :
    (u.roundTrip = if u.isSettled then .ok true else .error .argument) ∧
      (updates = [] → u.roundTrip = .ok true) ∧
      (u.roundTrip = .ok true → ∀ v c w, u.set v c = .ok w →
        (w.roundTrip = .ok true ↔ v ∉ u.comparands ∧ (v ∈ u.unknowns → IsSetting (v, c)))) := by
  refine ⟨roundTrip_node node, ?_, ?_⟩
  · rintro rfl
    cases done
    exact (roundTrip_eq_ok node).mpr (formed.isSettled node)
  · intro stored v c w changed
    have settled := (roundTrip_eq_ok node).mp stored
    obtain ⟨own, kept⟩ := isSettled_set node settled changed
    exact (roundTrip_eq_ok own).trans kept

/-- A register that is compared with 1 is set to 1. -/
theorem roundTrip_of_updates_comparison :
    let a : Register := ⟨"a", 2⟩
    let t : Term := .reg (.binary .eq (.var a) (.const (.int 1)))
    Formed t ∧ ∃ u, [Update.set (ofRegister a) (.int 1)].foldlM Update.apply t = .ok u ∧
      t.roundTrip = .ok true ∧ u.roundTrip = .error .argument := by
  intro a t
  have formed : Formed t := .regBinary .eq (.register a) (.constant (.int 1)) rfl
  have fresh := (@roundTrip_of_updates t t [] formed rfl rfl).2.1 rfl
  have changed := @roundTrip_of_updates t _ [.set (ofRegister a) (.int 1)] formed rfl rfl
  exact ⟨formed, _, rfl, fresh, changed.1⟩

end Term

end CircuitWorks.Logic
