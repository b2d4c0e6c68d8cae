import CircuitWorks.Proofs.Pauli.Algebra
import CircuitWorks.Proofs.Qasm.Reading

namespace CircuitWorks

open List Circuit UnitId Function

variable (u : UnitId) {units others : List UnitId} {ρ : String → String}

namespace UnitId

lemma le_eq_isLE (a b : UnitId) : a.le b = (a.compare b).isLE := by
  rw [le]
  cases a.compare b <;> rfl

lemma le_total (a b : UnitId) : (a.le b || b.le a) = true := by
  have swapped : b.compare a = (a.compare b).swap := Std.OrientedCmp.eq_swap
  rw [le_eq_isLE, le_eq_isLE, swapped]
  cases a.compare b <;> rfl

lemma le_trans (a b c : UnitId) (first : a.le b = true) (second : b.le c = true) : a.le c = true := by
  rw [le_eq_isLE] at *
  exact Std.TransCmp.isLE_trans first second

lemma pairwise_sort (units : List UnitId) : (sort units).Pairwise fun a b => a.le b = true := by
  exact pairwise_mergeSort le_trans le_total units

lemma eq_sort (perm : units.Perm others) (sorted : units.Pairwise fun a b => a.le b = true) : units = sort others :=
  (perm.trans (mergeSort_perm others le).symm).eq_of_pairwise
    (fun a b _ _ first second => by
      rw [le_eq_isLE] at first second
      exact Std.LawfulEqCmp.eq_of_compare (Std.OrientedCmp.isLE_antisymm first second))
    sorted (pairwise_sort others)

lemma insertSorted_perm (units : List UnitId) : (insertSorted u units).Perm (u :: units) := by
  induction units with
  | nil => exact .refl _
  | cons v rest ih =>
    rw [insertSorted]
    split
    · exact .refl _
    · exact (ih.cons v).trans (.swap u v rest)

lemma pairwise_insertSorted (sorted : units.Pairwise fun a b => a.le b = true) :
    (insertSorted u units).Pairwise fun a b => a.le b = true := by
  induction units with
  | nil => simp [insertSorted]
  | cons v rest ih =>
    obtain ⟨least, others⟩ := pairwise_cons.mp sorted
    rw [insertSorted]
    split
    case isTrue below =>
      refine pairwise_cons.mpr ⟨fun w mem => ?_, sorted⟩
      rcases mem_cons.mp mem with rfl | later
      · exact below
      · exact le_trans _ _ _ below (least w later)
    case isFalse above =>
      refine pairwise_cons.mpr ⟨fun w mem => ?_, ih others⟩
      rcases (mem_insertSorted u w rest).mp mem with rfl | later
      · exact (Bool.or_eq_true_iff.mp (le_total w v)).resolve_left above
      · exact least w later

lemma insertSorted_sort (units : List UnitId) : insertSorted u (sort units) = sort (u :: units) :=
  eq_sort ((insertSorted_perm ..).trans ((mergeSort_perm ..).cons u))
    (pairwise_insertSorted u (pairwise_sort units))

lemma sort_congr (perm : units.Perm others) : sort units = sort others :=
  eq_sort ((mergeSort_perm ..).trans perm) (pairwise_sort units)

def rename (ρ : String → String) (u : UnitId) : UnitId := ⟨ρ u.register, u.index⟩

lemma rename_injective (injective : Injective ρ) : Injective (rename ρ) := by
  rintro ⟨a, i⟩ ⟨b, j⟩ same
  simp only [rename, mk.injEq] at same
  rw [injective same.1, same.2]

end UnitId

def Carries {ε α β : Type} (r : α → β) (x : Except ε α) (y : Except ε β) : Prop :=
  y.toOption = x.toOption.map r

section

variable {ε α β γ δ : Type} {r : α → β} {t : γ → δ} {f : α → Except ε γ} {g : β → Except ε δ}

lemma Carries.bind {x : Except ε α} {y : Except ε β} (first : Carries r x y)
    (later : ∀ a, Carries t (f a) (g (r a))) : Carries t (x >>= f) (y >>= g) := by
  rcases x with _ | a <;> rcases y with _ | b <;> simp only [Carries, Except.toOption] at first
  · rfl
  · cases first
  · cases first
  · obtain rfl := Option.some.inj first
    exact later a

lemma carries_foldlM {f : α → γ → Except ε α} {g : β → δ → Except ε β}
    (step : ∀ a c, Carries r (f a c) (g (r a) (t c))) (xs : List γ) (a : α) :
    Carries r (xs.foldlM f a) ((xs.map t).foldlM g (r a)) := by
  induction xs generalizing a with
  | nil => rfl
  | cons x xs ih =>
    exact (step a x).bind ih

lemma carries_mapM (step : ∀ a, Carries t (f a) (g (r a))) (xs : List α) :
    Carries (map t) (xs.mapM f) ((xs.map r).mapM g) := by
  induction xs with
  | nil => rfl
  | cons x xs ih =>
    rw [map_cons, mapM_cons, mapM_cons]
    exact (step x).bind fun a => ih.bind fun as => rfl

end

namespace Circuit

def mapUnits (f : UnitId → UnitId) (c : Circuit) : Circuit :=
  { c with
    qubits := sort (c.qubits.map f)
    bits := sort (c.bits.map f)
    commands := c.commands.map fun cmd => ⟨cmd.op, cmd.args.map f⟩ }

variable {f : UnitId → UnitId} (injective : Injective f) {c : Circuit} {op : Op}
  {args : List UnitId}

include injective

lemma mem_sort_map {u : UnitId} : f u ∈ sort (units.map f) ↔ u ∈ units := by
  rw [sort, mem_mergeSort, mem_map_of_injective injective]

lemma kindOf?_mapUnits (u : UnitId) : (c.mapUnits f).kindOf? (f u) = c.kindOf? u := by
  simp only [kindOf?, mapUnits, mem_sort_map injective]

lemma accepts_mapUnits : (c.mapUnits f).Accepts op (args.map f) ↔ c.Accepts op args := by
  have wires : (args.map f).zip (op.signature args.length) =
      (args.zip (op.signature args.length)).map (Prod.map f id) := by
    rw [zip_map_left]
  have marked : written ((args.zip (op.signature args.length)).map (Prod.map f id)) =
      (written (args.zip (op.signature args.length))).map f := by
    simp [written, filter_map, comp_def]
  constructor
  · rintro ⟨some, arity, once, kinds⟩
    rw [length_map] at arity once kinds
    rw [wires] at once kinds
    rw [marked, nodup_map_iff injective] at once
    refine ⟨by simpa using some, arity, once, fun w mem => ?_⟩
    rw [← kindOf?_mapUnits injective]
    exact kinds _ (mem_map_of_mem mem)
  · rintro ⟨some, arity, once, kinds⟩
    refine ⟨by simpa using some, by simpa using arity, ?_, ?_⟩ <;> rw [length_map, wires]
    · rw [marked, nodup_map_iff injective]
      exact once
    · intro w mem
      obtain ⟨v, inside, rfl⟩ := mem_map.mp mem
      exact (kindOf?_mapUnits injective v.1).trans (kinds v inside)

lemma carries_addOp : Carries (mapUnits f) (c.addOp op args) ((c.mapUnits f).addOp op (args.map f)) := by
  have failed : ∀ {c : Circuit} {args : List UnitId}, ¬c.Accepts op args → (c.addOp op args).toOption = none := by
    intro c args refused
    cases added : c.addOp op args with
    | error e => rfl
    | ok d => exact absurd (addOp_eq_ok added).1 refused
  by_cases accepted : c.Accepts op args
  · rw [accepted.addOp, ((accepts_mapUnits injective).mpr accepted).addOp]
    simp [Carries, Except.toOption, withCommand, mapUnits]
  · rw [Carries, failed accepted, failed fun other => accepted ((accepts_mapUnits injective).mp other)]
    rfl

lemma carries_addBarrier : Carries (mapUnits f) (c.addBarrier args) ((c.mapUnits f).addBarrier (args.map f)) := by
  have wires : (args.map f).map (fun u => if u ∈ (c.mapUnits f).bits then EdgeType.classical else .quantum) =
      args.map fun u => if u ∈ c.bits then .classical else .quantum := by
    simp only [map_map, comp_def, mapUnits, mem_sort_map injective]
  rw [addBarrier, addBarrier, wires]
  exact carries_addOp injective

lemma carries_addConditional (bits : List UnitId) (value : Option Int) :
    Carries (mapUnits f) (c.addConditional op bits value args)
    ((c.mapUnits f).addConditional op (bits.map f) value (args.map f)) := by
  have condition : conditionOp op (bits.map f) value = conditionOp op bits value := by
    simp only [conditionOp, length_map]
  rw [addConditional, addConditional, condition, ← map_append]
  cases conditionOp op bits value with
  | error e => rfl
  | ok op => exact carries_addOp injective

omit injective

lemma insertUnit_mapUnits (c : Circuit) (kind : UnitKind) (u : UnitId) :
    (c.mapUnits f).insertUnit kind (f u) = (c.insertUnit kind u).mapUnits f := by
  have same : ∀ units : List UnitId, insertSorted (f u) (sort (units.map f)) = sort ((insertSorted u units).map f) := by
    intro units
    rw [insertSorted_sort]
    exact sort_congr ((insertSorted_perm u units).map f).symm
  cases kind <;> simp [insertUnit, mapUnits, same]

lemma registerInfo?_isSome (c : Circuit) (name : String) :
    (c.registerInfo? name).isSome ↔ ∃ u ∈ c.qubits ++ c.bits, u.register = name := by
  rw [registerInfo?]
  cases found : c.qubits.find? (·.register = name) with
  | none => simp_all [find?_eq_none, or_and_right, exists_or]
  | some u =>
    have own : u.register = name := by simpa using find?_some found
    simpa using ⟨u, .inl (mem_of_find?_eq_some found), own⟩

lemma carries_addRegister (injective : Injective ρ) (kind : UnitKind) (r : Register) :
    Carries (mapUnits (.rename ρ)) (c.addRegister kind r)
    ((c.mapUnits (.rename ρ)).addRegister kind ⟨ρ r.name, r.size⟩) := by
  have same : (c.registerInfo? r.name).isSome = ((c.mapUnits (.rename ρ)).registerInfo? (ρ r.name)).isSome := by
    rw [Bool.eq_iff_iff, registerInfo?_isSome, registerInfo?_isSome]
    simp [mapUnits, sort, rename, or_and_right, exists_or, injective.eq_iff]
  have units : Register.bits ⟨ρ r.name, r.size⟩ = r.bits.map (.rename ρ) := by simp [Register.bits, rename]
  rw [addRegister, addRegister, ← same, units, foldl_map,
    foldl_hom (mapUnits (.rename ρ)) fun c u => insertUnit_mapUnits c kind u]
  split <;> rfl

end Circuit

namespace Qasm

open Text

variable {ρ : String → String}

def Scope.rename (ρ : String → String) (s : Scope) : Scope :=
  ⟨s.circuit.mapUnits (.rename ρ), s.registers.map fun e => (ρ e.1, e.2.map (.rename ρ))⟩

def Action.rename (ρ : String → String) : Action → Action
  | gate word args => gate word (args.map (.rename ρ))
  | measure q b => measure (q.rename ρ) (b.rename ρ)

def Sentence.rename (ρ : String → String) : Sentence → Sentence
  | declare kind r => declare kind ⟨ρ r.name, r.size⟩
  | act test action => act (test.map fun t => (ρ t.1, t.2)) (action.rename ρ)

section

variable {s : Scope} {header : String}

lemma carries_update (carried : Carries (mapUnits (.rename ρ)) x y) :
    Carries (Scope.rename ρ) (s.update x) ((s.rename ρ).update y) := by
  rcases x with _ | c <;> rcases y with _ | d <;> simp only [Carries, Except.toOption] at carried
  · rfl
  · cases carried
  · cases carried
  · obtain rfl := Option.some.inj carried
    rfl

lemma rows_map (f : UnitId → UnitId) (args : List (List UnitId)) :
    rows (args.map (map f)) = (rows args).map (map f) := by
  have step : ∀ (a b : List UnitId) (rest : List (List UnitId)),
      rows (a :: b :: rest) = (a.zip (rows (b :: rest))).map fun e => e.1 :: e.2 := fun _ _ _ => rfl
  induction args with
  | nil => rfl
  | cons units rest ih =>
    cases rest with
    | nil => simp [rows]
    | cons next more =>
      rw [map_cons] at ih
      rw [map_cons, map_cons, step, step, ih, zip_map]
      simp

variable (injective : Injective ρ) (op : Except Error Op)

include injective

lemma carries_addGuarded (guard : Guard) (s : Scope) (row : List UnitId) :
    Carries (Scope.rename ρ) (addGuarded s op guard row)
    (addGuarded (s.rename ρ) op (guard.map fun g => (g.1.map (.rename ρ), g.2)) (row.map (.rename ρ))) := by
  have units := rename_injective injective
  refine carries_update ?_
  cases op with
  | error e => rfl
  | ok op =>
    cases guard with
    | none => exact carries_addOp units
    | some test => exact carries_addConditional units test.1 (some test.2)

lemma carries_addRows (guard : Guard) (args : List (List UnitId)) : Carries (Scope.rename ρ) (addRows s op guard args)
    (addRows (s.rename ρ) op (guard.map fun g => (g.1.map (.rename ρ), g.2)) (args.map (map (.rename ρ)))) := by
  rw [addRows, addRows, rows_map]
  exact carries_foldlM (carries_addGuarded injective op guard) (rows args) s

lemma carries_lookup (name : String) :
    Carries (map (.rename ρ)) (s.lookup name.toList) ((s.rename ρ).lookup (ρ name).toList) := by
  have found : (s.rename ρ).registers.lookup (ρ name) = (s.registers.lookup name).map (map (.rename ρ)) := by
    rw [Scope.rename]
    induction s.registers with
    | nil => rfl
    | cons e rest ih =>
      obtain ⟨key, units⟩ := e
      rw [map_cons, lookup_cons, lookup_cons]
      by_cases same : name = key
      · simp [same]
      · rw [beq_false_of_ne same, beq_false_of_ne (injective.ne same)]
        exact ih
  rw [Scope.lookup, Scope.lookup, String.ofList_toList, String.ofList_toList, found]
  cases s.registers.lookup name <;> rfl

lemma carries_units (u : UnitId) : Carries (map (.rename ρ)) (s.units u) ((s.rename ρ).units (u.rename ρ)) := by
  by_cases whole : u.index = []
  · rw [Scope.units, if_pos whole, Scope.units, rename, if_pos whole]
    exact carries_lookup injective u.register
  · rw [Scope.units, if_neg whole, Scope.units, rename, if_neg whole]
    rfl

lemma Action.carries_run (a : Action) (guard : Guard) : Carries (Scope.rename ρ) (a.run header [] s guard)
    ((a.rename ρ).run header [] (s.rename ρ) (guard.map fun g => (g.1.map (.rename ρ), g.2))) := by
  cases a with
  | gate word args =>
    refine (carries_mapM (carries_units injective) args).bind fun units => ?_
    split
    · rw [← map_flatten]
      exact carries_update (carries_addBarrier (rename_injective injective))
    · cases namedOp header [] plainGates word [] with
      | error e => rfl
      | ok op => exact carries_addRows injective op guard units
  | measure q b =>
    exact (carries_units injective q).bind fun source => (carries_units injective b).bind fun target =>
      carries_addRows injective _ guard [source, target]

lemma Sentence.carries_run (t : Sentence) :
    Carries (Scope.rename ρ) (t.run header [] s) ((t.rename ρ).run header [] (s.rename ρ)) := by
  cases t with
  | declare kind r =>
    refine (carries_update (carries_addRegister injective kind r)).bind fun s => ?_
    have defined : (s.rename ρ).define (ρ r.name) (Register.bits ⟨ρ r.name, r.size⟩) =
        (s.define r.name r.bits).rename ρ := by
      simp [Scope.define, Scope.rename, filter_map, comp_def, injective.eq_iff, Register.bits, UnitId.rename]
    exact congrArg some defined
  | act test action =>
    cases test with
    | none => exact action.carries_run injective none
    | some test =>
      exact (carries_lookup injective test.1).bind fun bits =>
        action.carries_run injective (some (bits, test.2))

end

def Action.IsMeasured : Action → Prop
  | gate .. => False
  | measure q _ => "measure".toList <:+: q.register.toList

def Sentence.IsMeasured : Sentence → Prop
  | declare .. => False
  | act _ action => action.IsMeasured

lemma Sentence.asRead_of_not_isMeasured {t : Sentence} (clear : ¬t.IsMeasured) : t.asRead = t := by
  rcases t with ⟨kind, r⟩ | ⟨test, ⟨word, args⟩ | ⟨q, b⟩⟩
  · rfl
  · rfl
  · rw [Sentence.asRead, Action.asRead, unmeasured, remove_of_not_infix clear, String.ofList_toList]

lemma Sentence.plain_rename (names : ∀ x, IsName x → IsName (ρ x)) {t : Sentence} (plain : t.IsPlain) :
    (t.rename ρ).IsPlain := by
  have operand : ∀ {u : UnitId}, IsOperand u → IsOperand (u.rename ρ) := fun known =>
    ⟨names _ known.name, known.flat⟩
  have tested : ∀ {test : Option (String × Nat)}, (∀ t ∈ test, IsName t.1) →
      ∀ t ∈ test.map (fun t => (ρ t.1, t.2)), IsName t.1 := by
    intro test named t mem
    obtain ⟨v, inside, rfl⟩ := Option.mem_map.mp mem
    exact names _ (named v inside)
  rcases t with ⟨kind, r⟩ | ⟨test, ⟨word, args⟩ | ⟨q, b⟩⟩
  · exact names _ plain
  · obtain ⟨tests, listed, some, operands⟩ := plain
    refine ⟨tested tests, listed, by simpa using some, ?_⟩
    simpa using fun u mem => operand (operands u mem)
  · exact ⟨tested plain.1, operand plain.2.1, operand plain.2.2⟩

def Sentence.IsClear (t : Sentence) : Prop := ¬t.IsGated ∧ ¬t.IsMeasured

lemma parse_clear {file : String} (listed : file ∈ headers) {program : List Sentence}
    (clear : ∀ t ∈ program, t.IsPlain ∧ t.IsClear) : parse (sentencesText file program) =
    program.foldlM (Sentence.run file []) ⟨empty, []⟩ >>= (pure ·.circuit) := by
  have same : program.map (·.asRead) = program :=
    (map_congr_left fun t mem => Sentence.asRead_of_not_isMeasured (clear t mem).2.2).trans
      (map_id _)
  rw [parse_sentencesText listed (fun t mem => (clear t mem).1) fun t mem =>
    (clear t mem).2.1, same]

def measuring (x y source : String) : List Sentence :=
  [.declare .qubit ⟨x, 1⟩, .declare .bit ⟨y, 1⟩, .act none (.measure ⟨source, []⟩ ⟨y, []⟩)]

lemma plain_measuring {x y : String} (named : IsName x) (other : IsName y) : ∀ t ∈ measuring x y x, t.IsPlain := by
  have whole : ∀ {z}, IsName z → IsOperand ⟨z, []⟩ := fun known => ⟨known, by simp⟩
  refine forall_mem_cons.mpr ⟨named, forall_mem_cons.mpr ⟨other, forall_mem_singleton.mpr ?_⟩⟩
  exact ⟨by simp, whole named, whole other⟩

section

variable {x y : String} (apart : x ≠ y)

def measuringScope (x y : String) : Scope :=
  ⟨{ empty with qubits := [⟨x, [0]⟩], bits := [⟨y, [0]⟩] }, [(y, [⟨y, [0]⟩]), (x, [⟨x, [0]⟩])]⟩

include apart

lemma run_measuring (file source : String) : (measuring x y source).foldlM (Sentence.run file []) ⟨empty, []⟩ =
    Action.run file [] (measuringScope x y) none (.measure ⟨source, []⟩ ⟨y, []⟩) := by
  let c : Circuit := { empty with qubits := [⟨x, [0]⟩] }
  have first : Sentence.run file [] ⟨empty, []⟩ (.declare .qubit ⟨x, 1⟩) = .ok ⟨c, [(x, [⟨x, [0]⟩])]⟩ := rfl
  have second : Sentence.run file [] ⟨c, [(x, [⟨x, [0]⟩])]⟩ (.declare .bit ⟨y, 1⟩) = .ok (measuringScope x y) := by
    have fresh : c.registerInfo? y = none := by simp [registerInfo?, empty, c, apart]
    rw [Sentence.run_declare (addRegister_first fresh rfl)]
    simp [Scope.define, withUnits, Register.bits, apart, measuringScope, c]
  rw [measuring, foldlM_cons, first]
  simp only [bind, Except.bind, foldlM_cons, second]
  rw [Sentence.run]
  cases Action.run file [] (measuringScope x y) none (.measure ⟨source, []⟩ ⟨y, []⟩) <;> rfl

lemma accepts_measuring :
    (measuringScope x y).circuit.Accepts (.gate .measure []) [q, ⟨y, [0]⟩] ↔ q = ⟨x, [0]⟩ := by
  constructor
  · intro accepted
    have qubit := kindOf?_eq_qubit.mp (accepted.kinds (q, .quantum) (.head _))
    exact mem_singleton.mp qubit
  · rintro rfl
    have qubit : (measuringScope x y).circuit.kindOf? ⟨x, [0]⟩ = some .qubit :=
      kindOf?_eq_qubit.mpr (mem_singleton.mpr rfl)
    have bit : (measuringScope x y).circuit.kindOf? ⟨y, [0]⟩ = some .bit :=
      kindOf?_eq_bit.mpr (by simp [measuringScope, apart.symm])
    exact ⟨by simp, rfl, nodup_cons.mpr ⟨by simp [apart], nodup_singleton _⟩,
      forall_mem_cons.mpr ⟨qubit, forall_mem_singleton.mpr bit⟩⟩

lemma run_measuring_iff (file source : String) :
    (∃ s, (measuring x y source).foldlM (Sentence.run file []) ⟨empty, []⟩ = .ok s) ↔ source = x := by
  have units (z : String) : (measuringScope x y).units ⟨z, []⟩ =
      if z = y then .ok [⟨y, [0]⟩] else if z = x then .ok [⟨x, [0]⟩] else .error .unknownRegister := by
    simp only [Scope.units, Scope.lookup, measuringScope, lookup, String.ofList_toList]
    by_cases bit : z = y
    · simp [bit]
    · rw [beq_false_of_ne bit, if_neg bit]
      by_cases qubit : z = x
      · simp [qubit]
      · simp [beq_false_of_ne qubit, qubit]
  have pair (q : UnitId) : addRows (measuringScope x y) (gateOp .measure []) none [[q], [⟨y, [0]⟩]] =
      (measuringScope x y).update ((measuringScope x y).circuit.addOp (.gate .measure []) [q, ⟨y, [0]⟩]) :=
    @addRows_singletons _ _ [q, ⟨y, [0]⟩] _ (by simp)
  rw [run_measuring apart, Action.run, units, units, if_pos rfl]
  constructor
  · rintro ⟨t, done⟩
    obtain ⟨source, read, added⟩ := bind_eq_ok.mp done
    split at read
    case isTrue bit =>
      obtain rfl := Except.ok.inj read
      replace added := (pair ⟨y, [0]⟩).symm.trans added
      cases found : (measuringScope x y).circuit.addOp (.gate .measure []) [⟨y, [0]⟩, ⟨y, [0]⟩] with
      | error e =>
        rw [found] at added
        cases added
      | ok c =>
        have same := (accepts_measuring apart).mp (addOp_eq_ok found).1
        exact absurd (mk.inj same).1.symm apart
    case isFalse =>
      split at read
      case isTrue qubit => exact qubit
      case isFalse => cases read
  · rintro rfl
    rw [if_neg apart, if_pos rfl]
    refine ⟨(measuringScope source y).withCommand (.gate .measure []) [⟨source, [0]⟩, ⟨y, [0]⟩], ?_⟩
    refine (pair ⟨source, [0]⟩).trans ?_
    rw [((accepts_measuring apart).mpr rfl).addOp]
    rfl

end

/-- Renaming the registers of a program renames the registers of its circuit, as long as what is measured
has clear names. A register with another name cannot be measured. -/
theorem parse_rename {file : String} (listed : file ∈ headers) :
    (∀ (ρ : String → String) (program : List Sentence), Function.Injective ρ →
      (∀ x, IsName x → IsName (ρ x)) → (∀ t ∈ program, t.IsPlain) →
      (∀ t ∈ program, t.IsClear ∧ (t.rename ρ).IsClear) →
      Carries (Circuit.mapUnits (.rename ρ)) (parse (sentencesText file program))
        (parse (sentencesText file (program.map (.rename ρ))))) ∧
    ∀ x y, IsName x → IsName y → x ≠ y →
      ((∃ c, parse (sentencesText file (measuring x y x)) = .ok c) ↔
        ¬"measure".toList <:+: x.toList ∧ ¬"gate".toList <:+ x.toList) := by
  constructor
  · intro ρ program injective names plain clear
    have still : ∀ t ∈ program.map (Sentence.rename ρ), t.IsPlain ∧ t.IsClear := by
      intro t member
      obtain ⟨t, inside, rfl⟩ := mem_map.mp member
      exact ⟨t.plain_rename names (plain t inside), (clear t inside).2⟩
    have start : Scope.rename ρ ⟨Circuit.empty, []⟩ = ⟨Circuit.empty, []⟩ := by
      simp [Scope.rename, Circuit.mapUnits, Circuit.empty, UnitId.sort]
    have run : Carries (Scope.rename ρ) (program.foldlM (Sentence.run file []) ⟨Circuit.empty, []⟩)
        ((program.map (.rename ρ)).foldlM (Sentence.run file []) (.rename ρ ⟨Circuit.empty, []⟩)) :=
      carries_foldlM (fun s t => t.carries_run injective) program _
    rw [start] at run
    rw [parse_clear listed fun t member => ⟨plain t member, (clear t member).1⟩, parse_clear listed still]
    refine run.bind fun s => ?_
    rfl
  · intro x y named other apart
    have plain := plain_measuring named other
    have last : Sentence.act none (.measure ⟨x, []⟩ ⟨y, []⟩) ∈ measuring x y x := by simp [measuring]
    by_cases gated : "gate".toList <:+ x.toList
    · rw [parse_gated listed plain last ⟨rfl, gated⟩]
      exact iff_of_false (by simp) fun clear => clear.2 gated
    · have ungated : ∀ t ∈ measuring x y x, ¬t.IsGated := by
        simpa [measuring, Sentence.IsGated, Action.IsGated] using gated
      have read : (measuring x y x).map (·.asRead) =
          measuring x y (String.ofList (remove "measure".toList x.toList)) := rfl
      have kept : String.ofList (remove "measure".toList x.toList) = x ↔ ¬"measure".toList <:+: x.toList := by
        constructor
        · intro same found
          have shorter := length_remove_lt (by decide) found
          have long := congrArg (·.toList.length) same
          simp only [String.toList_ofList] at long
          omega
        · intro absent
          rw [ remove_of_not_infix absent, String.ofList_toList]
      rw [parse_sentencesText listed plain ungated, read, and_iff_left gated, ← kept,
        ← run_measuring_iff apart file]
      constructor
      · rintro ⟨c, done⟩
        obtain ⟨s, ran, -⟩ := bind_eq_ok.mp done
        exact ⟨s, ran⟩
      · rintro ⟨s, ran⟩
        rw [ran]
        exact ⟨s.circuit, rfl⟩

/-- Appending a letter to the names changes nothing but the names, and a register whose name has the word
for a measurement in it is not found. -/
theorem parse_rename_measured :
    Carries (Circuit.mapUnits (.rename (· ++ "x"))) (parse (sentencesText "qelib1" (measuring "q" "c" "q")))
      (parse (sentencesText "qelib1" (measuring "qx" "cx" "qx"))) ∧
    (∃ c, parse (sentencesText "qelib1" (measuring "q" "c" "q")) = .ok c) ∧
    ¬∃ c, parse (sentencesText "qelib1" (measuring "measured" "c" "measured")) = .ok c := by
  have names : ∀ x, IsName x → IsName (x ++ "x") := by
    intro x named
    refine ⟨by simp, fun c member => ?_⟩
    rw [String.toList_append, mem_append] at member
    rcases member with own | last
    · exact named.chars c own
    · rw [mem_singleton.mp last]
      decide
  have q : IsName "q" := ⟨by decide, all_eq_true.mp (by decide)⟩
  have c : IsName "c" := ⟨by decide, all_eq_true.mp (by decide)⟩
  have measured : IsName "measured" := ⟨by decide, all_eq_true.mp (by decide)⟩
  have plain : ∀ t ∈ measuring "q" "c" "q", t.IsPlain := plain_measuring q c
  have clear : ∀ t ∈ measuring "q" "c" "q", t.IsClear ∧ (t.rename (· ++ "x")).IsClear := by
    simp [measuring, Sentence.IsClear, Sentence.IsGated, Action.IsGated, Sentence.IsMeasured,
      Action.IsMeasured, Sentence.rename, Action.rename, UnitId.rename]
    decide
  have listed : "qelib1" ∈ headers := by decide
  obtain ⟨carried, sharp⟩ := parse_rename listed
  refine ⟨carried _ _ (fun x y same => by simpa using same) names plain clear,
    (sharp "q" "c" q c (by decide)).mpr (by decide), fun read => ?_⟩
  have clear := (sharp "measured" "c" measured c (by decide)).mp read
  exact absurd clear.1 (by decide)

end Qasm

end CircuitWorks
