import CircuitWorks.Proofs.Qasm.Reading
import CircuitWorks.Proofs.Qasm.Faithful

/-!
Circuits over the default registers, how they are written, and how they come back from their programs.

Statements on whole registers, and logic on whole registers in the program of a circuit.
-/

namespace CircuitWorks.Qasm

section

open List Text UnitId Circuit Sentence

variable {type : OpType} {args : List UnitId} {op : Op}

def isPlainGate (type : OpType) : Bool :=
  type ≠ .barrier && (plainName? type).any (· ∈ standardNames)

def declared (r : Register) : List Register := if r.size = 0 then [] else [r]

lemma spanned_same {name : String} {units : List UnitId} (same : ∀ u ∈ units, u.register = name)
    {last : UnitId} (final : units.getLast? = some last) : spanned units = [⟨name, last.index.headD 0 + 1⟩] := by
  induction units with
  | nil => cases final
  | cons u rest ih =>
    have own := same u (by simp)
    cases rest with
    | nil =>
      obtain rfl : u = last := by simpa using final
      simp [spanned, own]
    | cons v more =>
      have later := ih (fun w mem => same w (.tail _ mem)) (by simpa using final)
      rw [spanned, later]
      simp [own]

lemma registersOf_bits (r : Register) : registersOf r.bits = .ok (declared r) := by
  obtain ⟨name, size⟩ := r
  have single : (Register.bits ⟨name, size⟩).any (fun u => u.index.length ≠ 1) = false := by simp [Register.bits]
  rw [registersOf, single]
  cases size with
  | zero => rfl
  | succ size =>
    have same : ∀ u ∈ Register.bits ⟨name, size + 1⟩, u.register = name := by simp [Register.bits]
    have final : (Register.bits ⟨name, size + 1⟩).getLast? = some ⟨name, [size]⟩ := by simp [Register.bits, range_succ]
    rw [spanned_same same final]
    rfl

section

def gateName (type : OpType) : String := (plainName? type).getD ""

def gateWires (type : OpType) : List EdgeType := type.signature.getD []

structure PlainGate (type : OpType) : Prop where
  known : gateName type ∈ gateWords
  proper : gateName type ≠ "barrier"
  named : namedOp "qelib1" [] plainGates (gateName type) [] = .ok (.ok (.gate type []))
  written : plainName? type = some (gateName type)
  declared : gateName type ∈ standardNames
  signature : type.signature = some (gateWires type)
  acts : gateWires type ≠ []
  ordinary : isExtendedOp (.gate type []) = false

lemma plainGate_of_isPlainGate (plain : isPlainGate type = true) : PlainGate type := by
  have all : ∀ type ∈ OpType.all, isPlainGate type = true →
      (gateName type ∈ gateWords ∧ gateName type ≠ "barrier" ∧
        plainGates.lookup (gateName type) = some type ∧ isExtended (gateName type) = false) ∧
      (type ≠ .barrier ∧ type.isGate = true ∧ type.paramCount = 0) ∧
      plainName? type = some (gateName type) ∧ gateName type ∈ standardNames ∧
      type.signature = some (gateWires type) ∧ gateWires type ≠ [] ∧
      type ∉ [OpType.rangePredicate, .multiBit, .explicitPredicate, .explicitModifier, .setBits] := by
    decide
  have listed : type ∈ OpType.all := by cases type <;> decide
  obtain ⟨⟨known, proper, found, standard⟩, ⟨free, gate, bare⟩, written, declared, signature, acts,
    ordinary⟩ := all type listed plain
  have named : namedOp "qelib1" [] plainGates (gateName type) [] = .ok (.ok (.gate type [])) := by
    simp [namedOp, found, standard, gateOp, free, gate, bare]
  refine ⟨known, proper, named, written, declared, signature, acts, ?_⟩
  simpa [isExtendedOp, Op.type] using ordinary

def IsDefault (u : UnitId) : Prop := ∃ i, u = .qubit i ∨ u = .bit i

lemma IsDefault.operand (known : IsDefault u) : IsOperand u ∧ unmeasured u = u ∧ u.index ≠ [] := by
  have names : ∀ name ∈ ["q", "c"], name.toList ≠ [] ∧ name.toList.all Angle.isNamePart = true ∧
      remove "measure".toList name.toList = name.toList := by decide
  have each : ∀ name ∈ ["q", "c"], ∀ i, u = ⟨name, [i]⟩ →
      IsOperand u ∧ unmeasured u = u ∧ u.index ≠ [] := by
    rintro name listed i rfl
    obtain ⟨some, chars, kept⟩ := names name listed
    refine ⟨⟨⟨some, all_eq_true.mp chars⟩, by simp⟩, ?_, by simp⟩
    rw [unmeasured, kept, String.ofList_toList]
  obtain ⟨i, qubit | bit⟩ := known
  · exact each "q" (by simp) i qubit
  · exact each "c" (by simp) i bit

structure Spells (st : Statement) (type : OpType) (args : List UnitId) (a : Action) : Prop where
  text : st.text.toList = a.text ++ [';', '\n']
  plain : a.IsPlain
  clear : ¬a.IsGated ∧ a.asRead = a
  run : ∀ s guard, a.run "qelib1" [] s guard = addGuarded s (.ok (.gate type [])) guard args

lemma Spells.act_clear {st : Statement}
    (spelled : Spells st type args a) {test : Option (String × Nat)} :
    ¬(act test a).IsGated ∧ (act test a).asRead = .act test a :=
  ⟨spelled.clear.1, by rw [asRead, spelled.clear.2]⟩

lemma toList_gate (name : String) (args : List UnitId) :
    (Statement.gate name none args).text.toList = Action.text (.gate name args) ++ [';', '\n'] := by
  simp [Statement.text, Action.text, instruction, operandText, Function.comp_def]

lemma spells_gate (plain : PlainGate type) (some : args ≠ []) (known : ∀ u ∈ args, IsDefault u) :
    Spells (.gate (gateName type) none args) type args (.gate (gateName type) args) where
  text := toList_gate _ _
  plain := ⟨plain.known, some, fun u mem => (known u mem).operand.1⟩
  clear := ⟨id, rfl⟩
  run s guard := by
    rw [Action.run, mapM_units fun u mem => (known u mem).operand.2.2]
    simp only [bind, Except.bind, plain.proper, if_false, plain.named]
    exact addRows_singletons some

lemma spells_measure (source : IsDefault q) (target : IsDefault b) :
    Spells (.measure q b) .measure [q, b] (.measure q b) where
  text := by simp [Statement.text, Action.text, instruction, arrowText]
  plain := ⟨source.operand.1, target.operand.1⟩
  clear := ⟨fun gated => source.operand.2.2 gated.1, by rw [Action.asRead, source.operand.2.1]⟩
  run s guard := by
    have first : s.units q = .ok [q] := if_neg source.operand.2.2
    have second : s.units b = .ok [b] := if_neg target.operand.2.2
    rw [Action.run, first, second]
    exact addRows_singletons (cons_ne_nil q [b])

variable {ctx : Context} (standard : ctx.header = "qelib1")

include standard

lemma gateLine_gate (form : writtenForm op = (type, [])) {name : String}
    (written : plainName? type = some name) (declared : name ∈ standardNames)
    (other : type ≠ .measure) (args : List UnitId) : gateLine ctx op args = .ok [.gate name none args] := by
  have names : headerNames? ctx.header = some standardNames := by rw [standard]; rfl
  rw [gateLine, form]
  simp only [written, names, declared, not_true, if_false, pure_bind]
  split
  · exact absurd rfl other
  · rfl

lemma gateLine_measure (q b : UnitId) : gateLine ctx (.gate .measure []) [q, b] = .ok [.measure q b] := by
  have names : headerNames? ctx.header = some standardNames := by rw [standard]; rfl
  have written : plainName? .measure = some "measure" := by decide
  rw [gateLine]
  simp only [writtenForm, Op.type, written, names, pure_bind]
  rfl

lemma statements_plain (plain : PlainGate type)
    (arity : args.length = (gateWires type).length) (known : ∀ u ∈ args, IsDefault u) :
    ∃ st a, statements ctx (.gate type []) args = .ok [st] ∧ Spells st type args a := by
  have some : args ≠ [] := by
    rintro rfl
    exact plain.acts (length_eq_zero_iff.mp arity.symm)
  by_cases measure : type = .measure
  · subst measure
    obtain ⟨q, b, rfl⟩ := length_eq_two.mp arity
    exact ⟨_, _, gateLine_measure standard q b, spells_measure (known q (by simp)) (known b (by simp))⟩
  · have form : writtenForm (.gate type []) = (type, []) := by simp [writtenForm, Op.type, Op.params]
    exact ⟨_, _, gateLine_gate standard form plain.written plain.declared measure args, spells_gate plain some known⟩

end

structure OnDefaults (n m : Nat) (c : Circuit) : Prop where
  qubits : c.qubits = (range n).map qubit
  bits : c.bits = (range m).map bit

structure Ready (n m : Nat) (s : Scope) : Prop where
  units : OnDefaults n m s.circuit
  named : 0 < m → s.lookup "c".toList = .ok ((range m).map bit)

/-- The commands of programs: plain gates, barriers on qubits, and plain gates under a condition on
all bits in order, of which there is at least one. -/
inductive Printable (m : Nat) : Command → Prop where
  | gate (type : OpType) (args : List UnitId) (plain : isPlainGate type = true) :
      Printable m ⟨.gate type [], args⟩
  | barrier (args : List UnitId) : Printable m ⟨.barrier (replicate args.length .quantum), args⟩
  | conditional (type : OpType) (value : Nat) (args : List UnitId) (plain : isPlainGate type = true)
      (tested : 0 < m) :
      Printable m ⟨.conditional m value (.gate type []), (range m).map bit ++ args⟩

def defaultContext (m : Nat) : Context := ⟨"qelib1", declared ⟨"c", m⟩, []⟩

structure LineOf (n m : Nat) (line : Line) (cmd : Command) (t : Sentence) : Prop where
  text : line.text.toList = t.text ++ [';', '\n']
  plain : t.IsPlain
  clear : ¬t.IsGated ∧ t.asRead = t
  run : ∀ s, Ready n m s → t.run "qelib1" [] s = .ok (s.withCommand cmd.op cmd.args)

lemma OnDefaults.kindOf? (first : OnDefaults n m c) (second : OnDefaults n m d)
    (u : UnitId) : d.kindOf? u = c.kindOf? u := by
  rw [Circuit.kindOf?, Circuit.kindOf?, first.qubits, second.qubits, first.bits, second.bits]

lemma OnDefaults.accepts (first : OnDefaults n m c) (second : OnDefaults n m d)
    (accepted : c.Accepts op args) : d.Accepts op args :=
  accepted.mono fun u _ kind known => by rw [first.kindOf? second, known]

lemma OnDefaults.isDefault (defaults : OnDefaults n m c)
    (accepted : c.Accepts op args) : ∀ u ∈ args, IsDefault u := by
  intro u mem
  obtain ⟨e, _, known⟩ := accepted.wire mem
  cases kind : e.kind with
  | qubit =>
    rw [kind, kindOf?_eq_qubit, defaults.qubits] at known
    obtain ⟨i, _, rfl⟩ := mem_map.mp known
    exact ⟨i, .inl rfl⟩
  | bit =>
    rw [kind, kindOf?_eq_bit, defaults.bits] at known
    obtain ⟨i, _, rfl⟩ := mem_map.mp known.2
    exact ⟨i, .inr rfl⟩

lemma standard_defaultContext (m : Nat) : (defaultContext m).header = "qelib1" := rfl

lemma lineOf_gate (defaults : OnDefaults n m c) (plain : PlainGate type)
    (accepted : c.Accepts (.gate type []) args) : ∃ line t, commandLines (defaultContext m) ⟨.gate type [], args⟩ =
    .ok ([line], defaultContext m) ∧ LineOf n m line ⟨.gate type [], args⟩ t := by
  have arity : args.length = (gateWires type).length := by
    have wires := accepted.arity
    rwa [Op.signature, plain.signature] at wires
  obtain ⟨st, a, written, spelled⟩ :=
    statements_plain (standard_defaultContext m) plain arity (defaults.isDefault accepted)
  refine ⟨⟨none, st⟩, .act none a, ?_, ?_, ⟨by simp, spelled.plain⟩, spelled.act_clear, fun s ready => ?_⟩
  · rw [commandLines]
    simp only [written]
    rfl
  · simpa [Line.text, Sentence.text] using spelled.text
  · rw [Sentence.run, spelled.run]
    exact addGuarded_none (defaults.accepts ready.units accepted)

lemma addBarrier_qubits (defaults : OnDefaults n m c)
    (accepted : c.Accepts (.barrier (replicate args.length .quantum)) args) :
    c.addBarrier args = .ok (c.withCommand (.barrier (replicate args.length .quantum)) args) := by
  have wires : args.map (fun u => if u ∈ c.bits then EdgeType.classical else .quantum) =
      replicate args.length .quantum := by
    rw [eq_replicate_iff]
    refine ⟨by simp, fun e mem => ?_⟩
    obtain ⟨u, inside, rfl⟩ := mem_map.mp mem
    obtain ⟨e, onWire, known⟩ := accepted.wire inside
    obtain rfl := eq_of_mem_replicate onWire
    have qubit := kindOf?_eq_qubit.mp known
    rw [defaults.qubits] at qubit
    obtain ⟨i, _, rfl⟩ := mem_map.mp qubit
    have apart : UnitId.qubit i ∉ c.bits := by
      rw [defaults.bits]
      simp [UnitId.qubit, UnitId.bit]
    rw [if_neg apart]
  rw [addBarrier, wires, accepted.addOp]

lemma lineOf_barrier (defaults : OnDefaults n m c)
    (accepted : c.Accepts (.barrier (replicate args.length .quantum)) args) :
    ∃ line t, commandLines (defaultContext m) ⟨.barrier (replicate args.length .quantum), args⟩ =
    .ok ([line], defaultContext m) ∧ LineOf n m line ⟨.barrier (replicate args.length .quantum), args⟩ t := by
  have known := defaults.isDefault accepted
  have listed : "barrier" ∈ gateWords := by decide
  refine ⟨⟨none, .gate "barrier" none args⟩, .act none (.gate "barrier" args), ?_, ?_,
    ⟨by simp, listed, accepted.nonempty, fun u mem => (known u mem).operand.1⟩, ⟨id, rfl⟩,
    fun s ready => ?_⟩
  · rw [commandLines]
    rfl
  · simpa [Line.text, Sentence.text] using toList_gate "barrier" args
  · have single : (args.map ([·])).flatten = args := by
      rw [← flatMap_def, flatMap_singleton']
    rw [Sentence.run, Action.run, mapM_units fun u mem => (known u mem).operand.2.2]
    simp only [bind, Except.bind, if_true, single,
      addBarrier_qubits ready.units (defaults.accepts ready.units accepted)]
    rfl

lemma conditionTest_bits (tested : 0 < m) (value : Nat) :
    conditionTest (defaultContext m) m value ((range m).map bit) =
    .ok (⟨.register "c", .eq, value⟩, defaultContext m) := by
  have sorted : sort ((range m).map bit) = Register.bits ⟨"c", m⟩ :=
    Register.sort_bits ⟨"c", m⟩
  have plain : (defaultContext m).extended = false := by
    rw [Context.extended, standard_defaultContext]
    decide
  have found : (defaultContext m).register "c" = .ok ⟨"c", m⟩ := by
    simp [Context.register, defaultContext, declared, tested.ne']
  obtain ⟨k, rfl⟩ := Nat.exists_eq_succ_of_ne_zero tested.ne'
  rw [range_succ_eq_map, map_cons] at sorted ⊢
  rw [conditionTest]
  have waiting : (defaultContext (k + 1)).pending.lookup (bit 0) = none := rfl
  have named : (bit 0).register = "c" := rfl
  simp only [waiting, named, plain, bind, Except.bind, pure, Except.pure, Bool.false_eq_true,
    if_false, found, sorted, ne_eq, not_true]

lemma lineOf_conditional (defaults : OnDefaults n m c) (tested : 0 < m)
    (plain : PlainGate type) {value : Nat} (accepted : c.Accepts (.conditional m value (.gate type []))
    ((range m).map bit ++ args)) : ∃ line t, commandLines (defaultContext m)
    ⟨.conditional m value (.gate type []), (range m).map bit ++ args⟩ =
    .ok ([line], defaultContext m) ∧ LineOf n m line
    ⟨.conditional m value (.gate type []), (range m).map bit ++ args⟩ t := by
  have width : ((range m).map bit).length = m := by simp
  have arity : args.length = (gateWires type).length := by
    have wires := accepted.arity
    simp only [Op.signature, plain.signature, Option.getD_some, length_append, width,
      length_replicate] at wires
    omega
  have known : ∀ u ∈ args, IsDefault u := fun u mem =>
    defaults.isDefault accepted u (mem_append_right _ mem)
  have letter : IsName "c" := ⟨by decide, all_eq_true.mp (by decide)⟩
  obtain ⟨st, a, written, spelled⟩ :=
    statements_plain (standard_defaultContext m) plain arity known
  refine ⟨⟨some ⟨.register "c", .eq, value⟩, st⟩, .act (some ("c", value)) a, ?_, ?_,
    ⟨by simpa using letter, spelled.plain⟩, spelled.act_clear, fun s ready => ?_⟩
  · rw [commandLines]
    simp only [take_left' width, drop_left' width, conditionTest_bits tested]
    simp only [bind, Except.bind, written]
    rfl
  · have number : toString (value : Int) = toString value := rfl
    simp [Line.text, Test.text, Subject.text, Comparator.text, number, Sentence.text, instruction, guardText,
      spelled.text]
  · rw [Sentence.run, ready.named tested]
    simp only [bind, Except.bind, spelled.run]
    exact addGuarded_some width (defaults.accepts ready.units accepted)

lemma Printable.line (defaults : OnDefaults n m c) {cmd : Command} (printable : Printable m cmd)
    (accepted : c.Accepts cmd.op cmd.args) :
    ∃ line t, commandLines (defaultContext m) cmd = .ok ([line], defaultContext m) ∧ LineOf n m line cmd t := by
  cases printable with
  | gate type args plain => exact lineOf_gate defaults (plainGate_of_isPlainGate plain) accepted
  | barrier args => exact lineOf_barrier defaults accepted
  | conditional type value args plain tested =>
    exact lineOf_conditional defaults tested (plainGate_of_isPlainGate plain) accepted

lemma Printable.ordinary {cmd : Command} (printable : Printable m cmd) : isExtendedOp cmd.op = false := by
  cases printable with
  | gate type args plain => exact (plainGate_of_isPlainGate plain).ordinary
  | barrier args => rfl
  | conditional type value args plain tested => rfl

end

open List Text Sentence Circuit

lemma toList_intercalate_empty (texts : List String) :
    ("".intercalate texts).toList = texts.flatMap String.toList := by
  have joined : ∀ parts : List (List Char), [].intercalate parts = parts.flatten := by
    intro parts
    induction parts with
    | nil => rfl
    | cons part rest ih =>
      cases rest with
      | nil => simp
      | cons next more => rw [intercalate_cons_cons, ih]; simp
  rw [String.toList_intercalate, flatMap_def]
  exact joined _

lemma toList_declaration (kind : UnitKind) (r : Register) :
    (declarationWord kind ++ " " ++ r.name ++ "[" ++ toString r.size ++ "];\n").toList =
    text (.declare kind r) ++ [';', '\n'] := by
  simp [text, instruction, operandText, toList_text]

lemma toList_text_program {qregs cregs : List Register} {lines : List Line} {program : List Sentence}
    (spelled : lines.map (·.text.toList) = program.map (·.text ++ [';', '\n'])) :
    (Program.text ⟨"qelib1", qregs, cregs, lines⟩).toList =
    sentencesText "qelib1" (qregs.map (.declare .qubit) ++ cregs.map (.declare .bit) ++ program) := by
  have body : (lines.map Line.text).flatMap String.toList = program.flatMap (·.text ++ [';', '\n']) := by
    rw [flatMap_def, map_map, flatMap_def, ← spelled]
    rfl
  have declared : ∀ (kind : UnitKind) (registers : List Register),
      (registers.map fun r => declarationWord kind ++ " " ++ r.name ++ "[" ++ toString r.size ++
        "];\n").flatMap String.toList =
      (registers.map (declare kind)).flatMap (·.text ++ [';', '\n']) := by
    intro kind registers
    simp only [flatMap_map, toList_declaration]
  have spaced : "qreg " = declarationWord .qubit ++ " " ∧ "creg " = declarationWord .bit ++ " " := by decide
  simp only [Program.text, declarations, String.toList_append, toList_intercalate_empty, body,
    spaced.1, spaced.2, declared, sentencesText, programText, rowsText, flatMap_map,
    flatMap_append, append_assoc, singleton_append]

section

variable {s : Scope} {kind : UnitKind}

lemma foldlM_declared (fresh : s.circuit.registerInfo? r.name = none)
    (none : s.circuit.unitsOf kind = []) : ∃ t, ((declared r).map (declare kind)).foldlM (run "qelib1" []) s = .ok t ∧
    t.circuit = s.circuit.withUnits kind r.bits ∧ (0 < r.size → t.lookup r.name.toList = .ok r.bits) := by
  unfold declared
  split
  case isTrue empty =>
    have missing : r.bits = [] := by simp [Register.bits, empty]
    refine ⟨s, rfl, ?_, fun positive => absurd empty positive.ne'⟩
    rw [missing, ← none, withUnits_unitsOf]
  case isFalse =>
    refine ⟨{ s with circuit := s.circuit.withUnits kind r.bits }.define r.name r.bits, ?_, rfl,
      fun _ => ?_⟩
    · rw [map_cons, foldlM_cons, run_declare (addRegister_first fresh none)]
      rfl
    · simp [Scope.lookup, Scope.define]

def defaultDeclarations (n m : Nat) : List Sentence :=
  (declared ⟨"q", n⟩).map (.declare .qubit) ++ (declared ⟨"c", m⟩).map (.declare .bit)

lemma plain_defaultDeclarations (n m : Nat) :
    ∀ t ∈ defaultDeclarations n m, t.IsPlain ∧ ¬t.IsGated ∧ t.asRead = t := by
  have single : ∀ {r other : Register}, other ∈ declared r → other = r := by
    intro r other mem
    unfold declared at mem
    split at mem
    · cases mem
    · exact mem_singleton.mp mem
  have names : IsName "q" ∧ IsName "c" := ⟨⟨by decide, all_eq_true.mp (by decide)⟩, ⟨by decide, all_eq_true.mp (by decide)⟩⟩
  intro t mem
  rcases mem_append.mp mem with first | second
  · obtain ⟨r, inside, rfl⟩ := mem_map.mp first
    obtain rfl := single inside
    exact ⟨names.1, id, rfl⟩
  · obtain ⟨r, inside, rfl⟩ := mem_map.mp second
    obtain rfl := single inside
    exact ⟨names.2, id, rfl⟩

lemma foldlM_defaultDeclarations (n m : Nat) :
    ∃ s, (defaultDeclarations n m).foldlM (run "qelib1" []) ⟨empty, []⟩ = .ok s ∧
    Ready n m s ∧ s.circuit.commands = [] := by
  obtain ⟨t, first, qubits, -⟩ := @foldlM_declared ⟨empty, []⟩ .qubit ⟨"q", n⟩ rfl rfl
  have fresh : t.circuit.registerInfo? "c" = none := by
    have other : (Register.bits ⟨"q", n⟩).find? (·.register = "c") = none := by simp [Register.bits, find?_eq_none]
    have none : t.circuit.bits = [] := by rw [qubits]; rfl
    have all : t.circuit.qubits = Register.bits ⟨"q", n⟩ := by rw [qubits]; rfl
    rw [registerInfo?, all, other, none]
    rfl
  have none : t.circuit.unitsOf .bit = [] := by rw [qubits]; rfl
  obtain ⟨s, second, bits, named⟩ := @foldlM_declared t .bit ⟨"c", m⟩ fresh none
  refine ⟨s, ?_, ⟨⟨?_, ?_⟩, named⟩, ?_⟩
  · rw [defaultDeclarations, foldlM_append, first]
    exact second
  · rw [bits, qubits]
    rfl
  · rw [bits]
    rfl
  · rw [bits, qubits]
    rfl

end

lemma Ready.withCommand (ready : Ready n m s) (op : Op) (args : List UnitId) :
    Ready n m (s.withCommand op args) :=
  ⟨⟨ready.units.qubits, ready.units.bits⟩, ready.named⟩

lemma allLines_printable (defaults : OnDefaults n m c) {commands : List Command}
    (each : ∀ cmd ∈ commands, Printable m cmd ∧ c.Accepts cmd.op cmd.args) :
    ∃ (lines : List Line) (program : List Sentence), allLines (defaultContext m) commands = .ok lines ∧
    lines.map (·.text.toList) = program.map (·.text ++ [';', '\n']) ∧
    (∀ t ∈ program, t.IsPlain ∧ ¬t.IsGated ∧ t.asRead = t) ∧
    ∀ s, Ready n m s → ∃ t, program.foldlM (run "qelib1" []) s = .ok t ∧ Ready n m t ∧
    t.circuit.commands = s.circuit.commands ++ commands := by
  induction commands with
  | nil => exact ⟨[], [], rfl, rfl, by simp, fun s ready => ⟨s, rfl, ready, by simp⟩⟩
  | cons cmd rest ih =>
    obtain ⟨printable, accepted⟩ := each cmd (by simp)
    obtain ⟨line, t, first, own⟩ := printable.line defaults accepted
    obtain ⟨lines, program, later, spelled, plain, run⟩ :=
      ih fun other mem => each other (.tail _ mem)
    refine ⟨line :: lines, t :: program, ?_, ?_, ?_, fun s ready => ?_⟩
    · rw [allLines, first]
      simp only [bind, Except.bind, later]
      rfl
    · simp [own.text, spelled]
    · exact forall_mem_cons.mpr ⟨⟨own.plain, own.clear⟩, plain⟩
    · obtain ⟨t, read, still, commands⟩ := run _ (ready.withCommand cmd.op cmd.args)
      refine ⟨t, ?_, still, ?_⟩
      · rw [foldlM_cons, own.run s ready]
        exact read
      · rw [commands]
        cases cmd
        simp [Scope.withCommand, withCommand]

/-- A circuit of plain gates, barriers and conditional gates over the default registers is written,
and what is written is read as a circuit with the same units and commands. -/
theorem parse_text_ofCircuit (defaults : OnDefaults n m c)
    (accepted : ∀ cmd ∈ c.commands, c.checkOp cmd.op cmd.args = .ok ())
    (printable : ∀ cmd ∈ c.commands, Printable m cmd) :
    ∃ p d, Program.ofCircuit c "qelib1" = .ok p ∧ parse p.text.toList = .ok d ∧
      d.qubits = c.qubits ∧ d.bits = c.bits ∧ d.commands = c.commands := by
  have each : ∀ cmd ∈ c.commands, Printable m cmd ∧ c.Accepts cmd.op cmd.args := fun cmd member =>
    ⟨printable cmd member, (c.checkOp_eq_ok_iff _ _).mp (accepted cmd member)⟩
  obtain ⟨lines, program, written, spelled, plain, run⟩ := allLines_printable defaults each
  obtain ⟨s, declarations, ready, none⟩ := foldlM_defaultDeclarations n m
  obtain ⟨t, read, units, commands⟩ := run s ready
  have ordinary : needsExtension c "qelib1" = false := by
    simp only [needsExtension, Bool.and_eq_false_iff, List.any_eq_false]
    exact .inr fun cmd member => by simp [(printable cmd member).ordinary]
  have qubits : registersOf c.qubits = .ok (declared ⟨"q", n⟩) := by
    rw [defaults.qubits]
    exact registersOf_bits ⟨"q", n⟩
  have bits : registersOf c.bits = .ok (declared ⟨"c", m⟩) := by
    rw [defaults.bits]
    exact registersOf_bits ⟨"c", m⟩
  refine ⟨⟨"qelib1", declared ⟨"q", n⟩, declared ⟨"c", m⟩, lines⟩, t.circuit, ?_, ?_, ?_, ?_, ?_⟩
  · have lines : allLines ⟨"qelib1", declared ⟨"c", m⟩, []⟩ c.commands = .ok lines := written
    rw [Program.ofCircuit, ordinary, qubits, bits]
    simp only [bind, Except.bind, lines]
    rfl
  · have all : ∀ t ∈ defaultDeclarations n m ++ program, t.IsPlain ∧ ¬t.IsGated ∧ t.asRead = t :=
      List.forall_mem_append.mpr ⟨plain_defaultDeclarations n m, plain⟩
    have done : (defaultDeclarations n m ++ program).foldlM (Sentence.run "qelib1" [])
        ⟨Circuit.empty, []⟩ = .ok t := by
      rw [List.foldlM_append, declarations]
      exact read
    have standard : "qelib1" ∈ headers := by decide
    have parsed := parse_sentencesText standard (fun t member => (all t member).1) fun t member =>
      (all t member).2.1
    have same : (defaultDeclarations n m ++ program).map (·.asRead) = defaultDeclarations n m ++ program :=
      (map_congr_left fun t member => (all t member).2.2).trans (map_id _)
    rw [same, done] at parsed
    rw [toList_text_program spelled]
    exact parsed
  · rw [units.units.qubits, defaults.qubits]
  · rw [units.units.bits, defaults.bits]
  · rw [commands, none, List.nil_append]

/-- A pair of qubits is entangled and measured; the second is flipped if the bits hold 2, and measured
again under a value that two bits never hold. -/
def flipped : Circuit :=
  { blank 2 2 with
    commands :=
      [⟨.gate .h [], [.qubit 0]⟩, ⟨.gate .cx [], [.qubit 0, .qubit 1]⟩,
       ⟨.barrier [.quantum, .quantum], [.qubit 1, .qubit 0]⟩,
       ⟨.gate .measure [], [.qubit 0, .bit 0]⟩, ⟨.gate .measure [], [.qubit 1, .bit 1]⟩,
       ⟨.conditional 2 2 (.gate .x []), [.bit 0, .bit 1, .qubit 1]⟩,
       ⟨.conditional 2 11 (.gate .measure []), [.bit 0, .bit 1, .qubit 1, .bit 0]⟩,
       ⟨.gate .reset [], [.qubit 1]⟩] }

theorem parse_text_flipped :
    ∃ p d, Program.ofCircuit flipped "qelib1" = .ok p ∧ parse p.text.toList = .ok d ∧
      d.qubits = flipped.qubits ∧ d.bits = flipped.bits ∧ d.commands = flipped.commands := by
  refine parse_text_ofCircuit (n := 2) (m := 2) ⟨rfl, rfl⟩ (fun cmd member => ?_) fun cmd member => ?_
  · simp only [flipped, List.mem_cons, List.not_mem_nil, or_false] at member
    rcases member with rfl | rfl | rfl | rfl | rfl | rfl | rfl | rfl <;> rfl
  · simp only [flipped, List.mem_cons, List.not_mem_nil, or_false] at member
    rcases member with rfl | rfl | rfl | rfl | rfl | rfl | rfl | rfl
    · exact .gate .h _ rfl
    · exact .gate .cx _ rfl
    · exact .barrier [.qubit 1, .qubit 0]
    · exact .gate .measure _ rfl
    · exact .gate .measure _ rfl
    · exact .conditional .x 2 [.qubit 1] rfl (by decide)
    · exact .conditional .measure 11 [.qubit 1, .bit 0] rfl (by decide)
    · exact .gate .reset _ rfl

end CircuitWorks.Qasm

namespace CircuitWorks.Qasm

section

open List Text Circuit

inductive Operand where
  | whole (r : Register)
  | single (name : String) (index : Nat)

namespace Operand

def text : Operand → List Char
  | whole r => r.name.toList
  | single name i => name.toList ++ '[' :: (Nat.toDigits 10 i ++ [']'])

def unit (j : Nat) : Operand → UnitId
  | whole r => r.place j
  | single name i => ⟨name, [i]⟩

def count : Operand → Nat
  | whole r => r.size
  | single .. => 1

def units (o : Operand) : List UnitId := (range o.count).map fun j => o.unit j

def IsDeclared (s : Scope) : Operand → Prop
  | whole r => '[' ∉ r.name.toList ∧ s.registers.lookup r.name = some r.bits
  | single name _ => '[' ∉ name.toList

end Operand

/-- The arguments of the commands that a statement stands for. -/
def Broadcasts (ops : List Operand) (rows : List (List UnitId)) : Prop :=
  ∃ k, (∀ r, .whole r ∈ ops → r.size = k) ∧ ((∀ r, .whole r ∉ ops) → k = 1) ∧
    rows = (range k).map fun j => ops.map (·.unit j)

section

variable {ops : List Operand}

lemma zip_positions {α β γ : Type} (f : Nat → α) (g : Nat → β) (combine : α × β → γ) (a b : Nat) :
    (((range a).map f).zip ((range b).map g)).map combine =
    (range (min a b)).map fun j => combine (f j, g j) := by
  apply ext_getElem <;> simp

lemma rows_units (some : ops ≠ []) : ∃ n, (∀ o ∈ ops, n ≤ o.count) ∧ (∃ o ∈ ops, o.count = n) ∧
    rows (ops.map (·.units)) = (range n).map fun j => ops.map (·.unit j) := by
  induction ops with
  | nil => exact absurd rfl some
  | cons o rest ih =>
    cases rest with
    | nil => exact ⟨o.count, by simp, by simp, by simp [rows, Operand.units]⟩
    | cons p more =>
      obtain ⟨n, least, ⟨last, mem, reached⟩, later⟩ := ih (by simp)
      refine ⟨min o.count n, ?_, ?_, ?_⟩
      · intro q inside
        rcases mem_cons.mp inside with rfl | other
        · exact Nat.min_le_left ..
        · exact Nat.le_trans (Nat.min_le_right ..) (least q other)
      · rcases Nat.le_total o.count n with own | others
        · exact ⟨o, by simp, (Nat.min_eq_left own).symm⟩
        · exact ⟨last, .tail _ mem, reached.trans (Nat.min_eq_right others).symm⟩
      · rw [map_cons] at later
        rw [map_cons, map_cons, rows, later]
        · exact zip_positions (fun j => o.unit j) _ _ _ _
        · simp

lemma broadcasts_iff (least : ∀ o ∈ ops, n ≤ o.count) (reached : ∃ o ∈ ops, o.count = n) :
    Broadcasts ops ((range n).map fun j => ops.map (·.unit j)) ↔
    ∀ r, .whole r ∈ ops → ∀ o ∈ ops, r.size ≤ o.count := by
  constructor
  · rintro ⟨k, sizes, _, same⟩ r mem o inside
    have length : n = k := by simpa using congrArg length same
    rw [sizes r mem, ← length]
    exact least o inside
  · intro short
    obtain ⟨o, inside, count⟩ := reached
    refine ⟨n, ?_, ?_, rfl⟩
    · intro r mem
      have below := short r mem o inside
      have above : n ≤ r.size := least _ mem
      omega
    · intro none
      cases o with
      | whole r => exact absurd inside (none r)
      | single name i => exact count.symm

end

section

variable {header : String} {definitions : List Definition} {s t : Scope} {guard : Guard}
  {cs rest : List Char} {op : Op} {ops : List Operand}

lemma operand_read {o : Operand} (declared : o.IsDeclared s) :
    argument s o.text = .ok o.units ∧ measured s o.text = .ok o.units := by
  cases o with
  | whole r =>
    have found : s.lookup r.name.toList = .ok r.bits := by rw [Scope.lookup, String.ofList_toList, declared.2]
    rw [argument, measured, Operand.text, if_neg declared.1, if_neg declared.1, found]
    exact ⟨rfl, rfl⟩
  | single name i =>
    rw [Operand.text, argument_single s declared, measured_single s declared, String.ofList_toList]
    exact ⟨rfl, rfl⟩

lemma mapM_text (declared : ∀ o ∈ ops, o.IsDeclared s) :
    (ops.map (·.text)).mapM (argument s) = .ok (ops.map (·.units)) := by
  rw [mapM_map]
  exact mapM_ok _ _ ops fun o mem => (operand_read (declared o mem)).1

def gateOf (header : String) (definitions : List Definition) (name : List Char) :
    Except ParseError (Except Error Op) :=
  match cut? ['('] name with
  | some (name, params) => do
    namedOp header definitions paramGates (String.ofList name) (← readAngles params.dropLast)
  | none => namedOp header definitions plainGates (String.ofList name) []

inductive Applies (header : String) (definitions : List Definition) (cs : List Char) :
    Op → List Operand → Prop
  | gate {name : List Char} {op : Op} {ops : List Operand} (plain : cut? ['-', '>'] cs = none)
      (parts : splitInstruction cs = (name, ops.map (·.text)))
      (proper : String.ofList name ∉ ["qreg", "creg", "barrier"])
      (named : gateOf header definitions name = .ok (.ok op)) : Applies header definitions cs op ops
  | measure {source target : List Char} {q b : Operand}
      (arrow : cut? ['-', '>'] cs = some (source, target))
      (word : Text.contains "measure".toList source = true)
      (left : remove [' '] (remove "measure".toList source) = q.text)
      (right : remove [' '] target = b.text) : Applies header definitions cs (.gate .measure []) [q, b]

def guardBits : Guard → List UnitId
  | none => []
  | some (bits, _) => bits

def guardedOp (op : Op) : Guard → Op
  | none => op
  | some (bits, value) => .conditional bits.length value.toNat op

lemma addGuarded_commands {args : List UnitId} (added : addGuarded s (.ok op) guard args = .ok t) :
    t.circuit.commands = s.circuit.commands ++ [⟨guardedOp op guard, guardBits guard ++ args⟩] := by
  have grown {full : Op} {all : List UnitId}
      (updated : s.update (s.circuit.addOp full all) = .ok t) :
      t.circuit.commands = s.circuit.commands ++ [⟨full, all⟩] := by
    cases result : s.circuit.addOp full all with
    | error e =>
      rw [result] at updated
      cases updated
    | ok d =>
      rw [result] at updated
      cases updated
      rw [(addOp_eq_ok result).2]
      rfl
  cases guard with
  | none => exact grown added
  | some test =>
    obtain ⟨bits, value⟩ := test
    by_cases negative : value < 0
    · simp [addGuarded, addConditional, conditionOp, negative, bind, Except.bind, Scope.update] at added
    · have condition : conditionOp op bits (some value) = .ok (guardedOp op (some (bits, value))) := if_neg negative
      refine grown ?_
      rw [← added, addGuarded]
      simp only [bind, Except.bind, addConditional, condition]
      rfl

lemma addRows_commands {rows : List (List UnitId)}
    (added : rows.foldlM (fun s row => addGuarded s (.ok op) guard row) s = .ok t) : t.circuit.commands =
    s.circuit.commands ++ rows.map fun row => ⟨guardedOp op guard, guardBits guard ++ row⟩ := by
  induction rows generalizing s with
  | nil =>
    cases added
    simp
  | cons row rest ih =>
    obtain ⟨next, first, later⟩ := bind_eq_ok.mp added
    rw [ih later, addGuarded_commands first]
    simp

lemma readInstruction_applies (front : readGuard s cs = .ok (guard, rest))
    (applies : Applies header definitions rest op ops) (declared : ∀ o ∈ ops, o.IsDeclared s) :
    readInstruction header definitions s cs = addRows s (.ok op) guard (ops.map (·.units)) := by
  have read := mapM_text declared
  rw [readInstruction, front]
  cases applies with
  | @gate name _ _ plain parts proper named =>
    simp only [mem_cons, not_mem_nil, or_false, not_or, ← String.toList_inj,
      String.toList_ofList] at proper
    simp only [bind, Except.bind, plain, parts, proper, if_false, readGate, read]
    unfold gateOf at named
    cases brackets : cut? ['('] name with
    | none =>
      rw [brackets] at named
      simp only [named]
    | some pieces =>
      rw [brackets] at named
      obtain ⟨angles, read, known⟩ := bind_eq_ok.mp named
      simp only [read, known]
  | @measure source target q b arrow word left right =>
    obtain ⟨first, second⟩ := forall_mem_cons.mp declared
    have source := (operand_read first).2
    have target := (operand_read (forall_mem_singleton.mp second)).2
    have spelt : "measure".toList = ['m', 'e', 'a', 's', 'u', 'r', 'e'] := by decide
    rw [spelt] at word left
    simp only [bind, Except.bind, arrow, readMeasure, word, left, right, source, target, Bool.not_true,
      Bool.false_eq_true, if_false]
    exact readMeasure_rows q.units b.units

lemma readInstruction_barrierUnits (front : readGuard s cs = .ok (guard, rest))
    (plain : cut? ['-', '>'] rest = none) (parts : splitInstruction rest = ("barrier".toList, ops.map (·.text)))
    (declared : ∀ o ∈ ops, o.IsDeclared s) :
    readInstruction header definitions s cs = s.update (s.circuit.addBarrier (ops.flatMap (·.units))) := by
  have read := mapM_text declared
  have noBracket : cut? ['('] "barrier".toList = none := by decide
  have others : "barrier".toList ≠ "qreg".toList ∧ "barrier".toList ≠ "creg".toList := by decide
  rw [readInstruction, front]
  simp only [bind, Except.bind, plain, parts, others, if_false, readGate, read, noBracket, if_true]
  rfl

/-- A statement is read as a command for each position that all its operands have, which is what it
stands for just if no register is longer than another operand. A barrier takes all units. -/
theorem readInstruction_positions (some : ops ≠ []) (declared : ∀ o ∈ ops, o.IsDeclared s)
    (front : readGuard s cs = .ok (guard, rest)) :
    (Applies header definitions rest op ops →
      ∃ n rows, (∀ o ∈ ops, n ≤ o.count) ∧ (∃ o ∈ ops, o.count = n) ∧
        rows = (List.range n).map (fun j => ops.map (·.unit j)) ∧
        readInstruction header definitions s cs =
          rows.foldlM (fun s row => addGuarded s (.ok op) guard row) s ∧
        (∀ t, readInstruction header definitions s cs = .ok t → t.circuit.commands =
          s.circuit.commands ++ rows.map fun row => ⟨guardedOp op guard, guardBits guard ++ row⟩) ∧
        (Broadcasts ops rows ↔ ∀ r, .whole r ∈ ops → ∀ o ∈ ops, r.size ≤ o.count)) ∧
    (cut? ['-', '>'] rest = none →
      splitInstruction rest = ("barrier".toList, ops.map (·.text)) →
      readInstruction header definitions s cs =
        s.update (s.circuit.addBarrier (ops.flatMap (·.units)))) := by
  refine ⟨?_, fun plain parts => readInstruction_barrierUnits front plain parts declared⟩
  intro applies
  obtain ⟨n, least, reached, taken⟩ := rows_units some
  have read := readInstruction_applies front applies declared
  rw [addRows, taken] at read
  refine ⟨n, _, least, reached, rfl, read, ?_, broadcasts_iff least reached⟩
  intro t added
  exact addRows_commands (read ▸ added)

theorem readInstruction_positions_mixed :
    let q : UnitId := ⟨"q", [0]⟩
    let r : Register := ⟨"r", 2⟩
    let s : Scope := ⟨{ Circuit.empty with qubits := q :: r.bits }, [("r", r.bits), ("q", [q])]⟩
    ∃ t, readInstruction "qelib1" [] s "cx q[0],r".toList = .ok t ∧
      t.circuit.commands = [⟨.gate .cx [], [q, r.place 0]⟩] ∧
      ¬Broadcasts [.single "q" 0, .whole r] [[q, r.place 0]] := by
  intro q r s
  have known : IsWord "cx".toList := isWord_of_mem (by decide)
  have split : splitInstruction "cx q[0],r".toList =
      ("cx".toList, [Operand.single "q" 0, .whole r].map (·.text)) :=
    (known.splitInstruction "q[0],r".toList).trans (by decide)
  have applies : Applies "qelib1" [] "cx q[0],r".toList (.gate .cx []) [.single "q" 0, .whole r] :=
    @Applies.gate _ _ _ "cx".toList _ _ (by decide) split (by decide) rfl
  obtain ⟨n, rows, least, reached, same, read, commands, right⟩ :=
    (@readInstruction_positions "qelib1" [] s none "cx q[0],r".toList "cx q[0],r".toList (.gate .cx [])
      [.single "q" 0, .whole r] (by simp) (by simp [Operand.IsDeclared, s, r]) rfl).1 applies
  have below : n ≤ 1 := least (.single "q" 0) (by simp)
  have above : 1 ≤ n := by
    obtain ⟨o, member, rfl⟩ := reached
    rcases List.mem_pair.mp member with rfl | rfl <;> simp [Operand.count, r]
  obtain rfl : n = 1 := Nat.le_antisymm below above
  subst same
  obtain ⟨t, done⟩ : ∃ t, readInstruction "qelib1" [] s "cx q[0],r".toList = .ok t := ⟨_, read.trans rfl⟩
  refine ⟨t, done, commands t done, ?_⟩
  intro law
  have long := right.mp law r (by simp) (.single "q" 0) (by simp)
  exact absurd long (by decide)

end

end

open List Program Circuit

section

variable {ctx next : Context} {lines : List Line}

lemma commandLines_keeps {cmd : Command} (extended : ctx.header = "hqslib1")
    (printed : commandLines ctx cmd = .ok (lines, next)) : next.header = ctx.header ∧ next.cregs = ctx.cregs := by
  obtain ⟨op, args⟩ := cmd
  by_cases plain : isDirect op = true
  · rw [(@direct_forms ctx Watch.start op args plain).1] at printed
    obtain ⟨_, _, same⟩ := bind_eq_ok.mp printed
    cases same
    exact ⟨rfl, rfl⟩
  · cases op with
    | range lower upper count =>
      unfold commandLines at printed
      dsimp only at printed
      split at printed
      · cases printed
      · cases printed
        exact ⟨rfl, rfl⟩
    | conditional width value op =>
      obtain ⟨⟨test, middle⟩, condition, printed⟩ := bind_eq_ok.mp printed
      obtain ⟨sts, _, printed⟩ := bind_eq_ok.mp printed
      have same : middle = next := by cases sts <;> cases printed <;> rfl
      subst same
      obtain ⟨_, _, _, _, _, form⟩ := conditionTest_eq_ok extended condition
      rcases form with ⟨_, _, rfl⟩ | ⟨_, _, _, _, _, _, _, _, rfl⟩ <;> exact ⟨rfl, rfl⟩
    | _ => simp [isDirect] at plain

lemma allLines_concat {before : List Command} (extended : ctx.header = "hqslib1")
    (printed : allLines ctx before = .ok lines) (cmd : Command) :
    ∃ next, next.cregs = ctx.cregs ∧ allLines ctx (before ++ [cmd]) = (do
    let (own, _) ← commandLines next cmd
    return lines ++ own) := by
  induction before generalizing ctx lines with
  | nil =>
    cases printed
    refine ⟨ctx, rfl, ?_⟩
    rw [nil_append, allLines]
    cases commandLines ctx cmd <;> simp [allLines, bind, Except.bind, pure, Except.pure]
  | cons old rest ih =>
    obtain ⟨⟨own, middle⟩, written, printed⟩ := bind_eq_ok.mp printed
    obtain ⟨others, remaining, same⟩ := bind_eq_ok.mp printed
    cases same
    obtain ⟨header, cregs⟩ := commandLines_keeps extended written
    obtain ⟨next, known, added⟩ := ih (header.trans extended) remaining
    refine ⟨next, known.trans cregs, ?_⟩
    rw [cons_append, allLines, written]
    change (do return own ++ (← allLines middle (rest ++ [cmd]))) = _
    rw [added]
    cases commandLines next cmd <;> simp [bind, Except.bind, pure, Except.pure]

lemma ofCircuit_withCommand
    (printed : ofCircuit c "hqslib1" = .ok p) (op : Op) (args : List UnitId) :
    ∃ ctx : Context, ctx.cregs = spanned c.bits ∧
    ofCircuit (c.withCommand op args) "hqslib1" = (do
    let (own, _) ← commandLines ctx ⟨op, args⟩
    return { p with lines := p.lines ++ own }) := by
  obtain ⟨qregs, quantum, printed⟩ := bind_eq_ok.mp printed
  obtain ⟨cregs, classical, printed⟩ := bind_eq_ok.mp printed
  obtain ⟨lines, written, same⟩ := bind_eq_ok.mp printed
  cases same
  obtain ⟨ctx, known, added⟩ := allLines_concat rfl written ⟨op, args⟩
  refine ⟨ctx, ?_, ?_⟩
  · rw [registersOf] at classical
    split_ifs at classical
    exact known.trans (Except.ok.inj classical).symm
  · change (do
      let qregs ← registersOf c.qubits
      let cregs ← registersOf c.bits
      let lines ← allLines ⟨"hqslib1", cregs, []⟩ (c.commands ++ [Command.mk op args])
      return (⟨_, qregs, cregs, lines⟩ : Program)) = _
    rw [quantum, classical]
    change (do
      let lines ← allLines ⟨"hqslib1", cregs, []⟩ (c.commands ++ [Command.mk op args])
      return (⟨_, qregs, cregs, lines⟩ : Program)) = _
    rw [added]
    cases commandLines ctx ⟨op, args⟩ <;> rfl

end

section

lemma text_concat (p : Program) (lines : List Line) : ({ p with lines := p.lines ++ lines } : Program).text =
    p.text ++ "".intercalate (lines.map Line.text) := by
  apply String.toList_inj.mp
  simp only [text, String.toList_append, toList_intercalate_empty, map_append,
    flatMap_append, append_assoc]

lemma exists_register {ctx : Context} {bits : List UnitId} (known : ctx.cregs = spanned bits)
    (mem : u ∈ bits) : ∃ r, ctx.register u.register = .ok r ∧ r.name = u.register := by
  have named : ∃ r ∈ ctx.cregs, r.name = u.register := by simpa [known] using mem_names_spanned.mpr ⟨u, mem, rfl⟩
  cases found : ctx.cregs.find? (·.name = u.register) with
  | none =>
    obtain ⟨r, inside, same⟩ := named
    exact absurd (by simpa using same) (find?_eq_none.mp found r inside)
  | some r =>
    have read : ctx.register u.register = .ok r := by rw [Context.register, found]
    exact ⟨r, read, (register_eq_ok read).1⟩

lemma known_of_accepts {c : Circuit} {ctx : Context} (known : ctx.cregs = spanned c.bits)
    {op : BitOperation} {out : Register}
    (accepts : c.Accepts (.multiBit (binaryForm op a b out).1 (k + 1)) (registerArgs op a b out (k + 1))) :
    ∀ r ∈ (binaryForm op a b out).2, ∃ s, ctx.register r.name = .ok s ∧ s.name = r.name := by
  intro r mem
  have kinds : ∀ e ∈ (Op.multiBit (binaryForm op a b out).1 (k + 1)).signature
      (registerArgs op a b out (k + 1)).length, e.kind = .bit := by
    have each : ∀ form ∈ [Op.modifier op, .predicate op], ∀ e ∈ form.signature 0, e.kind = .bit := by
      cases op <;> decide
    have form : (binaryForm op a b out).1 ∈ [Op.modifier op, .predicate op] := by
      unfold binaryForm
      split_ifs <;> simp
    simpa [Op.signature] using each _ form
  have inside : r.place 0 ∈ registerArgs op a b out (k + 1) :=
    mem_flatMap.mpr ⟨0, by simp, mem_map_of_mem mem⟩
  obtain ⟨i, below, same⟩ := getElem_of_mem inside
  have paired := accepts.kinds _ (mem_iff_getElem.mpr
    ⟨i, by rw [length_zip, ← accepts.arity, Nat.min_self]; exact below, rfl⟩)
  rw [getElem_zip, same, kinds _ (getElem_mem _)] at paired
  exact exists_register known (Circuit.kindOf?_eq_bit.mp paired).2

variable {ctx : Context} {op : BitOperation} {symbol : String} {a b out : Register}

lemma registersLine_inPlace (named : logicSymbol op = .ok symbol) {other : Register}
    (form : (binaryForm op a b out).2 = [other, out])
    (known : ∀ r ∈ [other, out], ∃ s, ctx.register r.name = .ok s ∧ s.name = r.name) (k : Nat) :
    registersLine ctx op (registerArgs op a b out (k + 1)) = if k = 0 then .error .missing
    else .ok [.combine (.register out.name) (.register other.name) symbol (.register out.name)] := by
  obtain ⟨_, found, name⟩ := known other (by simp)
  obtain ⟨_, foundOut, nameOut⟩ := known out (by simp)
  cases k with
  | zero =>
    rw [registerArgs, form]
    rfl
  | succ k =>
    rw [registerArgs, form, range_succ_eq_map, range_succ_eq_map]
    simp [registersLine, involved, Register.place, found, foundOut, name, nameOut, combineLine, named,
      bind, Except.bind, pure, Except.pure]

lemma registersLine_apart (named : logicSymbol op = .ok symbol)
    (form : (binaryForm op a b out).2 = [a, b, out]) (apart : out.name ≠ a.name ∧ out.name ≠ b.name)
    (known : ∀ r ∈ [a, b, out], ∃ s, ctx.register r.name = .ok s ∧ s.name = r.name) (k : Nat) :
    registersLine ctx op (registerArgs op a b out (k + 1)) =
    .ok [.combine (.register out.name) (.register a.name) symbol (.register b.name)] := by
  obtain ⟨_, foundA, nameA⟩ := known a (by simp)
  obtain ⟨_, foundB, nameB⟩ := known b (by simp)
  obtain ⟨_, foundOut, nameOut⟩ := known out (by simp)
  rw [registerArgs, form, range_succ_eq_map]
  simp [registersLine, involved, Register.place, apart, foundA, nameA, foundB, nameB, foundOut, nameOut,
    combineLine, named, bind, Except.bind, pure, Except.pure]

lemma commandLines_registers (ctx : Context) (op : BitOperation) (a b out : Register) (size : Nat)
    (args : List UnitId) : commandLines ctx ⟨.multiBit (binaryForm op a b out).1 size, args⟩ =
    (do return ((← registersLine ctx op args).map (⟨none, ·⟩), ctx)) := by
  unfold binaryForm
  split_ifs <;> rfl

lemma registersLine_registerArgs (binary : op ≠ .not) (sizes : a.size = out.size ∧ b.size = out.size) (k : Nat)
    (known : ∀ r ∈ (binaryForm op a b out).2, ∃ s, ctx.register r.name = .ok s ∧ s.name = r.name) :
    ∃ left right symbol, [left, right].Perm [a, b] ∧ logicSymbol op = .ok symbol ∧
    registersLine ctx op (registerArgs op a b out (k + 1)) =
    if k + 1 = 1 ∧ (a = out ∨ b = out) then .error .missing
    else .ok [.combine (.register out.name) (.register left.name) symbol (.register right.name)] := by
  obtain ⟨symbol, named⟩ : ∃ symbol, logicSymbol op = .ok symbol := by
    cases op with
    | not => exact absurd rfl binary
    | and | or | xor => exact ⟨_, rfl⟩
  by_cases first : a = out
  · have form : (binaryForm op a b out).2 = [b, out] := by simp [binaryForm, first]
    rw [form] at known
    refine ⟨b, a, symbol, .swap .., named, ?_⟩
    rw [registersLine_inPlace named form known, first]
    simp
  · by_cases second : b = out
    · have form : (binaryForm op a b out).2 = [a, out] := by simp [binaryForm, first, second]
      rw [form] at known
      refine ⟨a, b, symbol, .refl _, named, ?_⟩
      rw [registersLine_inPlace named form known, second]
      simp
    · have form : (binaryForm op a b out).2 = [a, b, out] := by simp [binaryForm, first, second]
      rw [form] at known
      -- registers of one size differ by their names
      have apart : out.name ≠ a.name ∧ out.name ≠ b.name := by
        constructor
        · intro same
          exact first (Register.mk.injEq .. ▸ ⟨same.symm, sizes.1⟩)
        · intro same
          exact second (Register.mk.injEq .. ▸ ⟨same.symm, sizes.2⟩)
      refine ⟨a, b, symbol, .refl _, named, ?_⟩
      rw [registersLine_apart named form apart known, if_neg (by simp [first, second])]

/-- An operation on registers of one size is written as one assignment, unless it works in place on
single bits: then nothing is written. -/
theorem ofCircuit_addRegisterBinary {c d : Circuit} {p : Program} (binary : op ≠ .not)
    (sizes : a.size = out.size ∧ b.size = out.size) (printed : Program.ofCircuit c "hqslib1" = .ok p)
    (added : c.addRegisterBinary op a b out = .ok d) :
    if out.size = 1 ∧ (a = out ∨ b = out) then Program.ofCircuit d "hqslib1" = .error .missing
    else ∃ q left right symbol, Program.ofCircuit d "hqslib1" = .ok q ∧ [left, right].Perm [a, b] ∧
      logicSymbol op = .ok symbol ∧ q.text = p.text ++
        (out.name ++ " = " ++ left.name ++ " " ++ symbol ++ " " ++ right.name ++ ";\n") := by
  have common : commonSize op a b out = out.size := by
    unfold commonSize binaryForm
    split_ifs <;> simp [sizes]
  change c.addOp (.multiBit (binaryForm op a b out).1 (commonSize op a b out))
    (registerArgs op a b out (commonSize op a b out)) = .ok d at added
  obtain ⟨accepts, same⟩ := Circuit.addOp_eq_ok added
  rw [common] at accepts same
  obtain ⟨k, size⟩ : ∃ k, out.size = k + 1 := by
    refine Nat.exists_eq_succ_of_ne_zero ?_
    intro none
    rw [none] at accepts
    exact accepts.nonempty rfl
  rw [size] at accepts same ⊢
  obtain ⟨ctx, cregs, written⟩ := ofCircuit_withCommand printed
    (.multiBit (binaryForm op a b out).1 (k + 1)) (registerArgs op a b out (k + 1))
  obtain ⟨left, right, symbol, perm, named, line⟩ :=
    registersLine_registerArgs binary sizes k (known_of_accepts cregs accepts)
  rw [commandLines_registers, line, ← same] at written
  split_ifs at written ⊢ with short
  · exact written
  · refine ⟨_, left, right, symbol, written, perm, named, ?_⟩
    rw [text_concat]
    rfl

theorem ofCircuit_addRegisterBinary_single :
    let a : Register := ⟨"a", 1⟩
    let out : Register := ⟨"c", 1⟩
    let c : Circuit := { Circuit.empty with bits := [a.place 0, out.place 0] }
    ∃ p, Program.ofCircuit c "hqslib1" = .ok p ∧
      (∃ d, c.addRegisterBinary .and a out out = .ok d ∧
        Program.ofCircuit d "hqslib1" = .error .missing) ∧
      ∃ d q, c.addRegisterBinary .xor a a out = .ok d ∧ Program.ofCircuit d "hqslib1" = .ok q ∧
        q.text = p.text ++ "c = a ^ a;\n" := by
  intro a out c
  refine ⟨_, rfl, ⟨_, rfl, ?_⟩, ?_⟩
  · have short := @ofCircuit_addRegisterBinary .and a out out c _ _ (by decide) ⟨rfl, rfl⟩ rfl rfl
    rwa [if_pos (by decide)] at short
  · have long := @ofCircuit_addRegisterBinary .xor a a out c _ _ (by decide) ⟨rfl, rfl⟩ rfl rfl
    rw [if_neg (by decide)] at long
    obtain ⟨q, left, right, symbol, written, perm, named, text⟩ := long
    obtain ⟨first, second⟩ : left = a ∧ right = a := by simpa using perm.subset
    cases named
    rw [first, second] at text
    exact ⟨_, q, rfl, written, text⟩

end

end CircuitWorks.Qasm
