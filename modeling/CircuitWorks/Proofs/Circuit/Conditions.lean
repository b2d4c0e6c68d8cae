import CircuitWorks.Circuit.Decompose
import CircuitWorks.Proofs.Circuit.Execution

/-!
Adding conditions step by step. `Leads` says where a run of steps ends: in one way if all are done,
in another if one fails.
-/

namespace CircuitWorks.Scratch

open List String

namespace Pool

variable {α : Type} (le : α → α → Bool)

lemma insertBy_perm (a : α) (l : List α) : (insertBy le a l).Perm (a :: l) := by
  induction l with
  | nil => exact .refl _
  | cons b rest ih =>
    rw [insertBy]
    split
    · exact .refl _
    · exact (ih.cons b).trans (.swap a b rest)

/-- No variable is free twice, and all free variables are known. -/
structure Sound (p : Pool α) : Prop where
  distinct : p.free.Nodup
  known : ∀ a ∈ p.free, a ∈ p.known

/-- What `fresh` returns: a variable that was free or unknown, and is now neither. -/
structure Handed (p : Pool α) (make : Except Error α) (a : α) (q : Pool α) : Prop where
  sound : q.Sound
  taken : a ∉ q.free
  source : a ∈ p.free ∨ make = .ok a ∧ a ∉ p.known
  known : ∀ b, b ∈ q.known ↔ b = a ∨ b ∈ p.known
  free : ∀ b ∈ q.free, b ∈ p.free

variable {scratch : α → Prop} {p q : Pool α} {make : Except Error α} {a b : α}

/-- The variable is not handed out: it is not free, and if it is scratch it is not made anew. -/
def Safe (scratch : α → Prop) (p : Pool α) (a : α) : Prop := a ∉ p.free ∧ (scratch a → a ∈ p.known)

lemma Handed.safe (handed : p.Handed make a q) : q.Safe scratch a :=
  ⟨handed.taken, fun _ => (handed.known a).mpr (.inl rfl)⟩

lemma Handed.fresh (handed : p.Handed make a q) (named : scratch a) : ¬p.Safe scratch a := by
  rintro ⟨taken, known⟩
  rcases handed.source with free | ⟨_, unknown⟩
  · exact taken free
  · exact unknown (known named)

lemma Handed.kept (handed : p.Handed make a q) (safe : p.Safe scratch b) : q.Safe scratch b :=
  ⟨fun free => safe.1 (handed.free b free), fun named => (handed.known b).mpr (.inr (safe.2 named))⟩

variable [DecidableEq α]

lemma mem_known_use (p : Pool α) (a b : α) : b ∈ (p.use a).known ↔ b = a ∨ b ∈ p.known := by
  unfold use
  split
  · exact ⟨.inr, fun either => either.elim (fun same => same ▸ by assumption) id⟩
  · exact mem_cons

@[simp]
lemma free_use (p : Pool α) (a : α) : (p.use a).free = p.free := by
  unfold use
  split <;> rfl

lemma mem_free_push (p : Pool α) (a b : α) : b ∈ (p.push le a).free ↔ b = a ∨ b ∈ p.free :=
  (insertBy_perm le a p.free).mem_iff.trans mem_cons

lemma Sound.push (sound : p.Sound) (le : α → α → Bool) (taken : a ∉ p.free) : (p.push le a).Sound where
  distinct := (insertBy_perm le a p.free).nodup_iff.mpr (nodup_cons.mpr ⟨taken, sound.distinct⟩)
  known := by
    intro b mem
    have either := (mem_free_push le p a b).mp mem
    exact (mem_known_use p a b).mpr (either.imp id (sound.known b))

lemma Sound.fresh (sound : p.Sound) {new : α} (made : make = .ok new) (unknown : new ∉ p.known) :
    ∃ a q, p.fresh make = .ok (a, q) ∧ p.Handed make a q := by
  have nodup := sound.distinct
  have known := sound.known
  rcases p with ⟨free, all⟩
  cases free with
  | nil =>
    refine ⟨new, use ⟨[], all⟩ new, by rw [made]; rfl, ⟨by simp, by simp⟩, by simp,
      .inr ⟨made, unknown⟩, mem_known_use _ new, by simp⟩
  | cons a rest =>
    have split := nodup_cons.mp nodup
    refine ⟨a, ⟨rest, all⟩, rfl, ⟨split.2, fun b mem => known b (.tail a mem)⟩, split.1,
      .inl (mem_cons_self ..), fun b => ⟨.inr, ?_⟩, fun b mem => .tail a mem⟩
    rintro (rfl | mem)
    · exact known b (mem_cons_self ..)
    · exact mem

lemma Safe.push (safe : p.Safe scratch b) (other : b ≠ a) : (p.push le a).Safe scratch b := by
  refine ⟨fun free => ?_, fun named => (mem_known_use p a b).mpr (.inr (safe.2 named))⟩
  exact ((mem_free_push le p a b).mp free).elim other safe.1

lemma Sound.release (sound : p.Sound) (le : α → α → Bool) (safe : p.Safe scratch a) : (p.release le a).Sound := by
  unfold Pool.release
  split
  · exact sound.push le safe.1
  · exact sound

lemma mem_known_release (p : Pool α) (le : α → α → Bool) (a b : α) : b ∈ (p.release le a).known ↔ b ∈ p.known := by
  unfold Pool.release
  split
  · rename_i known
    have mem : a ∈ p.known := by simpa [isKnown] using known
    refine (mem_known_use p a b).trans ⟨?_, .inr⟩
    rintro (rfl | inside)
    · exact mem
    · exact inside
  · rfl

lemma Safe.release (named : ∀ c ∈ p.known, scratch c) (safe : p.Safe scratch b)
    (other : ¬(scratch b ∧ b = a)) : (p.release le a).Safe scratch b := by
  unfold Pool.release
  split
  · rename_i known
    have mem : a ∈ p.known := by simpa [isKnown] using known
    exact safe.push le fun same => other ⟨same ▸ named a mem, same⟩
  · exact safe

lemma Sound.release_both (sound : p.Sound) (named : ∀ c ∈ p.known, scratch c) (le : α → α → Bool)
    (safeA : p.Safe scratch a) (safeB : p.Safe scratch b) (apart : scratch a → a ≠ b) :
    ((p.release le a).release le b).Sound ∧ (∀ c, c ∈ ((p.release le a).release le b).known ↔ c ∈ p.known) ∧
    ∀ c, p.Safe scratch c → ¬(scratch c ∧ (c = a ∨ c = b)) → ((p.release le a).release le b).Safe scratch c := by
  have stays : (p.release le a).Safe scratch b := by
    refine safeB.release le named ?_
    rintro ⟨isScratch, same⟩
    exact apart (same ▸ isScratch) same.symm
  have known (c : α) := mem_known_release p le a c
  refine ⟨(sound.release le safeA).release le stays, fun c => (mem_known_release _ le b c).trans (known c), ?_⟩
  intro c safe kept
  have one := safe.release le named fun ⟨isScratch, same⟩ => kept ⟨isScratch, .inl same⟩
  exact one.release le (fun d mem => named d ((known d).mp mem))
    fun ⟨isScratch, same⟩ => kept ⟨isScratch, .inr same⟩

end Pool

lemma lt_nextAfter (numbers : List Int) : ∀ n ∈ numbers, n < nextAfter numbers := by
  intro n mem
  have bound := ((foldl_max_le_iff numbers (-1) _).mp (le_refl _)).2 n mem
  unfold nextAfter
  omega

lemma nextAfter_nonneg (numbers : List Int) : 0 ≤ nextAfter numbers := by
  have bound := ((foldl_max_le_iff numbers (-1) _).mp (le_refl _)).1
  unfold nextAfter
  omega

def bit (k : Nat) : UnitId := ⟨bitName, [k]⟩

def register (k : Nat) : Register := ⟨registerBase ++ "_" ++ toString k, registerSize⟩

lemma bit_injective (same : bit j = bit k) : j = k := by
  simpa [bit] using same

lemma exists_next {α : Type} (name : Nat → α) (number : α → Except Error Int)
    (read : ∀ k, number (name k) = .ok (k : Int)) (known : List α) (named : ∀ a ∈ known, ∃ k, a = name k) :
    ∃ numbers, known.mapM number = .ok numbers ∧ name (nextAfter numbers).toNat ∉ known := by
  let value (a : α) : Int := (number a).toOption.getD 0
  have each : ∀ a ∈ known, number a = .ok (value a) := by
    intro a mem
    obtain ⟨k, rfl⟩ := named a mem
    simp only [value, read]
    rfl
  refine ⟨known.map value, mapM_ok number value known each, fun mem => ?_⟩
  have below := lt_nextAfter (known.map value) _ (mem_map_of_mem mem)
  simp only [value, read, Except.toOption, Option.getD_some] at below
  omega

lemma number?_toString (k : Nat) : number? (toString k) = some (k : Int) := by
  have digits : ∀ c ∈ (toString k).toList, c.isDigit := by
    intro c mem
    rw [Nat.toString_eq_ofList_toDigits, toList_ofList] at mem
    exact Nat.isDigit_of_mem_toDigits (by decide) (by decide) mem
  have read : digits? (toString k).toList = some k := by
    have all := all_eq_true.mpr digits
    rw [Nat.toString_eq_ofList_toDigits, toList_ofList] at all ⊢
    simp [digits?, all, Nat.toDigits_ne_nil, Nat.ofDigitChars_ten_toDigits]
  unfold number?
  split
  case h_1 rest equation =>
    have sign := digits '-' (by rw [equation]; simp)
    exact absurd sign (by decide)
  case h_2 rest equation =>
    have sign := digits '+' (by rw [equation]; simp)
    exact absurd sign (by decide)
  case h_3 => rw [read]; rfl

lemma nameNumber_register (k : Nat) : nameNumber (register k).name = .ok (k : Int) := by
  have clean : ∀ c ∈ (toString k).toList.reverse, decide (c ≠ '_') = true := by
    intro c mem
    rw [Nat.toString_eq_ofList_toDigits, toList_ofList, mem_reverse] at mem
    apply decide_eq_true
    rintro rfl
    exact Nat.underscore_not_in_toDigits mem
  have ending : nameEnd (register k).name = toString k := by
    have split : (register k).name.toList.reverse =
        (toString k).toList.reverse ++ '_' :: registerBase.toList.reverse := by
      simp [register]
    unfold nameEnd
    rw [split, takeWhile_append_of_pos clean, takeWhile_cons_of_neg (by decide),
      append_nil, reverse_reverse, ofList_toList]
  rw [nameNumber, ending, number?_toString]

lemma BitPool.fresh_spec {p : BitPool} (sound : Pool.Sound p) (named : ∀ b ∈ p.known, ∃ k, b = bit k) :
    ∃ k q make, p.fresh bitName = .ok (bit k, q) ∧ Pool.Handed p make (bit k) q := by
  obtain ⟨numbers, read, unknown⟩ := exists_next bit bitNumber (fun _ => rfl) p.known named
  have made : (do return ⟨bitName, [(← p.nextIndex).toNat]⟩ : Except Error UnitId) =
      .ok (bit (nextAfter numbers).toNat) := by
    rw [nextIndex, read]
    rfl
  obtain ⟨b, q, result, handed⟩ := sound.fresh made unknown
  rcases handed.source with free | ⟨new, _⟩
  · obtain ⟨k, rfl⟩ := named b (sound.known b free)
    exact ⟨k, q, _, result, handed⟩
  · rw [made] at new
    cases new
    exact ⟨_, q, _, result, handed⟩

lemma RegisterPool.fresh_spec {p : RegisterPool} (sound : Pool.Sound p) (named : ∀ r ∈ p.known, ∃ k, r = register k) :
    ∃ k q make, p.fresh registerBase registerSize = .ok (register k, q) ∧ Pool.Handed p make (register k) q := by
  obtain ⟨numbers, read, unknown⟩ :=
    exists_next register (fun r => nameNumber r.name) nameNumber_register p.known named
  have made : (do return ⟨registerBase ++ "_" ++ toString (← p.nextIndex), registerSize⟩ :
      Except Error Register) = .ok (register (nextAfter numbers).toNat) := by
    obtain ⟨n, eq⟩ := Int.eq_ofNat_of_zero_le (nextAfter_nonneg numbers)
    rw [nextIndex, read]
    simp only [bind, Except.bind, pure, Except.pure, eq]
    rfl
  obtain ⟨r, q, result, handed⟩ := sound.fresh made unknown
  rcases handed.source with free | ⟨new, _⟩
  · obtain ⟨k, rfl⟩ := named r (sound.known r free)
    exact ⟨k, q, _, result, handed⟩
  · rw [made] at new
    cases new
    exact ⟨_, q, _, result, handed⟩

lemma register_injective (same : (register j).name = (register k).name) : j = k := by
  have numbers := nameNumber_register j
  rw [same, nameNumber_register k] at numbers
  have eq : (k : Int) = j := Except.ok.inj numbers
  omega

end CircuitWorks.Scratch

namespace CircuitWorks

def Logic.leastSize (e : RegExp) : Nat := ((regInputs e).map Register.size).min?.getD 0

namespace Condition

open List Scratch Logic

/-- Where a run of steps leads, whether all are done or one fails. -/
def Leads {α : Type} (x : Build α) (c : Circuit) (done : α → Circuit → Prop)
    (failed : Circuit → Prop) : Prop :=
  match x.run c with
  | (.ok a, d) => done a d
  | (.error _, d) => failed d

variable {c d : Circuit} {done : α → Circuit → Prop} {failed : Circuit → Prop}
  {x : Build α}

lemma run_bind (x : Build α) (f : α → Build β) (c : Circuit) : (x >>= f).run c =
    match x.run c with
    | (.ok a, d) => (f a).run d
    | (.error e, d) => (.error e, d) := by
  simp only [bind, ExceptT.run, ExceptT.bind, ExceptT.mk, StateT.bind, ExceptT.bindCont]
  cases x c with
  | mk result d => cases result <;> rfl

lemma run_bind_eq_ok {b : β} :
    (x >>= f).run c = (.ok b, d) ↔ ∃ a e, x.run c = (.ok a, e) ∧ (f a).run e = (.ok b, d) := by
  rw [run_bind]
  generalize x.run c = reached
  obtain ⟨e | a, e'⟩ := reached
  · exact ⟨nofun, nofun⟩
  · constructor
    · intro later
      exact ⟨a, e', rfl, later⟩
    · rintro ⟨_, _, ⟨⟩, later⟩
      exact later

lemma run_get (c : Circuit) : (get : Build Circuit).run c = (.ok c, c) := rfl

lemma run_step_eq_ok : (step f).run c = (.ok u, d) ↔ f c = .ok d := by
  rw [step, run_bind, run_get]
  dsimp only
  cases f c with
  | error e => exact ⟨nofun, nofun⟩
  | ok e =>
    constructor
    · rintro ⟨⟩
      rfl
    · rintro ⟨⟩
      rfl

lemma run_orScratch_eq_ok {x : Except Scratch.Error α} : (orScratch x).run c = (.ok a, d) ↔ x = .ok a ∧ c = d := by
  cases x with
  | error e => exact ⟨nofun, nofun⟩
  | ok b =>
    constructor
    · rintro ⟨⟩
      exact ⟨rfl, rfl⟩
    · rintro ⟨⟨⟩, rfl⟩
      rfl

lemma Leads.bind {after : β → Circuit → Prop}
    (leads : Leads x c (fun a d => Leads (f a) d after failed) failed) : Leads (x >>= f) c after failed := by
  unfold Leads at *
  rw [run_bind]
  generalize x.run c = reached at *
  obtain ⟨_ | a, d⟩ := reached
  · exact leads
  · exact leads

lemma Leads.imp {after : α → Circuit → Prop} {left : Circuit → Prop} (leads : Leads x c done failed)
    (good : ∀ a d, done a d → after a d) (bad : ∀ d, failed d → left d) : Leads x c after left := by
  unfold Leads at *
  generalize x.run c = reached at *
  obtain ⟨_ | a, d⟩ := reached
  · exact bad d leads
  · exact good a d leads

lemma leads_pure (holds : done a c) : Leads (pure a) c done failed := holds

lemma leads_get {after : Circuit → Circuit → Prop} (holds : after c c) :
    Leads (get : Build Circuit) c after failed := holds

lemma leads_throw {e : Error} (holds : failed c) : Leads (throw e : Build α) c done failed := holds

lemma leads_attempt {after : Unit → Circuit → Prop} (good : ∀ d, f c = .ok d → after () d)
    (bad : ∀ e, f c = .error e → failed c) : Leads (step f) c after failed := by
  refine (leads_get ?_).bind
  cases result : f c with
  | error e => exact leads_throw (bad e result)
  | ok d => exact good d result

lemma leads_step {after : Unit → Circuit → Prop} (good : ∀ d, f c = .ok d → after () d) (bad : failed c) :
    Leads (step f) c after failed := leads_attempt good fun _ _ => bad

lemma leads_search {x : Except Scratch.Error α} (good : ∀ a, x = .ok a → done a c)
    (bad : ∀ e, x = .error e → failed c) : Leads (orScratch x) c done failed := by
  cases x with
  | error e => exact leads_throw (bad e rfl)
  | ok a => exact leads_pure (good a rfl)

lemma Leads.of_ok (leads : Leads x c done failed) (ran : x.run c = (.ok a, d)) : done a d := by
  unfold Leads at leads
  rw [ran] at leads
  exact leads

lemma Leads.reached (leads : Leads x c (fun _ => P) P) : P (x.run c).2 := by
  unfold Leads at leads
  generalize x.run c = reached at *
  obtain ⟨_ | _, d⟩ := reached
  · exact leads
  · exact leads

lemma nextBit_ok (named : ∀ b ∈ c.bits, b.register = bitName → ∃ k, b = bit k) :
    ∃ k, nextBit c = .ok (bit k) ∧ bit k ∉ c.bits := by
  obtain ⟨numbers, read, fresh⟩ := exists_next bit bitNumber (fun _ => rfl)
    (c.bits.filter (·.register = bitName)) (by
      intro b mem
      have inside := mem_filter.mp mem
      exact named b inside.1 (by simpa using inside.2))
  refine ⟨(nextAfter numbers).toNat, ?_, fun mem => fresh ?_⟩
  · rw [nextBit, read]
    rfl
  · exact mem_filter.mpr ⟨mem, by simp [bit]⟩

lemma nextRegister_ok (named : ∀ b ∈ c.bits,
    b.register.startsWith registerBase = true → ∃ k, b.register = (register k).name) :
    ∃ k, nextRegister c = .ok (register k) ∧ ∀ b ∈ c.bits, b.register.startsWith registerBase = true →
    b.register ≠ (register k).name := by
  let names := (c.bits.map (·.register)).filter (·.startsWith registerBase)
  have inside (b : UnitId) (mem : b ∈ c.bits)
      (base : b.register.startsWith registerBase = true) : b.register ∈ names :=
    mem_filter.mpr ⟨mem_map_of_mem mem, base⟩
  obtain ⟨numbers, read, fresh⟩ := exists_next (fun k => (register k).name)
    nameNumber nameNumber_register names (by
      intro name mem
      obtain ⟨found, base⟩ := mem_filter.mp mem
      obtain ⟨b, own, rfl⟩ := mem_map.mp found
      exact named b own base)
  refine ⟨(nextAfter numbers).toNat, ?_, ?_⟩
  · obtain ⟨n, equal⟩ := Int.eq_ofNat_of_zero_le (nextAfter_nonneg numbers)
    change (names.mapM nameNumber >>= _) = _
    rw [read]
    simp only [bind, Except.bind, pure, Except.pure, equal]
    rfl
  · intro b mem base same
    exact fresh (same ▸ inside b mem base)

lemma exists_sizes (reads : e.vars ≠ []) : ∃ first rest, (regInputs e).map Register.size = first :: rest ∧
    rest.foldl min first = leastSize e := by
  obtain ⟨r, own⟩ := exists_mem_of_ne_nil _ reads
  have listed : r ∈ regInputs e := mem_eraseDups.mpr own
  cases sizes : (regInputs e).map Register.size with
  | nil =>
    rw [map_eq_nil_iff.mp sizes] at listed
    cases listed
  | cons first rest =>
    refine ⟨first, rest, rfl, ?_⟩
    rw [leastSize, sizes, min?_cons']
    rfl

lemma exists_leastSize (reads : e.vars ≠ []) : ∃ r ∈ e.vars, r.size = leastSize e := by
  obtain ⟨first, rest, sizes, least⟩ := exists_sizes reads
  have found : ((regInputs e).map Register.size).min? = some (leastSize e) := by rw [sizes, min?_cons', least]
  obtain ⟨r, listed, size⟩ := mem_map.mp (min?_mem found)
  exact ⟨r, mem_eraseDups.mp listed, size⟩

/-- The bits that hold a register expression. An operation is written to the lowest bits of a new
scratch register; a register is read where it is. -/
inductive Selects : RegExp → Circuit → List UnitId → Circuit → Prop
  | register (r : Register) (c : Circuit) : Selects (.var r) c r.bits c
  | box {e : RegExp} {c d f : Circuit} {r : Register} (node : e.isNode = true) (reads : e.vars ≠ [])
      (next : nextRegister c = .ok r) (ensured : c.ensureRegister r = .ok d)
      (boxed : d.addExpression (.reg e) (r.bits.take (leastSize e)) = .ok f) :
      Selects e c (r.bits.take (leastSize e)) f

def isCondition : Term → Bool
  | .bit (.binary .eq _ (.const _)) => true
  | .bit (.binary .eq _ _) => false
  | .bit (.const _) => false
  | .bit _ => true
  | .reg (.binary op _ (.const _)) => Term.RegBinary.isComparison op
  | _ => false

/-- The expression of which a condition on bits asks whether it has a value. -/
def asked : BitExp → BitExp × Bool
  | .binary .eq x (.const k) => (x, k.toInt ≠ 0)
  | e => (e, true)

/-- How a condition is added: the bit that tells, its value, and the circuit. -/
inductive Answered : Term → Circuit → UnitId × Bool → Circuit → Prop
  | bit {e : BitExp} {c : Circuit} {b : UnitId} (own : (asked e).1 = .var b) :
      Answered (.bit e) c (b, (asked e).2) c
  | expression {e : BitExp} {c one d : Circuit} {b : UnitId} (condition : isCondition (.bit e) = true)
      (proper : ∀ v, (asked e).1 ≠ .var v) (next : nextBit c = .ok b) (added : c.addBit b = .ok one)
      (boxed : one.addExpression (.bit (asked e).1) [b] = .ok d) :
      Answered (.bit e) c (b, (asked e).2) d
  | comparison {op : RegBinary} {e : RegExp} {v : Constant} {c one d f : Circuit} {b : UnitId}
      {bits : List UnitId} (next : nextBit c = .ok b) (added : c.addBit b = .ok one)
      (selects : Selects e one bits d)
      (ranged : d.addRange (bounds op v.toInt).1 (bounds op v.toInt).2 bits b = .ok f) :
      Answered (.reg (.binary op e (.const v))) c (b, boundsValue op) f

def HasRoom (c : Circuit) : Prop := ∃ b d, nextBit c = .ok b ∧ c.addBit b = .ok d

/-- How a condition fails once its scratch bit is there. -/
inductive Left : Term → Circuit → Circuit → Prop
  | nothing (t : Term) (c : Circuit) : Left t c c
  | register {op : RegBinary} {e : RegExp} {v : Constant} {c d : Circuit} {r : Register}
      (next : nextRegister c = .ok r) (ensured : c.ensureRegister r = .ok d) :
      Left (.reg (.binary op e (.const v))) c d
  | selected {op : RegBinary} {e : RegExp} {v : Constant} {c d : Circuit} {bits : List UnitId}
      (selects : Selects e c bits d) : Left (.reg (.binary op e (.const v))) c d

/-- A failure of a term that is no condition, of one before its scratch bit is there, or of one after
that was added. -/
inductive Stopped (t : Term) (c d : Circuit) : Prop
  | refused (other : isCondition t = false) (same : d = c)
  | early (full : ¬HasRoom c) (same : d = c)
  | late {b : UnitId} {one : Circuit} (condition : isCondition t = true) (next : nextBit c = .ok b)
      (added : c.addBit b = .ok one) (left : Left t one d)

lemma Selects.reads {bits : List UnitId} (selects : Selects e c bits d) : e.vars ≠ [] := by
  cases selects with
  | register r => exact cons_ne_nil r []
  | box _ reads => exact reads

lemma inputSizes_of_closed (closed : e.vars = []) : (regInputs e).map Register.size = [] := by
  rw [regInputs, closed]
  rfl

lemma leads_registerBits (op : RegBinary) (e : RegExp) (v : Constant) (c : Circuit) :
    Leads (registerBits e) c (Selects e c) (Left (.reg (.binary op e (.const v))) c) := by
  cases e with
  | unary op _ => exact op.elim
  | const _ => exact leads_throw (.nothing _ _)
  | var r => exact leads_pure (.register r c)
  | binary f x y =>
    by_cases reads : (Exp.binary f x y : RegExp).vars = []
    · simp only [registerBits, inputSizes_of_closed reads]
      exact leads_throw (.nothing _ _)
    · obtain ⟨first, rest, sizes, least⟩ := exists_sizes reads
      simp only [registerBits, sizes, least]
      refine (leads_get (Leads.bind (leads_search ?_ fun _ _ => .nothing _ _))).bind
      intro r next
      refine (leads_step ?_ (.nothing _ _)).bind
      intro d ensured
      refine (leads_step ?_ (.register next ensured)).bind
      intro f boxed
      exact leads_pure (.box rfl reads next ensured boxed)

lemma leads_scratch {later : UnitId → Build α} (condition : isCondition t = true)
    (rest : ∀ b one, nextBit c = .ok b → c.addBit b = .ok one → Leads (later b) one done (Left t one)) :
    Leads (do
    let bit ← orScratch (nextBit (← get))
    step fun c => c.addBit bit
    later bit) c done (Stopped t c) := by
  refine (leads_get (Leads.bind (leads_search ?_ ?_))).bind
  · intro b next
    refine (leads_attempt ?_ ?_).bind
    · intro one added
      exact (rest b one next added).imp (fun _ _ => id) fun d left => .late condition next added left
    · intro e taken
      refine .early ?_ rfl
      rintro ⟨b', _, next', added⟩
      cases next.symm.trans next'
      cases taken.symm.trans added
  · intro e missing
    refine .early ?_ rfl
    rintro ⟨b, _, next, _⟩
    cases missing.symm.trans next

lemma leads_addBitExp {e : BitExp} (condition : isCondition (.bit e) = true) (c : Circuit) :
    Leads (addBitExp (asked e).1 (asked e).2) c (Answered (.bit e) c) (Stopped (.bit e) c) := by
  have written (proper : ∀ v, (asked e).1 ≠ .var v) : Leads (do
      let bit ← orScratch (nextBit (← get))
      step fun c => c.addBit bit
      step fun c => c.addExpression (.bit (asked e).1) [bit]
      return (bit, (asked e).2)) c (Answered (.bit e) c) (Stopped (.bit e) c) := by
    refine leads_scratch condition fun b one next added => (leads_step ?_ (.nothing _ _)).bind
    intro d boxed
    exact leads_pure (.expression condition proper next added boxed)
  cases inner : (asked e).1 with
  | var b =>
    refine (leads_get (Leads.bind (leads_search ?_ ?_))).bind
    · intro _ _
      exact leads_pure (.bit inner)
    · intro e missing
      refine .early ?_ rfl
      rintro ⟨_, _, next, _⟩
      cases missing.symm.trans next
  | _ =>
    rw [inner] at written
    exact written (by simp)

lemma leads_addComparison {op : RegBinary} (comparison : Term.RegBinary.isComparison op = true) (e : RegExp)
    (v : Constant) (c : Circuit) : Leads (addComparison op e v.toInt) c (Answered (.reg (.binary op e (.const v))) c)
    (Stopped (.reg (.binary op e (.const v))) c) := by
  refine leads_scratch comparison fun b one next added => ?_
  refine ((leads_registerBits op e v one).imp (fun bits d selects => ?_) fun _ => id).bind
  refine (leads_step ?_ (.selected selects)).bind
  intro f ranged
  exact leads_pure (.comparison next added selects ranged)

/-- All that the addition of a condition can do. -/
lemma leads_add (t : Term) (c : Circuit) : Leads (add t) c (Answered t c) (Stopped t c) := by
  cases t with
  | constant _ => exact leads_throw (.refused rfl rfl)
  | bit e =>
    cases e with
    | const _ => exact leads_throw (.refused rfl rfl)
    | var _ => exact leads_pure (.bit rfl)
    | unary f x => exact leads_addBitExp (e := .unary f x) rfl c
    | binary f x y =>
      cases f with
      | eq =>
        cases y with
        | const k => exact leads_addBitExp (e := .binary .eq x (.const k)) rfl c
        | _ => exact leads_throw (.refused rfl rfl)
      | and => exact leads_addBitExp (e := .binary .and x y) rfl c
      | or => exact leads_addBitExp (e := .binary .or x y) rfl c
      | xor => exact leads_addBitExp (e := .binary .xor x y) rfl c
  | reg e =>
    cases e with
    | const _ | var _ => exact leads_throw (.refused rfl rfl)
    | unary op _ => exact op.elim
    | binary op x y =>
      by_cases comparison : Term.RegBinary.isComparison op = true
      · cases y with
        | const v =>
          rw [add, if_pos comparison]
          exact leads_addComparison comparison x v c
        | _ =>
          simp only [add, comparison, if_true]
          exact leads_throw (.refused rfl rfl)
      · rw [add.eq_def]
        simp only [comparison]
        refine leads_throw (.refused ?_ rfl)
        cases y with
        | const v => exact Bool.eq_false_of_not_eq_true comparison
        | _ => rfl

lemma addGate_reaches {type : OpType} {params : List Amount} {args : List UnitId}
    {request : Request} (start : P c) (plain : ∀ d, c.addOp (.gate type params) args = .ok d → P d)
    (tested : ∀ bits ∈ request.bits, ∀ value d,
    c.addConditional (.gate type params) bits value args = .ok d → P d)
    (asked : ∀ exp ∈ request.exp, Leads (add exp) c (fun r d => P d ∧ ∀ e,
    d.addConditional (.gate type params) [r.1] (some (if r.2 then 1 else 0)) args = .ok e → P e) P) :
    P ((addGate type params args request).run c).2 := by
  apply Leads.reached
  unfold addGate
  cases made : Circuit.gateOp type params with
  | error e => exact leads_throw start
  | ok op =>
    obtain rfl := Circuit.gateOp_eq_ok made
    obtain ⟨bits, value, exp⟩ := request
    rcases exp with _ | exp <;> rcases bits with _ | bits <;> rcases value with _ | value
    · exact leads_step plain start
    · exact leads_throw start
    · exact leads_step (tested bits rfl none) start
    · exact leads_step (tested bits rfl (some value)) start
    · refine ((asked exp rfl).imp (fun r d found => ?_) fun _ => id).bind
      exact leads_step (fun e added => found.2 e added) found.1
    · exact leads_throw start
    · exact leads_throw start
    · exact leads_throw start

end Condition

end CircuitWorks
