import CircuitWorks.Pauli.Operator
import Mathlib

/-!
The group of Pauli strings.

The algebra of Pauli operators, at the level of their stored terms, and the qubits that they keep beside
their strings.
-/

namespace CircuitWorks

open List Std

namespace UnitId

lemma compareIndex_eq (is js : List Nat) : compareIndex is js = Ord.compare is js := by
  induction is generalizing js with
  | nil => cases js <;> rfl
  | cons i is ih =>
    cases js with
    | nil => rfl
    | cons j js =>
      rw [compareIndex, ih]
      exact List.compareLex_cons_cons.symm

lemma compare_eq_compareLex : compare = compareLex (compareOn register) (compareOn index) := by
  funext a b
  rw [compare, compareIndex_eq]
  rfl

instance : TransCmp UnitId.compare := by
  rw [compare_eq_compareLex]
  infer_instance

instance : LawfulEqCmp UnitId.compare where
  eq_of_compare := by
    intro a b same
    rw [compare, Ordering.then_eq_eq, compareIndex_eq] at same
    obtain ⟨register, index⟩ := a
    obtain rfl := LawfulEqCmp.eq_of_compare same.1
    obtain rfl := LawfulEqCmp.eq_of_compare same.2
    rfl

end UnitId

namespace Pauli

@[simp]
lemma I_mul (p : Pauli) : I.mul p = (0, p) := rfl

lemma mul_assoc (p q r : Pauli) : ((p.mul q).2.mul r).2 = (p.mul (q.mul r).2).2 ∧
    (p.mul q).1 + ((p.mul q).2.mul r).1 = (q.mul r).1 + (p.mul (q.mul r).2).1 := by
  cases p <;> cases q <;> cases r <;> decide

end Pauli

namespace PauliString

def Ascending (fs : List (UnitId × Pauli)) : Prop :=
  fs.Pairwise fun e f => e.1.compare f.1 = .lt

structure Canonical (fs : List (UnitId × Pauli)) : Prop where
  ascending : Ascending fs
  proper : ∀ e ∈ fs, e.2 ≠ .I

def factorAt : List (UnitId × Pauli) → UnitId → Pauli
  | [], _ => .I
  | (v, p) :: fs, u => if u = v then p else factorAt fs u

section

variable {u v : UnitId} {p q : Pauli} {fs gs hs : List (UnitId × Pauli)} {qubits : Finset UnitId}

lemma factorAt_cons (u v : UnitId) (p : Pauli) (fs : List (UnitId × Pauli)) :
    factorAt ((v, p) :: fs) u = if u = v then p else factorAt fs u := rfl

lemma factorAt_of_not_mem (absent : u ∉ fs.map (·.1)) : factorAt fs u = .I := by
  induction fs with
  | nil => rfl
  | cons e fs ih =>
    rw [map_cons, mem_cons, not_or] at absent
    rw [factorAt_cons, if_neg absent.1, ih absent.2]

lemma ne_of_compare_lt (less : u.compare v = .lt) : u ≠ v := by
  rintro rfl
  have self : u.compare u = .eq := ReflCmp.compare_self
  rw [self] at less
  cases less

lemma Ascending.not_mem (ascending : Ascending ((u, p) :: fs)) : u ∉ fs.map (·.1) := by
  intro mem
  obtain ⟨e, inside, same⟩ := mem_map.mp mem
  exact ne_of_compare_lt ((pairwise_cons.mp ascending).1 e inside) same.symm

lemma Canonical.tail (canonical : Canonical (e :: fs)) : Canonical fs :=
  ⟨(pairwise_cons.mp canonical.ascending).2, fun f mem => canonical.proper f (.tail e mem)⟩

lemma Canonical.factorAt_of_lt (canonical : Canonical ((v, q) :: fs)) (less : u.compare v = .lt) :
    factorAt ((v, q) :: fs) u = .I := by
  apply factorAt_of_not_mem
  rw [map_cons, mem_cons, not_or]
  refine ⟨ne_of_compare_lt less, ?_⟩
  intro mem
  obtain ⟨e, inside, rfl⟩ := mem_map.mp mem
  have later := (pairwise_cons.mp canonical.ascending).1 e inside
  exact ne_of_compare_lt (TransCmp.lt_trans less later) rfl

lemma Canonical.ext (first : Canonical fs) (second : Canonical gs)
    (same : ∀ u, factorAt fs u = factorAt gs u) : fs = gs := by
  induction fs generalizing gs with
  | nil =>
    cases gs with
    | nil => rfl
    | cons e gs =>
      obtain ⟨v, q⟩ := e
      have own := same v
      rw [factorAt_cons, if_pos rfl] at own
      exact absurd own.symm (second.proper (v, q) (by simp))
  | cons e fs ih =>
    obtain ⟨u, p⟩ := e
    have nontrivial : p ≠ .I := first.proper (u, p) (by simp)
    have own := same u
    rw [factorAt_cons, if_pos rfl] at own
    cases gs with
    | nil => exact absurd own nontrivial
    | cons f gs =>
      obtain ⟨v, q⟩ := f
      cases order : u.compare v with
      | lt =>
        rw [second.factorAt_of_lt order] at own
        exact absurd own nontrivial
      | gt =>
        have other := same v
        rw [factorAt_cons v v, if_pos rfl, first.factorAt_of_lt (OrientedCmp.gt_iff_lt.mp order)] at other
        exact absurd other.symm (second.proper (v, q) (by simp))
      | eq =>
        obtain rfl := LawfulEqCmp.eq_of_compare order
        rw [factorAt_cons, if_pos rfl] at own
        subst own
        congr 1
        apply ih first.tail second.tail
        intro w
        by_cases here : w = u
        · rw [here, factorAt_of_not_mem first.ascending.not_mem, factorAt_of_not_mem second.ascending.not_mem]
        · have rest := same w
          rwa [factorAt_cons, factorAt_cons, if_neg here, if_neg here] at rest

lemma Ascending.cons_lt (order : u.compare v = .lt) (ascending : Ascending ((v, q) :: fs)) (p : Pauli) :
    Ascending ((u, p) :: (v, q) :: fs) := by
  refine pairwise_cons.mpr ⟨fun e mem => ?_, ascending⟩
  rcases mem_cons.mp mem with rfl | later
  · exact order
  · exact TransCmp.lt_trans order ((pairwise_cons.mp ascending).1 e later)

lemma Ascending.cons_gt (order : u.compare v = .gt) (ascending : Ascending ((v, q) :: fs))
    (later : Ascending gs) (qubits : ∀ e ∈ gs, e.1 = u ∨ e.1 ∈ fs.map (·.1)) : Ascending ((v, q) :: gs) := by
  refine pairwise_cons.mpr ⟨fun e mem => ?_, later⟩
  rcases qubits e mem with same | old
  · rw [same]
    exact OrientedCmp.gt_iff_lt.mp order
  · obtain ⟨f, inside, same⟩ := mem_map.mp old
    rw [← same]
    exact (pairwise_cons.mp ascending).1 f inside

structure Multiplies (u : UnitId) (p : Pauli) (gs : List (UnitId × Pauli))
    (product : Fin 4 × List (UnitId × Pauli)) : Prop where
  canonical : Canonical product.2
  qubits : ∀ e ∈ product.2, e.1 = u ∨ e.1 ∈ gs.map (·.1)
  phase : product.1 = (p.mul (factorAt gs u)).1
  factors : ∀ v, factorAt product.2 v =
    if v = u then (p.mul (factorAt gs u)).2 else factorAt gs v

lemma mulFactor_spec (nontrivial : p ≠ .I) (canonical : Canonical gs) : Multiplies u p gs (mulFactor u p gs) := by
  have alone : p.mul .I = (0, p) := by cases p <;> rfl
  induction gs with
  | nil =>
    refine ⟨⟨pairwise_singleton _ _, by simpa [mulFactor] using nontrivial⟩,
      by simp [mulFactor], by simp [mulFactor, factorAt, alone], fun v => ?_⟩
    simp only [mulFactor, factorAt_cons]
    simp [factorAt, alone]
  | cons e gs ih =>
    obtain ⟨v, q⟩ := e
    have proper := forall_mem_cons.mp canonical.proper
    rw [mulFactor]
    cases order : u.compare v with
    | lt =>
      have absent := canonical.factorAt_of_lt order
      refine ⟨⟨canonical.ascending.cons_lt order p, forall_mem_cons.mpr ⟨nontrivial, canonical.proper⟩⟩,
        by grind, by rw [absent, alone]; rfl, fun w => ?_⟩
      rw [factorAt_cons, absent, alone]
    | eq =>
      obtain rfl := LawfulEqCmp.eq_of_compare order
      have own : factorAt ((u, q) :: gs) u = q := by rw [factorAt_cons, if_pos rfl]
      have absent := factorAt_of_not_mem canonical.ascending.not_mem
      by_cases cancel : (p.mul q).2 = .I
      · refine ⟨by simpa [cancel] using canonical.tail, by grind, by rw [own], fun w => ?_⟩
        by_cases here : w = u <;> simp [cancel, own, here, factorAt_cons, absent]
      · have product : Canonical ((u, (p.mul q).2) :: gs) :=
          ⟨pairwise_cons.mpr (pairwise_cons.mp canonical.ascending), forall_mem_cons.mpr ⟨cancel, proper.2⟩⟩
        refine ⟨by simpa [cancel] using product, by grind, by rw [own], fun w => ?_⟩
        by_cases here : w = u <;> simp [cancel, own, here, factorAt_cons]
    | gt =>
      have other : u ≠ v := (ne_of_compare_lt (OrientedCmp.gt_iff_lt.mp order)).symm
      have later := ih canonical.tail
      have skip : factorAt ((v, q) :: gs) u = factorAt gs u := by rw [factorAt_cons, if_neg other]
      refine ⟨⟨canonical.ascending.cons_gt order later.canonical.ascending later.qubits,
        forall_mem_cons.mpr ⟨proper.1, later.canonical.proper⟩⟩,
        forall_mem_cons.mpr ⟨by simp, fun f mem => (later.qubits f mem).imp id (.tail _)⟩,
        by rw [skip]; exact later.phase, fun w => ?_⟩
      rw [factorAt_cons, later.factors, skip, factorAt_cons]
      by_cases here : w = u
      · rw [if_pos here, if_pos here, if_neg (here ▸ other)]
      · rw [if_neg here, if_neg here]

lemma mulFactors_spec (first : Canonical fs) (second : Canonical gs) : Canonical (mulFactors fs gs).2 ∧
    (mulFactors fs gs).1 = (fs.map fun e => (e.2.mul (factorAt gs e.1)).1).sum ∧
    ∀ u, factorAt (mulFactors fs gs).2 u = ((factorAt fs u).mul (factorAt gs u)).2 := by
  induction fs with
  | nil => exact ⟨second, rfl, fun u => rfl⟩
  | cons e fs ih =>
    obtain ⟨u, p⟩ := e
    obtain ⟨canonical, phase, factors⟩ := ih first.tail
    have step : Multiplies u p (mulFactors fs gs).2 (mulFactor u p (mulFactors fs gs).2) :=
      mulFactor_spec (first.proper (u, p) (by simp)) canonical
    have absent := factorAt_of_not_mem first.ascending.not_mem
    -- the factors before this one are on other qubits
    have own : factorAt (mulFactors fs gs).2 u = factorAt gs u := by rw [factors, absent, Pauli.I_mul]
    refine ⟨step.canonical, ?_, ?_⟩
    · have sum : (mulFactors ((u, p) :: fs) gs).1 =
          (mulFactors fs gs).1 + (mulFactor u p (mulFactors fs gs).2).1 := rfl
      rw [sum, phase, step.phase, own, map_cons, sum_cons, add_comm]
    · intro v
      have product : (mulFactors ((u, p) :: fs) gs).2 = (mulFactor u p (mulFactors fs gs).2).2 := rfl
      rw [product, step.factors, own, factorAt_cons]
      by_cases here : v = u
      · rw [if_pos here, if_pos here, here]
      · rw [if_neg here, if_neg here, factors]

lemma sum_factors (ascending : Ascending fs) (covered : ∀ e ∈ fs, e.1 ∈ qubits) {f : UnitId → Pauli → Fin 4}
    (zero : ∀ u, f u .I = 0) : (fs.map fun e => f e.1 e.2).sum = ∑ u ∈ qubits, f u (factorAt fs u) := by
  induction fs with
  | nil =>
    exact (Finset.sum_eq_zero fun u _ => zero u).symm
  | cons e fs ih =>
    obtain ⟨u, p⟩ := e
    have inside : u ∈ qubits := covered (u, p) (by simp)
    have absent := factorAt_of_not_mem ascending.not_mem
    have later := ih (pairwise_cons.mp ascending).2 fun e mem => covered e (.tail _ mem)
    have apart : ∑ v ∈ qubits.erase u, f v (factorAt ((u, p) :: fs) v) = ∑ v ∈ qubits.erase u, f v (factorAt fs v) := by
      apply Finset.sum_congr rfl
      intro v mem
      rw [factorAt_cons, if_neg (Finset.ne_of_mem_erase mem)]
    calc
      _ = f u p + ∑ v ∈ qubits, f v (factorAt fs v) := by rw [map_cons, sum_cons, later]
      _ = f u p + ∑ v ∈ qubits.erase u, f v (factorAt fs v) := by
        rw [← Finset.add_sum_erase _ _ inside, absent, zero, zero_add]
      _ = ∑ v ∈ qubits, f v (factorAt ((u, p) :: fs) v) := by
        rw [← Finset.add_sum_erase _ _ inside, apart, factorAt_cons, if_pos rfl]

lemma phase_eq_sum (first : Canonical fs) (second : Canonical gs) (covered : ∀ e ∈ fs, e.1 ∈ qubits) :
    (mulFactors fs gs).1 = ∑ u ∈ qubits, ((factorAt fs u).mul (factorAt gs u)).1 := by
  rw [(mulFactors_spec first second).2.1]
  exact sum_factors first.ascending covered (f := fun u p => (p.mul (factorAt gs u)).1)
    fun _ => rfl

lemma mulFactors_assoc (first : Canonical fs) (second : Canonical gs) (third : Canonical hs) :
    (mulFactors (mulFactors fs gs).2 hs).2 = (mulFactors fs (mulFactors gs hs).2).2 ∧
    (mulFactors fs gs).1 + (mulFactors (mulFactors fs gs).2 hs).1 =
    (mulFactors gs hs).1 + (mulFactors fs (mulFactors gs hs).2).1 := by
  obtain ⟨left, _, leftFactors⟩ := mulFactors_spec first second
  obtain ⟨right, _, rightFactors⟩ := mulFactors_spec second third
  obtain ⟨fromLeft, _, leftAll⟩ := mulFactors_spec left third
  obtain ⟨fromRight, _, rightAll⟩ := mulFactors_spec first right
  constructor
  · apply fromLeft.ext fromRight
    intro u
    rw [leftAll, rightAll, leftFactors, rightFactors]
    exact (Pauli.mul_assoc _ _ _).1
  · let qubits := ((fs ++ gs ++ (mulFactors fs gs).2).map (·.1)).toFinset
    have covered (ks : List (UnitId × Pauli)) (part : ks ⊆ fs ++ gs ++ (mulFactors fs gs).2) :
        ∀ e ∈ ks, e.1 ∈ qubits := fun e mem =>
      mem_toFinset.mpr (mem_map_of_mem (part mem))
    have inFirst := covered fs fun e mem => by simp [mem]
    have inSecond := covered gs fun e mem => by simp [mem]
    have inProduct := covered (mulFactors fs gs).2 fun e mem => by simp [mem]
    rw [phase_eq_sum first second inFirst, phase_eq_sum left third inProduct,
      phase_eq_sum second third inSecond, phase_eq_sum first right inFirst,
      ← Finset.sum_add_distrib, ← Finset.sum_add_distrib]
    apply Finset.sum_congr rfl
    intro u _
    rw [leftFactors, rightFactors]
    exact (Pauli.mul_assoc _ _ _).2

end

lemma canonical_support {s : PauliString} (ascending : Ascending s.factors) : Canonical s.support where
  ascending := ascending.filter _
  proper e mem := by simpa using (mem_filter.mp mem).2

lemma support_mul {s t : PauliString} (first : Ascending s.factors) (second : Ascending t.factors) :
    (s.mul t).2.support = (mulFactors s.support t.support).2 := by
  have canonical := (mulFactors_spec (canonical_support first) (canonical_support second)).1
  apply filter_eq_self.mpr
  intro e mem
  simpa using canonical.proper e mem

lemma ascending_setFactor {fs : List (UnitId × Pauli)} (ascending : Ascending fs) (u : UnitId)
    (p : Pauli) : Ascending (setFactor u p fs) ∧ ∀ e ∈ setFactor u p fs, e.1 = u ∨ e.1 ∈ fs.map (·.1) := by
  induction fs with
  | nil => simp [setFactor, Ascending]
  | cons f fs ih =>
    obtain ⟨v, q⟩ := f
    have rest := pairwise_cons.mp ascending
    obtain ⟨later, qubits⟩ := ih rest.2
    rw [setFactor]
    cases order : u.compare v with
    | lt => exact ⟨ascending.cons_lt order p, by grind⟩
    | eq => exact ⟨pairwise_cons.mpr rest, by grind⟩
    | gt =>
      refine ⟨ascending.cons_gt order later qubits, forall_mem_cons.mpr ⟨by simp, fun e mem => ?_⟩⟩
      exact (qubits e mem).imp id (.tail _)

lemma ascending_ofList (fs : List (UnitId × Pauli)) : Ascending (ofList fs).factors := by
  have general : ∀ start, Ascending start → Ascending (fs.foldl (fun fs e => setFactor e.1 e.2 fs) start) := by
    induction fs with
    | nil => exact fun _ ascending => ascending
    | cons e fs ih =>
      intro start ascending
      exact ih _ (ascending_setFactor ascending e.1 e.2).1
  exact general [] Pairwise.nil

end PauliString

end CircuitWorks

namespace CircuitWorks.PauliOperator

section

open List ImaginaryUnit PauliString Finsupp

open PauliString (Ascending Canonical mulFactors canonical_support support_mul mulFactors_spec
  mulFactors_assoc)

variable {κ : Type} (s : PauliString) (c : κ)

def keys (ts : List (PauliString × κ)) : List (List (UnitId × Pauli)) := ts.map fun e => e.1.support

noncomputable def combination [CommRing κ] (ts : List (PauliString × κ)) :
    List (UnitId × Pauli) →₀ κ :=
  (ts.map fun e => single e.1.support e.2).sum

/-- What is kept of an operator by every operation: its strings are ascending, and no two are the
same. -/
structure WellFormed (a : PauliOperator κ) : Prop where
  ascending : ∀ e ∈ a.terms, Ascending e.1.factors
  distinct : (keys a.terms).Nodup

def Sorted (ts : List (PauliString × κ)) : Prop := ∀ e ∈ ts, Ascending e.1.factors

/-- The two lists of terms have the same strings and the same coefficients. -/
structure Agree [CommRing κ] (ts us : List (PauliString × κ)) : Prop where
  strings : ∀ k, k ∈ keys ts ↔ k ∈ keys us
  combination : combination ts = combination us

section

variable {ts us : List (PauliString × κ)}

lemma keys_eq (ts : List (PauliString × κ)) : keys ts = (ts.map Prod.fst).map support := by
  rw [map_map]
  rfl

lemma sorted_iff : Sorted ts ↔ ∀ s ∈ ts.map Prod.fst, Ascending s.factors := by
  rw [forall_mem_map, Sorted]

lemma mem_keys_append : k ∈ keys (ts ++ us) ↔ k ∈ keys ts ∨ k ∈ keys us := by
  rw [keys, map_append, mem_append]
  rfl

lemma same_iff (t : PauliString) : s.same t = true ↔ s.support = t.support := by
  simp [PauliString.same]

lemma addTerm_cases [Add κ] (ts : List (PauliString × κ)) :
    s.support ∈ keys ts ∧ (addTerm s c ts).map Prod.fst = ts.map Prod.fst ∨
    s.support ∉ keys ts ∧ addTerm s c ts = ts ++ [(s, c)] := by
  induction ts with
  | nil => exact .inr ⟨not_mem_nil, rfl⟩
  | cons e ts ih =>
    obtain ⟨t, d⟩ := e
    rw [addTerm]
    split
    · rename_i same
      rw [same_iff] at same
      exact .inl ⟨by simp [keys, same], rfl⟩
    · rename_i other
      rw [same_iff, eq_comm] at other
      refine ih.imp (fun old => ?_) fun new => ?_
      · exact ⟨.tail _ old.1, congrArg (t :: ·) old.2⟩
      · exact ⟨fun mem => (mem_cons.mp mem).elim other new.1, congrArg ((t, d) :: ·) new.2⟩

lemma strings_put [Add κ] (ts : List (PauliString × κ)) :
    (put s c ts).map Prod.fst = (addTerm s c ts).map Prod.fst := by
  induction ts with
  | nil => rfl
  | cons e ts ih =>
    rw [put, addTerm]
    split
    · rfl
    · rw [map_cons, map_cons, ih]

end

section

variable [CommRing κ] {ts us vs : List (PauliString × κ)} {k : List (UnitId × Pauli)}

lemma combination_cons (e : PauliString × κ) (ts : List (PauliString × κ)) :
    combination (e :: ts) = single e.1.support e.2 + combination ts := by
  rfl

lemma combination_append (ts us : List (PauliString × κ)) :
    combination (ts ++ us) = combination ts + combination us := by
  rw [combination, map_append, sum_append]
  rfl

lemma combination_of_not_mem (missing : k ∉ keys ts) : combination ts k = 0 := by
  induction ts with
  | nil => rfl
  | cons e ts ih =>
    have parts : ¬(k = e.1.support ∨ k ∈ keys ts) := fun listed =>
      missing (mem_cons.mpr listed)
    rw [not_or] at parts
    rw [combination_cons, Finsupp.add_apply, ih parts.2, Finsupp.single_eq_of_ne parts.1, add_zero]

lemma combination_addTerm (ts : List (PauliString × κ)) :
    combination (addTerm s c ts) = combination ts + single s.support c := by
  induction ts with
  | nil => rw [addTerm, combination_cons, add_comm]
  | cons e ts ih =>
    rw [addTerm]
    split
    · rename_i same
      rw [same_iff] at same
      rw [combination_cons, combination_cons, same, single_add, add_right_comm]
    · rw [combination_cons, combination_cons, ih, add_assoc]

/-- A term is added to one of the same string, or stands at the end. -/
lemma mem_keys_addTerm (ts : List (PauliString × κ)) : k ∈ keys (addTerm s c ts) ↔ k = s.support ∨ k ∈ keys ts := by
  rcases addTerm_cases s c ts with ⟨known, same⟩ | ⟨_, new⟩
  · rw [keys_eq (addTerm s c ts), same, ← keys_eq, iff_or_self]
    exact fun own => own ▸ known
  · rw [new, or_comm]
    simp [keys]

lemma nodup_addTerm (distinct : (keys ts).Nodup) : (keys (addTerm s c ts)).Nodup := by
  rcases addTerm_cases s c ts with ⟨_, same⟩ | ⟨absent, new⟩
  · rwa [keys_eq, same, ← keys_eq]
  · have all := distinct.concat absent
    rw [concat_eq_append] at all
    rwa [new, keys, map_append]

lemma sorted_addTerm {s : PauliString} (own : Ascending s.factors) (others : Sorted ts) :
    Sorted (addTerm s c ts) := by
  rcases addTerm_cases s c ts with ⟨_, same⟩ | ⟨_, new⟩
  · rwa [sorted_iff, same, ← sorted_iff]
  · rw [new]
    exact forall_mem_append.mpr ⟨others, forall_mem_singleton.mpr own⟩

/-- Terms collected into others. -/
structure Gathers (result start ts : List (PauliString × κ)) : Prop where
  strings : ∀ k, k ∈ keys result ↔ k ∈ keys start ∨ k ∈ keys ts
  combination : combination result = combination start + combination ts
  distinct : (keys start).Nodup → (keys result).Nodup
  sorted : Sorted start → Sorted ts → Sorted result

lemma gathers_foldl (start ts : List (PauliString × κ)) :
    Gathers (ts.foldl (fun terms e => addTerm e.1 e.2 terms) start) start ts := by
  induction ts generalizing start with
  | nil => exact ⟨by simp [keys], by simp [combination], id, fun first _ => first⟩
  | cons e ts ih =>
    have later := ih (addTerm e.1 e.2 start)
    refine ⟨?_, ?_, ?_, ?_⟩
    · intro k
      rw [foldl_cons, later.strings, mem_keys_addTerm]
      simp only [keys, map_cons, mem_cons]
      tauto
    · rw [foldl_cons, later.combination, combination_addTerm, combination_cons, add_assoc]
    · intro nodup
      exact later.distinct (nodup_addTerm e.1 e.2 nodup)
    · intro first second
      obtain ⟨own, rest⟩ := forall_mem_cons.mp second
      exact later.sorted (sorted_addTerm e.2 own first) rest

end

section

variable [CommRing κ] [ImaginaryUnit κ] {ts us vs : List (PauliString × κ)}
  {k : List (UnitId × Pauli)}

def termMul (e f : PauliString × κ) : PauliString × κ :=
  ((e.1.mul f.1).2, turn (e.1.mul f.1).1 * e.2 * f.2)

lemma products_eq (ts us : List (PauliString × κ)) :
    products ts us = ts.flatMap fun e => us.map (termMul e) := rfl

noncomputable def stringTimes (k : List (UnitId × Pauli)) :
    (List (UnitId × Pauli) →₀ κ) →ₗ[κ] (List (UnitId × Pauli) →₀ κ) :=
  linearCombination κ fun l => single (mulFactors k l).2 (turn (mulFactors k l).1)

noncomputable def convolve (x y : List (UnitId × Pauli) →₀ κ) : List (UnitId × Pauli) →₀ κ :=
  linearCombination κ (fun k => stringTimes k y) x

lemma convolve_add_left (x y z : List (UnitId × Pauli) →₀ κ) :
    convolve (x + y) z = convolve x z + convolve y z := map_add _ x y

lemma convolve_add_right (x y z : List (UnitId × Pauli) →₀ κ) : convolve x (y + z) = convolve x y + convolve x z := by
  simp only [convolve, linearCombination_apply, map_add, smul_add, sum_add]

lemma convolve_single (k l : List (UnitId × Pauli)) (c d : κ) : convolve (single k c) (single l d) =
    single (mulFactors k l).2 (turn (mulFactors k l).1 * c * d) := by
  rw [convolve, linearCombination_single, stringTimes, linearCombination_single,
    smul_single, smul_single, smul_eq_mul, smul_eq_mul]
  congr 1
  ring

lemma combination_products (first : Sorted ts) (second : Sorted us) :
    combination (products ts us) = convolve (combination ts) (combination us) := by
  induction ts with
  | nil => exact (map_zero _).symm
  | cons e ts ih =>
    obtain ⟨own, rest⟩ := forall_mem_cons.mp first
    have row : combination (us.map (termMul e)) = convolve (single e.1.support e.2) (combination us) := by
      clear ih
      induction us with
      | nil =>
        have none : combination ([] : List (PauliString × κ)) = 0 := rfl
        rw [map_nil, none, convolve, linearCombination_single, map_zero, smul_zero]
      | cons f us ih =>
        obtain ⟨head, tail⟩ := forall_mem_cons.mp second
        rw [map_cons, combination_cons, combination_cons, convolve_add_right, ih tail,
          convolve_single, ← support_mul own head]
        rfl
    rw [products_eq, flatMap_cons, combination_append, row, ← products_eq, ih rest, combination_cons, convolve_add_left]

lemma mem_keys_products (first : Sorted ts) (second : Sorted us) :
    k ∈ keys (products ts us) ↔ ∃ a ∈ keys ts, ∃ b ∈ keys us, k = (mulFactors a b).2 := by
  constructor
  · intro mem
    obtain ⟨e, inside, rfl⟩ := mem_map.mp mem
    obtain ⟨f, left, inside⟩ := mem_flatMap.mp inside
    obtain ⟨g, right, rfl⟩ := mem_map.mp inside
    exact ⟨f.1.support, mem_map_of_mem left, g.1.support, mem_map_of_mem right,
      support_mul (first f left) (second g right)⟩
  · rintro ⟨a, inFirst, b, inSecond, rfl⟩
    obtain ⟨f, left, rfl⟩ := mem_map.mp inFirst
    obtain ⟨g, right, rfl⟩ := mem_map.mp inSecond
    rw [← support_mul (first f left) (second g right)]
    refine mem_map.mpr ⟨termMul f g, ?_, rfl⟩
    exact mem_flatMap.mpr ⟨f, left, mem_map_of_mem right⟩

lemma sorted_products (first : Sorted ts) (second : Sorted us) : Sorted (products ts us) := by
  intro e mem
  obtain ⟨f, left, inside⟩ := mem_flatMap.mp mem
  obtain ⟨g, right, rfl⟩ := mem_map.mp inside
  exact (mulFactors_spec (canonical_support (first f left))
    (canonical_support (second g right))).1.ascending

section

variable (square : i * i = (-1 : κ))
include square

lemma turn_eq_pow (l : Fin 4) : turn l = (i : κ) ^ (l : Nat) := by
  fin_cases l
  · exact (pow_zero _).symm
  · exact (pow_one _).symm
  · exact square.symm.trans (pow_two _).symm
  · calc
      -i = (-1 : κ) * i := (neg_one_mul _).symm
      _ = i ^ 3 := by rw [← square, pow_succ, pow_two]

lemma turn_add (j l : Fin 4) : turn (j + l) = (turn j * turn l : κ) := by
  have round : (i : κ) ^ 4 = 1 := by
    calc
      (i : κ) ^ 4 = (i * i) ^ 2 := by ring
      _ = 1 := by rw [square, neg_one_sq]
  rw [turn_eq_pow square, turn_eq_pow square, turn_eq_pow square, Fin.val_add, ← pow_eq_pow_mod _ round, pow_add]

lemma termMul_assoc {e f g : PauliString × κ} (first : Ascending e.1.factors)
    (second : Ascending f.1.factors) (third : Ascending g.1.factors) : termMul (termMul e f) g = termMul e (termMul f g) := by
  obtain ⟨strings, phases⟩ := mulFactors_assoc (canonical_support first) (canonical_support second)
    (canonical_support third)
  rw [← support_mul first second, ← support_mul second third] at strings phases
  have turns : (turn (e.1.mul f.1).1 * turn ((e.1.mul f.1).2.mul g.1).1 : κ) =
      turn (f.1.mul g.1).1 * turn (e.1.mul (f.1.mul g.1).2).1 := by
    rw [← turn_add square, ← turn_add square]
    exact congrArg turn phases
  apply Prod.ext
  · exact congrArg PauliString.mk strings
  · calc
      turn ((e.1.mul f.1).2.mul g.1).1 * (turn (e.1.mul f.1).1 * e.2 * f.2) * g.2 =
          (turn (e.1.mul f.1).1 * turn ((e.1.mul f.1).2.mul g.1).1) * (e.2 * f.2 * g.2) := by ring
      _ = (turn (f.1.mul g.1).1 * turn (e.1.mul (f.1.mul g.1).2).1) * (e.2 * f.2 * g.2) := by rw [turns]
      _ = turn (e.1.mul (f.1.mul g.1).2).1 * e.2 * (turn (f.1.mul g.1).1 * f.2 * g.2) := by ring

lemma products_assoc (first : Sorted ts) (second : Sorted us) (third : Sorted vs) :
    products (products ts us) vs = products ts (products us vs) := by
  simp only [products_eq, flatMap_assoc, flatMap_map, map_flatMap, map_map]
  apply flatMap_congr
  intro e left
  apply flatMap_congr
  intro f middle
  apply map_congr_left
  intro g right
  exact termMul_assoc square (first e left) (second f middle) (third g right)

end

end

section

variable [CommRing κ]

/-- Of the terms with different strings, the one with a string has its coefficient. -/
lemma find?_of_mem {ts : List (PauliString × κ)} (distinct : (keys ts).Nodup) {s : PauliString}
    (mem : e ∈ ts) (own : e.1.support = s.support) :
    find? s ts = some e.2 ∧ combination ts s.support = e.2 := by
  induction ts with
  | nil => cases mem
  | cons f ts ih =>
    obtain ⟨absent, rest⟩ : f.1.support ∉ keys ts ∧ (keys ts).Nodup := nodup_cons.mp distinct
    rw [find?, combination_cons, Finsupp.add_apply]
    rcases mem_cons.mp mem with rfl | later
    · rw [if_pos ((same_iff _ _).mpr own), ← own, combination_of_not_mem absent, Finsupp.single_eq_same, add_zero]
      exact ⟨rfl, rfl⟩
    · have other : f.1.support ≠ s.support := by
        rw [← own]
        exact fun same => absent (same ▸ mem_map_of_mem (f := fun e => e.1.support) later)
      rw [if_neg (mt (same_iff _ _).mp other), Finsupp.single_eq_of_ne other.symm, zero_add]
      exact ih rest later

lemma same_of_agree [DecidableEq κ] {a b : PauliOperator κ} (first : a.WellFormed)
    (second : b.WellFormed) (agree : Agree a.terms b.terms) : a.same (fun x y => decide (x = y)) b = true := by
  have count : a.terms.length = b.terms.length := by
    have perm := (perm_ext_iff_of_nodup first.distinct second.distinct).mpr agree.strings
    simpa [keys] using perm.length_eq
  rw [same, Bool.and_eq_true, all_eq_true]
  refine ⟨decide_eq_true count, ?_⟩
  intro e mem
  have own := (agree.strings _).mp (mem_map_of_mem (f := fun e => e.1.support) mem)
  obtain ⟨f, inside, alike⟩ := mem_map.mp own
  have value := (find?_of_mem first.distinct mem rfl).2
  obtain ⟨found, other⟩ := find?_of_mem second.distinct inside alike
  rw [agree.combination, other] at value
  simp [get?, found, value]

variable {ts ts' us us' vs : List (PauliString × κ)} (r : κ)

lemma Agree.refl (ts : List (PauliString × κ)) : Agree ts ts := ⟨fun _ => Iff.rfl, rfl⟩

lemma Agree.trans (first : Agree ts us) (second : Agree us vs) : Agree ts vs :=
  ⟨fun k => (first.strings k).trans (second.strings k), first.combination.trans second.combination⟩

lemma Agree.symm (agree : Agree ts us) : Agree us ts :=
  ⟨fun k => (agree.strings k).symm, agree.combination.symm⟩

lemma Agree.append (first : Agree ts ts') (second : Agree us us') : Agree (ts ++ us) (ts' ++ us') := by
  constructor
  · intro k
    rw [mem_keys_append, mem_keys_append, first.strings, second.strings]
  · rw [combination_append, combination_append, first.combination, second.combination]

lemma Agree.of_perm (perm : ts.Perm us) : Agree ts us :=
  ⟨fun _ => (perm.map _).mem_iff, (perm.map _).sum_eq⟩

def scaleTerms (r : κ) (ts : List (PauliString × κ)) : List (PauliString × κ) :=
  ts.map fun e => (e.1, e.2 * r)

lemma keys_scaleTerms (ts : List (PauliString × κ)) : keys (scaleTerms r ts) = keys ts := by
  rw [keys, scaleTerms, map_map]
  rfl

lemma combination_scaleTerms (ts : List (PauliString × κ)) : combination (scaleTerms r ts) = r • combination ts := by
  induction ts with
  | nil => exact (smul_zero r).symm
  | cons e ts ih =>
    have split : scaleTerms r (e :: ts) = (e.1, e.2 * r) :: scaleTerms r ts := rfl
    rw [split, combination_cons, combination_cons, ih, smul_add, smul_single, smul_eq_mul, mul_comm]

lemma Agree.scaleTerms (agree : Agree ts us) (r : κ) : Agree (scaleTerms r ts) (scaleTerms r us) := by
  constructor
  · intro k
    rw [keys_scaleTerms, keys_scaleTerms, agree.strings]
  · rw [combination_scaleTerms, combination_scaleTerms, agree.combination]

lemma Gathers.agree (gathers : Gathers ts us vs) : Agree ts (us ++ vs) := by
  constructor
  · intro k
    rw [gathers.strings, mem_keys_append]
  · rw [gathers.combination, combination_append]

lemma gathers_add (a b : PauliOperator κ) : Gathers (a.add b).terms a.terms b.terms :=
  gathers_foldl a.terms b.terms

lemma agree_add (a b : PauliOperator κ) : Agree (a.add b).terms (a.terms ++ b.terms) :=
  (gathers_add a b).agree

lemma wellFormed_add {a b : PauliOperator κ} (first : a.WellFormed) (second : b.WellFormed) : (a.add b).WellFormed :=
  ⟨(gathers_add a b).sorted first.ascending second.ascending, (gathers_add a b).distinct first.distinct⟩

lemma wellFormed_scale {a : PauliOperator κ} (own : a.WellFormed) (r : κ) : (a.renew.scale r).WellFormed := by
  have terms : (a.renew.scale r).terms = scaleTerms r a.terms := rfl
  constructor
  · rw [terms]
    exact forall_mem_map.mpr own.ascending
  · rw [terms, keys_scaleTerms]
    exact own.distinct

lemma agree_add_comm (a b : PauliOperator κ) : Agree (a.add b).terms (b.add a).terms :=
  ((agree_add a b).trans (Agree.of_perm perm_append_comm)).trans (agree_add b a).symm

lemma agree_add_assoc (a b c : PauliOperator κ) : Agree ((a.add b).add c).terms (a.add (b.add c)).terms := by
  have left : Agree ((a.add b).add c).terms (a.terms ++ b.terms ++ c.terms) :=
    (agree_add _ c).trans ((agree_add a b).append (Agree.refl c.terms))
  have right : Agree (a.add (b.add c)).terms (a.terms ++ (b.terms ++ c.terms)) :=
    (agree_add a _).trans ((Agree.refl a.terms).append (agree_add b c))
  rw [append_assoc] at left
  exact left.trans right.symm

variable [ImaginaryUnit κ]

lemma Agree.products (left : Agree ts ts') (right : Agree us us') (first : Sorted ts) (first' : Sorted ts')
    (second : Sorted us) (second' : Sorted us') : Agree (products ts us) (products ts' us') := by
  constructor
  · intro k
    rw [mem_keys_products first second, mem_keys_products first' second']
    simp only [left.strings, right.strings]
  · rw [combination_products first second, combination_products first' second', left.combination, right.combination]

lemma products_append_right (ts us vs : List (PauliString × κ)) :
    (products ts (us ++ vs)).Perm (products ts us ++ products ts vs) := by
  simp only [products_eq, map_append]
  exact (flatMap_append_perm ts _ _).symm

lemma products_append_left (ts us vs : List (PauliString × κ)) :
    products (ts ++ us) vs = products ts vs ++ products us vs := flatMap_append

lemma products_scaleTerms (ts us : List (PauliString × κ)) :
    products (scaleTerms r ts) us = scaleTerms r (products ts us) ∧
    products ts (scaleTerms r us) = scaleTerms r (products ts us) := by
  have scaled (e f : PauliString × κ) : termMul (e.1, e.2 * r) f = ((termMul e f).1, (termMul e f).2 * r) ∧
      termMul e (f.1, f.2 * r) = ((termMul e f).1, (termMul e f).2 * r) := by
    refine ⟨Prod.ext rfl ?_, Prod.ext rfl ?_⟩ <;>
    · simp only [termMul]
      ring
  simp only [scaleTerms, products_eq, map_flatMap, flatMap_map, map_map]
  constructor
  · exact flatMap_congr fun e _ => map_congr_left fun f _ => (scaled e f).1
  · exact flatMap_congr fun e _ => map_congr_left fun f _ => (scaled e f).2

lemma gathers_mul (a b : PauliOperator κ) : Gathers (a.mul b).terms [] (products a.terms b.terms) :=
  gathers_foldl [] (products a.terms b.terms)

lemma agree_mul (a b : PauliOperator κ) : Agree (a.mul b).terms (products a.terms b.terms) :=
  (gathers_mul a b).agree

lemma wellFormed_mul {a b : PauliOperator κ} (first : a.WellFormed) (second : b.WellFormed) :
    (a.mul b).WellFormed := by
  constructor
  · exact (gathers_mul a b).sorted (forall_mem_nil _) (sorted_products first.ascending second.ascending)
  · exact (gathers_mul a b).distinct nodup_nil

section

variable {a b c : PauliOperator κ} (first : a.WellFormed) (second : b.WellFormed)
  (third : c.WellFormed)

include first second third

lemma agree_mul_assoc (square : i * i = (-1 : κ)) : Agree ((a.mul b).mul c).terms (a.mul (b.mul c)).terms := by
  have left : Agree ((a.mul b).mul c).terms (products (products a.terms b.terms) c.terms) :=
    (agree_mul _ c).trans ((agree_mul a b).products (Agree.refl c.terms)
      (wellFormed_mul first second).ascending
      (sorted_products first.ascending second.ascending) third.ascending third.ascending)
  have right : Agree (a.mul (b.mul c)).terms (products a.terms (products b.terms c.terms)) :=
    (agree_mul a _).trans ((Agree.refl a.terms).products (agree_mul b c) first.ascending
      first.ascending (wellFormed_mul second third).ascending
      (sorted_products second.ascending third.ascending))
  rw [products_assoc square first.ascending second.ascending third.ascending] at left
  exact left.trans right.symm

lemma agree_mul_add : Agree (a.mul (b.add c)).terms ((a.mul b).add (a.mul c)).terms := by
  have left : Agree (a.mul (b.add c)).terms (products a.terms (b.terms ++ c.terms)) := by
    apply (agree_mul a _).trans
    apply (Agree.refl a.terms).products (agree_add b c) first.ascending first.ascending
      (wellFormed_add second third).ascending
    exact forall_mem_append.mpr ⟨second.ascending, third.ascending⟩
  have right : Agree ((a.mul b).add (a.mul c)).terms
      (products a.terms b.terms ++ products a.terms c.terms) :=
    (agree_add _ _).trans ((agree_mul a b).append (agree_mul a c))
  exact (left.trans (Agree.of_perm (products_append_right _ _ _))).trans right.symm

lemma agree_add_mul : Agree ((a.add b).mul c).terms ((a.mul c).add (b.mul c)).terms := by
  have left : Agree ((a.add b).mul c).terms (products (a.terms ++ b.terms) c.terms) := by
    apply (agree_mul _ c).trans
    apply (agree_add a b).products (Agree.refl c.terms) (wellFormed_add first second).ascending ?_
      third.ascending third.ascending
    exact forall_mem_append.mpr ⟨first.ascending, second.ascending⟩
  have right : Agree ((a.mul c).add (b.mul c)).terms
      (products a.terms c.terms ++ products b.terms c.terms) :=
    (agree_add _ _).trans ((agree_mul a c).append (agree_mul b c))
  rw [products_append_left] at left
  exact left.trans right.symm

end

lemma agree_scale_mul (a b : PauliOperator κ) (r : κ) :
    Agree ((a.mul b).renew.scale r).terms ((a.renew.scale r).mul b).terms := by
  have left : Agree ((a.mul b).renew.scale r).terms (scaleTerms r (products a.terms b.terms)) :=
    (agree_mul a b).scaleTerms r
  rw [← (products_scaleTerms r _ _).1] at left
  exact left.trans (agree_mul (a.renew.scale r) b).symm

lemma agree_mul_scale (a b : PauliOperator κ) (r : κ) :
    Agree ((a.mul b).renew.scale r).terms (a.mul (b.renew.scale r)).terms := by
  have left : Agree ((a.mul b).renew.scale r).terms (scaleTerms r (products a.terms b.terms)) :=
    (agree_mul a b).scaleTerms r
  rw [← (products_scaleTerms r _ _).2] at left
  exact left.trans (agree_mul a (b.renew.scale r)).symm

end

section

def copied (x : Nat) (store : List (PauliOperator κ)) : List (PauliOperator κ) :=
  store ++ (store[x]?.map renew).toList

def updated (change : PauliOperator κ → PauliOperator κ → PauliOperator κ) (x y : Nat)
    (store : List (PauliOperator κ)) : List (PauliOperator κ) :=
  (store[y]?.map fun b => store.modify x fun a => change a b).getD store

variable {store : List (PauliOperator κ)} {x y : Nat} {a b : PauliOperator κ}

lemma modify_copied (f : PauliOperator κ → PauliOperator κ) (held : store[x]? = some a) :
    (copied x store).modify store.length f = store ++ [f a.renew] := by
  simp [copied, held, modify_eq_take_drop]

lemma updated_copied (change : PauliOperator κ → PauliOperator κ → PauliOperator κ)
    (held : store[x]? = some a) (other : store[y]? = some b) :
    updated change store.length y (copied x store) = store ++ [change a.renew b] := by
  have kept : (copied x store)[y]? = some b := by
    obtain ⟨below, _⟩ := List.getElem?_eq_some_iff.mp other
    rw [copied, getElem?_append_left below, other]
  rw [updated, kept, Option.map_some, Option.getD_some, modify_copied (fun a => change a b) held]

end

section

variable [CommRing κ]

lemma wellFormed_ofEntries {entries : List (PauliString × κ)}
    (sorted : Sorted entries) : (ofEntries entries).WellFormed := by
  -- the invariant of the loop over the entries, for any terms to start with
  have general : ∀ start : PauliOperator κ, start.WellFormed →
      (ofTerms (entries.foldl (fun terms e => put e.1 e.2 terms) start.terms)).WellFormed := by
    induction entries with
    | nil => exact fun start own => ⟨own.ascending, own.distinct⟩
    | cons e entries ih =>
      obtain ⟨head, tail⟩ := forall_mem_cons.mp sorted
      intro start own
      apply ih tail (ofTerms (put e.1 e.2 start.terms))
      constructor
      · apply sorted_iff.mpr
        rw [ofTerms, strings_put, ← sorted_iff]
        exact sorted_addTerm e.2 head own.ascending
      · rw [ofTerms, keys_eq, strings_put, ← keys_eq]
        exact nodup_addTerm e.1 e.2 own.distinct
  exact general ⟨[], []⟩ ⟨by simp, nodup_nil⟩

end

def Same [DecidableEq κ] (a b : PauliOperator κ) : Prop :=
  a.same (fun c d => decide (c = d)) b = true

/-- Over a commutative ring with an imaginary unit, operators form an associative algebra, with the
equality that also compares which strings are stored. Sums, products and multiples are new operators:
those that they are formed from stay as they are. -/
theorem associative_algebra [CommRing κ] [ImaginaryUnit κ] [DecidableEq κ]
    (square : ImaginaryUnit.i * ImaginaryUnit.i = (-1 : κ)) {a b c : PauliOperator κ}
    (first : a.WellFormed) (second : b.WellFormed) (third : c.WellFormed) (r : κ) :
    ((a.mul b).mul c).Same (a.mul (b.mul c)) ∧
    (a.mul (b.add c)).Same ((a.mul b).add (a.mul c)) ∧
    ((a.add b).mul c).Same ((a.mul c).add (b.mul c)) ∧
    (a.add b).Same (b.add a) ∧
    ((a.add b).add c).Same (a.add (b.add c)) ∧
    ((a.mul b).renew.scale r).Same ((a.renew.scale r).mul b) ∧
    ((a.renew.scale r).mul b).Same (a.mul (b.renew.scale r)) ∧
    ∀ (store : List (PauliOperator κ)) (x y : Nat), store[x]? = some a → store[y]? = some b →
      updated increase store.length y (copied x store) = store ++ [a.add b] ∧
      updated extend store.length y (copied x store) = store ++ [a.mul b] ∧
      (copied x store).modify store.length (fun a => a.scale r) = store ++ [a.renew.scale r] := by
  have product := wellFormed_mul first second
  have scaledFirst := wellFormed_mul (wellFormed_scale first r) second
  have scaledSecond := wellFormed_mul first (wellFormed_scale second r)
  refine ⟨?_, ?_, ?_, ?_, ?_, ?_, ?_, ?_⟩
  · exact same_of_agree (wellFormed_mul product third)
      (wellFormed_mul first (wellFormed_mul second third))
      (agree_mul_assoc first second third square)
  · exact same_of_agree (wellFormed_mul first (wellFormed_add second third))
      (wellFormed_add product (wellFormed_mul first third))
      (agree_mul_add first second third)
  · exact same_of_agree (wellFormed_mul (wellFormed_add first second) third)
      (wellFormed_add (wellFormed_mul first third) (wellFormed_mul second third))
      (agree_add_mul first second third)
  · exact same_of_agree (wellFormed_add first second)
      (wellFormed_add second first) (agree_add_comm a b)
  · exact same_of_agree (wellFormed_add (wellFormed_add first second) third)
      (wellFormed_add first (wellFormed_add second third)) (agree_add_assoc a b c)
  · exact same_of_agree (wellFormed_scale product r) scaledFirst
      (agree_scale_mul a b r)
  · exact same_of_agree scaledFirst scaledSecond
      ((agree_scale_mul a b r).symm.trans (agree_mul_scale a b r))
  · intro store x y held other
    exact ⟨updated_copied increase held other, updated_copied extend held other,
      modify_copied _ held⟩

instance : ImaginaryUnit (Zsqrtd (-1)) := ⟨⟨0, 1⟩⟩

def slanted : PauliOperator (Zsqrtd (-1)) :=
  ofEntries [(ofList [(.qubit 0, .X)], 1), (ofList [(.qubit 0, .Z)], 1)]

/-- In the square of this sum the products of different terms cancel, and their string stays with
coefficient zero. It is also stored on both sides of each law. -/
theorem associative_algebra_slanted :
    slanted.WellFormed ∧
    (slanted.mul slanted).get? (PauliString.ofList [(.qubit 0, .Y)]) = some 0 ∧
    ((slanted.mul slanted).mul slanted).Same (slanted.mul (slanted.mul slanted)) ∧
    (slanted.mul (slanted.add slanted)).Same ((slanted.mul slanted).add (slanted.mul slanted)) := by
  have own : slanted.WellFormed := by
    apply wellFormed_ofEntries
    simp only [Sorted, List.forall_mem_cons, List.not_mem_nil]
    exact ⟨PauliString.ascending_ofList _, PauliString.ascending_ofList _, by simp⟩
  have laws := associative_algebra (by decide) own own own 1
  exact ⟨own, by decide, laws.1, laws.2.1⟩

end

open List PauliString Std

variable {κ : Type} {ts us : List (PauliString × κ)} {a b : PauliOperator κ} {s : PauliString} {u : UnitId}

/-- The qubits of all strings are among those of the operator. -/
def Covers (a : PauliOperator κ) : Prop := ∀ s ∈ a.terms.map Prod.fst, ∀ u ∈ s.qubits, u ∈ a.qubits

lemma mem_join (v : UnitId) (units : List UnitId) : u ∈ UnitId.join v units ↔ u = v ∨ u ∈ units := by
  induction units with
  | nil => simp [UnitId.join]
  | cons w units ih =>
    rw [UnitId.join]
    split
    · exact mem_cons
    · rename_i same
      obtain rfl := LawfulEqCmp.eq_of_compare same
      simp
    · rw [mem_cons, ih, mem_cons, or_left_comm]

lemma mem_joined (units others : List UnitId) : u ∈ joined units others ↔ u ∈ units ∨ u ∈ others := by
  induction others generalizing units with
  | nil => simp [joined]
  | cons v others ih =>
    rw [joined, foldl_cons, ← joined, ih, mem_join, mem_cons]
    tauto

lemma covers_ofTerms (ts : List (PauliString × κ)) : (ofTerms ts).Covers := by
  intro s mem u own
  obtain ⟨e, inside, rfl⟩ := mem_map.mp mem
  have qubits : (ofTerms ts).qubits = joined [] (ts.flatMap (·.1.qubits)) := foldl_flatMap.symm
  rw [qubits, mem_joined]
  exact .inr (mem_flatMap.mpr ⟨e, inside, own⟩)

lemma mem_strings_addTerms [Add κ] (start : List (PauliString × κ))
    (mem : s ∈ (ts.foldl (fun terms e => addTerm e.1 e.2 terms) start).map Prod.fst) :
    s ∈ start.map Prod.fst ∨ s ∈ ts.map Prod.fst := by
  induction ts generalizing start with
  | nil => exact .inl mem
  | cons e ts ih =>
    rcases ih _ mem with first | later
    · rcases addTerm_cases e.1 e.2 start with ⟨-, same⟩ | ⟨-, new⟩
      · exact .inl (same ▸ first)
      · simp only [new, map_append, mem_append, map_cons, map_nil, mem_singleton] at first
        rcases first with old | rfl
        · exact .inl old
        · exact .inr mem_cons_self
    · exact .inr (mem_cons_of_mem _ later)

lemma mem_mulFactor (v : UnitId) (p : Pauli) (fs : List (UnitId × Pauli))
    (mem : u ∈ (mulFactor v p fs).2.map Prod.fst) : u = v ∨ u ∈ fs.map Prod.fst := by
  induction fs with
  | nil => simpa [mulFactor] using mem
  | cons e fs ih =>
    rw [mulFactor] at mem
    split at mem
    · simpa using mem
    · dsimp only at mem
      split at mem
      · exact .inr (mem_cons_of_mem _ mem)
      · exact .inr mem
    · rcases mem_cons.mp mem with rfl | later
      · exact .inr mem_cons_self
      · exact (ih later).imp id (mem_cons_of_mem _)

lemma mem_qubits_mul (s t : PauliString) (mem : u ∈ (s.mul t).2.qubits) : u ∈ s.qubits ∨ u ∈ t.qubits := by
  have general : ∀ fs : List (UnitId × Pauli), u ∈ (mulFactors fs t.support).2.map Prod.fst →
      u ∈ fs.map Prod.fst ∨ u ∈ t.support.map Prod.fst := by
    intro fs
    induction fs with
    | nil => exact .inr
    | cons e fs ih =>
      intro mem
      rcases mem_mulFactor e.1 e.2 _ mem with rfl | later
      · exact .inl mem_cons_self
      · exact (ih later).imp (mem_cons_of_mem _) id
  have kept (s : PauliString) : s.support.map Prod.fst ⊆ s.qubits := (filter_sublist.map _).subset
  exact (general s.support mem).imp (kept s ·) (kept t ·)

lemma Covers.increase [Add κ] (first : a.Covers) (second : b.Covers) : (a.increase b).Covers := by
  intro s mem u own
  refine (mem_joined a.qubits b.qubits).mpr ?_
  exact (mem_strings_addTerms a.terms mem).imp (first s · u own) (second s · u own)

lemma Covers.extend [One κ] [Neg κ] [Add κ] [Mul κ] [ImaginaryUnit κ] (first : a.Covers) (second : b.Covers) :
    (a.extend b).Covers := by
  intro s mem u own
  refine (mem_joined a.qubits b.qubits).mpr ?_
  obtain product | product := mem_strings_addTerms [] mem
  · cases product
  · simp only [products, map_flatMap, map_map, mem_flatMap, mem_map, Function.comp_apply] at product
    obtain ⟨e, left, f, right, rfl⟩ := product
    exact (mem_qubits_mul e.1 f.1 own).imp (first _ (mem_map_of_mem left) u) (second _ (mem_map_of_mem right) u)

lemma Covers.of_subset (covers : a.Covers) (fewer : ts.map Prod.fst ⊆ a.terms.map Prod.fst) :
    Covers { a with terms := ts } := fun s mem => covers s (fewer mem)

/-- A coefficient may be assigned to a string that is stored, or one on the operator's own qubits. -/
def Assignable (a : PauliOperator κ) (s : PauliString) : Prop := s.support ∈ keys a.terms ∨ ∀ u ∈ s.qubits, u ∈ a.qubits

lemma Covers.set_iff [Add κ] (covers : a.Covers) (c : κ) : (a.set s c).Covers ↔ a.Assignable s := by
  rw [Covers, set, strings_put]
  rcases addTerm_cases s c a.terms with ⟨known, same⟩ | ⟨absent, new⟩
  · rw [same]
    exact ⟨fun _ => .inl known, fun _ => covers⟩
  · rw [new, map_append, forall_mem_append]
    refine ⟨fun all => .inr (all.2 s (by simp)), fun either => ⟨covers, ?_⟩⟩
    simpa using either.resolve_left absent

/-- What the operations make, as long as coefficients are assigned to assignable strings only. -/
inductive Made : PauliOperator Amount → Prop
  | entries (entries : List (PauliString × Amount)) : Made (ofEntries entries)
  | renew {a : PauliOperator Amount} : Made a.renew
  | set {a : PauliOperator Amount} {s : PauliString} (c : Amount) : Made a → a.Assignable s → Made (a.set s c)
  | increase {a b : PauliOperator Amount} : Made a → Made b → Made (a.increase b)
  | extend {a b : PauliOperator Amount} : Made a → Made b → Made (a.extend b)
  | scale {a : PauliOperator Amount} (c : Amount) : Made a → Made (a.scale c)
  | substitute {a : PauliOperator Amount} (values : List (String × Amount)) : Made a → Made (a.substitute values)
  | compress {a : PauliOperator Amount} (least : Float) : Made a → Made (a.compress least)

lemma Made.covers {a : PauliOperator Amount} (made : Made a) : a.Covers := by
  induction made with
  | entries entries => exact covers_ofTerms _
  | renew => exact covers_ofTerms _
  | set c _ assignable covers => exact (covers.set_iff c).mpr assignable
  | increase _ _ first second => exact first.increase second
  | extend _ _ first second => exact first.extend second
  | scale c _ covers => exact covers.of_subset (by simp [Function.comp_def])
  | substitute values _ covers => exact covers.of_subset (by simp [Function.comp_def])
  | compress least _ covers =>
    refine covers.of_subset fun s mem => ?_
    obtain ⟨e, kept, rfl⟩ := mem_map.mp mem
    obtain ⟨f, old, same⟩ := mem_filterMap.mp kept
    obtain ⟨c, -, rfl⟩ := Option.map_eq_some_iff.mp same
    exact mem_map.mpr ⟨f, old, rfl⟩

/-- All operations keep the qubits of the strings among those of the operator, except for an assignment: that keeps
them if and only if the string was stored or is on qubits of the operator. -/
theorem made_covers_assigned_iff (a : PauliOperator Amount) (made : Made a) :
    a.Covers ∧ ∀ (s : PauliString) (c : Amount), (a.set s c).Covers ↔ a.Assignable s :=
  ⟨made.covers, fun _ c => made.covers.set_iff c⟩

/-- A qubit that only an assigned string has is missing. -/
theorem made_covers_assigned_iff_empty :
    Made (ofEntries []) ∧ ¬((ofEntries []).set (ofList [(.qubit 0, .X)]) (1 : Amount)).Covers := by
  refine ⟨.entries [], fun covers => ?_⟩
  rcases ((made_covers_assigned_iff _ (.entries [])).2 _ _).mp covers with stored | inside
  · exact not_mem_nil stored
  · exact not_mem_nil (inside (.qubit 0) (by decide))

end CircuitWorks.PauliOperator
