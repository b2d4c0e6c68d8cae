import CircuitWorks.Proofs.Outcome.Tables
import CircuitWorks.Proofs.Unitary.Families
import CircuitWorks.ZX.Json

/-! The tensors of spiders, entry by entry. -/

namespace CircuitWorks.ZX

open List HalfAngle Outcome
open Complex hiding cos

/-- An angle between 0 and 2 half turns. -/
noncomputable def reduced (a : ℝ) : ℝ := (2 : ℕ) * (a / (2 : ℕ) - ⌊a / (2 : ℕ)⌋)

noncomputable def turn (a : ℝ) : ℂ := exp (I * (Real.pi * a))

noncomputable def zTensor (a : ℝ) (legs : List Bool) : ℂ := (zSpider (reduced a) legs.length).getD (valueOf legs) 0

noncomputable def xTensor (a : ℝ) (legs : List Bool) : ℂ := (xSpider (reduced a) legs.length).getD (valueOf legs) 0

/-- The sum of two basis tensors, in one of which all legs are 0, and in the other 1. -/
noncomputable def spider (u v : ℂ) (legs : List Bool) : ℂ :=
  (if ∀ leg ∈ legs, leg = false then u else 0) + if ∀ leg ∈ legs, leg = true then v else 0

/-- A tensor with the Hadamard matrix on each leg. -/
noncomputable def throughHadamard (f : List Bool → ℂ) : List Bool → ℂ
  | [] => f []
  | b :: legs => ∑ c, (if b && c then -cos (half : ℝ) else cos (half : ℝ)) *
    throughHadamard (fun rest => f (c :: rest)) legs

variable (a b : ℝ) (legs : List Bool)

lemma phase_reduced : phase (reduced a + reduced a) = turn a := by
  have angle : I * (Real.pi / 2 * (reduced a + reduced a : ℝ)) = I * (Real.pi * a) - ⌊a / 2⌋ * (2 * Real.pi * I) := by
    simp only [reduced]
    push_cast
    ring
  simp only [phase, turn, angle, exp_sub, exp_int_mul_two_pi_mul_I, div_one]

lemma valueOf_ones (n : Nat) : valueOf (replicate n true) = 2 ^ n - 1 := by
  induction n with
  | zero => rfl
  | succ n ih =>
    have positive := Nat.two_pow_pos n
    rw [replicate_succ', valueOf_concat, ih, Bool.toNat_true]
    omega

lemma forall_eq_iff (b : Bool) : (∀ leg ∈ legs, leg = b) ↔ valueOf legs = valueOf (replicate legs.length b) := by
  rw [← eq_replicate_length]
  exact ⟨congrArg valueOf, valueOf_inj (by simp)⟩

lemma zTensor_eq : zTensor a legs =
    if ∀ leg ∈ legs, leg = true then turn a else if ∀ leg ∈ legs, leg = false then 1 else 0 := by
  have below := valueOf_lt legs
  simp only [forall_eq_iff, valueOf_ones, valueOf_zeros, zTensor, zSpider, setLast, phase_reduced, Nat.pow_eq]
  cases valueOf legs <;> grind

lemma length_parities (n : Nat) : (parities n).length = 2 ^ n := by
  induction n with
  | zero => rfl
  | succ n ih => rw [parities, length_append, length_map, ih, Nat.pow_succ, Nat.mul_two]

lemma parities_valueOf : (parities legs.length)[valueOf legs]? = some (legs.foldr xor false) := by
  induction legs with
  | nil => rfl
  | cons b legs ih =>
    have below := valueOf_lt legs
    have size := length_parities legs.length
    rw [length_cons, parities, ← singleton_append, valueOf_append]
    cases b with
    | false => simp [show valueOf [false] = 0 from rfl, getElem?_append_left (size ▸ below), ih]
    | true => simp [show valueOf [true] = 1 from rfl, ← size, getElem?_append_right, ih]

lemma throughHadamard_spider (u v : ℂ) : throughHadamard (spider u v) legs =
    (u + if legs.foldr xor false then -v else v) * power (cos (half : ℝ)) legs.length := by
  induction legs generalizing u v with
  | nil => simp [throughHadamard, spider, power]
  | cons b legs ih =>
    have off : (fun rest => spider u v (false :: rest)) = spider u 0 := by simp [funext_iff, spider]
    have on : (fun rest => spider u v (true :: rest)) = spider 0 v := by simp [funext_iff, spider]
    rw [throughHadamard, Fintype.sum_bool, on, off, ih, ih, length_cons, power, foldr_cons]
    cases b <;> cases legs.foldr xor false <;> simp <;> ring

/-- Spiders and their fusion are right, but for the Z spider without legs: its first entry, which is 1,
is also its last, which is the phase. -/
theorem tensors_of_spiders (a b : ℝ) (legs xs xs' ys ys' : List Bool) :
    (zTensor a legs = spider 1 (turn a) legs ↔ legs ≠ []) ∧
    xTensor a legs = throughHadamard (spider 1 (turn a)) legs ∧
    ∑ x, zTensor a (xs ++ x :: xs') * zTensor b (ys ++ x :: ys') = spider 1 (turn (a + b)) (xs ++ xs' ++ ys ++ ys') := by
  refine ⟨⟨?_, fun some => ?_⟩, ?_, ?_⟩
  · rintro same rfl
    simp [zTensor_eq, spider] at same
  · obtain ⟨leg, mem⟩ := exists_mem_of_ne_nil _ some
    rw [zTensor_eq, spider]
    grind
  · rw [xTensor, xSpider, getD_eq_getElem?_getD, getElem?_map, parities_valueOf, phase_reduced, throughHadamard_spider]
    rfl
  · have sum : turn (a + b) = turn a * turn b := by
      rw [turn, turn, turn, ← exp_add]
      push_cast
      ring_nf
    simp only [Fintype.sum_bool, zTensor_eq, sum, spider, forall_mem_append, forall_mem_cons]
    grind

end CircuitWorks.ZX
