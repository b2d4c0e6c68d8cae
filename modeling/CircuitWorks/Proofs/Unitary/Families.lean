import CircuitWorks.Qasm.Export
import CircuitWorks.Unitary.Circuit
import Mathlib

/-!
Gates over the complex numbers: the `u3` that is written for gates of three Euler angles, and families
of gates that depend on an angle.
-/

namespace CircuitWorks.Unitary

open HalfAngle CircuitWorks.Dense ImaginaryUnit

noncomputable instance imaginaryUnitComplex : ImaginaryUnit ℂ := ⟨Complex.I⟩

noncomputable instance halfAngleReal : HalfAngle ℝ ℂ where
  cos a := Complex.cos (Real.pi / 2 * a)
  sin a := Complex.sin (Real.pi / 2 * a)
  phase a := Complex.exp (Complex.I * (Real.pi / 2 * a))
  half := 1 / 2

variable (a b c : ℝ)

lemma phase_add : phase (a + b) = phase a * phase b := by
  simp only [phase, ← Complex.exp_add]
  congr 1
  push_cast
  ring

lemma phase_mul_neg : phase a * phase (-a) = 1 := by
  rw [← phase_add]
  simp [phase]

lemma norm_phase : ‖phase a‖ = 1 := by
  have real : Complex.I * (Real.pi / 2 * (a : ℂ)) = ((Real.pi / 2 * a : ℝ) : ℂ) * Complex.I := by
    push_cast
    ring
  simp only [phase, real, Complex.norm_exp_ofReal_mul_I]

lemma phase_half : phase (1 / 2 : ℝ) * phase (1 / 2 : ℝ) = Complex.I := by
  have quarter : Complex.I * (Real.pi / 2 * ((1 / 2 + 1 / 2 : ℝ) : ℂ)) = Real.pi / 2 * Complex.I := by
    push_cast
    ring
  rw [← phase_add]
  simp only [phase, quarter, Complex.exp_pi_div_two_mul_I]

lemma tk1_entries : tk1 a b c = [[phase (-a) * cos b * phase (-c), -(phase (-a) * (Complex.I * sin b) * phase c)],
    [-(phase a * (Complex.I * sin b) * phase (-c)), phase a * cos b * phase c]] := by
  simp [tk1, rz, rx, mul, transpose, column, columnCount, dot, sum,
    List.range_succ, i]

/-- With half a half turn less before and more after, the gate differs by a phase alone. -/
lemma tk1_eq_scale : tk1 a b c = (u3 b (a - 1 / 2) (c + 1 / 2)).scale (phase (-a) * phase (-c)) := by
  have first := phase_mul_neg a
  have last := phase_mul_neg c
  have half := phase_mul_neg (1 / 2)
  have turn := phase_half
  have back : phase (-(1 / 2) : ℝ) * phase (-(1 / 2) : ℝ) = -Complex.I := by
    have square : Complex.I * Complex.I = -1 := Complex.I_mul_I
    grind
  simp only [tk1_entries, u3, scale, sub_eq_add_neg, phase_add, List.map_cons, List.map_nil, List.cons.injEq, and_true]
  refine ⟨⟨by ring, ?_⟩, ?_, ?_⟩ <;> grind

/-- The gate that is written for one of three Euler angles has its matrix, up to a phase of
modulus 1. -/
theorem tk1_written (a b c : ℝ) :
    (∀ x y z : Amount, Qasm.writtenForm (.gate .tk1 [x, y, z]) =
      (.u3, Qasm.eulerAngles (Amount.ofFloat 0.5) x y z)) ∧
    ∃ (w : ℂ) (m : Dense ℂ), ‖w‖ = 1 ∧
      (family? .u3).map (· (Qasm.eulerAngles (1 / 2) a b c)) = some (.ok m) ∧
      (family? .tk1).map (· [a, b, c]) = some (.ok (m.scale w)) := by
  refine ⟨fun x y z => rfl, phase (-a) * phase (-c), u3 b (a - 1 / 2) (c + 1 / 2), ?_, rfl, ?_⟩
  · rw [norm_mul, norm_phase, norm_phase, one_mul]
  · rw [← tk1_eq_scale]
    rfl

lemma cos_add : cos (a + b) = cos a * cos b - sin a * sin b := by
  simp only [cos, sin, ← Complex.cos_add]
  congr 1
  push_cast
  ring

lemma sin_add : sin (a + b) = sin a * cos b + cos a * sin b := by
  simp only [cos, sin, ← Complex.sin_add]
  congr 1
  push_cast
  ring

@[simp] lemma cos_neg : cos (-a) = cos a := by simp [cos]
@[simp] lemma sin_neg : sin (-a) = -sin a := by simp [sin]
@[simp] lemma cos_zero : cos (0 : ℝ) = 1 := by simp [cos]
@[simp] lemma sin_zero : sin (0 : ℝ) = 0 := by simp [sin]
@[simp] lemma phase_zero : phase (0 : ℝ) = 1 := by simp [phase]

@[simp] lemma conj_cos : starRingEnd ℂ (cos a) = cos a := by
  have real : cos a = ((Real.cos (Real.pi / 2 * a) : ℝ) : ℂ) := by simp [cos]
  rw [real, Complex.conj_ofReal]

@[simp] lemma conj_sin : starRingEnd ℂ (sin a) = sin a := by
  have real : sin a = ((Real.sin (Real.pi / 2 * a) : ℝ) : ℂ) := by simp [sin]
  rw [real, Complex.conj_ofReal]

@[simp] lemma conj_phase : starRingEnd ℂ (phase a) = phase (-a) := by
  have angle : starRingEnd ℂ (Complex.I * (Real.pi / 2 * a)) = Complex.I * (Real.pi / 2 * (-a : ℝ)) := by
    have two : starRingEnd ℂ 2 = 2 := Complex.conj_ofNat 2
    simp [two]
  simp only [phase, ← Complex.exp_conj, angle]

def adjoint (m : Dense ℂ) : Dense ℂ := m.transpose.map (List.map (starRingEnd ℂ))

structure IsUnitary (m : Dense ℂ) : Prop where
  right : m.mul (adjoint m) = identity m.length
  left : (adjoint m).mul m = identity m.length

/-- A family of matrices of `n` rows that is a one-parameter group of unitary matrices. -/
structure IsGroup (n : Nat) (f : ℝ → Dense ℂ) : Prop where
  rows : ∀ t, (f t).length = n
  add : ∀ s t, (f s).mul (f t) = f (s + t)
  neg : ∀ t, adjoint (f t) = f (-t)
  zero : f 0 = identity n

lemma IsGroup.isUnitary (group : IsGroup n f) (t : ℝ) : IsUnitary (f t) := by
  constructor
  · rw [group.neg, group.add, add_neg_cancel, group.zero, group.rows]
  · rw [group.neg, group.add, neg_add_cancel, group.zero, group.rows]

@[simp] lemma transpose_two (a b c d : ℂ) : transpose [[a, b], [c, d]] = [[a, c], [b, d]] := by
  simp [transpose, column, columnCount, List.range_succ]

@[simp] lemma transpose_four (a b c d e f g h i j k l m n o p : ℂ) :
    transpose [[a, b, c, d], [e, f, g, h], [i, j, k, l], [m, n, o, p]] =
    [[a, e, i, m], [b, f, j, n], [c, g, k, o], [d, h, l, p]] := by
  simp [transpose, column, columnCount, List.range_succ]

lemma rx_group : IsGroup 2 rx where
  rows _ := rfl
  add s t := by
    simp [rx, cos_add, sin_add, mul, dot, sum, i]
    grind [Complex.I_mul_I]
  neg t := by simp [rx, adjoint, i]
  zero := by simp [rx, identity, List.range_succ]

lemma ry_group : IsGroup 2 ry where
  rows _ := rfl
  add s t := by
    simp [ry, cos_add, sin_add, mul, dot, sum]
    grind
  neg t := by simp [ry, adjoint]
  zero := by simp [ry, identity, List.range_succ]

lemma rz_group : IsGroup 2 rz where
  rows _ := rfl
  add s t := by simp [rz, phase_add, mul, dot, sum, mul_comm]
  neg t := by simp [rz, adjoint]
  zero := by simp [rz, identity, List.range_succ]

lemma u1_group : IsGroup 2 u1 where
  rows _ := rfl
  add s t := by
    simp [u1, u3, phase_add, mul, dot, sum]
    ring
  neg t := by simp [u1, u3, adjoint, phase_add]
  zero := by simp [u1, u3, identity, List.range_succ]

lemma iswap_group : IsGroup 4 iswap where
  rows _ := rfl
  add s t := by
    simp [iswap, cos_add, sin_add, mul, dot, sum, i]
    grind [Complex.I_mul_I]
  neg t := by simp [iswap, adjoint, i]
  zero := by simp [iswap, identity, List.range_succ]

lemma xxPhase_group : IsGroup 4 xxPhase where
  rows _ := rfl
  add s t := by
    simp [xxPhase, cos_add, sin_add, mul, dot, sum, i]
    grind [Complex.I_mul_I]
  neg t := by simp [xxPhase, adjoint, i]
  zero := by simp [xxPhase, identity, List.range_succ]

lemma yyPhase_group : IsGroup 4 yyPhase where
  rows _ := rfl
  add s t := by
    simp [yyPhase, cos_add, sin_add, mul, dot, sum, i]
    grind [Complex.I_mul_I]
  neg t := by simp [yyPhase, adjoint, i]
  zero := by simp [yyPhase, identity, List.range_succ]

lemma zzPhase_group : IsGroup 4 zzPhase where
  rows _ := rfl
  add s t := by simp [zzPhase, phase_add, mul, dot, sum, mul_comm]
  neg t := by simp [zzPhase, adjoint]
  zero := by simp [zzPhase, identity, List.range_succ]

lemma eSwap_group : IsGroup 4 eSwap where
  rows _ := rfl
  add s t := by
    simp [eSwap, cos_add, sin_add, phase_add, mul, dot, sum, i]
    grind [Complex.I_mul_I]
  neg t := by simp [eSwap, adjoint, i]
  zero := by simp [eSwap, identity, List.range_succ]

lemma controlled_two (a b c d : ℂ) :
    controlled [[a, b], [c, d]] = [[1, 0, 0, 0], [0, 1, 0, 0], [0, 0, a, b], [0, 0, c, d]] := by
  simp [controlled, blocks, identity, columnCount, List.range_succ]

lemma mul_controlled (a b c d e f g h : ℂ) : (controlled [[a, b], [c, d]]).mul (controlled [[e, f], [g, h]]) =
    controlled (mul [[a, b], [c, d]] [[e, f], [g, h]]) := by
  simp [controlled_two, mul, dot, sum]

lemma adjoint_controlled (a b c d : ℂ) :
    adjoint (controlled [[a, b], [c, d]]) = controlled (adjoint [[a, b], [c, d]]) := by
  simp [controlled_two, adjoint]

lemma controlled_identity : controlled (identity 2) = (identity 4 : Dense ℂ) := by
  simp [controlled_two, identity, List.range_succ]

def IsTwo (m : Dense ℂ) : Prop := ∃ a b c d, m = [[a, b], [c, d]]

lemma IsGroup.controlled (group : IsGroup 2 f) (two : ∀ t, IsTwo (f t)) : IsGroup 4 fun t => controlled (f t) where
  rows t := by
    obtain ⟨a, b, c, d, same⟩ := two t
    rw [same]
    rfl
  add s t := by
    obtain ⟨a, b, c, d, first⟩ := two s
    obtain ⟨e, f, g, h, second⟩ := two t
    rw [← group.add, first, second, mul_controlled]
  neg t := by
    obtain ⟨a, b, c, d, same⟩ := two t
    rw [← group.neg, same, adjoint_controlled]
  zero := by rw [group.zero, controlled_identity]

lemma IsUnitary.controlled (unitary : IsUnitary m) (two : IsTwo m) : IsUnitary (controlled m) := by
  obtain ⟨a, b, c, d, rfl⟩ := two
  constructor
  · rw [adjoint_controlled, adjoint, transpose_two]
    refine (mul_controlled ..).trans ((congrArg Unitary.controlled ?_).trans controlled_identity)
    exact unitary.right
  · rw [adjoint_controlled, adjoint, transpose_two]
    refine (mul_controlled ..).trans ((congrArg Unitary.controlled ?_).trans controlled_identity)
    exact unitary.left

/-- A matrix of three qubits that flips two of them or none. -/
def flipsPairs (u v : ℂ) : Dense ℂ :=
  (List.range 8).map fun r => (List.range 8).map fun k =>
    if r = k then u else if r ^^^ k ∈ [3, 5, 6] then v else 0

lemma xxPhase3_eq : xxPhase3 a = flipsPairs (cos a ^ 3 + (-(Complex.I * sin a)) ^ 3)
    (cos a ^ 2 * (-(Complex.I * sin a)) + cos a * (-(Complex.I * sin a)) ^ 2) := by
  simp [xxPhase3, xxPhase, spread, flipsPairs, kron, identity, mul, transpose, column,
    columnCount, dot, sum, List.range_succ, i]
  and_intros <;> ring

lemma mul_flipsPairs (u v x y : ℂ) :
    (flipsPairs u v).mul (flipsPairs x y) = flipsPairs (u * x + 3 * (v * y)) (u * y + v * x + 2 * (v * y)) := by
  simp [flipsPairs, mul, transpose, column, columnCount, dot, sum,
    List.range_succ]
  and_intros <;> ring

lemma xxPhase3_group : IsGroup 8 xxPhase3 where
  rows _ := rfl
  add s t := by
    have cosine : cos (s + t) = cos s * cos t + -(Complex.I * sin s) * -(Complex.I * sin t) := by
      rw [cos_add]
      linear_combination -(sin s * sin t) * Complex.I_mul_I
    have sine : -(Complex.I * sin (s + t)) = -(Complex.I * sin s) * cos t + cos s * -(Complex.I * sin t) := by
      rw [sin_add]
      ring
    rw [xxPhase3_eq, xxPhase3_eq, xxPhase3_eq, mul_flipsPairs, cosine, sine]
    congr 1 <;> ring
  neg t := by
    simp [xxPhase3_eq, flipsPairs, adjoint, transpose, column, columnCount, List.range_succ]
  zero := by simp [xxPhase3_eq, flipsPairs, identity, List.range_succ]

lemma isTwo (a b c d : ℂ) : IsTwo [[a, b], [c, d]] := ⟨a, b, c, d, rfl⟩

lemma cos_mul_cos : cos a * cos a = 1 - sin a * sin a := by
  have unit := cos_add a (-a)
  rw [add_neg_cancel, cos_zero, cos_neg, sin_neg] at unit
  linear_combination -unit

lemma u3_unitary : IsUnitary (u3 a b c) := by
  have first := phase_mul_neg b
  have last := phase_mul_neg c
  have circle := cos_mul_cos a
  constructor <;>
  · simp [u3, adjoint, mul, dot, sum, identity, List.range_succ, phase_add]
    grind

lemma tk1_unitary : IsUnitary (tk1 a b c) := by
  have first := phase_mul_neg a
  have last := phase_mul_neg c
  have circle := cos_mul_cos b
  have square := Complex.I_mul_I
  constructor <;>
  · simp [tk1_entries, adjoint, mul, dot, sum, identity, List.range_succ]
    grind

lemma phasedISwap_unitary : IsUnitary (phasedISwap a b) := by
  have turn := phase_mul_neg a
  have circle := cos_mul_cos b
  have square := Complex.I_mul_I
  constructor <;>
  · simp [phasedISwap, adjoint, mul, dot, sum, identity, List.range_succ, phase_add, i]
    grind

lemma fSim_unitary : IsUnitary (fSim a b) := by
  have turn := phase_mul_neg b
  have circle := cos_mul_cos (a + a)
  have square := Complex.I_mul_I
  constructor <;>
  · simp [fSim, adjoint, mul, dot, sum, identity, List.range_succ, phase_add, i]
    grind

lemma cos_one : cos (1 : ℝ) = 0 := by simp [cos]

lemma sin_one : sin (1 : ℝ) = 1 := by simp [sin]

lemma sin_half : sin (1 / 2 : ℝ) = cos (1 / 2 : ℝ) := by
  have whole := sin_add (1 / 2) (1 / 2)
  have circle := cos_mul_cos (1 / 2)
  rw [add_halves, sin_one] at whole
  have square : (sin (1 / 2 : ℝ) - cos (1 / 2 : ℝ)) ^ 2 = 0 := by linear_combination circle + whole
  exact sub_eq_zero.mp (pow_eq_zero_iff two_ne_zero |>.mp square)

lemma cos_half : cos (1 / 2 : ℝ) * cos (1 / 2 : ℝ) + cos (1 / 2 : ℝ) * cos (1 / 2 : ℝ) = 1 := by
  have circle := cos_mul_cos (1 / 2)
  rw [sin_half] at circle
  linear_combination circle

lemma phase_far : phase (5 / 4 : ℝ) * phase (5 / 4 : ℝ) = -phase (1 / 2 : ℝ) := by
  have turn : phase (1 / 2 : ℝ) * phase (1 / 2 : ℝ) = Complex.I := phase_half
  rw [← phase_add, show (5 / 4 + 5 / 4 : ℝ) = 1 / 2 + 1 / 2 + (1 / 2 + 1 / 2) + 1 / 2 by norm_num]
  simp only [phase_add, turn, Complex.I_mul_I, neg_one_mul]

lemma fixed?_s : fixed? ℝ .s = some (u1 (1 / 2 : ℝ)) := by
  simp [fixed?, u1, u3, ← phase_half, phase_add, i]

lemma fixed?_t : fixed? ℝ .t = some (u1 (1 / 4 : ℝ)) := by
  have half : (1 / 4 + 1 / 4 : ℝ) = 1 / 2 := by norm_num
  simp [fixed?, u1, u3, HalfAngle.half, ← half, phase_add]

lemma u1_cancel : (u1 (-a)).mul (u1 a) = identity 2 := by
  rw [u1_group.add, neg_add_cancel, u1_group.zero]

lemma fixed?_self {type : OpType} (kind : type ∈ [.x, .y, .z, .h]) :
    ∃ m, fixed? ℝ type = some m ∧ IsTwo m ∧ m.mul m = identity 2 := by
  simp only [List.mem_cons, List.not_mem_nil, or_false] at kind
  rcases kind with rfl | rfl | rfl | rfl <;>
  · refine ⟨_, rfl, isTwo .., ?_⟩
    simp [mul, dot, sum, identity, List.range_succ, i,
      half, -one_div]
    try exact cos_half

/-- Parameters in the right number have a matrix, and all matrices are unitary. -/
def IsSound (count : Nat) (f : List ℝ → Except ParameterError (Dense ℂ)) : Prop :=
  (∀ params, params.length = count → ∃ m, f params = .ok m) ∧ ∀ params m, f params = .ok m → IsUnitary m

lemma sound_ofFirst (unitary : ∀ t, IsUnitary (f t)) : IsSound 1 (ofFirst f) := by
  constructor <;> rintro (_ | ⟨a, _⟩) <;> simp_all [ofFirst]

lemma sound_ofOne (unitary : ∀ t, IsUnitary (f t)) : IsSound 1 (ofOne f) := by
  constructor <;> rintro (_ | ⟨a, _ | ⟨b, _⟩⟩) <;> simp_all [ofOne]

lemma sound_ofTwo (unitary : ∀ s t, IsUnitary (f s t)) : IsSound 2 (ofTwo f) := by
  constructor <;> rintro (_ | ⟨a, _ | ⟨b, _ | ⟨c, _⟩⟩⟩) <;> simp_all [ofTwo]

lemma sound_ofThree (unitary : ∀ s t u, IsUnitary (f s t u)) : IsSound 3 (ofThree f) := by
  constructor <;> rintro (_ | ⟨a, _ | ⟨b, _ | ⟨c, _ | ⟨d, _⟩⟩⟩⟩) <;> simp_all [ofThree]

lemma sound_ofFirstThree (unitary : ∀ s t u, IsUnitary (f s t u)) :
    IsSound 3 (ofFirstThree f) := by
  constructor <;> rintro (_ | ⟨a, _ | ⟨b, _ | ⟨c, _⟩⟩⟩) <;> simp_all [ofFirstThree]

/-- Every registered gate has unitary matrices, and those of one angle that are listed are one-parameter groups. -/
theorem registered_unitary :
    (∀ type ∈ registered, ∃ f, family? type = some f ∧ IsSound type.paramCount f) ∧
    ∀ type ∈ [OpType.rx, .ry, .rz, .crx, .cry, .crz, .cu1, .iswap, .xxPhase, .yyPhase, .zzPhase, .xxPhase3, .eswap],
      ∃ (f : List ℝ → Except ParameterError (Dense ℂ)) (m : ℝ → Dense ℂ), family? type = some f ∧
        (∀ t, f [t] = .ok (m t)) ∧ ∀ s t, (m s).mul (m t) = m (s + t) := by
  have rx := rx_group
  have ry := ry_group
  have rz := rz_group
  have crx := rx_group.controlled fun t => isTwo ..
  have cry := ry_group.controlled fun t => isTwo ..
  have crz := rz_group.controlled fun t => isTwo ..
  have cu1 := u1_group.controlled fun t => isTwo ..
  constructor
  · simp only [registered, List.forall_mem_cons, List.not_mem_nil, false_imp_iff, implies_true, and_true]
    exact ⟨⟨_, rfl, sound_ofFirst rx.isUnitary⟩, ⟨_, rfl, sound_ofFirst ry.isUnitary⟩,
      ⟨_, rfl, sound_ofFirst rz.isUnitary⟩, ⟨_, rfl, sound_ofFirstThree tk1_unitary⟩,
      ⟨_, rfl, sound_ofOne u1_group.isUnitary⟩, ⟨_, rfl, sound_ofTwo fun b c => u3_unitary _ b c⟩,
      ⟨_, rfl, sound_ofThree u3_unitary⟩, ⟨_, rfl, sound_ofFirst crx.isUnitary⟩,
      ⟨_, rfl, sound_ofFirst cry.isUnitary⟩, ⟨_, rfl, sound_ofFirst crz.isUnitary⟩,
      ⟨_, rfl, sound_ofOne cu1.isUnitary⟩,
      ⟨_, rfl, sound_ofThree fun a b c => (u3_unitary a b c).controlled (isTwo ..)⟩,
      ⟨_, rfl, sound_ofFirst iswap_group.isUnitary⟩, ⟨_, rfl, sound_ofTwo phasedISwap_unitary⟩,
      ⟨_, rfl, sound_ofFirst xxPhase_group.isUnitary⟩, ⟨_, rfl, sound_ofFirst yyPhase_group.isUnitary⟩,
      ⟨_, rfl, sound_ofFirst zzPhase_group.isUnitary⟩, ⟨_, rfl, sound_ofFirst xxPhase3_group.isUnitary⟩,
      ⟨_, rfl, sound_ofTwo fun a b => tk1_unitary b a (-b)⟩, ⟨_, rfl, sound_ofFirst eSwap_group.isUnitary⟩,
      ⟨_, rfl, sound_ofTwo fSim_unitary⟩⟩
  · simp only [List.forall_mem_cons, List.not_mem_nil, false_imp_iff, implies_true, and_true]
    exact ⟨⟨_, _, rfl, fun _ => rfl, rx.add⟩, ⟨_, _, rfl, fun _ => rfl, ry.add⟩,
      ⟨_, _, rfl, fun _ => rfl, rz.add⟩, ⟨_, _, rfl, fun _ => rfl, crx.add⟩,
      ⟨_, _, rfl, fun _ => rfl, cry.add⟩, ⟨_, _, rfl, fun _ => rfl, crz.add⟩,
      ⟨_, _, rfl, fun _ => rfl, cu1.add⟩, ⟨_, _, rfl, fun _ => rfl, iswap_group.add⟩,
      ⟨_, _, rfl, fun _ => rfl, xxPhase_group.add⟩, ⟨_, _, rfl, fun _ => rfl, yyPhase_group.add⟩,
      ⟨_, _, rfl, fun _ => rfl, zzPhase_group.add⟩, ⟨_, _, rfl, fun _ => rfl, xxPhase3_group.add⟩,
      ⟨_, _, rfl, fun _ => rfl, eSwap_group.add⟩⟩

end CircuitWorks.Unitary
