import CircuitWorks.Proofs.Quipper.Placement
import CircuitWorks.Proofs.Unitary.Families

/-!
Gates that are followed by their inverses.
-/

namespace CircuitWorks.Quipper

open List CircuitWorks.Unitary Function StepOf HalfAngle Except CircuitWorks.Dense

abbrev Amplitudes := (Nat → Bool) → ℂ

/-- A matrix acts on a target if all controls are 1. -/
def act (m : Dense ℂ) (controls : List Nat) (t : Nat) (ψ : Amplitudes) : Amplitudes := fun b =>
  if ∀ c ∈ controls, b c = true then
    (m.getD (b t).toNat []).getD 0 0 * ψ (update b t false) +
      (m.getD (b t).toNat []).getD 1 0 * ψ (update b t true)
  else ψ b

def exchangeUnder (controls : List Nat) (s t : Nat) (ψ : Amplitudes) : Amplitudes := fun b =>
  if ∀ c ∈ controls, b c = true then ψ (b ∘ Equiv.swap s t) else ψ b

/-- The matrix that a gate applies to its last qubit, the others being controls. -/
noncomputable def targetMatrix : OpType → List ℝ → Option (Dense ℂ)
  | .x, _ | .cx, _ | .ccx, _ | .cnx, _ => fixed? ℝ .x
  | .y, _ | .cy, _ => fixed? ℝ .y
  | .z, _ | .cz, _ => fixed? ℝ .z
  | .h, _ | .ch, _ => fixed? ℝ .h
  | .s, _ => fixed? ℝ .s
  | .t, _ => fixed? ℝ .t
  | .sdg, _ => (fixed? ℝ .s).map adjoint
  | .tdg, _ => (fixed? ℝ .t).map adjoint
  | .v, _ => some (rx (half : ℝ))
  | .vdg, _ => some (adjoint (rx (half : ℝ)))
  | .rz, a :: _ => some (rz a)
  | .ry, a :: _ => some (ry a)
  | .cu1, a :: _ => some (u1 a)
  | _, _ => none

noncomputable def StepOf.run (s : StepOf ℝ) (ψ : Amplitudes) : Amplitudes :=
  if s.type = .swap ∨ s.type = .cswap then
    match s.args.reverse with
    | t :: r :: controls => exchangeUnder controls r t ψ
    | _ => ψ
  else
    match targetMatrix s.type s.params, s.args.reverse with
    | some m, t :: controls => act m controls t ψ
    | _, _ => ψ

noncomputable def runAll (ss : List (StepOf ℝ)) (ψ : Amplitudes) : Amplitudes := ss.foldl (fun ψ s => s.run ψ) ψ

lemma runAll_append (first second : List (StepOf ℝ)) (ψ : Amplitudes) :
    runAll (first ++ second) ψ = runAll second (runAll first ψ) := foldl_append

/-- The steps do nothing but multiply the state by a phase. -/
def IsPhase (ss : List (StepOf ℝ)) : Prop := ∃ z : ℂ, ‖z‖ = 1 ∧ ∀ ψ, runAll ss ψ = fun b => z * ψ b

lemma isPhase_one {ss : List (StepOf ℝ)} (same : ∀ ψ, runAll ss ψ = ψ) : IsPhase ss :=
  ⟨1, norm_one, fun ψ => by simp [same]⟩

variable {type : OpType} {controls targets : List Nat}

section

variable {m : Dense ℂ} {controls : List Nat} {t : Nat}

lemma act_act (first : IsTwo m) (second : IsTwo n) (apart : t ∉ controls) (ψ : Amplitudes) :
    act n controls t (act m controls t ψ) = act (n.mul m) controls t ψ := by
  obtain ⟨a, b, c, d, rfl⟩ := first
  obtain ⟨e, f, g, h, rfl⟩ := second
  funext x
  have kept : ∀ k, (∀ i ∈ controls, update x t k i = true) ↔ ∀ i ∈ controls, x i = true := fun k =>
    forall₂_congr fun i mem => by rw [update_of_ne (ne_of_mem_of_not_mem mem apart)]
  by_cases holds : ∀ i ∈ controls, x i = true
  · simp only [act, kept, if_pos holds, update_self, update_idem]
    cases x t <;> simp [Dense.mul, Dense.dot, Dense.sum] <;> ring
  · simp only [act, if_neg holds]

lemma act_identity (ψ : Amplitudes) : act (identity 2) controls t ψ = ψ := by
  funext x
  have own : update x t (x t) = x := update_eq_self t x
  rw [act]
  split
  · cases value : x t <;> rw [value] at own <;> simp [identity, List.range_succ, own]
  · rfl

lemma isPhase_pair {other : OpType} {params others : List ℝ} (kind : type ≠ .swap ∧ type ≠ .cswap)
    (kind' : other ≠ .swap ∧ other ≠ .cswap) (made : targetMatrix type params = some m)
    (made' : targetMatrix other others = some n) (first : IsTwo m) (second : IsTwo n)
    (inverse : n.mul m = identity 2) (distinct : (controls ++ [t]).Nodup) :
    IsPhase [⟨type, params, controls ++ [t]⟩, ⟨other, others, controls ++ [t]⟩] := by
  have apart : t ∉ controls.reverse := by
    rw [mem_reverse]
    exact fun mem => (nodup_append.mp distinct).2.2 t mem t (mem_singleton.mpr rfl) rfl
  refine isPhase_one fun ψ => ?_
  simp only [runAll, foldl_cons, foldl_nil, run, kind, kind', or_self, if_false, made, made', reverse_append,
    reverse_singleton, singleton_append]
  rw [act_act first second apart, inverse, act_identity]

end

def toggle (targets : List Nat) (b : Nat → Bool) : Nat → Bool := fun i => b i ^^ decide (targets.count i % 2 = 1)

lemma toggle_toggle (targets : List Nat) (b : Nat → Bool) : toggle targets (toggle targets b) = b := by
  funext i
  simp [toggle]

lemma toggle_cons (t : Nat) (targets : List Nat) (b : Nat → Bool) :
    toggle (t :: targets) b = update (toggle targets b) t (!toggle targets b t) := by
  funext i
  by_cases same : i = t
  · subst same
    rcases Nat.mod_two_eq_zero_or_one (targets.count i) with even | odd
    · simp [toggle, Nat.add_mod, even]
    · simp [toggle, Nat.add_mod, odd]
  · simp [toggle, same, count_cons_of_ne (Ne.symm same)]

lemma toggle_kept (apart : ∀ t ∈ targets, t ∉ controls) (b : Nat → Bool) :
    (∀ c ∈ controls, toggle targets b c = true) ↔ ∀ c ∈ controls, b c = true := by
  refine forall₂_congr fun c mem => ?_
  have absent : targets.count c = 0 := count_eq_zero.mpr fun inside => apart c inside mem
  simp [toggle, absent]

lemma run_flip (controls : List Nat) (t : Nat) (ψ : Amplitudes) : (flip controls t).run ψ = fun b =>
    if ∀ c ∈ controls, b c = true then ψ (update b t !b t) else ψ b := by
  have shape : (flip controls t : StepOf ℝ).run ψ = act [[0, 1], [1, 0]] controls.reverse t ψ := by
    rcases controls with _ | ⟨c, _ | ⟨d, _ | ⟨e, rest⟩⟩⟩ <;>
      simp [flip, run, targetMatrix, fixed?]
  rw [shape]
  funext b
  simp only [act, mem_reverse]
  cases b t <;> simp

lemma runAll_flips (apart : ∀ t ∈ targets, t ∉ controls) (ψ : Amplitudes) :
    runAll (targets.map (flip controls)) ψ = fun b =>
    if ∀ c ∈ controls, b c = true then ψ (toggle targets b) else ψ b := by
  induction targets generalizing ψ with
  | nil =>
    have same : toggle [] = id := funext fun b => funext fun i => by simp [toggle]
    simp [runAll, same]
  | cons t targets ih =>
    obtain ⟨own, others⟩ := forall_mem_cons.mp apart
    change runAll (targets.map (flip controls)) ((flip controls t).run ψ) = _
    rw [ih others, run_flip]
    funext b
    split
    case isTrue holds =>
      rw [toggle_cons]
      exact if_pos ((toggle_kept others b).mpr holds)
    case isFalse fails => exact if_neg fails

lemma isPhase_flips (apart : ∀ t ∈ targets, t ∉ controls) :
    IsPhase (targets.map (flip controls) ++ targets.map (flip controls)) := by
  refine isPhase_one fun ψ => ?_
  rw [runAll_append, runAll_flips apart, runAll_flips apart]
  funext b
  split
  case isTrue holds =>
    refine (if_pos ((toggle_kept apart b).mpr holds)).trans ?_
    rw [toggle_toggle]
  case isFalse fails => exact if_neg fails

lemma isPhase_between (placed : List (Nat × Bool)) (code code' : List (StepOf ℝ)) :
    IsPhase ((controlFlips placed ++ code ++ controlFlips placed) ++
    (controlFlips placed ++ code' ++ controlFlips placed)) ↔ IsPhase (code ++ code') := by
  have flips : ∀ ψ, runAll (controlFlips placed) ψ = ψ ∘ toggle ((placed.filter (·.2)).map (·.1)) := by
    intro ψ
    have same : (controlFlips placed : List (StepOf ℝ)) = ((placed.filter (·.2)).map (·.1)).map (flip []) := by
      rw [controlFlips, map_map]
      rfl
    rw [same, runAll_flips (by simp)]
    funext b
    simp
  have back : ∀ ψ : Amplitudes, (ψ ∘ toggle ((placed.filter (·.2)).map (·.1))) ∘
      toggle ((placed.filter (·.2)).map (·.1)) = ψ := fun ψ => funext fun b => congrArg ψ (toggle_toggle _ b)
  refine exists_congr fun z => and_congr_right fun _ => ?_
  simp only [runAll_append, flips, back]
  constructor
  · intro whole ψ
    have inner := whole (ψ ∘ toggle ((placed.filter (·.2)).map (·.1)))
    rw [back] at inner
    rw [← back (runAll code' _), inner]
    exact back fun b => z * ψ b
  · intro middle ψ
    rw [middle]
    exact back fun b => z * ψ b

lemma isPhase_exchange (kind : type = .swap ∨ type = .cswap) (distinct : (controls ++ [r, t]).Nodup) :
    IsPhase [⟨type, [], controls ++ [r, t]⟩, ⟨type, [], controls ++ [r, t]⟩] := by
  have apart : ∀ c ∈ controls, c ≠ r ∧ c ≠ t := fun c mem =>
    ⟨(nodup_append.mp distinct).2.2 c mem r (by simp), (nodup_append.mp distinct).2.2 c mem t (by simp)⟩
  have kept : ∀ b : Nat → Bool, (∀ c ∈ controls, (b ∘ Equiv.swap r t) c = true) ↔ ∀ c ∈ controls, b c = true :=
    fun b => forall₂_congr fun c mem => by
      rw [comp, Equiv.swap_apply_of_ne_of_ne (apart c mem).1 (apart c mem).2]
  refine isPhase_one fun ψ => ?_
  simp only [runAll, foldl_cons, foldl_nil, run, if_pos kind, reverse_append, reverse_cons, reverse_nil,
    nil_append, cons_append]
  funext b
  simp only [exchangeUnder, mem_reverse, kept, comp_assoc]
  have twice : (Equiv.swap r t : Nat → Nat) ∘ Equiv.swap r t = id := funext fun i => by simp
  split
  · rw [twice]
    rfl
  · rfl

section

variable {a b : Nat} (apart : a ≠ b) (ψ : Amplitudes) (x : Nat → Bool)

/-- A basis state with given digits at two places. -/
def bitsAt (a b : Nat) (x : Nat → Bool) (p q : Bool) : Nat → Bool :=
  update (update x a p) b q

@[simp] lemma bitsAt_second (p q : Bool) : bitsAt a b x p q b = q := update_self ..

@[simp] lemma update_second (p q k : Bool) : update (bitsAt a b x p q) b k = bitsAt a b x p k :=
  update_idem ..

include apart

lemma bitsAt_first (p q : Bool) : bitsAt a b x p q a = p := by simp [bitsAt, apart]

lemma update_first (p q k : Bool) : update (bitsAt a b x p q) a k = bitsAt a b x k q := by
  rw [bitsAt, update_comm apart, update_idem, bitsAt, update_comm apart]

lemma act_first (m : Dense ℂ) (p q : Bool) : act m [] a ψ (bitsAt a b x p q) =
    (m.getD p.toNat []).getD 0 0 * ψ (bitsAt a b x false q) +
    (m.getD p.toNat []).getD 1 0 * ψ (bitsAt a b x true q) := by
  simp [act, bitsAt_first apart x, update_first apart x]

omit apart in
lemma act_second (m : Dense ℂ) (p q : Bool) : act m [] b ψ (bitsAt a b x p q) =
    (m.getD q.toNat []).getD 0 0 * ψ (bitsAt a b x p false) +
    (m.getD q.toNat []).getD 1 0 * ψ (bitsAt a b x p true) := by
  simp [act]

lemma flip_second (p q : Bool) : act [[0, 1], [1, 0]] [a] b ψ (bitsAt a b x p q) = ψ (bitsAt a b x p (q ^^ p)) := by
  cases p <;> cases q <;> simp [act, bitsAt_first apart x]

lemma flip_first (p q : Bool) : act [[0, 1], [1, 0]] [b] a ψ (bitsAt a b x p q) = ψ (bitsAt a b x (p ^^ q) q) := by
  cases p <;> cases q <;> simp [act, bitsAt_first apart x, update_first apart x]

omit apart in
lemma runAll_diagonalSwap_eq : runAll (diagonalSwap a b) ψ =
    act (ry (1 : ℝ)) [] b (act (rz (5 / 4 : ℝ)) [] b (act (ry (1 : ℝ)) [] a (act (u1 (1 / 4 : ℝ)) [] a
    (act [[0, 1], [1, 0]] [b] a (act (ry (1 / 4 : ℝ)) [] b (act [[0, 1], [1, 0]] [a] b
    (act (ry (-(1 / 4) : ℝ)) [] b (act [[0, 1], [1, 0]] [b] a (act (ry (1 : ℝ)) [] b
    (act (u1 (1 / 4 : ℝ)) [] b (act (ry (1 : ℝ)) [] a (act (rz (5 / 4 : ℝ)) [] a ψ)))))))))))) := by
  have first : (1.25 : ℝ) = 5 / 4 := by norm_num
  have second : (0.25 : ℝ) = 1 / 4 := by norm_num
  have third : (1.0 : ℝ) = 1 := by norm_num
  have flipped : fixed? ℝ .x = some ([[0, 1], [1, 0]] : Dense ℂ) := rfl
  simp [runAll, diagonalSwap, run, targetMatrix, fixed?_t, flipped, first, second, third, -one_div]

lemma runAll_diagonalSwap (p q : Bool) : runAll (diagonalSwap a b) ψ (bitsAt a b x p q) =
    HalfAngle.phase (1 / 2 : ℝ) * if p = q then ψ (bitsAt a b x p q) else cos (1 / 2 : ℝ) *
    (ψ (bitsAt a b x false true) + bif p then -ψ (bitsAt a b x true false) else ψ (bitsAt a b x true false)) := by
  have circle := cos_mul_cos (1 / 4)
  have double := cos_add (1 / 4) (1 / 4)
  have double' := sin_add (1 / 4) (1 / 4)
  have unit := phase_mul_neg (5 / 4)
  have far := phase_far
  rw [show (1 / 4 + 1 / 4 : ℝ) = 1 / 2 by norm_num] at double double'
  rw [sin_half] at double'
  have quarter : HalfAngle.phase (1 / 4 + 1 / 4 : ℝ) = HalfAngle.phase (1 / 2 : ℝ) := by norm_num
  rw [runAll_diagonalSwap_eq]
  cases p <;> cases q <;>
    simp [act_first apart, act_second, flip_first apart, flip_second apart, ry, rz, u1, u3, cos_one, sin_one,
      quarter, -one_div] <;>
    grind

lemma isPhase_diagonalSwap : IsPhase (diagonalSwap a b ++ diagonalSwap a b) := by
  have square := cos_half
  refine ⟨HalfAngle.phase (1 / 2 : ℝ) * HalfAngle.phase (1 / 2 : ℝ), by rw [norm_mul, norm_phase, one_mul], fun ψ => funext fun x => ?_⟩
  have own : x = bitsAt a b x (x a) (x b) := by simp [bitsAt]
  rw [runAll_append, own]
  generalize x a = p
  generalize x b = q
  cases p <;> cases q <;> simp [runAll_diagonalSwap apart, -one_div] <;> grind

end

/-- The gate `S` on a control is not undone by another one. -/
lemma not_isPhase_controlled (apart : c ≠ t) :
    ¬ IsPhase ([⟨.s, [], [c]⟩, ⟨.cx, [], [c, t]⟩] ++ [⟨.s, [], [c]⟩, ⟨.cx, [], [c, t]⟩]) := by
  rintro ⟨z, -, acts⟩
  have twice : ∀ b, runAll ([⟨.s, [], [c]⟩, ⟨.cx, [], [c, t]⟩] ++ [⟨.s, [], [c]⟩, ⟨.cx, [], [c, t]⟩])
      (fun _ => 1) b = if b c then -1 else 1 := by
    intro b
    have turn : fixed? ℝ .s = some ([[1, 0], [0, Complex.I]] : Dense ℂ) := rfl
    have flipped : fixed? ℝ .x = some ([[0, 1], [1, 0]] : Dense ℂ) := rfl
    cases value : b c <;>
      cases other : b t <;> simp [runAll, run, targetMatrix, turn, flipped, act, value, other, apart, apart.symm]
  have zero := (twice fun _ => false).symm.trans (congrFun (acts _) _)
  have one := (twice fun _ => true).symm.trans (congrFun (acts _) _)
  rw [← zero] at one
  norm_num at one

section

variable {name : GateName} {controls wires : List Nat} {t : Nat} {first second : List (StepOf ℝ)}

lemma upToOne_eq_ok {plain controlled : OpType} (made : upToOne name controls wires plain controlled = .ok first) :
    first = [⟨if controls = [] then plain else controlled, [], controls ++ wires⟩] := by
  rcases controls with _ | ⟨c, _ | ⟨d, rest⟩⟩
  · exact (ok.inj made).symm
  · exact (ok.inj made).symm
  · cases made

lemma phaseGate_eq_ok {angle : ℝ} (made : phaseGate name controls wires type angle = .ok first) :
    first = [if controls = [] then ⟨type, [], controls ++ wires⟩ else ⟨.cu1, [angle], controls ++ wires⟩] := by
  rcases controls with _ | ⟨c, _ | ⟨d, rest⟩⟩
  · exact (ok.inj made).symm
  · exact (ok.inj made).symm
  · cases made

lemma isPhase_upToOne {plain controlled : OpType} (kind : plain ∈ [.y, .z, .h])
    (same : targetMatrix controlled [] = fixed? ℝ plain) (other : controlled ≠ .swap ∧ controlled ≠ .cswap)
    (made : upToOne name controls [t] plain controlled = .ok first)
    (made' : upToOne name controls [t] plain controlled = .ok second) (distinct : ∀ s ∈ first, s.args.Nodup) :
    IsPhase (first ++ second) := by
  obtain ⟨m, eq, two, square⟩ := fixed?_self (mem_cons_of_mem _ kind)
  have own : targetMatrix plain [] = some m ∧ plain ≠ .swap ∧ plain ≠ .cswap := by
    simp only [mem_cons, not_mem_nil, or_false] at kind
    rcases kind with rfl | rfl | rfl <;> exact ⟨eq, by decide, by decide⟩
  obtain rfl := upToOne_eq_ok made
  obtain rfl := upToOne_eq_ok made'
  have apart := distinct _ (mem_singleton_self _)
  split_ifs
  · exact isPhase_pair own.2 own.2 own.1 own.1 two two square apart
  · exact isPhase_pair other other (same.trans eq) (same.trans eq) two two square apart

lemma isPhase_phaseGate {inverse : OpType} (opposite : b = -a)
    (kind : type ≠ .swap ∧ type ≠ .cswap) (kind' : inverse ≠ .swap ∧ inverse ≠ .cswap)
    (own : targetMatrix type [] = some (u1 a)) (own' : targetMatrix inverse [] = some (u1 b))
    (made : phaseGate name controls [t] type a = .ok first)
    (made' : phaseGate name controls [t] inverse b = .ok second) (distinct : ∀ s ∈ first, s.args.Nodup) :
    IsPhase (first ++ second) := by
  subst opposite
  obtain rfl := phaseGate_eq_ok made
  obtain rfl := phaseGate_eq_ok made'
  have apart := distinct _ (mem_singleton_self _)
  split_ifs at apart ⊢
  · exact isPhase_pair kind kind' own own' (isTwo ..) (isTwo ..) (u1_cancel a) apart
  · exact isPhase_pair (by decide) (by decide) rfl rfl (isTwo ..) (isTwo ..) (u1_cancel a) apart

lemma isPhase_mirrored : IsPhase [⟨.sdg, [], [t]⟩, ⟨.h, [], [t]⟩, ⟨.h, [], [t]⟩, ⟨.s, [], [t]⟩] := by
  obtain ⟨m, eq, two, square⟩ := fixed?_self (show OpType.h ∈ [.x, .y, .z, .h] by simp)
  refine isPhase_one fun ψ => ?_
  have steps : runAll [⟨.sdg, [], [t]⟩, ⟨.h, [], [t]⟩, ⟨.h, [], [t]⟩, ⟨.s, [], [t]⟩] ψ =
      act (u1 (1 / 2 : ℝ)) [] t (act m [] t (act m [] t (act (u1 (-(1 / 2) : ℝ)) [] t ψ))) := by
    simp [runAll, run, targetMatrix, eq, fixed?_s, u1_group.neg]
  have cancel : (u1 (1 / 2 : ℝ)).mul (u1 (-(1 / 2) : ℝ)) = identity 2 := by
    rw [u1_group.add, add_neg_cancel, u1_group.zero]
  have outer : act (u1 (1 / 2 : ℝ)) [] t (act (u1 (-(1 / 2) : ℝ)) [] t ψ) = act (identity 2) [] t ψ := by
    rw [← cancel]
    exact act_act (isTwo ..) (isTwo ..) not_mem_nil ψ
  rw [steps, act_act two two not_mem_nil, square, act_identity, outer, act_identity]

/-- A gate and the gate with the inverse flag: what the second adds undoes the first, but for `iX` under a control. -/
lemma isPhase_steps (made : steps name false controls wires = .ok first)
    (made' : steps name true controls wires = .ok second) (allowed : name.allows wires.length = true)
    (distinct : ∀ s ∈ first, s.args.Nodup) : IsPhase (first ++ second) ↔ ¬ (name = .iX ∧ controls.length = 1) := by
  have single : name.allows wires.length = true → name ≠ .swap → name ≠ .w → name ≠ .multiNot → ∃ t, wires = [t] := by
    intro fits swap w multiNot
    refine length_eq_one_iff.mp ?_
    cases name <;> simp_all [GateName.allows]
  have half : (0.5 : ℝ) = 1 / 2 := by norm_num
  have quarter : (0.25 : ℝ) = 1 / 4 := by norm_num
  cases name with
  | not | multiNot =>
    obtain rfl := ok.inj made
    obtain rfl := ok.inj made'
    refine iff_of_true (isPhase_flips fun t target control => ?_) (by simp)
    have apart := distinct _ (mem_map_of_mem target)
    rw [flip_args] at apart
    exact (nodup_append.mp apart).2.2 t control t (mem_singleton.mpr rfl) rfl
  | iX =>
    obtain ⟨t, rfl⟩ := single allowed (by decide) (by decide) (by decide)
    rcases controls with _ | ⟨c, _ | ⟨d, rest⟩⟩
    · obtain rfl := ok.inj made
      obtain rfl := ok.inj made'
      have flips : IsPhase ([t].map (flip []) ++ [t].map (flip [])) := isPhase_flips (by simp)
      exact iff_of_true flips (by simp)
    · obtain rfl := ok.inj made
      obtain rfl := ok.inj made'
      have apart := distinct ⟨.cx, [], [c, t]⟩ (by simp)
      exact iff_of_false (not_isPhase_controlled (by simpa using apart)) (by simp)
    · cases made
  | h | y | z =>
    obtain ⟨t, rfl⟩ := single allowed (by decide) (by decide) (by decide)
    exact iff_of_true (isPhase_upToOne (by simp) rfl (by decide) made made' distinct) (by simp)
  | s =>
    obtain ⟨t, rfl⟩ := single allowed (by decide) (by decide) (by decide)
    refine iff_of_true (isPhase_phaseGate rfl (by decide) (by decide) ?_ ?_ made made' distinct) (by simp)
    · rw [half]
      exact fixed?_s
    · rw [half, targetMatrix, fixed?_s, Option.map_some, u1_group.neg]
  | t =>
    obtain ⟨t, rfl⟩ := single allowed (by decide) (by decide) (by decide)
    refine iff_of_true (isPhase_phaseGate rfl (by decide) (by decide) ?_ ?_ made made' distinct) (by simp)
    · rw [quarter]
      exact fixed?_t
    · rw [quarter, targetMatrix, fixed?_t, Option.map_some, u1_group.neg]
  | swap =>
    obtain ⟨a, b, rfl⟩ := length_eq_two.mp (by simpa [GateName.allows] using allowed)
    obtain rfl := upToOne_eq_ok made
    obtain rfl := upToOne_eq_ok made'
    have apart := distinct _ (mem_singleton_self _)
    refine iff_of_true (isPhase_exchange ?_ apart) (by simp)
    split_ifs <;> simp
  | e =>
    obtain ⟨t, rfl⟩ := single allowed (by decide) (by decide) (by decide)
    rcases controls with _ | ⟨c, rest⟩
    · obtain rfl := ok.inj made
      obtain rfl := ok.inj made'
      exact iff_of_true isPhase_mirrored (by simp)
    · cases made
  | omega =>
    rcases controls with _ | ⟨c, _ | ⟨d, rest⟩⟩
    · obtain rfl := ok.inj made
      obtain rfl := ok.inj made'
      exact iff_of_true (isPhase_one fun _ => rfl) (by simp)
    · cases made
    · cases made
  | v =>
    obtain ⟨t, rfl⟩ := single allowed (by decide) (by decide) (by decide)
    rcases controls with _ | ⟨c, rest⟩
    · obtain rfl := ok.inj made
      obtain rfl := ok.inj made'
      have cancel : (rx (-(1 / 2) : ℝ)).mul (rx (1 / 2 : ℝ)) = identity 2 := by
        rw [rx_group.add, neg_add_cancel, rx_group.zero]
      have pair : IsPhase [⟨.v, [], [] ++ [t]⟩, ⟨.vdg, [], [] ++ [t]⟩] :=
        isPhase_pair (by decide) (by decide) rfl (congrArg some (rx_group.neg (1 / 2))) (isTwo ..) (isTwo ..) cancel
          (nodup_singleton t)
      exact iff_of_true pair (by simp)
    · cases made
  | w =>
    obtain ⟨a, b, rfl⟩ := length_eq_two.mp (by simpa [GateName.allows] using allowed)
    rcases controls with _ | ⟨c, rest⟩
    · obtain rfl := ok.inj made
      obtain rfl := ok.inj made'
      have apart := distinct ⟨.cx, [], [a, b]⟩ (by simp [diagonalSwap])
      exact iff_of_true (isPhase_diagonalSwap (by simpa using apart)) (by simp)
    · cases made

end

section

def StepOf.shape {α : Type} (s : StepOf α) : OpType × List Nat := (s.type, s.args)

lemma shape_flip (controls : List Nat) (t : Nat) :
    (flip controls t : StepOf α).shape = (flip controls t : StepOf β).shape := by
  rcases controls with _ | ⟨c, _ | ⟨d, _ | ⟨e, rest⟩⟩⟩ <;> rfl

variable {α β : Type} [OfScientific α] [Neg α] [OfScientific β] [Neg β] {name : GateName} {inverted : Bool}
  {qubits bits wires : List Nat} {controls : List Control}

/-- The gates that are emitted do not depend on the numbers that are their parameters. -/
lemma steps_shapes (name : GateName) (inverted : Bool) (controls wires : List Nat) :
    (steps name inverted controls wires : Except Error (List (StepOf α))).map (map shape) =
    (steps name inverted controls wires : Except Error (List (StepOf β))).map (map shape) := by
  cases name with
  | not | multiNot =>
    refine congrArg ok ?_
    rw [map_map, map_map]
    exact map_congr_left fun t _ => shape_flip controls t
  | w =>
    rcases controls with _ | ⟨c, rest⟩
    · rcases wires with _ | ⟨a, _ | ⟨b, _ | ⟨d, rest⟩⟩⟩ <;> rfl
    · rfl
  | _ => cases inverted <;> rcases controls with _ | ⟨c, _ | ⟨d, rest⟩⟩ <;> rfl

variable (β) in
lemma exists_namedSteps {ss : List (StepOf α)} (made : namedSteps qubits bits name inverted wires controls = .ok ss) :
    ∃ ts : List (StepOf β), namedSteps qubits bits name inverted wires controls = .ok ts ∧
    ts.map shape = ss.map shape := by
  obtain ⟨quantum, ws, code, placed, allowed, own, rfl⟩ := namedSteps_found.mp made
  have same := @steps_shapes α β _ _ _ _ name inverted ((foundControls qubits controls).map (·.1)) ws
  rw [own] at same
  cases found : (steps name inverted ((foundControls qubits controls).map (·.1)) ws : Except Error (List (StepOf β))) with
  | error e =>
    rw [found] at same
    cases same
  | ok code' =>
    rw [found] at same
    refine ⟨_, namedSteps_found.mpr ⟨quantum, ws, code', placed, allowed, found, rfl⟩, ?_⟩
    have flips : (controlFlips (foundControls qubits controls) : List (StepOf β)).map shape =
        (controlFlips (foundControls qubits controls) : List (StepOf α)).map shape := by
      simp only [controlFlips, map_map]
      rfl
    simp only [map_append, flips, ok.inj same]

/-- Only the one argument of a branch is not written. -/
lemma boolean_notMem_signature (other : type ≠ .branch) : EdgeType.boolean ∉ type.signature.getD [] := by
  cases type <;> first | decide | exact absurd rfl other

lemma nodup_of_accepts {c : Circuit} {s : Step} (accepted : c.Accepts s.op s.units) : s.args.Nodup := by
  have arity : s.units.length = (s.op.signature s.units.length).length := accepted.arity
  have once := accepted.once
  by_cases other : s.type = .branch
  · have single : s.args.length = 1 := by
      rw [Step.op, other, Step.units, length_map] at arity
      exact arity
    obtain ⟨a, eq⟩ := length_eq_one_iff.mp single
    rw [eq]
    exact nodup_singleton a
  · have all : Circuit.written (s.units.zip (s.op.signature s.units.length)) = s.units := by
      have kept : ∀ w ∈ s.units.zip (s.op.signature s.units.length), w.2 ≠ .boolean := by
        intro w mem same
        have listed := same ▸ (of_mem_zip mem).2
        simp only [Step.op, Op.signature] at listed
        cases known : s.type.signature with
        | none => simp [known] at listed
        | some signature =>
          have free := boolean_notMem_signature other
          simp only [known, Option.getD_some] at listed free
          exact free listed
      rw [Circuit.written, filter_eq_self.mpr (by simpa using kept), map_fst_zip arity.le]
    rw [all] at once
    exact once.of_map _

end

section

variable {qubits bits wires : List Nat} {name : GateName} {controls : List Control}

/-- The steps of a gate, and then those of the gate with the flag that inverts it. -/
def invertedPair {α : Type} [OfScientific α] [Neg α] (qubits bits : List Nat) (name : GateName) (wires : List Nat)
    (controls : List Control) : Except Error (List (StepOf α)) := do
  return (← namedSteps qubits bits name false wires controls) ++ (← namedSteps qubits bits name true wires controls)

lemma isPhase_named {first second : List (StepOf ℝ)}
    (made : namedSteps qubits bits name false wires controls = .ok first)
    (made' : namedSteps qubits bits name true wires controls = .ok second) (distinct : ∀ s ∈ first, s.args.Nodup) :
    IsPhase (first ++ second) ↔ ¬ (name = .iX ∧ (foundControls qubits controls).length = 1) := by
  obtain ⟨-, ws, code, placed, allowed, own, rfl⟩ := namedSteps_found.mp made
  obtain ⟨-, ws', code', placed', -, own', rfl⟩ := namedSteps_found.mp made'
  obtain rfl := ok.inj (placed.symm.trans placed')
  rw [isPhase_between, isPhase_steps own own' allowed, length_map]
  exact fun s mem => distinct s (mem_append_left _ (mem_append_right _ mem))

/-- A gate that is accepted and then accepted with the flag that inverts it adds steps that do nothing but multiply
the state by a phase, except for `iX` under one control. -/
theorem named_inverse {subs : List Subroutine} {build : Program → Except Error Circuit} {c d e : Circuit}
    (forward : addGate subs build qubits bits c (.named name false wires controls) = .ok d)
    (backward : addGate subs build qubits bits d (.named name true wires controls) = .ok e) :
    ∃ (emitted : List Step) (ideal : List (StepOf ℝ)),
      invertedPair qubits bits name wires controls = .ok emitted ∧
      e.commands = c.commands ++ emitted.map Step.command ∧
      invertedPair qubits bits name wires controls = .ok ideal ∧
      ideal.map StepOf.shape = emitted.map StepOf.shape ∧
      (IsPhase ideal ↔ ¬ (name = .iX ∧ (foundControls qubits controls).length = 1)) := by
  obtain ⟨first, made, run⟩ := bind_eq_ok.mp forward
  obtain ⟨second, made', run'⟩ := bind_eq_ok.mp backward
  obtain ⟨first', ideal, same⟩ := exists_namedSteps ℝ made
  obtain ⟨second', ideal', same'⟩ := exists_namedSteps ℝ made'
  refine ⟨first ++ second, first' ++ second', ?_, ?_, ?_, ?_, isPhase_named ideal ideal' ?_⟩
  · rw [invertedPair, made, made']
    rfl
  · rw [(addSteps_eq_ok run').2, (addSteps_eq_ok run).2, map_append, append_assoc]
  · rw [invertedPair, ideal, ideal']
    rfl
  · rw [map_append, map_append, same, same']
  · intro s mem
    have listed := mem_map_of_mem (f := StepOf.shape) mem
    rw [same] at listed
    obtain ⟨t, inside, eq⟩ := mem_map.mp listed
    rw [← (Prod.mk.inj eq).2]
    exact nodup_of_accepts ((addSteps_eq_ok run).1 t inside)

theorem named_inverse_controlled : ∃ (d e : Circuit) (ideal : List (StepOf ℝ)),
    addGate [] (fun _ => .error .endless) [0, 1] [] (.blank 2 0) (.named .iX false [0] [⟨1, false⟩]) = .ok d ∧
    addGate [] (fun _ => .error .endless) [0, 1] [] d (.named .iX true [0] [⟨1, false⟩]) = .ok e ∧
    invertedPair [0, 1] [] .iX [0] [⟨1, false⟩] = .ok ideal ∧ ¬ IsPhase ideal := by
  have forward : ∃ d e, addGate [] (fun _ => .error .endless) [0, 1] [] (.blank 2 0)
        (.named .iX false [0] [⟨1, false⟩]) = .ok d ∧
      addGate [] (fun _ => .error .endless) [0, 1] [] d (.named .iX true [0] [⟨1, false⟩]) = .ok e :=
    ⟨_, _, rfl, rfl⟩
  obtain ⟨d, e, forward, backward⟩ := forward
  obtain ⟨_, ideal, -, -, made, -, acts⟩ := named_inverse forward backward
  exact ⟨d, e, ideal, forward, backward, made, mt acts.mp (by decide)⟩

end

end CircuitWorks.Quipper
