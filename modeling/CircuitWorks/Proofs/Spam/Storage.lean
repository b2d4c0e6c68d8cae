import CircuitWorks.Proofs.Circuit.Execution
import CircuitWorks.Measurement
import CircuitWorks.Proofs.Result.Numbering
import CircuitWorks.Proofs.Spam.Calibration
import CircuitWorks.Spam.Json

/-!
The product of a Kronecker product with a vector, the measurements that are corrected together, and what is
kept of a corrector that is stored.
-/

namespace CircuitWorks.Spam

open List Tensor CircuitWorks.Dense

variable {κ : Type} [CommRing κ] {n w : Nat} {u v : List κ} {as : List (Dense κ)}

lemma dot_eq_sum (left : u.length = n) (right : v.length = n) :
    dot u v = ∑ k ∈ Finset.range n, u.getD k 0 * v.getD k 0 := by
  have total : dot u v = (zipWith (· * ·) u v).sum := by rw [Dense.dot, Dense.sum, sum_eq_foldl]
  rw [total]
  clear total
  induction n generalizing u v with
  | zero => simp [length_eq_zero_iff.mp left]
  | succ n ih =>
    obtain ⟨x, u, rfl⟩ := exists_cons_of_length_eq_add_one left
    obtain ⟨y, v, rfl⟩ := exists_cons_of_length_eq_add_one right
    rw [zipWith_cons_cons, sum_cons, ih (by simpa using left) (by simpa using right), Finset.sum_range_succ', add_comm]
    simp

lemma sum_digits (f : Nat → κ) (n w : Nat) :
    ∑ j ∈ Finset.range (n * w), f j = ∑ k ∈ Finset.range n, ∑ q ∈ Finset.range w, f (k * w + q) := by
  induction n with
  | zero => simp
  | succ n ih => rw [Nat.succ_mul, Finset.sum_range_add, ih, Finset.sum_range_succ]

lemma digits_lt (block : k < n) (below : q < w) : k * w + q < n * w := by
  have room : k * w + w ≤ n * w := by
    rw [← Nat.succ_mul]
    exact Nat.mul_le_mul_right w block
  omega

lemma getD_part {size : Nat} (v : List κ) (below : j < size) :
    (part size k v).getD j 0 = v.getD (k * size + j) 0 := by
  simp [part, below]

lemma eq_map_getD (v : List κ) : v = (List.range v.length).map fun j => v.getD j 0 := by
  apply ext_getElem
  · simp
  · intro j inside _
    simp [inside]

lemma part_eq (length : v.length = n * w) (block : k < n) :
    part w k v = (List.range w).map fun q => v.getD (k * w + q) 0 := by
  rw [eq_map_getD (part w k v), length_part length block]
  exact map_congr_left fun q below => getD_part v (mem_range.mp below)

/-- The blocks of a vector, each times an entry of a row, added up. -/
def combine (w : Nat) (row v : List κ) : List κ :=
  (List.range w).map fun q => dot row ((List.range row.length).map fun k => v.getD (k * w + q) 0)

lemma dot_kron {row : List κ} (outer : row.length = n) (inner : s.length = w) (length : v.length = n * w) :
    dot (row.flatMap fun x => s.map (x * ·)) v = dot s (combine w row v) := by
  have product : ∀ k < n, ∀ q < w,
      (row.flatMap fun x => s.map (x * ·)).getD (k * w + q) 0 = row.getD k 0 * s.getD q 0 := by
    intro k block q below
    rw [← outer] at block
    rw [getD_eq_getElem?_getD, getElem?_flatMap (fun _ _ => (length_map _).trans inner) k below]
    rw [← inner] at below
    simp [block, below]
  have mixed : ∀ q < w, (combine w row v).getD q 0 = ∑ k ∈ Finset.range n, row.getD k 0 * v.getD (k * w + q) 0 := by
    intro q below
    have value : (combine w row v).getD q 0 = dot row ((List.range row.length).map fun k => v.getD (k * w + q) 0) := by
      simp [combine, below]
    rw [value, dot_eq_sum outer (by simp [outer])]
    exact Finset.sum_congr rfl fun k block => by simp [outer, Finset.mem_range.mp block]
  have long : (row.flatMap fun x => s.map (x * ·)).length = n * w := by rw [length_flatMap w (by simp [inner]), outer]
  rw [dot_eq_sum long length, dot_eq_sum inner (by simp [combine]), sum_digits, Finset.sum_comm]
  refine Finset.sum_congr rfl fun q below => ?_
  rw [mixed q (Finset.mem_range.mp below), Finset.mul_sum]
  refine Finset.sum_congr rfl fun k block => ?_
  rw [product k (Finset.mem_range.mp block) q (Finset.mem_range.mp below)]
  ring

lemma mulVec_kron (outer : Square n a) (inner : Square w m) (length : v.length = n * w) :
    (kron a m).mulVec v = a.flatMap fun row => m.mulVec (combine w row v) := by
  rw [mulVec, kron, map_flatMap]
  refine flatMap_congr fun row mem => ?_
  rw [map_map, mulVec]
  exact map_congr_left fun s inside =>
    dot_kron (outer.columns row mem) (inner.columns s inside) length

section

variable {before : Nat} {a : Dense κ} {v : List κ}

lemma column_unfold (length : v.length = before * (n * w)) (block : p < before) (below : q < w) :
    column (unfold before n w v) (p * w + q) = (List.range n).map fun k => (part (n * w) p v).getD (k * w + q) 0 := by
  have blocks : v.length = (before * n) * w := by rw [length, Nat.mul_assoc]
  rw [column, unfold, map_map]
  refine map_congr_left fun k inside => ?_
  have digit := mem_range.mp inside
  have len : ∀ r ∈ List.range before, (part w (r * n + k) v).length = w := fun r mem =>
    length_part blocks (digits_lt (mem_range.mp mem) digit)
  rw [Function.comp, getD_part v (digits_lt digit below), getD_eq_getElem?_getD, getElem?_flatMap len p below]
  simp only [getElem?_range block, Option.bind_some]
  rw [← getD_eq_getElem?_getD, getD_part v below]
  congr 1
  ring

lemma applyAt_eq (square : Square n a) (positive : 0 < n) (length : v.length = before * (n * w)) :
    applyAt before w a v = ((List.range before).flatMap fun p =>
    a.map fun row => combine w row (part (n * w) p v)).flatten := by
  have blocks : v.length = (before * n) * w := by rw [length, Nat.mul_assoc]
  have width : columnCount (unfold before n w v) = before * w := by
    have front : (unfold before n w v).head? = some ((List.range before).flatMap fun p => part w (p * n + 0) v) := by
      simp [unfold, head?_range, positive.ne']
    rw [columnCount, front, Option.map_some, Option.getD_some,
      length_flatMap w fun p mem => length_part blocks (digits_lt (mem_range.mp mem) positive), length_range]
  rw [applyAt, refold, Dense.mul, Dense.transpose, square.rows, width, flatten_eq_flatMap, flatMap_assoc]
  refine flatMap_congr fun p mem => ?_
  have block := mem_range.mp mem
  rw [flatMap_map, flatMap_map]
  refine flatMap_congr fun row inside => ?_
  rw [id, part_eq (n := before) (by simp) block, combine, square.columns row inside]
  refine map_congr_left fun q below => ?_
  have inner := mem_range.mp below
  have place := digits_lt block inner
  rw [getD_eq_getElem?_getD, map_map, getElem?_map, getElem?_range place, Option.map_some, Option.getD_some,
    Function.comp, column_unfold length block inner]

omit [CommRing κ] in
lemma isSquare_iff : isSquare a = true ↔ a ≠ [] ∧ Square a.length a := by
  simp only [isSquare, Bool.and_eq_true, Bool.not_eq_true', isEmpty_eq_false_iff, all_eq_true, decide_eq_true_eq]
  exact and_congr_right fun _ => ⟨fun columns => ⟨rfl, columns⟩, fun square => square.columns⟩

end

lemma square_kronAll (square : ∀ a ∈ as, isSquare a = true) : Square (volume (as.map List.length)) (kronAll as) := by
  induction as with
  | nil => exact ⟨rfl, by simp [kronAll, volume]⟩
  | cons a as ih =>
    obtain ⟨own, others⟩ := forall_mem_cons.mp square
    rw [map_cons, volume_cons]
    exact square_kron (isSquare_iff.mp own).2 (ih others)

lemma applyAll_eq (square : ∀ a ∈ as, isSquare a = true) (before : Nat)
    (length : v.length = before * volume (as.map List.length)) :
    applyAll before as v = (List.range before).flatMap fun p =>
    (kronAll as).mulVec (part (volume (as.map List.length)) p v) := by
  induction as generalizing before v with
  | nil =>
    conv_lhs => rw [← flatMap_part length]
    refine flatMap_congr fun p mem => ?_
    rw [part_eq length (mem_range.mp mem)]
    simp [volume, kronAll, Dense.mulVec, Dense.dot, Dense.sum]
  | cons a as ih =>
    obtain ⟨own, others⟩ := forall_mem_cons.mp square
    obtain ⟨some, square⟩ := isSquare_iff.mp own
    rw [map_cons, volume_cons] at length ⊢
    generalize size : volume (as.map List.length) = w at *
    have inner : Square w (kronAll as) := size ▸ square_kronAll others
    have made := applyAt_eq square (length_pos_iff.mpr some) length
    generalize parts : ((List.range before).flatMap fun p =>
      a.map fun row => combine w row (part (a.length * w) p v)) = blocks at made
    have len : ∀ block ∈ blocks, block.length = w := by
      intro block mem
      rw [← parts] at mem
      obtain ⟨p, -, own⟩ := mem_flatMap.mp mem
      obtain ⟨row, -, rfl⟩ := mem_map.mp own
      simp [combine]
    have count : blocks.length = before * a.length := by rw [← parts, length_flatMap a.length (by simp), length_range]
    have long : (applyAt before w a v).length = before * a.length * w := by
      rw [made, flatten_eq_flatMap, length_flatMap (f := id) w len, count]
    rw [applyAll, size, ih others _ long, made, ← count]
    calc (List.range blocks.length).flatMap (fun p => (kronAll as).mulVec (part w p blocks.flatten))
        = blocks.flatMap fun block => (kronAll as).mulVec block := by
          conv_rhs => rw [← map_part_flatten len, flatMap_map]
      _ = (List.range before).flatMap fun p => (kronAll (a :: as)).mulVec (part (a.length * w) p v) := by
          rw [← parts, flatMap_assoc]
          refine flatMap_congr fun p mem => ?_
          rw [flatMap_map]
          exact (mulVec_kron square inner (length_part length (mem_range.mp mem))).symm

section

def Inverts (n : Nat) (b a : Dense κ) : Prop :=
  ∀ i < n, ∀ l < n, ∑ j ∈ Finset.range n, entry b i j * entry a j l = if i = l then 1 else 0

variable {a b : Dense κ}

lemma inverts_of_mul (left : Square n b) (right : Square n a) (inverse : b.mul a = Dense.identity n) :
    Inverts n b a := by
  intro i row l column
  have product : entry (b.mul a) i l = Dense.dot (b.getD i []) (a.column l) := by
    have width : a.columnCount = n := by
      have some : a[0]? = Option.some (a.getD 0 []) := right.getElem? (by omega)
      rw [Dense.columnCount, head?_eq_getElem?, some, Option.map_some, Option.getD_some, right.length_row (by omega)]
    have inside : i < b.length := left.rows.symm ▸ row
    simp [entry, Dense.mul, Dense.transpose, width, column, inside]
  have unit : entry (Dense.identity n : Dense κ) i l = if i = l then 1 else 0 := entry_table _ row column
  rw [← unit, ← inverse, product, dot_eq_sum (left.length_row row) (by simp [Dense.column, right.rows])]
  refine Finset.sum_congr rfl fun j inside => ?_
  have below : j < a.length := right.rows.symm ▸ Finset.mem_range.mp inside
  simp [entry, Dense.column, below]

lemma Inverts.kron (left : Square n b) (right : Square n a) (lower : Square w d)
    (upper : Square w c) (first : Inverts n b a) (second : Inverts w d c) : Inverts (n * w) (kron b d) (kron a c) := by
  intro i row l column
  have pos : 0 < w := Nat.pos_of_mul_pos_left (Nat.zero_lt_of_lt row)
  have split : ∀ x, x < n * w → x / w < n ∧ x % w < w ∧ x = x / w * w + x % w := fun x below =>
    ⟨Nat.div_lt_of_lt_mul (by rwa [Nat.mul_comm]), Nat.mod_lt x pos, (Nat.div_add_mod' x w).symm⟩
  obtain ⟨outer, inner, place⟩ := split i row
  obtain ⟨across, along, column⟩ := split l column
  generalize i / w = i₁ at *
  generalize i % w = i₂ at *
  generalize l / w = l₁ at *
  generalize l % w = l₂ at *
  subst place column
  have same : i₁ * w + i₂ = l₁ * w + l₂ ↔ i₁ = l₁ ∧ i₂ = l₂ := by
    constructor
    · intro eq
      have digits := congrArg (· % w) eq
      simp only [Nat.mul_comm _ w, Nat.mul_add_mod, Nat.mod_eq_of_lt inner, Nat.mod_eq_of_lt along] at digits
      refine ⟨Nat.eq_of_mul_eq_mul_right pos (by omega), digits⟩
    · rintro ⟨rfl, rfl⟩
      rfl
  rw [sum_digits]
  calc ∑ k ∈ Finset.range n, ∑ q ∈ Finset.range w,
        entry (Dense.kron b d) (i₁ * w + i₂) (k * w + q) * entry (Dense.kron a c) (k * w + q) (l₁ * w + l₂)
      = ∑ k ∈ Finset.range n, ∑ q ∈ Finset.range w, (entry b i₁ k * entry a k l₁) * (entry d i₂ q * entry c q l₂) := by
        refine Finset.sum_congr rfl fun k block => Finset.sum_congr rfl fun q below => ?_
        have block := Finset.mem_range.mp block
        have below := Finset.mem_range.mp below
        rw [entry_kron left lower outer block inner below, entry_kron right upper block across below along]
        ring
    _ = (if i₁ = l₁ then 1 else 0) * if i₂ = l₂ then 1 else 0 := by
        rw [← Finset.sum_mul_sum, first i₁ outer l₁ across, second i₂ inner l₂ along]
    _ = if i₁ * w + i₂ = l₁ * w + l₂ then 1 else 0 := by simp only [same, ite_and, ite_mul, one_mul, zero_mul]

lemma Inverts.mulVec (left : Square n b) (right : Square n a) (inverts : Inverts n b a)
    (length : v.length = n) : b.mulVec (a.mulVec v) = v := by
  have value : ∀ j < n, (a.mulVec v).getD j 0 = ∑ l ∈ Finset.range n, entry a j l * v.getD l 0 := by
    intro j row
    have inside : j < a.length := right.rows.symm ▸ row
    have own : (a.mulVec v).getD j 0 = Dense.dot (a.getD j []) v := by simp [Dense.mulVec, inside]
    rw [own, dot_eq_sum (right.length_row row) length]
    rfl
  apply ext_getElem
  · simp [Dense.mulVec, left.rows, length]
  · intro i inside below
    have row : i < n := length ▸ below
    have own : (b.mulVec (a.mulVec v))[i] = Dense.dot (b.getD i []) (a.mulVec v) := by
      simp [Dense.mulVec, left.rows, row]
    rw [own, dot_eq_sum (left.length_row row) (by simp [Dense.mulVec, right.rows])]
    calc ∑ j ∈ Finset.range n, (b.getD i []).getD j 0 * (a.mulVec v).getD j 0
        = ∑ l ∈ Finset.range n, (∑ j ∈ Finset.range n, entry b i j * entry a j l) * v.getD l 0 := by
          simp only [Finset.sum_mul]
          rw [Finset.sum_comm]
          refine Finset.sum_congr rfl fun j mem => ?_
          rw [value j (Finset.mem_range.mp mem), Finset.mul_sum]
          exact Finset.sum_congr rfl fun l _ => (mul_assoc ..).symm
      _ = ∑ l ∈ Finset.range n, (if i = l then 1 else 0) * v.getD l 0 :=
          Finset.sum_congr rfl fun l mem => by rw [inverts i row l (Finset.mem_range.mp mem)]
      _ = v[i] := by simp [row, below]

lemma inverts_kronAll {bs : List (Dense κ)} (square : ∀ a ∈ as, isSquare a = true)
    (inverses : Forall₂ (fun a b => isSquare b = true ∧ b.length = a.length ∧ b.mul a = identity a.length) as bs) :
    (∀ b ∈ bs, isSquare b = true) ∧ bs.map List.length = as.map List.length ∧
    Inverts (volume (as.map List.length)) (kronAll bs) (kronAll as) := by
  induction inverses with
  | nil =>
    refine ⟨by simp, rfl, fun i row l column => ?_⟩
    obtain ⟨rfl, rfl⟩ : i = 0 ∧ l = 0 := by simpa [volume] using And.intro row column
    simp [volume, kronAll, entry]
  | @cons a b as bs first _ ih =>
    obtain ⟨own, others⟩ := forall_mem_cons.mp square
    obtain ⟨square', same, inv⟩ := first
    obtain ⟨squares, len, inverts⟩ := ih others
    have left : Square a.length b := same ▸ (isSquare_iff.mp square').2
    have right := (isSquare_iff.mp own).2
    refine ⟨forall_mem_cons.mpr ⟨square', squares⟩, by rw [map_cons, map_cons, same, len], ?_⟩
    rw [map_cons, volume_cons]
    exact .kron left right (len ▸ square_kronAll squares) (square_kronAll others)
      (inverts_of_mul left right inv) inverts

end

/-- The factors are multiplied one after the other, and the result is the product of the vector with the
Kronecker product. With their inverses the vector comes back. -/
theorem kronMulVec?_eq {as : List (Dense κ)} (square : ∀ a ∈ as, isSquare a = true) {v : List κ}
    (length : v.length = volume (as.map List.length)) :
    kronMulVec? as v = some ((kronAll as).mulVec v) ∧
    ∀ bs, Forall₂ (fun a b => isSquare b = true ∧ b.length = a.length ∧
        b.mul a = Dense.identity a.length) as bs →
      ((kronMulVec? as v).bind fun w => kronMulVec? bs w) = some v := by
  have computed : ∀ {as : List (Dense κ)} {v : List κ}, (∀ a ∈ as, isSquare a = true) →
      v.length = volume (as.map List.length) → kronMulVec? as v = some ((kronAll as).mulVec v) := by
    intro as v square length
    have whole : part (volume (as.map List.length)) 0 v = v := by simp [part, ← length]
    rw [kronMulVec?, if_pos (by simpa [length] using square), applyAll_eq square 1 (by rw [one_mul, length])]
    simp [whole]
  refine ⟨computed square length, fun bs inverses => ?_⟩
  obtain ⟨squares, lengths, inverts⟩ := inverts_kronAll square inverses
  have outer := square_kronAll square
  rw [computed square length, Option.bind_some,
    computed squares (by rw [lengths, Dense.mulVec, length_map, outer.rows])]
  exact congrArg some (inverts.mulVec (lengths ▸ square_kronAll squares) outer length)

/-- A matrix of two rows, one of three, and their inverses. -/
theorem kronMulVec?_eq_unequal :
    let as : List (Dense ℤ) := [[[1, 2], [0, 1]], [[0, 1, 0], [0, 0, 1], [1, 0, 0]]]
    kronMulVec? as [1, 2, 3, 4, 5, 6] = some ((kronAll as).mulVec [1, 2, 3, 4, 5, 6]) ∧
      ((kronMulVec? as [1, 2, 3, 4, 5, 6]).bind fun w =>
        kronMulVec? [[[1, -2], [0, 1]], [[0, 0, 1], [1, 0, 0], [0, 1, 0]]] w) = some [1, 2, 3, 4, 5, 6] := by
  intro as
  have square : ∀ a ∈ as, isSquare a = true := by decide
  obtain ⟨product, back⟩ := kronMulVec?_eq square (show [1, 2, 3, 4, 5, 6].length = _ by decide)
  exact ⟨product, back _ (.cons (by decide) (.cons (by decide) .nil))⟩

end CircuitWorks.Spam

namespace CircuitWorks

open List

namespace Spam.Corrector

variable {κ : Type} [Arithmetic κ] {s : Corrector κ}

lemma bits_of_part
    (done : s.part m = .ok p) : p.1 = m.map (·.2) := by
  rw [part] at done
  split at done
  · cases done
  · obtain ⟨entries, _, done⟩ := bind_eq_ok.mp done
    split at done
    · cases done
    · obtain ⟨reduced, _, done⟩ := bind_eq_ok.mp done
      cases done
      rfl

lemma bits_of_arrangement {sets : List (List (UnitId × UnitId))} {bits : List UnitId} {ms : List (Dense κ)}
    (done : s.arrangement sets = .ok (bits, ms)) : bits = sets.flatMap fun m => m.map (·.2) := by
  obtain ⟨parts, each, same⟩ := bind_eq_ok.mp done
  obtain ⟨rfl, -⟩ := Prod.mk.inj (Except.ok.inj same)
  clear done same
  induction sets generalizing parts with
  | nil =>
    cases each
    rfl
  | cons m sets ih =>
    obtain ⟨p, rest, first, later, rfl⟩ := mapM_cons_eq_ok each
    rw [flatMap_cons, flatMap_cons, ih rest later, bits_of_part first]

end Spam.Corrector

namespace Circuit

variable {c : Circuit} {b : UnitId} {final : List (UnitId × UnitId)}

def measurement? (cmd : Command) : Option (UnitId × UnitId) :=
  match cmd.op.isMeasure, cmd.args with
  | true, [qubit, bit] => some (qubit, bit)
  | _, _ => none

def measurePairs (c : Circuit) : List (UnitId × UnitId) := c.commands.filterMap measurement?

/-- The bits that are measured into, one as often as it is. -/
def measuredBits (c : Circuit) : List UnitId := c.measurePairs.map (·.2)

def isFinal (final : List (UnitId × UnitId)) (b : UnitId) : Bool := final.any (·.2 = b)

lemma isFinal_iff : isFinal final b = true ↔ b ∈ final.map (·.2) := by
  simp [isFinal]

lemma earlierMeasurements_eq (c : Circuit) (final : List (UnitId × UnitId)) :
    c.earlierMeasurements final = c.measurePairs.filter fun e => !isFinal final e.2 := by
  rw [earlierMeasurements, measurePairs, filter_filterMap]
  refine filterMap_congr fun cmd _ => ?_
  cases measure : cmd.op.isMeasure with
  | false => simp [measurement?, measure]
  | true =>
    rcases args : cmd.args with _ | ⟨q, _ | ⟨b, _ | _⟩⟩ <;> simp only [measurement?, measure, args]
    case cons.cons.nil =>
      change (if isFinal final b then none else some (q, b)) = if !isFinal final b then some (q, b) else none
      cases isFinal final b <;> rfl
    all_goals rfl

lemma eq_gate_of_isMeasure {op : Op} (measure : op.isMeasure = true) : ∃ params, op = .gate .measure params := by
  have type : op.type = .measure := of_decide_eq_true measure
  cases op with
  | gate type params => exact ⟨params, congrArg (Op.gate · params) type⟩
  | unitary matrix =>
    rw [Op.type] at type
    split_ifs at type
  | _ => cases type

section

variable (accepted : ∀ cmd ∈ c.commands, c.Accepts cmd.op cmd.args)
include accepted

lemma mem_bits_of_measured (mem : b ∈ c.measuredBits) : b ∈ c.bits := by
  obtain ⟨e, inside, rfl⟩ := mem_map.mp mem
  obtain ⟨⟨op, args⟩, stands, own⟩ := mem_filterMap.mp inside
  have kinds := (accepted _ stands).kinds
  unfold measurement? at own
  split at own
  · rename_i q b measure same
    cases own
    obtain ⟨params, rfl⟩ := eq_gate_of_isMeasure measure
    subst same
    exact (kindOf?_eq_bit.mp (kinds (b, .classical) (.tail _ (.head _)))).2
  · cases own

variable (measured : ∀ e ∈ final, e ∈ c.measurePairs) (injective : (final.map (·.2)).Nodup)
include measured injective

lemma isFinal_of_length (all : final.length = c.bits.length)
    (mem : b ∈ c.measuredBits) : isFinal final b = true := by
  have inside : final.map (·.2) ⊆ c.bits := fun _ last =>
    mem_bits_of_measured accepted (map_subset _ measured last)
  have perm := (subperm_of_subset injective inside).perm_of_length_le (by simp [all])
  exact isFinal_iff.mpr (perm.mem_iff.mpr (mem_bits_of_measured accepted mem))

lemma parallelMeasures_bits : ((c.parallelMeasures final).flatMap fun m => m.map (·.2)) =
    final.map (·.2) ++ c.measuredBits.filter fun b => !isFinal final b := by
  rw [parallelMeasures]
  split
  · rename_i all
    have none : (c.measuredBits.filter fun b => !isFinal final b) = [] := by
      rw [filter_eq_nil_iff]
      intro b mem
      rw [isFinal_of_length accepted measured injective all mem]
      exact Bool.false_ne_true
    rw [none, append_nil, flatMap_singleton]
  · rw [flatMap_cons, earlierMeasurements_eq, measuredBits, filter_map, flatMap_map]
    simp [map_eq_flatMap, Function.comp_def]

lemma count_parallelMeasures (b : UnitId) :
    ((c.parallelMeasures final).flatMap fun m => m.map (·.2)).count b =
    if isFinal final b then 1 else c.measuredBits.count b := by
  rw [parallelMeasures_bits accepted measured injective, count_append]
  split
  · rename_i last
    rw [count_eq_one_of_mem injective (isFinal_iff.mp last), count_eq_zero_of_not_mem]
    simp [last]
  · rename_i early
    rw [count_eq_zero_of_not_mem (mt isFinal_iff.mpr early), count_filter (by simp [early]), Nat.zero_add]

end

/-- The sets contain every measured bit, whichever measurements are said to be at the end. One that is
measured at the end is contained once, and any other as often as it is measured into, so that all are
contained once, and the bits of a correction are distinct, exactly if no such bit is measured into
again. -/
theorem parallelMeasures_once_iff {c : Circuit} {final : List (UnitId × UnitId)}
    (accepted : ∀ cmd ∈ c.commands, c.Accepts cmd.op cmd.args)
    (measured : ∀ e ∈ final, e ∈ c.measurePairs) (injective : (final.map (·.2)).Nodup) :
    (∀ b, ((c.parallelMeasures final).flatMap fun m => m.map (·.2)).count b =
      if isFinal final b then 1 else c.measuredBits.count b) ∧
    ((∀ b ∈ c.measuredBits, ((c.parallelMeasures final).flatMap fun m => m.map (·.2)).count b = 1) ↔
      ∀ b, isFinal final b = false → c.measuredBits.count b ≤ 1) ∧
    ∀ (κ : Type) [Arithmetic κ] (s : Spam.Corrector κ) bits ms,
      s.arrangement (c.parallelMeasures final) = .ok (bits, ms) →
      (bits.Nodup ↔ ∀ b, isFinal final b = false → c.measuredBits.count b ≤ 1) := by
  have counts := count_parallelMeasures accepted measured injective
  refine ⟨counts, ?_, ?_⟩
  · simp only [counts]
    constructor
    · intro once b early
      by_cases mem : b ∈ c.measuredBits
      · have own := once b mem
        rw [early, if_neg Bool.false_ne_true] at own
        exact own.le
      · rw [count_eq_zero_of_not_mem mem]
        exact Nat.zero_le 1
    · intro once b mem
      split
      · rfl
      · rename_i early
        exact Nat.le_antisymm (once b (by simpa using early)) (count_pos_iff.mpr mem)
  · intro κ _ s bits ms done
    rw [Spam.Corrector.bits_of_arrangement done, nodup_iff_count_le_one]
    simp only [counts]
    refine forall_congr' fun b => ?_
    cases isFinal final b <;> simp

def repeated : Circuit :=
  { Circuit.blank 1 1 with
    commands := [⟨.gate .measure [], [.qubit 0, .bit 0]⟩, ⟨.gate .measure [], [.qubit 0, .bit 0]⟩,
      ⟨.gate .x [], [.qubit 0]⟩] }

/-- A qubit that is measured into one bit twice and changed afterwards. -/
theorem parallelMeasures_once_iff_repeated :
    ((repeated.parallelMeasures repeated.finalMeasurements).flatMap fun m =>
      m.map (·.2)).count (.bit 0) = 2 := by
  have accepted : ∀ cmd ∈ repeated.commands, repeated.Accepts cmd.op cmd.args := by
    intro cmd mem
    apply (checkOp_eq_ok_iff _ _ _).mp
    revert cmd
    simp only [repeated, forall_mem_cons]
    decide
  have last : repeated.finalMeasurements = [] := by decide
  rw [last, (parallelMeasures_once_iff accepted (by simp) (by simp)).1]
  decide

end Circuit

end CircuitWorks

namespace CircuitWorks.Spam.Corrector

open List Json UnitId

section

variable {subsets : List (List UnitId)}

lemma distinct_of_nodup {units : List UnitId} (nodup : units.Nodup) : distinct units = units := by
  induction units with
  | nil => rfl
  | cons u units ih =>
    obtain ⟨absent, rest⟩ := nodup_cons.mp nodup
    rw [distinct, ih rest, filter_eq_self.mpr]
    intro v mem
    exact decide_eq_true fun same => absent (same ▸ mem)

lemma ofSubsets_of_nodup (nodup : subsets.flatten.Nodup) : (ofSubsets subsets : Except Error (Corrector κ)) =
    .ok { correlations := subsets, subsets := (subsets.mergeSort fun a b => a.length ≥ b.length).eraseDups } := by
  rw [ofSubsets, if_neg]
  simp [distinct_of_nodup nodup]

lemma Reached.subsets_eq [Arithmetic κ] {c : Corrector κ} (reached : Reached subsets c) :
    c.correlations = subsets ∧ c.subsets = (subsets.mergeSort fun a b => a.length ≥ b.length).eraseDups := by
  induction reached with
  | made made =>
    rw [ofSubsets] at made
    split at made
    · cases made
    · cases made
      exact ⟨rfl, rfl⟩
  | @prepared c _ ih =>
    obtain ⟨ps, same⟩ := calibrationCircuits_fst c
    rw [same]
    exact ih
  | @calibrated c _ rs ih =>
    rcases calibrate_fst c rs with same | ⟨ms, sums, same, _⟩ <;>
    · rw [same]
      exact ih

end

lemma setPlace_of_not_mem {places : List (UnitId × Int × Int)}
    (absent : u ∉ places.map (·.1)) (place : Int × Int) : setPlace u place places = places ++ [(u, place)] := by
  induction places with
  | nil => rfl
  | cons e places ih =>
    obtain ⟨other, later⟩ := not_or.mp (mt mem_cons.mpr absent)
    rw [setPlace, if_neg other, ih later]
    rfl

lemma foldl_setPlace {before places : List (UnitId × Int × Int)} (distinct : ((before ++ places).map (·.1)).Nodup) :
    places.foldl (fun all e => setPlace e.1 e.2 all) before = before ++ places := by
  induction places generalizing before with
  | nil => simp
  | cons e places ih =>
    have absent : e.1 ∉ before.map (·.1) := by
      rw [map_append, nodup_append'] at distinct
      exact fun mem => distinct.2.2 mem (by simp)
    rw [foldl_cons, setPlace_of_not_mem absent, ih, append_assoc, singleton_append]
    rwa [append_assoc, singleton_append]

section

variable {c : Corrector Float} {places : List (UnitId × Int × Int)} {ms : List (Dense Float)}

lemma storedNode_toJson (u : UnitId) : storedNode u.toJson = .ok u := by
  rw [storedNode, ofJson?_toJson]

/-- What is read back: each node stands for itself. -/
def separated (c : Corrector Float) : Corrector Float :=
  { c with
    correlations := c.nodes.map ([·])
    subsets := ((c.nodes.map ([·])).mergeSort fun a b => a.length ≥ b.length).eraseDups
    preparations := none
    sums := none }

lemma flatten_singles (units : List UnitId) : (units.map ([·])).flatten = units := by
  rw [← flatMap_def, flatMap_singleton']

lemma readMatrix_written (m : Dense Float) : readMatrix (.arr (m.map fun row => .arr (row.map float))) = m := by
  have each : ∀ row : List Float, readVector (.arr (row.map float)) = row := fun row =>
    (map_map ..).trans (map_id row)
  exact (map_map ..).trans ((map_congr_left fun row _ => each row).trans (map_id m))

lemma ofJson_eq (nodes : c.nodes.Nodup) (units : (places.map (·.1)).Nodup) (placed : c.places = some places)
    (held : c.matrices = some ms) : ∃ j, c.toJson .float = .ok j ∧ ofJson j = .ok c.separated := by
  have subsets : (c.correlations.map fun s => arr (s.map UnitId.toJson)).mapM
      (fun s => s.list.mapM storedNode) = .ok c.correlations := by
    rw [List.mapM_map]
    refine (mapM_ok _ id _ fun s _ => ?_).trans (by rw [map_id])
    have each := mapM_ok (storedNode ∘ UnitId.toJson) id s fun u _ => storedNode_toJson u
    rw [map_id, ← List.mapM_map] at each
    exact each
  have marks : (places.map fun e => arr [e.1.toJson, .arr [.int e.2.1, .int e.2.2]]).foldlM
      (fun all e => do
        let place := e.item 1
        return setPlace (← storedNode (e.item 0)) ((place.item 0).integer, (place.item 1).integer) all) [] =
      .ok places := by
    rw [foldlM_map]
    refine (foldlM_ok _ (fun all e => setPlace e.1 e.2 all) _ (fun e _ all => ?_) []).trans
      (by rw [foldl_setPlace (by simpa using units), nil_append])
    simp [storedNode_toJson, item, list, items?, integer, int?, bind, Except.bind, pure, Except.pure]
  have apart : (c.nodes.map ([·])).flatten.Nodup := (flatten_singles c.nodes).symm ▸ nodes
  refine ⟨_, by rw [toJson, placed, held], ?_⟩
  refine bind_eq_ok.mpr ⟨c.correlations.map fun s => arr (s.map UnitId.toJson), rfl, ?_⟩
  refine bind_eq_ok.mpr ⟨_, subsets, ?_⟩
  refine bind_eq_ok.mpr ⟨_, congrArg exposed (ofSubsets_of_nodup apart), ?_⟩
  refine bind_eq_ok.mpr ⟨_, rfl, ?_⟩
  refine bind_eq_ok.mpr ⟨_, marks, ?_⟩
  have matrices : (ms.map fun m => arr (m.map fun row => .arr (row.map .float))).map readMatrix = ms :=
    (map_map ..).trans ((map_congr_left fun m _ => readMatrix_written m).trans (map_id ms))
  rw [separated, placed, held]
  exact congrArg (fun ms => Except.ok { c.separated with places := some places, matrices := some ms }) matrices

lemma correct_separated (c : Corrector Float) (r : Result) (sets : List (List (UnitId × UnitId)))
    (method : Method Float) : c.separated.correct r sets method = c.correct r sets method := by
  have parts : c.separated.part = c.part := by
    funext m
    have nodes : c.separated.nodes = c.nodes := flatten_singles c.nodes
    rw [part, part, nodes]
    rfl
  rw [correct, correct, arrangement, arrangement, parts]

lemma length_of_mem_separated {s : List UnitId} (mem : s ∈ c.separated.correlations) : s.length = 1 := by
  obtain ⟨u, _, rfl⟩ := mem_map.mp mem
  rfl

lemma separated_correlations (singles : ∀ s ∈ c.correlations, s.length = 1) :
    c.separated.correlations = c.correlations := by
  have each : ∀ s ∈ c.correlations, s.map ([·]) = [s] := by
    intro s mem
    obtain ⟨u, rfl⟩ := length_eq_one_iff.mp (singles s mem)
    rfl
  change c.correlations.flatten.map ([·]) = c.correlations
  rw [map_flatten, map_congr_left each, ← flatMap_def, flatMap_singleton']

lemma toJson_separated_iff (placed : c.places = some places) (held : c.matrices = some ms) :
    c.separated.toJson .float = c.toJson .float ↔ ∀ s ∈ c.correlations, s.length = 1 := by
  constructor
  · intro same s mem
    rw [toJson, toJson, show c.separated.places = _ from placed, show c.separated.matrices = _ from held,
      placed, held] at same
    obtain ⟨lists, -⟩ := cons.inj (obj.inj (Except.ok.inj same))
    have both := arr.inj (Prod.mk.inj lists).2
    have written := mem_map_of_mem (f := fun s : List UnitId => arr (s.map UnitId.toJson)) mem
    rw [← both] at written
    obtain ⟨single, inside, eq⟩ := mem_map.mp written
    have len := congrArg length (arr.inj eq)
    rw [length_map, length_map] at len
    exact len.symm.trans (length_of_mem_separated inside)
  · intro singles
    rw [toJson, toJson, separated_correlations singles]
    rfl

end

/-- A calibrated corrector that is stored and read again corrects every result as before. But each of
its nodes is a subset of its own then, so that what is stored, and the subsets of its circuits, are
the same exactly if they were so before. -/
theorem separated_of_ofJson {subsets : List (List UnitId)} {c : Corrector Float} (reached : Reached subsets c)
    {ms : List (Dense Float)} (held : c.matrices = some ms) :
    ∃ j d, c.toJson .float = .ok j ∧ ofJson j = .ok d ∧
      (∀ r sets method, d.correct r sets method = c.correct r sets method) ∧
      d.correlations = subsets.flatten.map ([·]) ∧
      (d.toJson .float = c.toJson .float ↔ ∀ s ∈ subsets, s.length = 1) ∧
      (d.subsets = c.subsets ↔ ∀ s ∈ subsets, s.length = 1) := by
  have charted := reached.charted
  obtain ⟨rfl, sorted⟩ := reached.subsets_eq
  have placed := charted.places ms held
  obtain ⟨j, written, read⟩ := ofJson_eq (charted.nodes.nodup_iff.mpr charted.apart)
    (nodup_nodePlaces charted) placed held
  refine ⟨j, _, written, read, correct_separated c, rfl, ?_, ?_⟩
  · exact toJson_separated_iff placed held
  · constructor
    · intro same s mem
      have inside : s ∈ c.subsets := by
        rw [sorted]
        exact mem_eraseDups.mpr (mem_mergeSort.mpr mem)
      rw [← same] at inside
      exact length_of_mem_separated (mem_mergeSort.mp (mem_eraseDups.mp inside))
    · intro singles
      rw [sorted, ← separated_correlations singles]
      rfl

/-- A corrector of one subset of two nodes, calibrated without any result. -/
theorem separated_of_ofJson_pair : ∃ c : Corrector Float, Reached [[.node 0, .node 1]] c ∧
    ∃ j d, c.toJson .float = .ok j ∧ ofJson j = .ok d ∧ d.correlations = [[.node 0], [.node 1]] ∧
      d.toJson .float ≠ .ok j := by
  let new : Corrector Float := ⟨[[.node 0, .node 1]], [[.node 0, .node 1]], none, none, none, none⟩
  have made : ofSubsets [[.node 0, .node 1]] = .ok new := by cbv
  have reached := ((Reached.made made).prepared).calibrated []
  have prepared : new.calibrationCircuits.1.preparations.map List.length = some 4 := by cbv
  obtain ⟨all, prepared, four⟩ := Option.map_eq_some_iff.mp prepared
  obtain ⟨p, ps, rfl⟩ := exists_cons_of_length_eq_add_one four
  have held : ∃ ms, (new.calibrationCircuits.1.calibrate []).1.matrices = some ms := by
    rw [calibrate, prepared]
    exact ⟨_, rfl⟩
  obtain ⟨ms, held⟩ := held
  obtain ⟨j, d, written, read, _, nodes, same, _⟩ := separated_of_ofJson reached held
  refine ⟨_, reached, j, d, written, read, nodes, ?_⟩
  rw [← written, ne_eq, same]
  decide

end CircuitWorks.Spam.Corrector
