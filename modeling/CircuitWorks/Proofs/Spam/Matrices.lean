import CircuitWorks.Proofs.Outcome.Tables
import CircuitWorks.Spam.Corrector
import Mathlib

/-!
The binary digits of basis states, the highest one first, and the entries of transition matrices by these
digits: of the matrix of some of the qubits, the others being 0, of matrices whose columns are divided by
their sums, and of Kronecker products.
-/

namespace CircuitWorks.Spam

open List CircuitWorks.Dense

section

variable {bits : List Bool}

lemma ofBinary_append (first second : List Bool) :
    ofBinary (first ++ second) = ofBinary first * 2 ^ second.length + ofBinary second :=
  Outcome.valueOf_append first second

lemma ofBinary_lt (bits : List Bool) : ofBinary bits < 2 ^ bits.length := Outcome.valueOf_lt bits

lemma ofBinary_inj {first second : List Bool} (length : first.length = second.length)
    (same : ofBinary first = ofBinary second) : first = second := Outcome.valueOf_inj length same

lemma ofBinary_toBinary (v width : Nat) : ofBinary (toBinary v width) = v := by
  have zeros : ∀ n, ofBinary (replicate n false) = 0 := Outcome.valueOf_zeros
  rw [toBinary, ofBinary_append, zeros, Nat.zero_mul, Nat.zero_add]
  exact Outcome.valueOf_toDigits v

lemma length_toBinary {width : Nat} (positive : 0 < width) (below : v < 2 ^ width) :
    (toBinary v width).length = width := by
  have digits : (Nat.toDigits 2 v).length ≤ width :=
    (Nat.length_toDigits_le_iff (by decide) positive).mpr below
  rw [toBinary, length_append, length_replicate, length_map]
  omega

lemma toBinary_ofBinary (nonempty : bits ≠ []) : toBinary (ofBinary bits) bits.length = bits := by
  apply ofBinary_inj
  · exact length_toBinary (length_pos_iff.mpr nonempty) (ofBinary_lt bits)
  · exact ofBinary_toBinary _ _

end

variable (mask : List Bool)

/-- Digits at the places that a mask keeps, and zeros at the others. -/
def scatter : List Bool → List Bool → List Bool
  | [], _ => []
  | true :: mask, digits => digits.headD false :: scatter mask digits.tail
  | false :: mask, digits => false :: scatter mask digits

/-- The places that a mask leaves out, in ascending order. -/
def holes (mask : List Bool) (start : Nat) : List Int :=
  ((mask.zipIdx start).filter fun e => !e.1).map fun e => (e.2 : Int)

lemma length_scatter (digits : List Bool) : (scatter mask digits).length = mask.length := by
  fun_induction scatter mask digits with
  | case1 => rfl
  | case2 mask digits ih => rw [length_cons, length_cons, ih]
  | case3 mask digits ih => rw [length_cons, length_cons, ih]

lemma length_holes (start : Nat) : (holes mask start).length + mask.count true = mask.length := by
  induction mask generalizing start with
  | nil => rfl
  | cons kept mask ih =>
    have later := ih (start + 1)
    cases kept <;> simp [holes, zipIdx_cons] at later ⊢ <;> omega

lemma insertAt_length (b : Bool) (before after : List Bool) :
    insertAt b (before.length : Nat) (before ++ after) = before ++ b :: after := by
  have place : ¬((before.length : Int) < 0) := by omega
  simp [insertAt, place]

lemma foldl_insertAt (before digits : List Bool) (enough : digits.length = mask.count true) :
    (holes mask before.length).foldl (fun bits i => insertAt false i bits) (before ++ digits) =
    before ++ scatter mask digits := by
  induction mask generalizing before digits with
  | nil =>
    have none : digits = [] := eq_nil_of_length_eq_zero enough
    simp [holes, scatter, none]
  | cons kept mask ih =>
    cases kept with
    | true =>
      cases digits with
      | nil => simp at enough
      | cons d digits =>
        have later := ih (before ++ [d]) digits (by simpa using enough)
        simpa [holes, scatter, zipIdx_cons] using later
    | false =>
      have later := ih (before ++ [false]) digits (by simpa using enough)
      have front : holes (false :: mask) before.length =
          (before.length : Int) :: holes mask (before ++ [false]).length := by
        simp [holes, zipIdx_cons]
      rw [front, foldl_cons, insertAt_length, scatter, ← singleton_append,
        ← append_assoc, later, append_assoc, singleton_append]

lemma pairwise_holes (start : Nat) : (holes mask start).Pairwise (· ≤ ·) := by
  have numbers : ((mask.zipIdx start).map Prod.snd).Pairwise (· ≤ ·) := by
    rw [zipIdx_map_snd]
    exact pairwise_le_range'
  rw [holes, pairwise_map]
  refine ((pairwise_map.mp numbers).filter _).imp ?_
  intro a b le
  exact Int.ofNat_le.mpr le

lemma widen_eq {mask : List Bool} {removed : List Int} (places : removed.Perm (holes mask 0))
    {width index : Nat} (digits : (toBinary index width).length = mask.count true) :
    widen removed width index = ofBinary (scatter mask (toBinary index width)) := by
  have sorted : removed.mergeSort (fun a b => decide (a ≤ b)) = holes mask 0 := by
    have ordered := @pairwise_mergeSort Int (fun a b => decide (a ≤ b))
      (by simpa using fun a b c => Int.le_trans) (by simpa using Int.le_total) removed
    exact List.Perm.eq_of_pairwise (fun a b _ _ => Int.le_antisymm)
      (ordered.imp of_decide_eq_true) (pairwise_holes mask 0)
      ((mergeSort_perm _ _).trans places)
  rw [widen, sorted]
  exact congrArg ofBinary (foldl_insertAt mask [] _ digits)

lemma count_map {α : Type} (p : α → Bool) (xs : List α) : (xs.map p).count true = (xs.filter p).length := by
  induction xs with
  | nil => rfl
  | cons x xs ih =>
    cases kept : p x <;> simp [kept, ih]

lemma scatter_map (p s : UnitId → Bool) (units : List UnitId) :
    scatter (units.map p) ((units.filter p).map s) = units.map fun u => p u && s u := by
  induction units with
  | nil => rfl
  | cons u units ih =>
    cases kept : p u <;> simp [kept, scatter, ih]

lemma scatter_scatter {α : Type} (p q : α → Bool) (xs : List α) (digits : List Bool) :
    scatter (xs.map p) (scatter ((xs.filter p).map q) digits) = scatter (xs.map fun x => p x && q x) digits := by
  induction xs generalizing digits with
  | nil => rfl
  | cons x xs ih =>
    cases kept : p x <;> cases other : q x <;> simp [kept, other, scatter, ih]

variable {n r c : Nat}

variable {κ : Type}

structure Square (n : Nat) (m : Dense κ) : Prop where
  rows : m.length = n
  columns : ∀ row ∈ m, row.length = n

variable {m : Dense κ}

lemma Square.getElem? (square : Square n m) (below : r < n) : m[r]? = some (m.getD r []) := by
  have inside : r < m.length := by rw [square.rows]; exact below
  simp [inside]

lemma Square.length_row (square : Square n m) (below : r < n) : (m.getD r []).length = n :=
  square.columns _ (mem_of_getElem? (square.getElem? below))

section

variable [Zero κ]

def entry (m : Dense κ) (r c : Nat) : κ := (m.getD r []).getD c 0

def table (n : Nat) (f : Nat → Nat → κ) : Dense κ :=
  (range n).map fun r => (range n).map (f r)

lemma entry_table (f : Nat → Nat → κ) (row : r < n) (column : c < n) : entry (table n f) r c = f r c := by
  simp [entry, table, row, column]

lemma Square.getElem?_entry (square : Square n m)
    (row : r < n) (column : c < n) : (m.getD r [])[c]? = some (entry m r c) := by
  have length : c < (m.getD r []).length := by rw [square.length_row row]; exact column
  have value : entry m r c = ((m.getD r [])[c]?).getD 0 := getD_eq_getElem?_getD
  rw [value, getElem?_eq_getElem length, Option.getD_some]

end

lemma square_table (n : Nat) (f : Nat → Nat → κ) : Square n (table n f) := by
  constructor
  · simp [table]
  · intro row mem
    obtain ⟨r, _, rfl⟩ := mem_map.mp mem
    simp

section

variable [Zero κ]

/-- The index of a state of all qubits, those that a mask leaves out being 0. -/
def wide (mask : List Bool) (i : Nat) : Nat :=
  ofBinary (scatter mask (toBinary i (mask.count true)))

lemma wide_lt (mask : List Bool) (i : Nat) : wide mask i < 2 ^ mask.length := by
  have below := ofBinary_lt (scatter mask (toBinary i (mask.count true)))
  rw [length_scatter] at below
  exact below

/-- The matrix of the qubits that a mask keeps, the others being 0. -/
def restrict (mask : List Bool) (m : Dense κ) : Dense κ :=
  table (2 ^ mask.count true) fun r c => entry m (wide mask r) (wide mask c)

lemma reduceMatrix_eq {mask : List Bool} {removed : List Int}
    (square : Square (2 ^ mask.length) m) (places : removed.Perm (holes mask 0)) :
    reduceMatrix removed m = .ok (if mask.count true = 0 then [] else restrict mask m) := by
  have some : m.isEmpty = false := by
    rw [isEmpty_eq_false_iff, ← length_pos_iff, square.rows]
    exact Nat.two_pow_pos mask.length
  have width : (Nat.log2 m.length : Int) - removed.length = mask.count true := by
    have sizes := length_holes mask 0
    rw [square.rows, Nat.log2_two_pow, places.length_eq]
    omega
  rw [reduceMatrix, some, if_neg Bool.false_ne_true]
  simp only [width]
  by_cases none : mask.count true = 0
  · rw [if_pos (by omega), if_pos none]
  · have indices : ((range (2 ^ mask.count true)).map (widen removed (mask.count true))) =
        (range (2 ^ mask.count true)).map (wide mask) := by
      apply map_congr_left
      intro i below
      exact widen_eq places (length_toBinary (Nat.pos_of_ne_zero none) (mem_range.mp below))
    have row : ∀ r ∈ (range (2 ^ mask.count true)).map (wide mask), ((m[r]?).bind fun row =>
          ((range (2 ^ mask.count true)).map (wide mask)).mapM fun c => row[c]?) =
        Option.some (((range (2 ^ mask.count true)).map (wide mask)).map (entry m r)) := by
      intro r mem
      obtain ⟨i, _, rfl⟩ := mem_map.mp mem
      rw [square.getElem? (wide_lt mask i), Option.bind_some]
      apply mapM_some
      intro c mem
      obtain ⟨j, _, rfl⟩ := mem_map.mp mem
      exact square.getElem?_entry (wide_lt mask i) (wide_lt mask j)
    have rows := mapM_some _ _ _ row
    rw [if_neg (by omega), if_neg (by omega), if_neg none, Int.toNat_natCast]
    have power : Nat.pow 2 (mask.count true) = 2 ^ mask.count true := rfl
    simp only [power, indices, rows]
    simp only [restrict, table, map_map, Except.ok.injEq]
    rfl

section

variable {removed others : List Nat}

/-- The mask of the positions that are not removed. -/
def keptOf (n : Nat) (removed : List Nat) : List Bool := (range n).map fun k => k ∉ removed

/-- The place of a position among those that are not removed. -/
def renumber (removed : List Nat) (k : Nat) : Nat := ((range k).filter fun j => j ∉ removed).length

lemma holes_filter (p q : Nat → Bool) (n : Nat) : holes (((range n).filter p).map q) 0 =
    ((range n).filter fun k => p k && !q k).map fun k => (((range k).filter p).length : Int) := by
  induction n with
  | zero => rfl
  | succ n ih =>
    rw [range_succ, filter_append, filter_append, map_append, map_append, ← ih]
    cases kept : p n <;> cases other : q n <;> simp [holes, kept, other, zipIdx_append]

lemma renumber_perm (distinct : others.Nodup) (below : ∀ k ∈ others, k < n)
    (apart : ∀ k ∈ others, k ∉ removed) : (others.map fun k => (renumber removed k : Int)).Perm
    (holes (((range n).filter fun k => k ∉ removed).map fun k => k ∉ others) 0) := by
  rw [holes_filter]
  apply Perm.map
  apply (perm_ext_iff_of_nodup distinct (nodup_range.filter _)).mpr
  intro k
  simp only [mem_filter, mem_range, Bool.and_eq_true, Bool.not_eq_true', decide_eq_true_eq,
    decide_eq_false_iff_not, not_not]
  exact ⟨fun mem => ⟨below k mem, apart k mem, mem⟩, fun mem => mem.2.2⟩

lemma reduceMatrix_kept (square : Square (2 ^ n) m) (distinct : removed.Nodup) (below : ∀ k ∈ removed, k < n)
    (fewer : removed.length < n) : (keptOf n removed).count true = n - removed.length ∧
    reduceMatrix (removed.map fun (k : Nat) => (k : Int)) m = .ok (restrict (keptOf n removed) m) := by
  have places : (removed.map fun (k : Nat) => (k : Int)).Perm (holes (keptOf n removed) 0) := by
    simpa [renumber, keptOf] using renumber_perm distinct below fun k _ => not_mem_nil
  have length : (keptOf n removed).length = n := by simp [keptOf]
  have count : (keptOf n removed).count true = n - removed.length := by
    have sizes := length_holes (keptOf n removed) 0
    have same := places.length_eq
    rw [length_map] at same
    omega
  rw [reduceMatrix_eq (length.symm ▸ square) places, if_neg (by omega)]
  exact ⟨count, rfl⟩

lemma count_filter_map {α : Type} (p q : α → Bool) (xs : List α) :
    ((xs.filter p).map q).count true = (xs.map fun x => p x && q x).count true := by
  rw [count_map, count_map, filter_filter]
  simp only [Bool.and_comm]

lemma restrict_restrict {α : Type} (p q : α → Bool) (xs : List α) (some : xs.filter p ≠ []) :
    restrict ((xs.filter p).map q) (restrict (xs.map p) m) = restrict (xs.map fun x => p x && q x) m := by
  have length : ((xs.filter p).map q).length = (xs.map p).count true := by rw [length_map, count_map]
  have index : ∀ i, wide (xs.map p) (wide ((xs.filter p).map q) i) = wide (xs.map fun x => p x && q x) i := by
    intro i
    have digits := length_scatter ((xs.filter p).map q) (toBinary i (((xs.filter p).map q).count true))
    rw [wide, wide, ← length, ← digits, toBinary_ofBinary, scatter_scatter, count_filter_map, wide]
    rw [← length_pos_iff, digits, length_map]
    exact length_pos_iff.mpr some
  have below : ∀ i, wide ((xs.filter p).map q) i < 2 ^ (xs.map p).count true := fun i => length ▸ wide_lt _ i
  have inside : ∀ r c, entry (restrict (xs.map p) m) (wide ((xs.filter p).map q) r) (wide ((xs.filter p).map q) c) =
      entry m (wide (xs.map fun x => p x && q x) r) (wide (xs.map fun x => p x && q x) c) := by
    intro r c
    rw [restrict, entry_table _ (below r) (below c), index, index]
  rw [restrict, count_filter_map]
  simp only [inside]
  rfl

/-- The matrix that remains has the entries of the whole one at the states whose removed digits are 0,
in whatever order the positions are given. To remove some positions and then others, at their places
among those that remain, is to remove all at once. -/
theorem reduceMatrix_restricts {n : Nat} {m : Dense κ} (square : Square (2 ^ n) m) {removed : List Nat}
    (distinct : removed.Nodup) (below : ∀ k ∈ removed, k < n) (fewer : removed.length < n) :
    ∃ part, reduceMatrix (removed.map fun (k : Nat) => (k : Int)) m = .ok part ∧
      Square (2 ^ (n - removed.length)) part ∧
      (∀ i < 2 ^ (n - removed.length), ∀ j < 2 ^ (n - removed.length),
        entry part i j = entry m (wide (keptOf n removed) i) (wide (keptOf n removed) j)) ∧
      ∀ others : List Nat, others.Nodup → (∀ k ∈ others, k < n ∧ k ∉ removed) →
        removed.length + others.length < n → ∀ all : List Nat, all.Perm (removed ++ others) →
        reduceMatrix (others.map fun k => (renumber removed k : Int)) part =
          reduceMatrix (all.map fun (k : Nat) => (k : Int)) m := by
  obtain ⟨count, reduced⟩ := reduceMatrix_kept square distinct below fewer
  refine ⟨_, reduced, count ▸ square_table _ _, ?_, ?_⟩
  · intro i row j column
    rw [← count] at row column
    exact entry_table _ row column
  · intro others apart known more all perm
    have joined : all.Nodup := by
      rw [perm.nodup_iff, nodup_append']
      exact ⟨distinct, apart, fun k inside mem => (known k mem).2 inside⟩
    have inside : ∀ k ∈ all, k < n := by
      intro k mem
      rcases mem_append.mp (perm.mem_iff.mp mem) with old | new
      · exact below k old
      · exact (known k new).1
    have size := perm.length_eq
    rw [length_append] at size
    obtain ⟨wholeCount, whole⟩ := reduceMatrix_kept square joined inside (by omega)
    have masks : keptOf n all = (List.range n).map fun k => decide (k ∉ removed) && decide (k ∉ others) :=
      map_congr_left fun k _ => by simp [perm.mem_iff]
    have rest := (count_map (fun k => decide (k ∉ removed)) (List.range n)).symm.trans count
    have again : Square (2 ^ (((List.range n).filter fun k => k ∉ removed).map fun k => decide (k ∉ others)).length)
        (restrict (keptOf n removed) m) := by
      rw [length_map, rest, ← count]
      exact square_table _ _
    rw [reduceMatrix_eq again (renumber_perm apart (fun k mem => (known k mem).1) fun k mem => (known k mem).2),
      whole, if_neg, masks, ← restrict_restrict]
    · rfl
    · rw [← length_pos_iff, rest]
      omega
    · rw [count_filter_map, ← masks, wholeCount]
      omega

/-- The first of three digits is removed and then the third, which is the second of those that remain. -/
theorem reduceMatrix_restricts_ends : ∃ part, reduceMatrix [0] (table 8 fun r c => 8 * r + c) = .ok part ∧
    entry part 3 2 = 26 ∧ reduceMatrix [1] part = reduceMatrix [2, 0] (table 8 fun r c => 8 * r + c) := by
  obtain ⟨part, done, _, entries, again⟩ := @reduceMatrix_restricts Nat _ 3 (table 8 fun r c => 8 * r + c)
    (square_table _ _) [0] (by decide) (by decide) (by decide)
  refine ⟨part, done, (entries 3 (by decide) 2 (by decide)).trans (by cbv), ?_⟩
  exact again [2] (by decide) (by decide) (by decide) [2, 0] (by decide)

end

end

section

variable [Arithmetic κ]

lemma column_eq (square : Square n m) (c : Nat) : m.column c = (range n).map fun r => entry m r c := by
  apply ext_getElem
  · simp [column, square.rows]
  · intro r first second
    have below : r < m.length := by simpa [column] using first
    simp [column, entry, below]

lemma transpose_eq (positive : 0 < n) (square : Square n m) : m.transpose = (range n).map m.column := by
  have columns : m.columnCount = n := by
    cases m with
    | nil => exact absurd square.rows (by simp; omega)
    | cons row m => exact square.columns row (by simp)
  rw [Dense.transpose, columns]

lemma square_normalise (positive : 0 < n) (square : Square n m) : Square n (normalise m) := by
  constructor
  · rw [normalise, length_map, square.rows]
  · intro row mem
    obtain ⟨old, inside, rfl⟩ := mem_map.mp mem
    rw [length_zipWith, length_map, transpose_eq positive square, length_map,
      length_range, square.columns old inside, Nat.min_self]

lemma entry_normalise (square : Square n m) (row : r < n) (column : c < n) : entry (normalise m) r c =
    entry m r c / Dense.sum ((range n).map fun k => entry m k c) := by
  have pos : 0 < n := Nat.lt_of_le_of_lt (Nat.zero_le c) column
  have inside : r < m.length := by rw [square.rows]; exact row
  have length : c < m[r].length := by rw [square.columns _ (getElem_mem inside)]; exact column
  rw [← column_eq square]
  simp [entry, normalise, transpose_eq pos square, inside, length, column]

end

section

variable [Arithmetic κ] (p : UnitId → Bool) (subset : List UnitId) (m : Dense κ)

def indexOf (s : UnitId → Bool) : Nat := ofBinary (subset.map fun u => p u && s u)

/-- The share of a state among those that are measured after a state was prepared, both on the kept
units of a subset, the others being 0. -/
def share (measured prepared : UnitId → Bool) : κ :=
  let after := indexOf p subset prepared
  entry m (indexOf p subset measured) after /
    Dense.sum ((range (2 ^ (subset.filter p).length)).map fun k =>
      entry m (wide (subset.map p) k) after)

/-- The matrix of the kept units of a subset. -/
def restricted : Dense κ := normalise (restrict (subset.map p) m)

variable {p subset m}

lemma wide_ofBinary (s : UnitId → Bool) (kept : subset.filter p ≠ []) :
    wide (subset.map p) (ofBinary ((subset.filter p).map s)) = indexOf p subset s := by
  have digits : toBinary (ofBinary ((subset.filter p).map s)) ((subset.map p).count true) =
      (subset.filter p).map s := by
    have back := @toBinary_ofBinary ((subset.filter p).map s) (by simpa using kept)
    rwa [length_map, ← count_map] at back
  rw [wide, digits, scatter_map, indexOf]

lemma square_restricted : Square (2 ^ (subset.filter p).length) (restricted p subset m) := by
  rw [← count_map]
  exact square_normalise (Nat.two_pow_pos _) (square_table _ _)

lemma entry_restricted (measured prepared : UnitId → Bool) (kept : subset.filter p ≠ []) :
    entry (restricted p subset m) (ofBinary ((subset.filter p).map measured))
    (ofBinary ((subset.filter p).map prepared)) = share p subset m measured prepared := by
  have row := ofBinary_lt ((subset.filter p).map measured)
  have column := ofBinary_lt ((subset.filter p).map prepared)
  rw [length_map, ← count_map] at row column
  have sums : ((range (2 ^ (subset.map p).count true)).map fun k =>
      entry (restrict (subset.map p) m) k (ofBinary ((subset.filter p).map prepared))) =
      (range (2 ^ (subset.map p).count true)).map fun k =>
        entry m (wide (subset.map p) k) (indexOf p subset prepared) := by
    apply map_congr_left
    intro k below
    rw [restrict, entry_table _ (mem_range.mp below) column, wide_ofBinary prepared kept]
  have square : Square (2 ^ (subset.map p).count true) (restrict (subset.map p) m) :=
    square_table _ _
  rw [restricted, entry_normalise square row column, sums, restrict, entry_table _ row column,
    wide_ofBinary measured kept, wide_ofBinary prepared kept, share, ← count_map]

end

section

variable [Mul κ]

def kronAll [One κ] (ms : List (Dense κ)) : Dense κ := ms.foldr kron [[1]]

lemma square_kron {a b : Dense κ} (first : Square n a) (second : Square k b) :
    Square (n * k) (kron a b) := by
  constructor
  · rw [kron, length_flatMap k (by simp [second.rows]), first.rows]
  · intro row mem
    obtain ⟨r, inside, mem⟩ := mem_flatMap.mp mem
    obtain ⟨s, within, rfl⟩ := mem_map.mp mem
    rw [length_flatMap k (by simp [second.columns s within]), first.columns r inside]

variable [Zero κ]

lemma entry_kron {a b : Dense κ} (first : Square n a) (second : Square k b)
    (row : r < n) (column : c < n) (inner : i < k) (across : j < k) :
    entry (kron a b) (r * k + i) (c * k + j) = entry a r c * entry b i j := by
  have rows : (kron a b)[r * k + i]? = some ((a.getD r []).flatMap fun x => (b.getD i []).map (x * ·)) := by
    rw [kron, getElem?_flatMap (by simp [second.rows]) r inner, first.getElem? row,
      Option.bind_some, getElem?_map, second.getElem? inner, Option.map_some]
  have columns : ((a.getD r []).flatMap fun x => (b.getD i []).map (x * ·))[c * k + j]? =
      some (entry a r c * entry b i j) := by
    have length := second.length_row inner
    rw [getElem?_flatMap (fun _ _ => (length_map _).trans length) c across,
      first.getElem?_entry row column, Option.bind_some, getElem?_map,
      second.getElem?_entry inner across, Option.map_some]
  rw [entry, getD_eq_getElem?_getD, getD_eq_getElem?_getD, rows, Option.getD_some, columns, Option.getD_some]

/-- A factor of a Kronecker product with the digits of a row and a column of it. -/
structure Factor (κ : Type) where
  matrix : Dense κ
  row : List Bool
  column : List Bool
  square : Square (2 ^ row.length) matrix
  columns : column.length = row.length

lemma entry_kronAll [One κ] (fs : List (Factor κ)) :
    Square (2 ^ (fs.flatMap Factor.row).length) (kronAll (fs.map Factor.matrix)) ∧
    (fs.flatMap Factor.column).length = (fs.flatMap Factor.row).length ∧
    entry (kronAll (fs.map Factor.matrix)) (ofBinary (fs.flatMap Factor.row)) (ofBinary (fs.flatMap Factor.column)) =
    (fs.map fun f => entry f.matrix (ofBinary f.row) (ofBinary f.column)).foldr (· * ·) 1 := by
  induction fs with
  | nil => exact ⟨⟨rfl, by simp [kronAll]⟩, rfl, rfl⟩
  | cons f fs ih =>
    obtain ⟨square, len, value⟩ := ih
    have below := And.intro (ofBinary_lt f.row) (ofBinary_lt f.column)
    have within := And.intro (ofBinary_lt (fs.flatMap Factor.row))
      (ofBinary_lt (fs.flatMap Factor.column))
    rw [f.columns] at below
    rw [len] at within
    refine ⟨?_, ?_, ?_⟩
    · rw [flatMap_cons, length_append, Nat.pow_add]
      exact square_kron f.square square
    · rw [flatMap_cons, flatMap_cons, length_append, length_append, len, f.columns]
    · rw [flatMap_cons, flatMap_cons, ofBinary_append, ofBinary_append, len,
        map_cons, map_cons, foldr_cons, ← value]
      exact entry_kron f.square square below.1 below.2 within.1 within.2

end

end CircuitWorks.Spam
