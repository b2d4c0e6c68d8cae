import CircuitWorks.Word
import CircuitWorks.Proofs.Readout.Inverses
import CircuitWorks.Proofs.Spam.Matrices

/-!
Expectation values as means of the signs of rows, the digits of a basis state written in several ways,
and permuters as bijections.
-/

namespace CircuitWorks.Word

open List

/-- The words differ in exactly one place. -/
def Neighbours (u v : List Bool) : Prop :=
  ∃ before b after, u = before ++ b :: after ∧ v = before ++ (!b) :: after

variable {u v : List Bool}

lemma Neighbours.symm : Neighbours u v → Neighbours v u := by
  rintro ⟨before, b, after, rfl, rfl⟩
  exact ⟨before, !b, after, rfl, by simp⟩

lemma Neighbours.concat (a : Bool) : Neighbours u v → Neighbours (u ++ [a]) (v ++ [a]) := by
  rintro ⟨before, b, after, rfl, rfl⟩
  exact ⟨before, b, after ++ [a], by simp, by simp⟩

/-- All words of the width, once each and beginning with zeros, around a circle of neighbours. -/
structure Circular (width : Nat) (code : List (List Bool)) : Prop where
  distinct : code.Nodup
  all : ∀ word, word ∈ code ↔ word.length = width
  first : code.head? = some (replicate width false)
  circle : (code ++ [replicate width false]).IsChain Neighbours

lemma Circular.reflect {width : Nat} {code : List (List Bool)} (c : Circular width code) :
    Circular (width + 1) (code.map (· ++ [false]) ++ code.reverse.map (· ++ [true])) where
  distinct := by
    have once (b : Bool) : (code.map (· ++ [b])).Nodup := c.distinct.map (append_left_injective [b])
    rw [map_reverse]
    refine nodup_append.mpr ⟨once false, nodup_reverse.mpr (once true), ?_⟩
    simp
  all := by
    intro word
    rcases eq_nil_or_concat word with rfl | ⟨front, b, rfl⟩
    · simp
    · cases b <;> simp [c.all]
  first := by simp [c.first, replicate_succ']
  circle := by
    have chain := (isChain_append.mp c.circle).1
    have back : code.reverse.IsChain Neighbours :=
      isChain_reverse.mpr (chain.imp fun _ _ near => near.symm)
    have extended (b : Bool) {l : List (List Bool)} (near : l.IsChain Neighbours) :
        (l.map (· ++ [b])).IsChain Neighbours :=
      isChain_map_of_isChain _ (fun _ _ near => near.concat b) near
    rw [isChain_append, isChain_append]
    refine ⟨⟨extended false chain, extended true back, ?_⟩, isChain_singleton _, ?_⟩
    · -- The last word of the code is repeated, with the other digit after it.
      simp only [getLast?_map, head?_map, head?_reverse, Option.mem_def, Option.map_eq_some_iff]
      rintro _ ⟨last, found, rfl⟩ _ ⟨_, same, rfl⟩
      obtain rfl := Option.some.inj (found.symm.trans same)
      exact ⟨last, false, [], rfl, rfl⟩
    · have last : (code.reverse.map (· ++ [true])).getLast? = some (replicate width false ++ [true]) := by
        simp [c.first]
      rw [getLast?_append, last]
      simp only [Option.some_or, Option.mem_def, head?_cons, Option.some.injEq]
      rintro _ rfl _ rfl
      exact ⟨replicate width false, true, [], rfl, replicate_succ'⟩

theorem grayCode_circular (n : Nat) :
    (grayCode (n + 1)).length = 2 ^ (n + 1) ∧ Circular (n + 1) (grayCode (n + 1)) := by
  induction n with
  | zero =>
    refine ⟨rfl, by decide, ?_, rfl, ?_⟩
    · intro word
      simp [grayCode, length_eq_one_iff]
    · have turn (b : Bool) : Neighbours [b] [!b] := ⟨[], b, [], rfl, rfl⟩
      exact .cons_cons (turn false) (.cons_cons (turn true) (.singleton _))
  | succ n ih =>
    refine ⟨?_, ih.2.reflect⟩
    rw [grayCode, length_append, length_map, length_map, length_reverse, ih.1, pow_succ 2 (n + 1), mul_two]

end CircuitWorks.Word

namespace CircuitWorks.Readout

open List Counter Arithmetic Tensor

variable {rows : List (List Int)}

def isOdd (row : List Int) : Bool := addUp row % 2 = 1

lemma addUp_mod_two (row : List Int) : addUp row % 2 = if isOdd row then 1 else 0 := by
  rw [isOdd]
  rcases Int.emod_two_eq (addUp row) with even | odd
  · simp [even]
  · simp [odd]

lemma addUp_parities (rows : List (List Int)) : addUp (rows.map fun row => addUp row % 2) = rows.countP isOdd := by
  induction rows with
  | nil => rfl
  | cons row rows ih =>
    rw [map_cons, addUp, ih, addUp_mod_two, countP_cons]
    split <;> omega

lemma addUp_weighted (entries : List (List Int × Int)) :
    addUp (entries.map fun e => e.2 * (addUp e.1 % 2)) = weight isOdd entries := by
  induction entries with
  | nil => rfl
  | cons e rest ih =>
    rw [map_cons, addUp, ih, addUp_mod_two, weight_cons]
    split <;> omega

section

variable [Arithmetic κ]

lemma expectationOfRows_eq (lengths : ∀ row ∈ rows, row.length = w) (nonempty : rows ≠ []) :
    expectationOfRows (ofRows w rows) = .ok (parity (ofInt (rows.countP isOdd)) (ofInt rows.length) : κ) := by
  have slices : (ofRows w rows).slices.map entries = rows :=
    Option.some.inj (rows?_ofRows lengths)
  obtain ⟨n, length⟩ := Nat.exists_eq_succ_of_ne_zero (mt length_eq_zero_iff.mp nonempty)
  have parities : addUp ((ofRows w rows).slices.map fun s => addUp s.entries % 2) = rows.countP isOdd := by
    rw [← addUp_parities]
    nth_rewrite 2 [← slices]
    rw [map_map]
    rfl
  rw [expectationOfRows]
  split
  · rename_i none
    cases none
  · rename_i none
    cases length.symm.trans (cons.inj none).1
  · rename_i same
    rw [parities, ← (cons.inj same).1]

lemma expectationOfCounts_eq {c : Counter (List Int)} (tallies : Tallies c rows) (nonempty : rows ≠ []) :
    expectationOfCounts c = .ok (parity (ofInt (rows.countP isOdd)) (ofInt rows.length) : κ) := by
  have total : total c = rows.length := by rw [total_eq_weight, tallies.weight, countP_true]
  have some : (rows.length : Int) ≠ 0 := by simpa using nonempty
  rw [expectationOfCounts, addUp_weighted, tallies.weight, total, if_neg some]

end

/-- Rows of zeros and ones, all of one width. -/
structure IsTable (w : Nat) (rows : List (List Int)) : Prop where
  lengths : ∀ row ∈ rows, row.length = w
  binary : ∀ row ∈ rows, ∀ x ∈ row, x = 0 ∨ x = 1

def sign (row : List Int) : Rat := (-1) ^ row.count 1

/-- The mean of the signs of some rows. -/
def mean (rows : List (List Int)) : Rat := (rows.map sign).sum / rows.length

lemma sign_eq {row : List Int} (binary : ∀ x ∈ row, x = 0 ∨ x = 1) :
    sign row = 1 - 2 * if isOdd row then 1 else 0 := by
  have ones : addUp row = row.count 1 := by
    induction row with
    | nil => rfl
    | cons x row ih =>
      obtain ⟨own, others⟩ := forall_mem_cons.mp binary
      rw [addUp, ih others, count_cons]
      rcases own with rfl | rfl <;> simp [Int.add_comm]
  rw [sign, isOdd, ones]
  rcases Nat.even_or_odd (row.count 1) with even | odd
  · rw [even.neg_one_pow, if_neg]
    · norm_num
    · have half := Nat.even_iff.mp even
      simp only [decide_eq_true_eq]
      omega
  · rw [odd.neg_one_pow, if_pos]
    · norm_num
    · have half := Nat.odd_iff.mp odd
      simp only [decide_eq_true_eq]
      omega

section

variable (binary : ∀ row ∈ rows, ∀ x ∈ row, x = 0 ∨ x = 1)

include binary

lemma sum_signs : (rows.map sign).sum = rows.length - 2 * rows.countP isOdd := by
  induction rows with
  | nil => simp
  | cons row rows ih =>
    obtain ⟨own, others⟩ := forall_mem_cons.mp binary
    rw [map_cons, sum_cons, ih others, sign_eq own, length_cons, countP_cons]
    push_cast
    ring

lemma parity_eq_mean (nonempty : rows ≠ []) : parity (ofInt (rows.countP isOdd)) (ofInt rows.length) = mean rows := by
  have some : (rows.length : Rat) ≠ 0 := by simpa using nonempty
  have value : parity (ofInt (rows.countP isOdd)) (ofInt rows.length) =
      (-2 : Rat) * rows.countP isOdd / rows.length + 1 := rfl
  rw [value, mean, sum_signs binary]
  field_simp
  ring

lemma mean_bounds (nonempty : rows ≠ []) : -1 ≤ mean rows ∧ mean rows ≤ 1 := by
  have positive : (0 : Rat) < rows.length := by
    exact_mod_cast length_pos_iff.mpr nonempty
  have most : (rows.countP isOdd : Rat) ≤ rows.length := by exact_mod_cast countP_le_length
  rw [mean, sum_signs binary, le_div_iff₀ positive, div_le_iff₀ positive]
  constructor <;> linarith

end

lemma mean_append {more : List (List Int)} (first : rows ≠ []) (second : more ≠ []) : mean (rows ++ more) =
    (rows.length * mean rows + more.length * mean more) / (rows.length + more.length) := by
  have some : (rows.length : Rat) ≠ 0 := by simpa using first
  have others : (more.length : Rat) ≠ 0 := by simpa using second
  rw [mean, mean, mean, map_append, sum_append, length_append, Nat.cast_add, mul_div_cancel₀ _ some,
    mul_div_cancel₀ _ others]

/-- A row with its columns in another order. -/
def rearrange (order : List Nat) (row : List Int) : List Int := order.map fun k => row.getD k 0

lemma rearrange_perm {order : List Nat} {row : List Int} (perm : order.Perm (range row.length)) :
    (rearrange order row).Perm row := by
  have all : (range row.length).map (fun k => row.getD k 0) = row := by
    apply ext_getElem
    · simp
    · intro k _ inside
      simp [inside]
  exact (perm.map _).trans (Perm.of_eq all)

lemma IsTable.rearrange (table : IsTable w rows) {order : List Nat} (perm : order.Perm (range w)) :
    IsTable w (rows.map (rearrange order)) ∧ mean (rows.map (rearrange order)) = mean rows := by
  have each : ∀ row ∈ rows, (Readout.rearrange order row).Perm row := fun row mem =>
    rearrange_perm ((table.lengths row mem).symm ▸ perm)
  refine ⟨⟨?_, ?_⟩, ?_⟩
  · intro _ mem
    obtain ⟨row, inside, rfl⟩ := mem_map.mp mem
    rw [(each row inside).length_eq, table.lengths row inside]
  · intro _ mem x own
    obtain ⟨row, inside, rfl⟩ := mem_map.mp mem
    exact table.binary row inside x ((each row inside).mem_iff.mp own)
  · have signs : ∀ row ∈ rows, (sign ∘ Readout.rearrange order) row = sign row := fun row mem => by
      rw [Function.comp_apply, sign, sign, (each row mem).count_eq]
    rw [mean, mean, map_map, map_congr_left signs, length_map]

/-- The expectation value of a table of readouts is the mean of the signs of its rows, whether they are
listed or counted. It lies between -1 and 1, does not depend on the order of rows or columns, and of two
tables one after the other it is the weighted mean. -/
theorem expectation_of_table {w : Nat} {rows : List (List Int)} (table : IsTable w rows)
    (nonempty : rows ≠ []) :
    expectationOfRows (ofRows w rows) = .ok (mean rows) ∧
    (∃ c, countRows (ofRows w rows) = .ok c ∧ expectationOfCounts c = .ok (mean rows)) ∧
    -1 ≤ mean rows ∧ mean rows ≤ 1 ∧
    (∀ others, others.Perm rows → expectationOfRows (ofRows w others) = .ok (mean rows)) ∧
    (∀ order, order.Perm (List.range w) →
      expectationOfRows (ofRows w (rows.map (rearrange order))) = .ok (mean rows)) ∧
    ∀ more, IsTable w more → more ≠ [] →
      expectationOfRows (ofRows w more) = .ok (mean more) ∧
      expectationOfRows (ofRows w (rows ++ more)) =
        .ok ((rows.length * mean rows + more.length * mean more) / (rows.length + more.length)) := by
  have value {rows : List (List Int)} (table : IsTable w rows) (nonempty : rows ≠ []) :
      expectationOfRows (ofRows w rows) = .ok (mean rows) := by
    rw [expectationOfRows_eq table.lengths nonempty, parity_eq_mean table.binary nonempty]
  obtain ⟨least, most⟩ := mean_bounds table.binary nonempty
  refine ⟨value table nonempty, ⟨tally lexLe rows, ?_, ?_⟩, least, most, ?_, ?_, ?_⟩
  · rw [countRows, Tensor.rows?_ofRows table.lengths]
    rfl
  · rw [expectationOfCounts_eq (isTally_tally lexLe rows).toTallies nonempty,
      parity_eq_mean table.binary nonempty]
  · intro others perm
    have same : mean others = mean rows := by
      rw [mean, mean, (perm.map sign).sum_eq, perm.length_eq]
    rw [← same]
    exact value ⟨fun row mem => table.lengths row (perm.mem_iff.mp mem),
      fun row mem => table.binary row (perm.mem_iff.mp mem)⟩ (mt (fun none => by simpa [none] using perm) nonempty)
  · intro order perm
    obtain ⟨moved, same⟩ := table.rearrange perm
    rw [← same]
    exact value moved (mt map_eq_nil_iff.mp nonempty)
  · intro more others some
    refine ⟨value others some, ?_⟩
    rw [← mean_append nonempty some]
    exact value ⟨forall_mem_append.mpr ⟨table.lengths, others.lengths⟩,
      forall_mem_append.mpr ⟨table.binary, others.binary⟩⟩ (append_ne_nil_of_left_ne_nil nonempty more)

/-- Three readouts of two bits, two of them equal. -/
theorem expectation_of_table_repeated :
    expectationOfRows (ofRows 2 [[0, 1], [1, 1], [0, 1]]) = .ok (-1 / 3 : Rat) := by
  have table : IsTable 2 [[0, 1], [1, 1], [0, 1]] := ⟨by decide, by decide⟩
  have value := (expectation_of_table table (by decide)).1
  rw [value]
  norm_num [mean, sign]

end CircuitWorks.Readout

namespace CircuitWorks

section

open List Outcomes Spam BitVec

namespace Word

lemma getLsbD_reverseLow (v : BitVec w) {width : Nat} (room : width ≤ w) (i : Nat) :
    (reverseLow v width).getLsbD i = (decide (i < width) && v.getLsbD (width - 1 - i)) := by
  induction width generalizing v with
  | zero => simp [reverseLow]
  | succ width ih =>
    have top : ((v &&& 1#w) <<< width).getLsbD i = (decide (i = width) && v.getLsbD 0) := by
      by_cases own : i = width
      · subst own
        have inside : i < w := by omega
        have pos : 0 < w := by omega
        simp [inside, pos]
      · by_cases above : width < i
        · have shifted : i - width ≠ 0 := by omega
          simp [own, shifted]
        · have under : i < width := by omega
          simp [own, under]
    -- the lowest bit becomes the highest of the width, the others come from the shifted word
    rw [reverseLow, getLsbD_or, top, ih (v >>> 1) (by omega), getLsbD_ushiftRight]
    by_cases own : i = width
    · subst own
      simp
    · by_cases under : i < width
      · have place : 1 + (width - 1 - i) = width + 1 - 1 - i := by omega
        have within : i < width + 1 := by omega
        simp [own, under, within, place]
      · have beyond : ¬i < width + 1 := by omega
        simp [own, under, beyond]

end Word

namespace Readout

open Outcome BitPermuter

section

variable {w v : Nat}

lemma length_ofIndex (v : Int) (w : Nat) (basis : BasisOrder) : (ofIndex v w basis).length = w := by
  cases basis <;> simp [ofIndex]

lemma reverse_ofIndex (v : Int) (w : Nat) : (ofIndex v w .ilo).reverse = ofIndex v w .dlo :=
  reverse_reverse _

lemma testBit_ofIndex (v w k : Nat) : (ofIndex v w .dlo).getD k false = (decide (k < w) && v.testBit k) := by
  by_cases below : k < w
  · simp [ofIndex, below, digit_natCast]
  · simp [ofIndex, below]

lemma valueOf_ofIndex (below : v < 2 ^ w) : valueOf (ofIndex v w .ilo) = v := by
  apply Nat.eq_of_testBit_eq
  intro k
  rw [testBit_valueOf, reverse_ofIndex, testBit_ofIndex]
  by_cases inside : k < w
  · simp [inside]
  · have above : 2 ^ w ≤ 2 ^ k := Nat.pow_le_pow_right (by decide) (by omega)
    simp [inside, Nat.testBit_lt_two_pow (Nat.lt_of_lt_of_le below above)]

lemma testBit_valueOf_dlo (v w k : Nat) :
    (valueOf (ofIndex v w .dlo)).testBit k = (decide (k < w) && v.testBit (w - 1 - k)) := by
  rw [testBit_valueOf]
  by_cases inside : k < w
  · have within : k < (ofIndex v w .dlo).length := by rwa [length_ofIndex]
    have mirrored : w - 1 - k < w := by omega
    rw [getD_eq_getElem?_getD, getElem?_reverse within, length_ofIndex, ← getD_eq_getElem?_getD, testBit_ofIndex]
    simp [inside, mirrored]
  · simp [inside, length_ofIndex]

lemma reversed_perm (w : Nat) : (range w).reverse.Perm (range (range w).reverse.length) := by
  rw [length_reverse, length_range]
  exact reverse_perm _

lemma reverseDigits_eq (v w : Nat) : reverseDigits v w = valueOf (ofIndex v w .dlo) := by
  rw [reverseDigits, Int.ofNat_inj]
  apply Nat.eq_of_testBit_eq
  intro k
  rw [testBit_valueOf_dlo]
  by_cases inside : k < w
  · have place := testBit_moved_place (reversed_perm w) v (k := k) (by simpa using inside)
    have mirrored : w - 1 - (w - 1 - k) = k := by omega
    simpa [inside, mirrored, digit_natCast] using place
  · have bound := moved_lt (range w).reverse v
    have above : 2 ^ w ≤ 2 ^ k := Nat.pow_le_pow_right (by decide) (by omega)
    rw [length_reverse, length_range] at bound
    simp [inside, Nat.testBit_lt_two_pow (Nat.lt_of_lt_of_le bound above)]

lemma permuter_reversed (v : Int) (w : Nat) :
    ∃ q, permuter ((range w).reverse.map fun (i : Nat) => (i : Int)) = .ok q ∧
    (q.permute v false).1 = reverseDigits v w :=
  ⟨_, permuter_eq (reversed_perm w), permute_fresh _ v false⟩

lemma reverseLow_eq (room : w ≤ 32) (v : Nat) :
    (Word.reverseLow (BitVec.ofNat 32 v) w).toNat = valueOf (ofIndex v w .dlo) := by
  apply Nat.eq_of_testBit_eq
  intro k
  rw [testBit_toNat, Word.getLsbD_reverseLow _ room, testBit_valueOf_dlo, getLsbD_ofNat]
  by_cases inside : k < w
  · have word : w - 1 - k < 32 := by omega
    simp [inside, word]
  · simp [inside]

end

/-- The encoders of basis states agree. A number is written with the same digits as a text, by shifting
and as the row of a table, and these digits make the number. In the other basis order they are
reversed, and the number of the reversed digits is that of the permuter and, in a word of 32 bits, that
of the word. -/
theorem encoders_agree {w v : Nat} (positive : 0 < w) (below : v < 2 ^ w) :
    ∃ bits : List Bool, bits.length = w ∧
      Spam.binaryDigits v w = .ok bits ∧ ofIndex v w .ilo = bits ∧
      (Outcomes.ofNumbers [(v : Int)] w true).readout = .ok bits ∧
      Spam.ofBinary bits = v ∧
      ofIndex v w .dlo = bits.reverse ∧
      reverseDigits v w = Spam.ofBinary bits.reverse ∧
      (∃ q, permuter ((List.range w).reverse.map fun (i : Nat) => (i : Int)) = .ok q ∧
        (q.permute v false).1 = Spam.ofBinary bits.reverse) ∧
      (w ≤ 32 →
        (Word.reverseLow (BitVec.ofNat 32 v) w).toNat = Spam.ofBinary bits.reverse) := by
  have value := valueOf_ofIndex below
  have reversed := reverse_ofIndex v w
  have fits : Outcomes.Fits w v := ⟨Int.natCast_nonneg v, by exact_mod_cast below⟩
  have text : Spam.toBinary v w = ofIndex v w .ilo := by
    apply valueOf_inj
    · rw [Spam.length_toBinary positive below, length_ofIndex]
    · exact (Spam.ofBinary_toBinary v w).trans value.symm
  have padded : Outcomes.padded w v = ofIndex v w .ilo := by
    apply valueOf_inj
    · rw [(Outcomes.length_padded_eq_iff positive fits.1).mpr fits.2, length_ofIndex]
    · rw [value]
      exact_mod_cast Outcomes.valueOf_padded w fits.1
  have row : (Outcomes.ofNumbers [(v : Int)] w true).readout = .ok (ofIndex v w .ilo) := by
    rw [Outcomes.ofNumbers_of_fits positive (by simpa using fits), List.map_singleton]
    change (Outcomes.single w (Outcomes.padded w v)).readout = _
    rw [padded, Outcomes.readout_single (length_ofIndex v w .ilo)]
  have mirrored : reverseDigits v w = Spam.ofBinary (ofIndex v w .ilo).reverse := by
    rw [reversed]
    exact reverseDigits_eq v w
  rcases permuter_reversed v w with ⟨q, made, moved⟩
  refine ⟨ofIndex v w .ilo, length_ofIndex v w .ilo, congrArg Except.ok text, rfl, row, value,
    reversed.symm, mirrored, ⟨q, made, moved.trans mirrored⟩, ?_⟩
  intro room
  rw [reversed]
  exact reverseLow_eq room v

/-- The digits of 6 in five places, which are those of 12 in the other order. -/
theorem encoders_agree_six :
    0 < 5 ∧ 6 < 2 ^ 5 ∧ ∃ bits : List Bool, bits = [false, false, true, true, false] ∧
      Spam.binaryDigits 6 5 = .ok bits ∧ ofIndex 6 5 .ilo = bits ∧
      (Outcomes.ofNumbers [6] 5 true).readout = .ok bits ∧ Spam.ofBinary bits = 6 ∧
      ofIndex 6 5 .dlo = bits.reverse ∧ reverseDigits 6 5 = Spam.ofBinary bits.reverse ∧
      (Word.reverseLow 6#32 5).toNat = Spam.ofBinary bits.reverse ∧ Spam.ofBinary bits.reverse = 12 := by
  rcases encoders_agree (w := 5) (v := 6) (by decide) (by decide) with
    ⟨bits, _, text, shifted, row, value, other, mirrored, _, word⟩
  have digits : bits = [false, false, true, true, false] := shifted.symm.trans (by decide)
  exact ⟨by decide, by decide, bits, digits, text, shifted, row, value, other, mirrored,
    word (by decide), by rw [digits]; rfl⟩

end Readout

end

open List Equiv

variable {size : Nat} {f g : Nat → Nat}

lemma map_range_perm (inside : ∀ v < size, f v < size) (inverse : ∀ v < size, g (f v) = v) :
    ((range size).map f).Perm (range size) := by
  have distinct : ((range size).map f).Nodup := by
    apply List.Nodup.map_on _ nodup_range
    intro v first w second same
    rw [← inverse v (mem_range.mp first), same, inverse w (mem_range.mp second)]
  have below : (range size).map f ⊆ range size := by
    intro k mem
    rcases mem_map.mp mem with ⟨v, own, rfl⟩
    exact mem_range.mpr (inside v (mem_range.mp own))
  exact (distinct.subperm below).perm_of_length_le (by simp)

variable {n : Nat} {rest : List Nat} {α : Type} {t : Tensor α}

namespace Tensor

variable {α : Type} {t : Tensor α}

lemma part_chosen {xs : List α} (length : xs.length = n * size) (inside : ∀ v < n, f v < n)
    (below : k < n) : part size k ((range n).flatMap fun v => part size (f v) xs) = part size (f k) xs := by
  have len : ∀ row ∈ (range n).map fun v => part size (f v) xs, row.length = size := by
    intro row mem
    rcases mem_map.mp mem with ⟨v, own, rfl⟩
    exact length_part length (inside v (mem_range.mp own))
  -- the chosen parts are rows of one length, so cutting what they make gives them back
  have rows := congrArg (·[k]?) (map_part_flatten len)
  simpa [below, ← flatMap_def] using rows

lemma pick_pick (full : t.Full) (shape : t.shape = n :: rest) (first : ∀ v < n, f v < n)
    (second : ∀ v < n, g v < n) (inverse : ∀ v < n, f (g v) = v) :
    ∃ u, u.shape = n :: rest ∧ t.pick ((range n).map f) = some u ∧ u.pick ((range n).map g) = some t := by
  have length : t.entries.length = n * volume rest := by rw [full, shape, volume_cons]
  let u : Tensor α := ⟨n :: rest, (range n).flatMap fun v => part (volume rest) (f v) t.entries⟩
  have chosen : t.pick ((range n).map f) = some u := by
    rw [pick_eq shape (Readout.below_of_mem_map first), length_map, length_range, flatMap_map]
  have back : ((range n).flatMap fun v => part (volume rest) (g v) u.entries) = t.entries := by
    calc
      ((range n).flatMap fun v => part (volume rest) (g v) u.entries)
      _ = (range n).flatMap fun v => part (volume rest) (f (g v)) t.entries := by
        apply flatMap_congr
        intro v mem
        exact part_chosen length first (second v (mem_range.mp mem))
      _ = (range n).flatMap fun v => part (volume rest) v t.entries := by
        apply flatMap_congr
        intro v mem
        rw [inverse v (mem_range.mp mem)]
      _ = t.entries := flatMap_part length
  refine ⟨u, rfl, chosen, ?_⟩
  have again := pick_eq (t := u) rfl (Readout.below_of_mem_map second)
  rw [again, length_map, length_range, flatMap_map, back, ← shape]

end Tensor

namespace BitPermuter

variable {n : Nat} {p : Perm (Fin n)}

structure Acts (p : Perm (Fin n)) (q : BitPermuter) : Prop where
  digits : ∀ v < 2 ^ n, ∀ i : Fin n,
    Digits.digitAt n (p i) (q.permute (v : Nat) false).1.toNat = Digits.digitAt n i v
  bijective : ∀ inverse : Bool,
    Set.BijOn (fun v => (q.permute v inverse).1) (Set.Ico (0 : Int) (2 ^ n)) (Set.Ico 0 (2 ^ n))
  back : ∀ v : Int, 0 ≤ v → v < 2 ^ n → ∀ inverse : Bool,
    (q.permute (q.permute v inverse).1 (!inverse)).1 = v ∧
      ((q.permute v inverse).2.permute (q.permute v inverse).1 (!inverse)).1 = v
  all : q.permuteAll.1.Perm ((range (2 ^ n)).map fun (v : Nat) => (v : Int))

lemma moved_mem_Ico (p : Perm (Fin n)) (inverse : Bool) (v : Int) :
    (moved (placesOf p) inverse v : Int) ∈ Set.Ico (0 : Int) (2 ^ n) :=
  ⟨Int.natCast_nonneg _, by exact_mod_cast moved_placesOf_lt p inverse v⟩

lemma moved_bijOn (p : Perm (Fin n)) (inverse : Bool) :
    Set.BijOn (fun v => (moved (placesOf p) inverse v : Int)) (Set.Ico (0 : Int) (2 ^ n)) (Set.Ico 0 (2 ^ n)) := by
  have both : Set.InvOn (fun v => (moved (placesOf p) (!inverse) v : Int))
      (fun v => (moved (placesOf p) inverse v : Int)) (Set.Ico 0 (2 ^ n)) (Set.Ico 0 (2 ^ n)) := by
    constructor
    · intro v inside
      exact moved_back p inside.1 inside.2 inverse
    · intro v inside
      have there := moved_back p inside.1 inside.2 (!inverse)
      rwa [Bool.not_not] at there
  exact both.bijOn (fun v _ => moved_mem_Ico p inverse v) fun v _ => moved_mem_Ico p (!inverse) v

lemma moved_range_perm (p : Perm (Fin n)) :
    ((range (2 ^ n)).map fun (v : Nat) => moved (placesOf p) false v).Perm (range (2 ^ n)) := by
  apply map_range_perm (g := fun v => moved (placesOf p.symm) false v)
  · exact fun v _ => moved_placesOf_lt p false v
  · exact fun v below => moved_symm_moved p below

lemma Remembers.acts {seen : List (Int × Bool)}
    (memory : Remembers (placesOf p) seen q) (inside : ∀ c ∈ seen, 0 ≤ c.1 ∧ c.1 < 2 ^ n) : Acts p q where
  digits := by
    intro v _ i
    rw [memory.right inside, Int.toNat_natCast]
    exact digitAt_placesOf p v i
  bijective := by
    intro inv
    simp only [memory.right inside]
    exact moved_bijOn p inv
  back := by
    intro v natural below inv
    have asked : ∀ c ∈ (v, inv) :: seen, 0 ≤ c.1 ∧ c.1 < 2 ^ n :=
      forall_mem_cons.mpr ⟨⟨natural, below⟩, inside⟩
    rw [(memory.permute v inv).right asked, memory.right inside, memory.right inside]
    exact ⟨moved_back p natural below inv, moved_back p natural below inv⟩
  all := by
    have asked : ∀ c ∈ (range (2 ^ n)).map fun (v : Nat) => ((v : Int), false), 0 ≤ c.1 ∧ c.1 < 2 ^ n := by
      intro c mem
      rcases mem_map.mp mem with ⟨v, below, rfl⟩
      have power : (v : Int) < 2 ^ n := by exact_mod_cast mem_range.mp below
      exact ⟨Int.natCast_nonneg v, power⟩
    have range : range (Nat.pow 2 q.places.length) = range (2 ^ n) := by
      rw [memory.kept, length_placesOf]
      rfl
    have perm := (moved_range_perm p).map fun (v : Nat) => (v : Int)
    rw [permuteAll, range, permuteFrom_eq_answers, memory.all_right inside asked, map_map]
    rw [map_map] at perm
    exact perm

end BitPermuter

namespace Readout

open BitPermuter

lemma basisPlaces_tuple (p : Perm (Fin n)) : basisPlaces (2 ^ n) (tuple p) =
    .ok ((range (2 ^ n)).map fun (v : Nat) => moved (placesOf p) false v) := by
  have places := basisPlaces_eq (placesOf_perm p)
  rwa [length_placesOf] at places

lemma permuteBasis_of_pick (shape : t.shape = 2 ^ n :: rest) (p : Perm (Fin n))
    (picked : t.pick ((range (2 ^ n)).map fun (v : Nat) => moved (placesOf p) false v) = some u) :
    permuteBasis t (tuple p) = .ok u := by
  rw [permuteBasis, shape]
  simp only [basisPlaces_tuple, bind, Except.bind, picked]
  rfl

lemma permuteBasis_back (full : t.Full) (shape : t.shape = 2 ^ n :: rest) (p : Perm (Fin n)) :
    ∃ u, permuteBasis t (tuple p) = .ok u ∧ permuteBasis u (tuple p.symm) = .ok t := by
  have inv : ∀ v < 2 ^ n, moved (placesOf p) false (moved (placesOf p.symm) false (v : Nat) : Nat) = v := by
    intro v below
    have back := moved_symm_moved p.symm below
    rwa [symm_symm] at back
  rcases Tensor.pick_pick full shape (fun v _ => moved_placesOf_lt p false v)
    (fun v _ => moved_placesOf_lt p.symm false v) inv with ⟨u, shape', first, second⟩
  exact ⟨u, permuteBasis_of_pick shape p first, permuteBasis_of_pick shape' p.symm second⟩

lemma permuteBasis_refused (sided : t.shape ≠ []) {xs : List Int}
    (other : ¬∃ p : Perm (Fin xs.length), xs = tuple p) :
    ∃ e, permuteBasis t xs = .error e ∧ (HasProblem.problem e).fault = .value := by
  rcases exists_cons_of_ne_nil sided with ⟨n, rest, shape⟩
  have passed : ∀ e, basisPlaces n xs = .error e → permuteBasis t xs = .error e := by
    intro e refused
    rw [permuteBasis, shape]
    simp only [refused]
    rfl
  by_cases size : Nat.pow 2 xs.length = n
  · refine ⟨.permutation, passed _ ?_, rfl⟩
    rw [basisPlaces, if_neg (not_not_intro size), permuter_of_not_tuple other]
    rfl
  · refine ⟨.permutationLength, passed _ ?_, rfl⟩
    rw [basisPlaces, if_pos size]
    rfl

/-- A tuple is taken just if it is that of a permutation, and the permuter then acts by it, whatever
was asked before as long as it was below the power of two. Other tuples are refused as bad values. An
array over the basis states is rearranged by a permutation and, by its inverse, back. -/
theorem permuter_acts :
    (∀ (n : Nat) (p : Equiv.Perm (Fin n)), ∃ fresh, permuter (tuple p) = .ok fresh ∧
      ∀ calls : List (Int × Bool), (∀ c ∈ calls, 0 ≤ c.1 ∧ c.1 < 2 ^ n) →
        Acts p (fresh.after calls)) ∧
    (∀ (n : Nat) (p : Equiv.Perm (Fin n)) (α : Type) (t : Tensor α) (rest : List Nat), t.Full →
      t.shape = 2 ^ n :: rest →
        ∃ u, permuteBasis t (tuple p) = .ok u ∧ permuteBasis u (tuple p.symm) = .ok t) ∧
    ∀ xs : List Int, (¬∃ p : Equiv.Perm (Fin xs.length), xs = tuple p) →
      permuter xs = .error .permutation ∧ (HasProblem.problem Error.permutation).fault = .value ∧
      ∀ (α : Type) (t : Tensor α), t.shape ≠ [] →
        ∃ e, permuteBasis t xs = .error e ∧ (HasProblem.problem e).fault = .value := by
  refine ⟨?_, ?_, ?_⟩
  · intro n p
    refine ⟨_, permuter_tuple p, ?_⟩
    intro calls asked
    have memory := (remembers_fresh (placesOf p)).after calls
    exact memory.acts (by simpa using asked)
  · intro n p α t rest full shape
    exact permuteBasis_back full shape p
  · intro xs other
    exact ⟨permuter_of_not_tuple other, rfl, fun α t sided => permuteBasis_refused sided other⟩

/-- Three digits that go around. -/
theorem permuter_acts_cycle :
    (∃ fresh, permuter (tuple (finRotate 3)) = .ok fresh ∧
      Acts (finRotate 3) (fresh.after [(6, true), (3, false)])) ∧
    (∃ u, permuteBasis (.ofList (List.range 8)) (tuple (finRotate 3)) = .ok u ∧
      permuteBasis u (tuple (finRotate 3).symm) = .ok (.ofList (List.range 8))) ∧
    (¬∃ p : Equiv.Perm (Fin 3), ([1, 0, 1] : List Int) = tuple p) ∧
    permuter [1, 0, 1] = .error .permutation := by
  rcases permuter_acts with ⟨acts, back, refused⟩
  rcases acts 3 (finRotate 3) with ⟨fresh, made, moves⟩
  have repeated : ¬∃ p : Equiv.Perm (Fin 3), ([1, 0, 1] : List Int) = tuple p := by decide
  exact ⟨⟨fresh, made, moves _ (by decide)⟩, back 3 (finRotate 3) Nat _ [] rfl rfl, repeated,
    (refused [1, 0, 1] repeated).1⟩

end Readout

end CircuitWorks
