import CircuitWorks.Proofs.Result.Counts
import Mathlib

/-! Permutations of the digits of numbers and of arrays over basis states, and their inverses. -/

namespace CircuitWorks

section

open List Tensor

variable {k j n : Nat} {rest : List Nat} {f : Nat → Nat}

namespace BitPermuter

def table (p : BitPermuter) (inverse : Bool) : List (Int × Int) :=
  if inverse then p.backward else p.forward

lemma mem_record {key value : Int} {table : List (Int × Int)}
    (mem : e ∈ record key value table) : e = (key, value) ∨ e ∈ table := by
  induction table with
  | nil => exact .inl (mem_singleton.mp mem)
  | cons f rest ih =>
    rw [record] at mem
    split at mem
    · rcases mem_cons.mp mem with same | inside
      · exact .inl same
      · exact .inr (.tail f inside)
    · rcases mem_cons.mp mem with same | inside
      · exact .inr (mem_cons.mpr (.inl same))
      · exact (ih inside).imp id (mem_cons_of_mem f)

lemma permute_cases (p : BitPermuter) (v : Int) (inverse : Bool) :
    (∃ r, (v, r) ∈ p.table inverse ∧ p.permute v inverse = (r, p)) ∨
    ∃ q, p.permute v inverse = ((moved p.places inverse v : Int), q) ∧ q.places = p.places ∧
    q.table inverse = record v (moved p.places inverse v) (p.table inverse) ∧
    q.table (!inverse) = record (moved p.places inverse v) v (p.table (!inverse)) := by
  cases found : (p.table inverse).lookup v with
  | some r =>
    rcases lookup_eq_some_iff.mp found with ⟨before, after, parts, _⟩
    refine .inl ⟨r, by simp [parts], ?_⟩
    rw [table] at found
    rw [permute, found]
  | none =>
    rw [table] at found
    refine .inr ⟨(p.permute v inverse).2, ?_⟩
    rw [permute, found]
    cases inverse with
    | true => exact ⟨rfl, rfl, rfl, rfl⟩
    | false => exact ⟨rfl, rfl, rfl, rfl⟩

def answers (p : BitPermuter) : List (Int × Bool) → List Int
  | [] => []
  | c :: rest => (p.permute c.1 c.2).1 :: (p.permute c.1 c.2).2.answers rest

def after (p : BitPermuter) : List (Int × Bool) → BitPermuter
  | [] => p
  | c :: rest => (p.permute c.1 c.2).2.after rest

lemma permuteFrom_eq_answers (p : BitPermuter) (vs : List Nat) :
    (p.permuteFrom vs).1 = p.answers (vs.map fun (v : Nat) => ((v : Int), false)) := by
  induction vs generalizing p with
  | nil => rfl
  | cons v rest ih => rw [permuteFrom, map_cons, answers, ← ih]

/-- Each entry is what the permutation gives, or the way back from a question of the other direction. -/
structure Remembers (places : List Nat) (seen : List (Int × Bool)) (q : BitPermuter) : Prop where
  kept : q.places = places
  entries : ∀ (inverse : Bool), ∀ e ∈ q.table inverse, e.2 = moved places inverse e.1 ∨
    (e.2, !inverse) ∈ seen ∧ moved places (!inverse) e.2 = e.1

lemma remembers_fresh (places : List Nat) : Remembers places [] { places } where
  kept := rfl
  entries := by
    intro inv e mem
    cases inv <;> cases mem

section

variable {places : List Nat} {seen : List (Int × Bool)} {q : BitPermuter}

section

variable (memory : Remembers places seen q)

include memory

lemma Remembers.answer (v : Int) (inverse : Bool) :
    (q.permute v inverse).1 = moved places inverse v ∨ ((q.permute v inverse).1, !inverse) ∈ seen ∧
    moved places (!inverse) (q.permute v inverse).1 = v := by
  rcases q.permute_cases v inverse with ⟨r, known, same⟩ | ⟨next, same, _⟩
  · rw [same]
    exact memory.entries inverse (v, r) known
  · rw [same, memory.kept]
    exact .inl rfl

lemma Remembers.permute (v : Int) (inverse : Bool) :
    Remembers places ((v, inverse) :: seen) (q.permute v inverse).2 := by
  have weaker : ∀ (direction : Bool), ∀ e ∈ q.table direction, e.2 = moved places direction e.1 ∨
      (e.2, !direction) ∈ (v, inverse) :: seen ∧ moved places (!direction) e.2 = e.1 := by
    intro direction e mem
    exact (memory.entries direction e mem).imp id fun back => ⟨.tail _ back.1, back.2⟩
  rcases q.permute_cases v inverse with ⟨r, _, same⟩ | ⟨next, same, kept, own, other⟩
  · rw [same]
    exact ⟨memory.kept, weaker⟩
  · rw [same]
    rw [memory.kept] at kept own other
    refine ⟨kept, ?_⟩
    intro direction e mem
    -- the answer is written to the table of its own direction, the way back to the other one
    by_cases towards : direction = inverse
    · rw [towards, own] at mem
      rcases mem_record mem with written | old
      · rw [written, towards]
        exact .inl rfl
      · exact weaker direction e (towards ▸ old)
    · have back : direction = !inverse := Bool.eq_not_of_ne towards
      rw [back, other] at mem
      rcases mem_record mem with written | old
      · rw [written, back, Bool.not_not]
        exact .inr ⟨mem_cons_self, rfl⟩
      · exact weaker direction e (back ▸ old)

lemma Remembers.after (calls : List (Int × Bool)) : Remembers places (calls.reverse ++ seen) (q.after calls) := by
  induction calls generalizing q seen with
  | nil => exact memory
  | cons c rest ih =>
    have later := ih (memory.permute c.1 c.2)
    rw [reverse_cons, append_assoc]
    exact later

/-- If no question can be mistaken for a way back, all answers are right. -/
lemma Remembers.answers_eq (asked : Int × Bool → Prop)
    (known : ∀ c ∈ seen, asked c) (back : ∀ w v inverse, asked (w, !inverse) → asked (v, inverse) →
    moved places (!inverse) w = v → w = moved places inverse v)
    {calls : List (Int × Bool)} (new : ∀ c ∈ calls, asked c) :
    q.answers calls = calls.map fun c => ((moved places c.2 c.1 : Nat) : Int) := by
  induction calls generalizing q seen with
  | nil => rfl
  | cons c rest ih =>
    rcases forall_mem_cons.mp new with ⟨own, others⟩
    have first : (q.permute c.1 c.2).1 = moved places c.2 c.1 := by
      rcases memory.answer c.1 c.2 with right | ⟨earlier, way⟩
      · exact right
      · exact back _ c.1 c.2 (known _ earlier) own way
    have later := ih (memory.permute c.1 c.2) (forall_mem_cons.mpr ⟨own, known⟩) others
    rw [answers, first, later, map_cons]

end

lemma permuteFrom_fresh (places : List Nat) (vs : List Nat) : (permuteFrom { places } vs).1 =
    vs.map fun (v : Nat) => ((moved places false (v : Int) : Nat) : Int) := by
  have forwards : ∀ c ∈ vs.map fun (v : Nat) => ((v : Int), false), c.2 = false := by simp
  have apart : ∀ (w v : Int) (inverse : Bool), (!inverse) = false → inverse = false →
      (moved places (!inverse) w : Int) = v → w = moved places inverse v := by
    intro w v inverse one two
    simp [two] at one
  have all := (remembers_fresh places).answers_eq (fun c => c.2 = false) (by simp) apart forwards
  rw [permuteFrom_eq_answers, all, map_map]
  rfl

end

lemma digit_natCast (v k : Nat) : digit v k = v.testBit k := by
  rw [digit, Nat.testBit_eq_decide_div_mod_eq, decide_eq_decide]
  change (v : Int) / ((2 ^ k : Nat) : Int) % 2 = 1 ↔ _
  omega

lemma isPermutation_iff (places : List Int) : isPermutation places = true ↔
    places.Perm ((range places.length).map fun (i : Nat) => (i : Int)) := by
  have sorted : (places.mergeSort (· ≤ ·)).Pairwise (· ≤ ·) := by
    have by_le := @pairwise_mergeSort Int (fun a b => decide (a ≤ b))
      (by simpa using fun a b c => Int.le_trans) (by simpa using Int.le_total) places
    simpa using by_le
  rw [isPermutation, decide_eq_true_eq]
  constructor
  · intro same
    have perm := mergeSort_perm places (· ≤ ·)
    rw [same] at perm
    exact perm.symm
  · intro perm
    have ascending : ((range places.length).map fun (i : Nat) => (i : Int)).Pairwise (· ≤ ·) := by
      rw [pairwise_map]
      exact pairwise_le_range.imp Int.ofNat_le.mpr
    exact ((mergeSort_perm places (· ≤ ·)).trans perm).eq_of_pairwise
      (fun a b _ _ => Int.le_antisymm) sorted ascending

variable {places : List Nat}

lemma isPermutation_of_perm (perm : places.Perm (range places.length)) :
    isPermutation (places.map fun (i : Nat) => (i : Int)) = true := by
  rw [isPermutation_iff, length_map]
  exact perm.map _

lemma testBit_foldl_places (n : Nat) (v : Int) (pairs : List (Nat × Nat)) (start j : Nat) :
    (pairs.foldl (fun r e =>
    if digit v (n - 1 - e.1) then r ||| 1 <<< (n - 1 - e.2) else r) start).testBit j =
    (start.testBit j ||
    pairs.any fun e => digit v (n - 1 - e.1) && decide (n - 1 - e.2 = j)) := by
  induction pairs generalizing start with
  | nil => simp
  | cons e rest ih =>
    rw [foldl_cons, ih, any_cons]
    cases digit v (n - 1 - e.1) with
    | false => simp
    | true =>
      rw [if_pos rfl, Nat.testBit_or, Nat.one_shiftLeft, Nat.testBit_two_pow, Bool.true_and, Bool.or_assoc]

section

variable {places : List Nat}

lemma testBit_moved (places : List Nat) (v : Int) (j : Nat) :
    (moved places false v).testBit j = places.zipIdx.any fun e =>
    digit v (places.length - 1 - e.2) && decide (places.length - 1 - e.1 = j) := by
  have swapped := testBit_foldl_places places.length v (places.zipIdx.map Prod.swap) 0 j
  rw [foldl_map, any_map, Nat.zero_testBit, Bool.false_or] at swapped
  exact swapped

lemma moved_lt (places : List Nat) (v : Int) : moved places false v < 2 ^ places.length := by
  apply Nat.lt_pow_two_of_testBit
  intro j above
  rw [testBit_moved, any_eq_false]
  intro e mem
  have index := snd_lt_of_mem_zipIdx mem
  have other : places.length - 1 - e.1 ≠ j := by omega
  simp [other]

lemma testBit_moved_place (perm : places.Perm (List.range places.length)) (v : Int)
    (inside : k < places.length) : (moved places false v).testBit (places.length - 1 - places[k]) =
    digit v (places.length - 1 - k) := by
  have small : ∀ i (h : i < places.length), places[i] < places.length := by
    intro i h
    exact mem_range.mp (perm.mem_iff.mp (getElem_mem h))
  have nodup : places.Nodup := perm.nodup_iff.mpr nodup_range
  rw [testBit_moved, Bool.eq_iff_iff, any_eq_true]
  constructor
  · rintro ⟨⟨target, i⟩, mem, both⟩
    rcases List.getElem?_eq_some_iff.mp (mk_mem_zipIdx_iff_getElem?.mp mem) with ⟨h, same⟩
    rw [Bool.and_eq_true, decide_eq_true_eq] at both
    have first := small i h
    have second := small k inside
    have eq : places[i] = places[k] := by omega
    have index : i = k := (List.Nodup.getElem_inj_iff nodup).mp eq
    rw [← index]
    exact both.1
  · intro set
    refine ⟨(places[k], k), mk_mem_zipIdx_iff_getElem?.mpr (getElem?_eq_getElem inside), ?_⟩
    simp [set]

lemma digitAt_eq_toNat (n k i : Nat) : Digits.digitAt n k i = (i.testBit (n - 1 - k)).toNat := by
  rw [Nat.toNat_testBit]
  rfl

lemma digitAt_moved (perm : places.Perm (range places.length)) (v : Nat) (inside : k < places.length) :
    Digits.digitAt places.length places[k] (moved places false v) = Digits.digitAt places.length k v := by
  rw [digitAt_eq_toNat, digitAt_eq_toNat, testBit_moved_place perm v inside, digit_natCast]

lemma eq_of_digitAt (first : i < 2 ^ n) (second : j < 2 ^ n)
    (digits : ∀ k < n, Digits.digitAt n k i = Digits.digitAt n k j) : i = j := by
  apply Nat.eq_of_testBit_eq
  intro p
  by_cases inside : p < n
  · have same := digits (n - 1 - p) (by omega)
    have place : n - 1 - (n - 1 - p) = p := by omega
    rw [digitAt_eq_toNat, digitAt_eq_toNat, place] at same
    cases first : i.testBit p <;> cases second : j.testBit p <;> simp_all
  · have above : 2 ^ n ≤ 2 ^ p := Nat.pow_le_pow_right (by decide) (by omega)
    rw [Nat.testBit_lt_two_pow (by omega), Nat.testBit_lt_two_pow (by omega)]

lemma moved_zero (places : List Nat) : moved places false 0 = 0 := by
  apply Nat.eq_of_testBit_eq
  intro j
  have none : ∀ k, digit 0 k = false := by
    intro k
    exact (digit_natCast 0 k).trans (Nat.zero_testBit k)
  rw [testBit_moved, Nat.zero_testBit]
  simp [none]

lemma moved_range {v : Nat} (below : v < 2 ^ n) : moved (range n) false v = v := by
  have bound := moved_lt (range n) v
  rw [length_range] at bound
  apply eq_of_digitAt bound below
  intro k inside
  have perm : (range n).Perm (range (range n).length) := by rw [length_range]
  have digits := digitAt_moved perm v (k := k) (by simpa using inside)
  simpa using digits

end

end BitPermuter

namespace Tensor

variable {α : Type} {t : Tensor α} {size : Nat}

lemma getElem?_part (below : j < size) (k : Nat) (xs : List α) : (part size k xs)[j]? = xs[k * size + j]? := by
  rw [part, getElem?_take_of_lt below, getElem?_drop]

section

variable {size n : Nat} {xs : List α} {places : List Nat}

lemma length_chosen (length : xs.length = n * size) (inside : ∀ k ∈ places, k < n) :
    (places.flatMap fun k => part size k xs).length = places.length * size :=
  length_flatMap size fun k mem => length_part length (inside k mem)

lemma getElem?_chosen (length : xs.length = n * size) (inside : ∀ k ∈ places, k < n) (i : Nat)
    (below : j < size) : (places.flatMap fun k => part size k xs)[i * size + j]? =
    places[i]?.bind fun k => xs[k * size + j]? := by
  rw [getElem?_flatMap (fun k mem => length_part length (inside k mem)) i below]
  simp only [getElem?_part below]

end

lemma getElem?_slices (shape : t.shape = n :: rest) (below : k < n) :
    t.slices[k]? = some ⟨rest, part (volume rest) k t.entries⟩ := by
  simp only [slices, shape]
  rw [getElem?_map, getElem?_range below]
  rfl

lemma pick_eq (shape : t.shape = n :: rest) (inside : ∀ k ∈ places, k < n) :
    t.pick places = some ⟨places.length :: rest, places.flatMap fun k => part (volume rest) k t.entries⟩ := by
  have parts := mapM_some (fun k => t.slices[k]?) (fun k => ⟨rest, part (volume rest) k t.entries⟩)
    places fun k mem => getElem?_slices shape (inside k mem)
  rw [pick, shape]
  simp only [parts, Option.bind_eq_bind, Option.bind_some, flatMap_map]
  rfl

lemma pickColumns_eq (shape : t.shape = n :: m :: rest) (inside : ∀ k ∈ places, k < m) :
    t.pickColumns places = some ⟨n :: places.length :: rest, (List.range n).flatMap fun i =>
    places.flatMap fun k => part (volume rest) k (part (volume (m :: rest)) i t.entries)⟩ := by
  have rows : t.slices.mapM (fun s => s.pick places) = some ((List.range n).map fun i =>
      ⟨places.length :: rest, places.flatMap fun k =>
        part (volume rest) k (part (volume (m :: rest)) i t.entries)⟩) := by
    have all : t.slices = (List.range n).map fun i =>
        ⟨m :: rest, part (volume (m :: rest)) i t.entries⟩ := by
      rw [slices, shape]
    rw [all, List.mapM_map]
    apply mapM_some
    intro i _
    exact pick_eq (t := ⟨m :: rest, part (volume (m :: rest)) i t.entries⟩) rfl inside
  rw [pickColumns, shape]
  simp only [rows, Option.bind_eq_bind, Option.bind_some, flatMap_map]
  rfl

end Tensor

namespace Readout

open BitPermuter (moved)

lemma permuter_eq (perm : places.Perm (range places.length)) :
    permuter (places.map fun (i : Nat) => (i : Int)) = .ok { places } := by
  have back : (places.map fun (i : Nat) => (i : Int)).map Int.toNat = places := by simp [Function.comp_def]
  rw [permuter, BitPermuter.ofPlaces?, if_pos (BitPermuter.isPermutation_of_perm perm), back]

lemma basisPlaces_eq (perm : places.Perm (range places.length)) :
    basisPlaces (2 ^ places.length) (places.map fun (i : Nat) => (i : Int)) =
    .ok ((range (2 ^ places.length)).map fun (v : Nat) => moved places false v) := by
  have size : Nat.pow 2 (places.map fun (i : Nat) => (i : Int)).length = 2 ^ places.length := by
    rw [length_map]
    rfl
  rw [basisPlaces, size, permuter_eq perm, if_neg (not_not_intro rfl)]
  change Except.ok ((BitPermuter.permuteAll { places }).1.map Int.toNat) = _
  rw [BitPermuter.permuteAll, BitPermuter.permuteFrom_fresh, map_map]
  rfl

section

variable {α : Type} {t u : Tensor α} {places : List Nat}

/-- A vector whose entries are taken from other places. -/
structure VectorMoved (f : Nat → Nat) (size : Nat) (t u : Tensor α) : Prop where
  shape : u.shape = [size]
  length : u.entries.length = size
  entry : ∀ v < size, u.entries[v]? = t.entries[f v]?

/-- A matrix whose rows and columns are taken from other places. -/
structure MatrixMoved (f : Nat → Nat) (size : Nat) (t u : Tensor α) : Prop where
  shape : u.shape = [size, size]
  length : u.entries.length = size * size
  entry : ∀ v < size, ∀ w < size, u.entries[v * size + w]? = t.entries[f v * size + f w]?

lemma below_of_mem_map (inside : ∀ v < size, f v < size) : ∀ k ∈ (range size).map f, k < size := by
  intro k mem
  rcases mem_map.mp mem with ⟨v, own, same⟩
  exact same ▸ inside v (mem_range.mp own)

lemma pick_moved (inside : ∀ v < size, f v < size) (shape : t.shape = [size]) (length : t.entries.length = size) :
    ∃ u, t.pick ((range size).map f) = some u ∧ VectorMoved f size t u := by
  have below := below_of_mem_map inside
  have single : t.entries.length = size * volume [] := length.trans (Nat.mul_one size).symm
  refine ⟨_, pick_eq shape below, ?_, ?_, ?_⟩
  · simp
  · rw [length_chosen single below]
    simp [volume]
  · intro v within
    have entry := getElem?_chosen single below v Nat.one_pos
    simpa [volume, within] using entry

lemma pickColumns_moved (inside : ∀ v < size, f v < size)
    (shape : t.shape = [size, size]) (length : t.entries.length = size * size) :
    ∃ u, ((t.pickColumns ((range size).map f)).bind fun u => u.pick ((range size).map f)) =
    some u ∧ MatrixMoved f size t u := by
  have below := below_of_mem_map inside
  let all := (range size).map f
  let row (i : Nat) : List α := all.flatMap fun k => part 1 k (part size i t.entries)
  have count : all.length = size := by simp [all]
  have columns : t.pickColumns all = some ⟨[size, size], (range size).flatMap row⟩ := by
    have picked := pickColumns_eq shape below
    simpa [volume, count, all, row] using picked
  -- columns are chosen within each row, then rows as a whole
  have single : ∀ i < size, (part size i t.entries).length = size * 1 := by
    intro i within
    rw [Nat.mul_one]
    exact length_part length within
  have rowLength : ∀ i ∈ range size, (row i).length = size := by
    intro i mem
    exact (length_chosen (single i (mem_range.mp mem)) below).trans
      ((Nat.mul_one _).trans count)
  have wide : ((range size).flatMap row).length = size * size := by
    rw [length_flatMap size rowLength, length_range]
  have rowEntry : ∀ i < size, ∀ w < size, (row i)[w]? = t.entries[i * size + f w]? := by
    intro i first w second
    have entry := getElem?_chosen (single i first) below w Nat.one_pos
    have source := getElem?_part (inside w second) i t.entries
    simpa [row, all, second, source] using entry
  refine ⟨⟨[size, size], all.flatMap fun k => part size k ((range size).flatMap row)⟩,
    ?_, ?_, ?_, ?_⟩
  · rw [columns, Option.bind_some]
    have picked := pick_eq (t := ⟨[size, size], (range size).flatMap row⟩) rfl below
    simpa [volume, count, all] using picked
  · rfl
  · exact (length_chosen wide below).trans (congrArg (· * size) count)
  · intro v first w second
    have entry := getElem?_chosen wide below v second
    have source := getElem?_flatMap rowLength (f v) second
    refine entry.trans ?_
    simp [first, source, inside v first, rowEntry (f v) (inside v first) w second]

lemma VectorMoved.unique (first : VectorMoved f size t u) (second : VectorMoved f size t v) :
    u = v := by
  have entries : u.entries = v.entries := by
    apply ext_getElem?
    intro i
    by_cases inside : i < size
    · rw [first.entry i inside, second.entry i inside]
    · rw [getElem?_eq_none (by rw [first.length]; omega), getElem?_eq_none (by rw [second.length]; omega)]
  calc
    u = ⟨u.shape, u.entries⟩ := rfl
    _ = ⟨v.shape, v.entries⟩ := by rw [first.shape, second.shape, entries]

lemma VectorMoved.eq (moved : VectorMoved f size t u) (fixed : ∀ v < size, f v = v)
    (shape : t.shape = [size]) (length : t.entries.length = size) : u = t := by
  apply moved.unique
  refine ⟨shape, length, ?_⟩
  intro v inside
  rw [fixed v inside]

lemma MatrixMoved.eq (moved : MatrixMoved f size t u) (fixed : ∀ v < size, f v = v)
    (shape : t.shape = [size, size]) (length : t.entries.length = size * size) : u = t := by
  have entries : u.entries = t.entries := by
    apply ext_getElem?
    intro i
    by_cases inside : i < size * size
    · have pos : 0 < size := Nat.pos_of_lt_mul_left inside
      have row : i / size < size := Nat.div_lt_of_lt_mul inside
      have column : i % size < size := Nat.mod_lt i pos
      have place : i / size * size + i % size = i := by
        rw [Nat.mul_comm]
        exact Nat.div_add_mod i size
      have entry := moved.entry (i / size) row (i % size) column
      rwa [fixed _ row, fixed _ column, place] at entry
    · rw [getElem?_eq_none (by rw [moved.length]; omega), getElem?_eq_none (by rw [length]; omega)]
  calc
    u = ⟨u.shape, u.entries⟩ := rfl
    _ = ⟨t.shape, t.entries⟩ := by rw [moved.shape, shape, entries]

lemma permuteBasis_moved (perm : places.Perm (range places.length))
    (shape : t.shape = [2 ^ places.length]) (length : t.entries.length = 2 ^ places.length) :
    ∃ u, permuteBasis t (places.map fun (i : Nat) => (i : Int)) = .ok u ∧
    VectorMoved (fun v => moved places false v) (2 ^ places.length) t u := by
  rcases pick_moved (fun v _ => BitPermuter.moved_lt places v) shape length with ⟨u, picked, entries⟩
  refine ⟨u, ?_, entries⟩
  rw [permuteBasis, shape]
  simp only [basisPlaces_eq perm, bind, Except.bind, picked]
  rfl

lemma permuteSides_moved (perm : places.Perm (range places.length))
    (shape : t.shape = [2 ^ places.length, 2 ^ places.length])
    (length : t.entries.length = 2 ^ places.length * 2 ^ places.length) :
    ∃ u, permuteSides t (places.map fun (i : Nat) => (i : Int)) = .ok u ∧
    MatrixMoved (fun v => moved places false v) (2 ^ places.length) t u := by
  rcases pickColumns_moved (fun v _ => BitPermuter.moved_lt places v) shape length with
    ⟨u, picked, entries⟩
  refine ⟨u, ?_, entries⟩
  rw [permuteSides, shape]
  simp only [basisPlaces_eq perm, bind, Except.bind, picked]
  rfl

end

end Readout

end

open List Equiv

namespace BitPermuter

section

variable {n : Nat}

def placesOf (p : Perm (Fin n)) : List Nat := ofFn fun i => (p i : Nat)

def tuple (p : Perm (Fin n)) : List Int := (placesOf p).map fun (i : Nat) => (i : Int)

@[simp] lemma length_placesOf (p : Perm (Fin n)) : (placesOf p).length = n := length_ofFn

@[simp] lemma length_tuple (p : Perm (Fin n)) : (tuple p).length = n :=
  (length_map _).trans (length_placesOf p)

lemma placesOf_perm (p : Perm (Fin n)) : (placesOf p).Perm (range (placesOf p).length) := by
  have moved := p.ofFn_comp_perm fun i : Fin n => (i : Nat)
  have all : (ofFn fun i : Fin n => (i : Nat)) = range n := by
    rw [ofFn_eq_map]
    exact map_coe_finRange_eq_range
  rw [all] at moved
  rw [length_placesOf]
  exact moved

lemma isPermutation_iff_tuple (xs : List Int) :
    isPermutation xs = true ↔ ∃ p : Perm (Fin xs.length), xs = tuple p := by
  constructor
  · rw [isPermutation_iff]
    intro perm
    have inside : ∀ i : Fin xs.length, ∃ k : Fin xs.length, xs.get i = (k : Nat) := by
      intro i
      rcases mem_map.mp (perm.mem_iff.mp (xs.get_mem i)) with ⟨k, below, same⟩
      exact ⟨⟨k, mem_range.mp below⟩, same.symm⟩
    choose place given using inside
    have nodup : xs.Nodup := by
      rw [perm.nodup_iff]
      exact nodup_range.map fun _ _ => Int.ofNat.inj
    have inj : Function.Injective place := by
      intro i j same
      apply nodup.injective_get
      rw [given i, given j, same]
    let p := ofBijective place (Finite.injective_iff_bijective.mp inj)
    refine ⟨p, ext_getElem (length_tuple p).symm ?_⟩
    intro i first _
    have own := given ⟨i, first⟩
    simpa [tuple, placesOf, p] using own
  · intro valid
    rcases valid with ⟨p, same⟩
    rw [same]
    exact isPermutation_of_perm (placesOf_perm p)

end

section

variable {n : Nat} (p : Perm (Fin n)) (inverse : Bool) (v : Int)

lemma any_zipIdx_placesOf (f : Nat × Nat → Bool) :
    (placesOf p).zipIdx.any f = true ↔ ∃ i : Fin n, f (p i, i) = true := by
  rw [any_eq_true]
  constructor
  · intro found
    rcases found with ⟨⟨target, k⟩, mem, holds⟩
    rcases List.getElem?_eq_some_iff.mp (mk_mem_zipIdx_iff_getElem?.mp mem) with ⟨h, same⟩
    refine ⟨⟨k, by simpa using h⟩, ?_⟩
    rw [← same] at holds
    simpa [placesOf] using holds
  · intro found
    rcases found with ⟨i, holds⟩
    have mem : ((p i : Nat), (i : Nat)) ∈ (placesOf p).zipIdx := by
      rw [mk_mem_zipIdx_iff_getElem?]
      simp [placesOf]
    exact ⟨(p i, i), mem, holds⟩

lemma moved_true : moved (placesOf p) true v = moved (placesOf p.symm) false v := by
  apply Nat.eq_of_testBit_eq
  intro j
  have turned := testBit_foldl_places (placesOf p).length v (placesOf p).zipIdx 0 j
  rw [Nat.zero_testBit, Bool.false_or] at turned
  rw [testBit_moved, Bool.eq_iff_iff, any_zipIdx_placesOf, length_placesOf]
  change (moved (placesOf p) true v).testBit j = _ at turned
  rw [turned, any_zipIdx_placesOf, length_placesOf]
  -- the pairs of a place and its target are those of the inverse with the sides exchanged
  constructor
  · intro found
    rcases found with ⟨i, holds⟩
    exact ⟨p i, by simpa using holds⟩
  · intro found
    rcases found with ⟨k, holds⟩
    exact ⟨p.symm k, by simpa using holds⟩

def towards (inverse : Bool) : Perm (Fin n) := if inverse then p.symm else p

lemma moved_placesOf : moved (placesOf p) inverse v = moved (placesOf (towards p inverse)) false v := by
  cases inverse with
  | true => exact moved_true p v
  | false => rfl

lemma towards_not : towards p (!inverse) = (towards p inverse).symm := by
  cases inverse <;> rfl

lemma digit_emod (below : k < n) : digit (v % (2 ^ n : Nat)) k = digit v k := by
  have factors : (2 ^ n : Nat) = 2 ^ k * (2 * 2 ^ (n - 1 - k)) := by
    rw [← Nat.pow_succ', ← Nat.pow_add]
    congr 1
    omega
  have whole := Int.emod_add_mul_ediv v (2 ^ n : Nat)
  generalize v % (2 ^ n : Nat) = low at *
  generalize v / (2 ^ n : Nat) = high at *
  have power : ((2 ^ k : Nat) : Int) ≠ 0 := Int.natCast_ne_zero.mpr (Nat.two_pow_pos k).ne'
  have quotient : v / (2 ^ k : Nat) = low / (2 ^ k : Nat) + 2 * ((2 ^ (n - 1 - k) : Nat) * high) := by
    rw [← whole, factors, Int.natCast_mul, Int.mul_assoc, Int.add_mul_ediv_left _ _ power,
      Int.natCast_mul, Int.mul_assoc]
    rfl
  rw [digit, digit, decide_eq_decide]
  change low / (2 ^ k : Nat) % 2 = 1 ↔ v / (2 ^ k : Nat) % 2 = 1
  rw [quotient, Int.add_mul_emod_self_left]

lemma moved_emod : moved (placesOf p) false (v % (2 ^ n : Nat)) = moved (placesOf p) false v := by
  apply Nat.eq_of_testBit_eq
  intro j
  rw [testBit_moved, testBit_moved, Bool.eq_iff_iff, any_zipIdx_placesOf, any_zipIdx_placesOf, length_placesOf]
  have same : ∀ i : Fin n, digit (v % (2 ^ n : Nat)) (n - 1 - i) = digit v (n - 1 - i) := by
    intro i
    exact digit_emod v (by omega)
  simp only [same]

lemma digitAt_placesOf (v : Nat) (i : Fin n) :
    Digits.digitAt n (p i) (moved (placesOf p) false v) = Digits.digitAt n i v := by
  have digits := digitAt_moved (placesOf_perm p) v (k := i) (by simp)
  simpa [placesOf] using digits

lemma moved_placesOf_lt : moved (placesOf p) inverse v < 2 ^ n := by
  have bound := moved_lt (placesOf (towards p inverse)) v
  rw [length_placesOf] at bound
  rw [moved_placesOf]
  exact bound

lemma moved_symm_moved {v : Nat} (below : v < 2 ^ n) :
    moved (placesOf p.symm) false (moved (placesOf p) false v : Nat) = v := by
  apply eq_of_digitAt (moved_placesOf_lt p.symm false _) below
  intro k inside
  have out := digitAt_placesOf p.symm (moved (placesOf p) false v) (p ⟨k, inside⟩)
  rw [symm_apply_apply] at out
  exact out.trans (digitAt_placesOf p v ⟨k, inside⟩)

lemma moved_moved : (moved (placesOf p) (!inverse) (moved (placesOf p) inverse v) : Int) = v % (2 ^ n : Nat) := by
  have pos : (0 : Int) < (2 ^ n : Nat) := Int.natCast_pos.mpr (Nat.two_pow_pos n)
  have natural := Int.toNat_of_nonneg (Int.emod_nonneg v pos.ne')
  have below : (v % (2 ^ n : Nat)).toNat < 2 ^ n := by omega
  have back := moved_symm_moved (towards p inverse) below
  rw [natural, moved_emod, ← towards_not, ← moved_placesOf, ← moved_placesOf] at back
  rw [back, natural]

lemma moved_back {v : Int} (natural : 0 ≤ v) (below : v < 2 ^ n) (inverse : Bool) :
    (moved (placesOf p) (!inverse) (moved (placesOf p) inverse v) : Int) = v := by
  rw [moved_moved, Int.emod_eq_of_lt natural (by exact_mod_cast below)]

end

section

variable {n : Nat} {p : Perm (Fin n)} {seen : List (Int × Bool)} {q : BitPermuter} (places : List Nat)

lemma eq_moved_of_moved (p : Perm (Fin n)) {inverse : Bool}
    (inside : 0 ≤ w ∧ w < 2 ^ n) (way : (moved (placesOf p) (!inverse) w : Int) = v) :
    w = moved (placesOf p) inverse v := by
  have back := moved_back p inside.1 inside.2 (!inverse)
  rw [Bool.not_not, way] at back
  exact back.symm

lemma permute_fresh (v : Int) (inverse : Bool) : (permute { places } v inverse).1 = moved places inverse v := by
  rcases (remembers_fresh places).answer v inverse with right | ⟨earlier, _⟩
  · exact right
  · cases earlier

lemma permute_back (w : Int) (inverse : Bool) :
    ((permute { places } w inverse).2.permute (permute { places } w inverse).1 (!inverse)).1 = w := by
  cases inverse <;> simp [permute, record]

/-- The power of two itself is answered by 0, and is then remembered as the way back from 0. -/
lemma answers_beyond (p : Perm (Fin n)) :
    answers { places := placesOf p } [((2 ^ n : Nat), false), (0, true)] = [0, ((2 ^ n : Nat) : Int)] := by
  have zero : (moved (placesOf p) false (2 ^ n : Nat) : Int) = 0 := by
    rw [← moved_emod, Int.emod_self, moved_zero]
    rfl
  have back := permute_back (placesOf p) (2 ^ n : Nat) false
  rw [permute_fresh, zero, Bool.not_false] at back
  rw [answers, answers, answers, permute_fresh, zero, back]

lemma Remembers.right (memory : Remembers (placesOf p) seen q)
    (inside : ∀ c ∈ seen, 0 ≤ c.1 ∧ c.1 < 2 ^ n) (v : Int) (inverse : Bool) :
    (q.permute v inverse).1 = moved (placesOf p) inverse v := by
  rcases memory.answer v inverse with right | ⟨earlier, way⟩
  · exact right
  · exact eq_moved_of_moved p (inside _ earlier) way

lemma Remembers.all_right (memory : Remembers (placesOf p) seen q)
    (inside : ∀ c ∈ seen, 0 ≤ c.1 ∧ c.1 < 2 ^ n) {calls : List (Int × Bool)}
    (asked : ∀ c ∈ calls, 0 ≤ c.1 ∧ c.1 < 2 ^ n) :
    q.answers calls = calls.map fun c => ((moved (placesOf p) c.2 c.1 : Nat) : Int) :=
  memory.answers_eq (fun c => 0 ≤ c.1 ∧ c.1 < 2 ^ n) inside
    (fun _ _ _ earlier _ way => eq_moved_of_moved p earlier way) asked

/-- Every answer is right up to multiples of the power of two. One that is not right is a question
beyond it, asked before in the other direction. -/
lemma Remembers.answer_mod (memory : Remembers (placesOf p) seen q) (v : Int) (inverse : Bool) :
    (q.permute v inverse).1 % (2 ^ n : Nat) = moved (placesOf p) inverse v ∧
    ((q.permute v inverse).1 ≠ moved (placesOf p) inverse v → ((q.permute v inverse).1, !inverse) ∈ seen ∧
    moved (placesOf p) (!inverse) (q.permute v inverse).1 = v ∧
    ¬(0 ≤ (q.permute v inverse).1 ∧ (q.permute v inverse).1 < 2 ^ n)) := by
  rcases memory.answer v inverse with right | ⟨earlier, way⟩
  · have below := moved_placesOf_lt p inverse v
    rw [right]
    exact ⟨Int.emod_eq_of_lt (by omega) (by omega), fun wrong => absurd rfl wrong⟩
  · have back := moved_moved p (!inverse) (q.permute v inverse).1
    rw [Bool.not_not, way] at back
    exact ⟨back.symm, fun wrong => ⟨earlier, way, fun inside => wrong (eq_moved_of_moved p inside way)⟩⟩

end

end BitPermuter

namespace Readout

open BitPermuter

lemma permuter_tuple (p : Perm (Fin n)) :
    permuter (tuple p) = .ok { places := placesOf p } := permuter_eq (placesOf_perm p)

lemma permuter_of_not_tuple {xs : List Int} (other : ¬∃ p : Perm (Fin xs.length), xs = tuple p) :
    permuter xs = .error .permutation := by
  rw [← isPermutation_iff_tuple] at other
  rw [permuter, ofPlaces?, if_neg other]

lemma exists_perm_of_permuter {xs : List Int} (made : permuter xs = .ok q) :
    ∃ p : Perm (Fin xs.length), q = { places := placesOf p } := by
  by_cases valid : ∃ p : Perm (Fin xs.length), xs = tuple p
  · rcases valid with ⟨p, same⟩
    rw [same, permuter_tuple] at made
    exact ⟨p, (Except.ok.inj made).symm⟩
  · rw [permuter_of_not_tuple valid] at made
    cases made

/-- What a permuter remembers shows in no answer just as long as all questions are below the power of
two. After any questions an answer differs from that of a fresh permuter only by a multiple of the
power of two, and only if it was itself a question of the other direction, beyond the power of two,
whose answer is asked for now; and the first question to a permuter is always given back in this way. -/
theorem permuter_transparent_iff {xs : List Int} {fresh : BitPermuter}
    (made : permuter xs = .ok fresh) :
    (∀ bound : Nat, (∀ calls : List (Int × Bool), (∀ c ∈ calls, 0 ≤ c.1 ∧ c.1 < bound) →
        fresh.answers calls = calls.map fun c => (fresh.permute c.1 c.2).1) ↔
      bound ≤ 2 ^ xs.length) ∧
    (∀ (calls : List (Int × Bool)) (v : Int) (inverse : Bool) (r : Int),
      ((fresh.after calls).permute v inverse).1 = r →
        r % (2 ^ xs.length : Nat) = (fresh.permute v inverse).1 ∧
        (r ≠ (fresh.permute v inverse).1 → (r, !inverse) ∈ calls ∧
          (fresh.permute r (!inverse)).1 = v ∧ ¬(0 ≤ r ∧ r < 2 ^ xs.length))) ∧
    ∀ (w : Int) (inverse : Bool),
      ((fresh.permute w inverse).2.permute (fresh.permute w inverse).1 (!inverse)).1 = w ∧
      (fresh.permute (fresh.permute w inverse).1 (!inverse)).1 = w % (2 ^ xs.length : Nat) := by
  rcases exists_perm_of_permuter made with ⟨p, rfl⟩
  have memory := remembers_fresh (placesOf p)
  simp only [permute_fresh]
  refine ⟨?_, ?_, ?_⟩
  · intro bound
    constructor
    · intro transparent
      by_contra large
      have beyond : ((2 ^ xs.length : Nat) : Int) < bound := Int.ofNat_lt.mpr (Nat.lt_of_not_le large)
      have asked : ∀ c ∈ [(((2 ^ xs.length : Nat) : Int), false), (0, true)],
          0 ≤ c.1 ∧ c.1 < bound := by
        rw [List.forall_mem_cons, List.forall_mem_singleton]
        exact ⟨⟨Int.natCast_nonneg _, beyond⟩, Int.le_refl 0,
          Int.lt_of_le_of_lt (Int.natCast_nonneg _) beyond⟩
      have both := transparent _ asked
      simp only [answers_beyond, List.map_cons, List.map_nil, List.cons.injEq] at both
      -- a fresh permuter answers below the power of two, this one by the power of two
      have below := moved_placesOf_lt p true 0
      have second := both.2.1
      omega
    · intro small calls asked
      have inside : ∀ c ∈ calls, 0 ≤ c.1 ∧ c.1 < 2 ^ xs.length := by
        intro c member
        have range := asked c member
        have power : (bound : Int) ≤ 2 ^ xs.length := by exact_mod_cast small
        omega
      exact memory.all_right (by simp) inside
  · intro calls v inverse r same
    have later := (memory.after calls).answer_mod v inverse
    rw [same] at later
    simpa using later
  · intro w inverse
    have back := permute_back (placesOf p) w inverse
    rw [permute_fresh] at back
    exact ⟨back, moved_moved p inverse w⟩

/-- Two digits in the other order. A question with a third digit comes back as the answer to the way
back, and questions of two digits do not disturb each other. -/
theorem permuter_transparent_iff_swapped :
    ∃ fresh, permuter [1, 0] = .ok fresh ∧
      fresh.answers [(6, false), (1, true)] = [1, 6] ∧ (fresh.permute 1 true).1 = 2 ∧
      fresh.answers [(2, false), (1, true), (3, false), (3, true)] = [1, 2, 3, 3] := by
  have made : permuter [1, 0] = .ok { places := [1, 0] } := by
    rw [permuter, ofPlaces?, if_pos ((isPermutation_iff [1, 0]).mpr (by decide))]
    rfl
  have small := ((permuter_transparent_iff made).1 4).mpr (by decide)
    [(2, false), (1, true), (3, false), (3, true)] (by decide)
  exact ⟨_, made, by decide, by decide, small.trans (by decide)⟩

end Readout

end CircuitWorks
