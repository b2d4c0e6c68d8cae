import Mathlib.Algebra.BigOperators.Group.List.Lemmas
import Mathlib.Algebra.Ring.Nat
import CircuitWorks.Outcome.Basic
import CircuitWorks.Proofs.Lists
import Mathlib.Tactic.Ring

/-!
Counters and the lists that they count; outcome tables, the bits they stand for, the first one highest,
and their numbers.
-/

namespace CircuitWorks.Counter

open List

variable {κ μ : Type} {entries : List (κ × Int)} {k : κ}

def weight (chosen : κ → Bool) (entries : List (κ × Int)) : Int :=
  addUp ((entries.filter fun e => chosen e.1).map (·.2))

/-- Entries that count the items of a list, a key perhaps in several places. -/
structure Tallies (entries : List (κ × Int)) (items : List κ) : Prop where
  positive : ∀ e ∈ entries, 0 < e.2
  weight : ∀ chosen, weight chosen entries = items.countP chosen

structure IsTally (c : Counter κ) (items : List κ) : Prop extends Tallies c items where
  nodup : (c.map (·.1)).Nodup

section

variable (chosen : κ → Bool) (f : κ → μ)

@[simp]
lemma weight_nil : weight chosen ([] : List (κ × Int)) = 0 := rfl

lemma weight_cons (k : κ) (n : Int) (rest : List (κ × Int)) :
    weight chosen ((k, n) :: rest) = (if chosen k then n else 0) + weight chosen rest := by
  cases inside : chosen k <;> simp [weight, inside, addUp]

lemma weight_append (first second : List (κ × Int)) :
    weight chosen (first ++ second) = weight chosen first + weight chosen second := by
  induction first with
  | nil => simp
  | cons e rest ih =>
    rw [cons_append, weight_cons, weight_cons, ih, Int.add_assoc]

lemma weight_map (chosen : μ → Bool) (entries : List (κ × Int)) :
    weight chosen (entries.map fun e => (f e.1, e.2)) = weight (chosen ∘ f) entries := by
  induction entries with
  | nil => rfl
  | cons e rest ih =>
    rw [map_cons, weight_cons, weight_cons, ih]
    rfl

variable {items : List κ}

lemma Tallies.map (tallies : Tallies entries items) (f : κ → μ) :
    Tallies (entries.map fun e => (f e.1, e.2)) (items.map f) where
  positive := by
    intro e mem
    obtain ⟨old, inside, rfl⟩ := mem_map.mp mem
    exact tallies.positive old inside
  weight chosen := by
    rw [weight_map, tallies.weight, countP_map]

lemma Tallies.ne_nil (tallies : Tallies entries items) (some : items ≠ []) : entries ≠ [] := by
  rintro rfl
  have all := tallies.weight fun _ => true
  have none : items.length = 0 := by simpa using all.symm
  exact some (length_eq_zero_iff.mp none)

lemma total_eq_weight (c : Counter κ) : c.total = weight (fun _ => true) c := by
  rw [total, weight, filter_true]

def occurrences (entries : List (κ × Int)) : List κ :=
  entries.flatMap fun e => replicate e.2.toNat e.1

lemma occurrences_cons (e : κ × Int) (rest : List (κ × Int)) :
    occurrences (e :: rest) = replicate e.2.toNat e.1 ++ occurrences rest := rfl

lemma occurrences_map (entries : List (κ × Int)) :
    occurrences (entries.map fun e => (f e.1, e.2)) = (occurrences entries).map f := by
  simp [occurrences, flatMap_map, map_flatMap]

lemma occurrences_ones (items : List κ) : occurrences (items.map fun k => (k, 1)) = items := by
  simp [occurrences, flatMap_map]

lemma mem_of_mem_occurrences (mem : k ∈ occurrences entries) : ∃ e ∈ entries, e.1 = k := by
  rcases mem_flatMap.mp mem with ⟨e, inside, own⟩
  exact ⟨e, inside, (eq_of_mem_replicate own).symm⟩

lemma occurrences_ne_nil (nonempty : entries ≠ []) (positive : ∀ e ∈ entries, 0 < e.2) :
    occurrences entries ≠ [] := by
  cases entries with
  | nil => exact absurd rfl nonempty
  | cons e rest =>
    have own := positive e (by simp)
    have often : e.2.toNat ≠ 0 := by omega
    simp [occurrences_cons, often]

lemma tallies_occurrences (positive : ∀ e ∈ entries, 0 < e.2) : Tallies entries (occurrences entries) where
  positive := positive
  weight chosen := by
    induction entries with
    | nil => rfl
    | cons e rest ih =>
      have later := ih fun f mem => positive f (.tail e mem)
      have own := positive e (by simp)
      rw [weight_cons, later, occurrences_cons, countP_append, countP_replicate]
      split <;> omega

end

section

variable [DecidableEq κ] {c : Counter κ} {old : List (κ × Int)} {n : Int}

lemma get_eq_weight (nodup : (c.map (·.1)).Nodup) (key : κ) : c.get key = weight (· = key) c := by
  induction c with
  | nil => rfl
  | cons e rest ih =>
    obtain ⟨k, n⟩ := e
    have apart := nodup_cons.mp nodup
    rw [get, weight_cons, ih apart.2]
    by_cases same : k = key
    · -- a key has one place, so nothing of it is left in the rest
      have none : weight (· = key) rest = 0 := by
        have empty : rest.filter (fun e => decide (e.1 = key)) = [] := by
          apply filter_eq_nil_iff.mpr
          intro e mem eq
          apply apart.1
          exact mem_map.mpr ⟨e, mem, (of_decide_eq_true eq).trans same.symm⟩
        rw [weight, empty]
        rfl
      simp [same, none]
    · simp [same]

lemma keys_set (c : Counter κ) (key : κ) (n : Int) :
    (c.set key n).map (·.1) =
    if key ∈ c.map (·.1) then c.map (·.1) else c.map (·.1) ++ [key] := by
  induction c with
  | nil => rfl
  | cons e rest ih =>
    obtain ⟨j, m⟩ := e
    by_cases same : j = key
    · simp [set, same]
    · rw [set, if_neg same, map_cons, ih]
      simp only [map_cons, mem_cons, Ne.symm same, false_or]
      split <;> rfl

lemma mem_keys_set (c : Counter κ) (key : κ) (n : Int) (k : κ) :
    k ∈ (c.set key n).map (·.1) ↔ k = key ∨ k ∈ c.map (·.1) := by
  rw [keys_set]
  split <;> grind

lemma nodup_set (nodup : (c.map (·.1)).Nodup) (key : κ) (n : Int) : ((c.set key n).map (·.1)).Nodup := by
  rw [keys_set]
  split
  · exact nodup
  · rename_i absent
    simpa using nodup.concat absent

lemma weight_set (nodup : (c.map (·.1)).Nodup) (key : κ) (n : Int) (chosen : κ → Bool) :
    weight chosen (c.set key (c.get key + n)) = weight chosen c + if chosen key then n else 0 := by
  induction c with
  | nil => simp [set, get, weight_cons]
  | cons e rest ih =>
    obtain ⟨j, m⟩ := e
    have apart := nodup_cons.mp nodup
    rw [set, get]
    by_cases same : j = key
    · subst same
      simp only [if_true, weight_cons]
      split <;> omega
    · simp only [same, if_false, weight_cons, ih apart.2]
      omega

lemma set_positive (positive : ∀ e ∈ c, 0 < e.2) {key : κ} (more : 0 < n) : ∀ e ∈ c.set key n, 0 < e.2 := by
  induction c with
  | nil => simpa [set] using more
  | cons e rest ih =>
    have later : ∀ e ∈ rest, 0 < e.2 := fun e mem => positive e (.tail _ mem)
    intro e mem
    rw [set] at mem
    split at mem
    · rcases mem_cons.mp mem with rfl | inside
      · exact more
      · exact later e inside
    · rcases mem_cons.mp mem with rfl | inside
      · exact positive _ (by simp)
      · exact ih later e inside

lemma get_nonneg (positive : ∀ e ∈ c, 0 < e.2) (key : κ) : 0 ≤ c.get key := by
  induction c with
  | nil => exact Int.le_refl 0
  | cons e rest ih =>
    obtain ⟨j, m⟩ := e
    rw [get]
    split
    · exact Int.le_of_lt (positive (j, m) (by simp))
    · exact ih fun e mem => positive e (.tail _ mem)

structure Collects (c : Counter κ) (entries : List (κ × Int)) : Prop where
  positive : ∀ e ∈ c, 0 < e.2
  nodup : (c.map (·.1)).Nodup
  weight : ∀ chosen, weight chosen c = weight chosen entries

lemma Collects.bump (collects : Collects c entries) (key : κ) (more : 0 < n) :
    Collects (c.bump key n) (entries ++ [(key, n)]) where
  positive := by
    have before := get_nonneg collects.positive key
    exact set_positive collects.positive (by omega)
  nodup := nodup_set collects.nodup key _
  weight chosen := by
    rw [Counter.bump, weight_set collects.nodup, collects.weight, weight_append, weight_cons, weight_nil, Int.add_zero]

lemma collects_foldl_bump (positive : ∀ e ∈ entries, 0 < e.2) (collects : Collects c old) :
    Collects (entries.foldl (fun c e => c.bump e.1 e.2) c) (old ++ entries) := by
  induction entries generalizing c old with
  | nil => simpa using collects
  | cons e rest ih =>
    have step := collects.bump e.1 (positive e (by simp))
    have later := ih (fun e mem => positive e (.tail _ mem)) step
    simpa using later

lemma merge_single (collects : Collects c entries) (key : κ) (more : 0 < n) : c.merge [(key, n)] = c.bump key n := by
  apply filter_eq_self.mpr
  intro e mem
  exact decide_eq_true ((collects.bump key more).positive e mem)

lemma foldl_merge_singles (positive : ∀ e ∈ entries, 0 < e.2) (collects : Collects c old) :
    (entries.map fun e => [e]).foldl merge c = entries.foldl (fun c e => c.bump e.1 e.2) c := by
  induction entries generalizing c old with
  | nil => rfl
  | cons e rest ih =>
    have own := positive e (by simp)
    have step := collects.bump e.1 own
    rw [map_cons, foldl_cons, foldl_cons, merge_single collects e.1 own]
    exact ih (fun e mem => positive e (.tail _ mem)) step

lemma mergeAll_singles (positive : ∀ e ∈ entries, 0 < e.2) (nonempty : entries ≠ []) :
    ∃ c, mergeAll (entries.map fun e => [e]) = some c ∧ Collects c entries := by
  cases entries with
  | nil => exact absurd rfl nonempty
  | cons first rest =>
    have more : ∀ e ∈ rest, 0 < e.2 := fun e mem => positive e (.tail _ mem)
    have start : Collects [first] [first] := by
      refine ⟨?_, by simp, fun _ => rfl⟩
      intro e mem
      obtain rfl := mem_singleton.mp mem
      exact positive e (by simp)
    refine ⟨_, rfl, ?_⟩
    rw [foldl_merge_singles more start]
    exact collects_foldl_bump more start

omit [DecidableEq κ] in
lemma Collects.isTally (collects : Collects c entries) (tallies : Tallies entries items) : IsTally c items where
  positive := collects.positive
  nodup := collects.nodup
  weight chosen := (collects.weight chosen).trans (tallies.weight chosen)

lemma set_of_not_mem {key : κ} (absent : key ∉ c.map (·.1)) (n : Int) : c.set key n = c ++ [(key, n)] := by
  induction c with
  | nil => rfl
  | cons e rest ih =>
    rw [map_cons, mem_cons, not_or] at absent
    rw [set, if_neg (Ne.symm absent.1), ih absent.2]
    rfl

lemma ofEntries_of_nodup (nodup : (entries.map (·.1)).Nodup) : ofEntries entries = entries := by
  -- by induction on the entries, after any others with other keys
  have general : ∀ c : Counter κ, ((c ++ entries).map (·.1)).Nodup →
      entries.foldl (fun c e => c.set e.1 e.2) c = c ++ entries := by
    induction entries with
    | nil => simp
    | cons e rest ih =>
      intro c apart
      have absent : e.1 ∉ c.map (·.1) := by
        rw [map_append, nodup_append] at apart
        intro mem
        exact apart.2.2 _ mem _ (by simp) rfl
      rw [foldl_cons, set_of_not_mem absent]
      have later := ih (nodup_cons.mp nodup).2 (c ++ [(e.1, e.2)]) (by simpa using apart)
      simpa using later
  exact general [] nodup

lemma nodup_eraseDups (items : List κ) : items.eraseDups.Nodup := by
  -- the rest is filtered before it is searched again, so the induction is on the length
  induction h : items.length using Nat.strongRecOn generalizing items with
  | ind size ih =>
    cases items with
    | nil => simp
    | cons k rest =>
      rw [eraseDups_cons, nodup_cons]
      constructor
      · simp
      · apply ih _ _ _ rfl
        have shorter := length_filter_le (fun b => !b == k) rest
        rw [length_cons] at h
        omega

lemma weight_counts (chosen : κ → Bool) (keys items : List κ) :
    weight chosen (keys.map fun k => (k, (items.count k : Int))) =
    ((keys.filter chosen).map fun k => items.count k).sum := by
  induction keys with
  | nil => rfl
  | cons k rest ih =>
    rw [map_cons, weight_cons, ih]
    cases inside : chosen k <;> simp [inside]

lemma isTally_tally (le : κ → κ → Bool) (items : List κ) : IsTally (tally le items) items where
  positive := by
    intro e mem
    obtain ⟨k, inside, rfl⟩ := mem_map.mp mem
    have listed : k ∈ items := by simpa using inside
    exact Int.natCast_pos.mpr (count_pos_iff.mpr listed)
  nodup := by
    rw [tally, map_map]
    exact (map_id _).symm ▸ nodup_eraseDups _
  weight chosen := by
    have same : (items.mergeSort le).eraseDups.Perm items.dedup := by
      apply (perm_ext_iff_of_nodup (nodup_eraseDups _) items.nodup_dedup).mpr
      simp
    have sums := ((same.filter chosen).map fun k => items.count k).sum_eq
    rw [tally, weight_counts, sums, sum_map_count_dedup_filter_eq_countP]

lemma IsTally.get (isTally : IsTally c items) (key : κ) : c.get key = items.count key := by
  rw [get_eq_weight isTally.nodup, isTally.weight]
  rfl

lemma mem_iff_get (nodup : (c.map (·.1)).Nodup) (positive : ∀ e ∈ c, 0 < e.2)
    (key : κ) (n : Int) : (key, n) ∈ c ↔ 0 < n ∧ c.get key = n := by
  induction c with
  | nil =>
    simp only [not_mem_nil, get, false_iff]
    omega
  | cons e rest ih =>
    obtain ⟨j, m⟩ := e
    have apart := nodup_cons.mp nodup
    have own : 0 < m := positive (j, m) (by simp)
    rw [mem_cons, ih apart.2 fun e mem => positive e (.tail _ mem), get]
    by_cases same : j = key
    · subst same
      have absent : ¬(0 < n ∧ get rest j = n) := by
        intro inside
        have mem := (ih apart.2 fun e mem => positive e (.tail _ mem)).mpr inside
        exact apart.1 (mem_map.mpr ⟨_, mem, rfl⟩)
      simp only [if_true, Prod.mk.injEq, true_and, absent, or_false]
      omega
    · simp [same, Ne.symm same]

lemma IsTally.perm (first : IsTally c items) (second : IsTally d items) : c.Perm d := by
  apply (perm_ext_iff_of_nodup first.nodup.of_map second.nodup.of_map).mpr
  rintro ⟨k, n⟩
  rw [mem_iff_get first.nodup first.positive, mem_iff_get second.nodup second.positive, first.get, second.get]

lemma IsTally.perm_iff {items others : List κ} (first : IsTally c items)
    (second : IsTally d others) : c.Perm d ↔ items.Perm others := by
  constructor
  · intro perm
    apply perm_iff_count.mpr
    intro k
    have same : ∀ n : Int, 0 < n ∧ c.get k = n ↔ 0 < n ∧ d.get k = n := by
      intro n
      rw [← mem_iff_get first.nodup first.positive, ← mem_iff_get second.nodup second.positive]
      exact perm.mem_iff
    have left := (same (c.get k)).mp
    have right := (same (d.get k)).mpr
    rw [first.get, second.get] at left right
    omega
  · intro perm
    have counted : IsTally d items :=
      { second with weight := fun chosen => (second.weight chosen).trans (by rw [perm.countP_eq]) }
    exact first.perm counted

lemma IsTally.mem_items (isTally : IsTally c items) (mem : k ∈ c.map (·.1)) : k ∈ items := by
  obtain ⟨e, inside, rfl⟩ := mem_map.mp mem
  have counted := (mem_iff_get isTally.nodup isTally.positive e.1 e.2).mp inside
  rw [isTally.get] at counted
  apply count_pos_iff.mp
  omega

lemma IsTally.mem_keys (isTally : IsTally c items) (mem : k ∈ items) : k ∈ c.map (·.1) := by
  have more := count_pos_iff.mpr mem
  have stored := (mem_iff_get isTally.nodup isTally.positive k (items.count k)).mpr
    ⟨by omega, isTally.get k⟩
  exact mem_map_of_mem stored

lemma IsTally.map (isTally : IsTally c items) {f : κ → μ} (injective : ∀ x ∈ items, ∀ y ∈ items, f x = f y → x = y) :
    IsTally (c.map fun e => (f e.1, e.2)) (items.map f) where
  toTallies := isTally.toTallies.map f
  nodup := by
    have renamed : (c.map fun e => (f e.1, e.2)).map (·.1) = (c.map (·.1)).map f := by simp
    rw [renamed]
    apply List.Nodup.map_on _ isTally.nodup
    intro x first y second
    exact injective x (isTally.mem_items first) y (isTally.mem_items second)

end

end CircuitWorks.Counter

namespace CircuitWorks.Outcome

open List Option Int

def valueOf (bits : List Bool) : Nat := bits.foldl (fun v b => 2 * v + b.toNat) 0

variable (bits : List Bool) (bytes : List UInt8)

lemma valueOf_concat (b : Bool) : valueOf (bits ++ [b]) = 2 * valueOf bits + b.toNat := by
  rw [valueOf, foldl_append]
  rfl

lemma valueOf_append (others : List Bool) :
    valueOf (bits ++ others) = valueOf bits * 2 ^ others.length + valueOf others := by
  induction others using reverseRecOn with
  | nil => simp [valueOf]
  | append_singleton others b ih =>
    rw [← append_assoc, valueOf_concat, valueOf_concat, ih, length_append, length_singleton, Nat.pow_succ]
    ring

lemma valueOf_zeros (n : Nat) : valueOf (replicate n false) = 0 := by
  induction n with
  | zero => rfl
  | succ n ih => rw [replicate_succ', valueOf_concat, ih, Bool.toNat_false]

lemma testBit_valueOf (i : Nat) : (valueOf bits).testBit i = bits.reverse.getD i false := by
  induction bits using reverseRecOn generalizing i with
  | nil => simp [valueOf]
  | append_singleton bits b ih =>
    rw [valueOf_concat, reverse_concat]
    cases i with
    | zero => cases b <;> simp [Nat.testBit_zero, Nat.add_mod]
    | succ i =>
      have half : (2 * valueOf bits + b.toNat) / 2 = valueOf bits := by
        have last := Bool.toNat_lt b
        omega
      rw [Nat.testBit_add_one, half, ih, getD_cons_succ]

lemma valueOf_lt : valueOf bits < 2 ^ bits.length := by
  apply Nat.lt_pow_two_of_testBit
  intro i beyond
  rw [testBit_valueOf]
  simp [beyond]

lemma valueOf_inj {bits others : List Bool} (lengths : bits.length = others.length)
    (same : valueOf bits = valueOf others) : bits = others := by
  apply reverse_injective
  apply ext_getElem (by simpa using lengths)
  intro i first second
  have digit := congrArg (·.testBit i) same
  simpa only [testBit_valueOf, getD_eq_getElem?_getD, getElem?_eq_getElem first,
    getElem?_eq_getElem second, getD_some] using digit

lemma digitOf_byteOf (digit : Nat → Bool) (below : j < 8) : digitOf (byteOf digit) j = digit j := by
  have value : byteOf digit = UInt8.ofNat (valueOf ((List.range 8).map digit)) := by rw [byteOf, valueOf, foldl_map]
  have small := valueOf_lt ((List.range 8).map digit)
  rw [length_map, length_range] at small
  rw [digitOf, value, UInt8.toNat_ofNat', Nat.mod_eq_of_lt small, testBit_valueOf]
  have inside : 7 - j < 8 := by omega
  have mirrored : 7 - (7 - j) = j := by omega
  simp [inside, mirrored]

lemma length_unpack (bytes : List UInt8) : (unpack bytes).length = 8 * bytes.length := by
  induction bytes with
  | nil => rfl
  | cons b rest ih =>
    rw [unpack, flatMap_cons, length_append]
    change _ + (unpack rest).length = _
    rw [ih, length_map, length_range, length_cons]
    omega

lemma getElem?_unpack (bytes : List UInt8) (i : Nat) :
    (unpack bytes)[i]? = bytes[i / 8]?.map fun b => digitOf b (i % 8) := by
  induction bytes generalizing i with
  | nil => simp [unpack]
  | cons b rest ih =>
    change ((List.range 8).map (digitOf b) ++ unpack rest)[i]? = _
    by_cases first : i < 8
    · rw [getElem?_append_left (by simpa using first), Nat.div_eq_of_lt first, Nat.mod_eq_of_lt first]
      simp [first]
    · have later : i = (i - 8) + 8 := by omega
      rw [getElem?_append_right (by simpa using first), ih]
      have quotient : i / 8 = (i - 8) / 8 + 1 := by omega
      have rest : i % 8 = (i - 8) % 8 := by omega
      simp [quotient, rest]

lemma length_pack : (pack bits).length = byteCount bits.length := by
  rw [pack, length_map, length_range]

def padding (bits : Nat) : Nat := 8 * byteCount bits - bits

lemma add_padding (bits : Nat) : bits + padding bits = 8 * byteCount bits := by
  rw [padding, byteCount]
  omega

lemma unpack_pack : unpack (pack bits) = bits ++ replicate (padding bits.length) false := by
  have room := add_padding bits.length
  apply ext_getElem?
  intro i
  rw [getElem?_unpack, pack, getElem?_map]
  by_cases inside : i < 8 * byteCount bits.length
  · have place : 8 * (i / 8) + i % 8 = i := by omega
    rw [getElem?_range (by omega), map_some, map_some,
      digitOf_byteOf _ (Nat.mod_lt i (by decide)), place, getD_eq_getElem?_getD]
    by_cases own : i < bits.length
    · rw [getElem?_append_left own, getElem?_eq_getElem own, getD_some]
    · have beyond : i - bits.length < padding bits.length := by omega
      rw [getElem?_append_right (by omega), getElem?_replicate_of_lt beyond,
        getElem?_eq_none (by omega), getD_none]
  · rw [getElem?_eq_none (by simp; omega), getElem?_eq_none (by simp; omega)]
    rfl

lemma take_unpack_pack : (unpack (pack bits)).take bits.length = bits := by
  rw [unpack_pack, take_left]

lemma pack_inj {bits others : List Bool} (lengths : bits.length = others.length)
    (same : pack bits = pack others) : bits = others := by
  rw [← take_unpack_pack bits, ← take_unpack_pack others, lengths, same]

lemma valueOf_reverse : valueOf bits.reverse = (BitVec.ofNat bits.length (valueOf bits)).reverse.toNat := by
  apply Nat.eq_of_testBit_eq
  intro i
  rw [testBit_valueOf, reverse_reverse, BitVec.testBit_toNat, BitVec.getLsbD_reverse,
    BitVec.getMsbD_eq_getLsbD, BitVec.getLsbD_ofNat, testBit_valueOf]
  by_cases inside : i < bits.length
  · have mirrored : bits.length - 1 - (bits.length - 1 - i) = i := by omega
    have below : bits.length - 1 - i < bits.length := by omega
    simp [inside, below, mirrored]
  · simp [inside]

lemma valueOf_toDigits (n : Nat) : valueOf ((Nat.toDigits 2 n).map (· == '1')) = n := by
  have digit : ∀ d < 2, (d.digitChar == '1').toNat = d := by decide
  induction n using Nat.strongRecOn with
  | ind n ih =>
    by_cases small : n < 2
    · rw [Nat.toDigits_of_lt_base small]
      exact (Nat.zero_add _).trans (digit n small)
    · rw [Nat.toDigits_of_base_le (by decide) (by omega), map_append, map_singleton,
        valueOf_concat, ih (n / 2) (by omega), digit (n % 2) (Nat.mod_lt n (by decide))]
      exact Nat.div_add_mod n 2

lemma valueOf_byte (b : UInt8) : valueOf ((List.range 8).map (digitOf b)) = b.toNat := by
  apply Nat.eq_of_testBit_eq
  intro i
  rw [testBit_valueOf]
  by_cases inside : i < 8
  · have mirrored : 7 - (7 - i) = i := by omega
    simp [inside, digitOf, mirrored]
  · have small : b.toNat < 2 ^ i :=
      Nat.lt_of_lt_of_le b.toNat_lt (Nat.pow_le_pow_right (by decide) (Nat.le_of_not_lt inside))
    simp [inside, Nat.testBit_lt_two_pow small]

lemma valueOf_unpack_concat (b : UInt8) :
    valueOf (unpack (bytes ++ [b])) = valueOf (unpack bytes) * 2 ^ 8 + b.toNat := by
  have split : unpack (bytes ++ [b]) = unpack bytes ++ (List.range 8).map (digitOf b) := by simp [unpack]
  rw [split, valueOf_append, valueOf_byte, length_map, length_range]

lemma wordOf_eq : wordOf bytes = BitVec.ofNat 64 (valueOf (unpack bytes)) := by
  induction bytes using reverseRecOn with
  | nil => rfl
  | append_singleton bytes b ih =>
    have step : wordOf (bytes ++ [b]) = (wordOf bytes <<< 8) ||| BitVec.ofNat 64 b.toNat := by
      rw [wordOf, foldl_append]
      rfl
    have shift : ∀ n, BitVec.ofNat 64 n <<< 8 = BitVec.ofNat 64 (n <<< 8) := by
      intro n
      apply BitVec.eq_of_toNat_eq
      simp [Nat.shiftLeft_eq, Nat.mod_mul_mod]
    calc
      wordOf (bytes ++ [b])
      _ = BitVec.ofNat 64 (valueOf (unpack bytes) <<< 8 ||| b.toNat) := by rw [step, ih, shift, BitVec.ofNat_or]
      _ = BitVec.ofNat 64 (valueOf (unpack bytes) * 2 ^ 8 + b.toNat) := by
        rw [← Nat.shiftLeft_add_eq_or_of_lt b.toNat_lt, Nat.shiftLeft_eq]
      _ = BitVec.ofNat 64 (valueOf (unpack (bytes ++ [b]))) := by rw [valueOf_unpack_concat]

lemma bmod_mul (v : Int) {half scale : Nat} (positive : 0 < half) (positive' : 0 < scale) :
    (v * scale).bmod (2 * half * scale) = v.bmod (2 * half) * scale := by
  rcases (@Int.bmod_eq_iff v (2 * half) _ (by omega)).mp rfl with ⟨low, high, multiple⟩
  generalize v.bmod (2 * half) = c at *
  have below : -(half * scale : Int) ≤ c * scale := by
    rw [← Int.neg_mul]
    exact Int.mul_le_mul_of_nonneg_right (by omega) (Int.natCast_nonneg scale)
  have above : c * scale < half * scale :=
    Int.mul_lt_mul_of_pos_right (by omega) (Int.natCast_pos.mpr positive')
  have size : ((2 * half * scale : Nat) : Int) = 2 * (half * scale) := by
    push_cast
    ring
  apply (Int.bmod_eq_iff (Nat.mul_pos (by omega) positive')).mpr
  refine ⟨by rw [size]; omega, by rw [size]; omega, ?_⟩
  rw [← Int.sub_mul]
  exact_mod_cast Int.mul_dvd_mul_right (scale : Int) multiple

/-- A number that is moved up in a word and down again keeps the places that stay in the word, the
highest of them as the sign. -/
lemma toInt_sshiftRight (v : Nat) {shift : Nat} (small : shift < 64) :
    ((BitVec.ofNat 64 (v * 2 ^ shift)).sshiftRight shift).toInt = (v : Int).bmod (2 ^ (64 - shift)) := by
  have kept : 2 ^ (64 - shift) = 2 * 2 ^ (63 - shift) := by
    rw [← Nat.pow_succ']
    congr 1
    omega
  have word : 2 ^ 64 = 2 * 2 ^ (63 - shift) * 2 ^ shift := by
    calc
      2 ^ 64 = 2 ^ (64 - shift + shift) := by rw [Nat.sub_add_cancel small.le]
      _ = 2 ^ (64 - shift) * 2 ^ shift := Nat.pow_add 2 (64 - shift) shift
      _ = 2 * 2 ^ (63 - shift) * 2 ^ shift := by rw [kept]
  have scaled := bmod_mul v (Nat.two_pow_pos (63 - shift)) (Nat.two_pow_pos shift)
  rw [BitVec.toInt_sshiftRight, BitVec.toInt_ofNat', shiftRight_eq_div_pow, kept, word, natCast_mul, scaled]
  exact mul_ediv_cancel _ (natCast_ne_zero.mpr (Nat.two_pow_pos shift).ne')

lemma padding_lt (bits : Nat) : padding bits < 8 := by
  rw [padding, byteCount]
  omega

end CircuitWorks.Outcome

namespace CircuitWorks.Outcomes

open List

open Outcome

structure Valid (a : Outcomes) : Prop where
  rows : ∀ row ∈ a.rows, row.length = a.bytes
  room : a.width ≤ 8 * a.bytes

variable {a : Outcomes}

lemma Valid.length (valid : a.Valid) : ∀ row ∈ a.readouts, row.length = a.width := by
  intro row mem
  obtain ⟨packed, inside, rfl⟩ := mem_map.mp mem
  rw [length_take, length_unpack, valid.rows packed inside]
  exact Nat.min_eq_left valid.room

variable {width : Nat} {places : List Nat} {table : List (List Bool)} {row : List Bool}

lemma readouts_ofTable (lengths : ∀ row ∈ table, row.length = width) : (ofTable width table).readouts = table := by
  have each : ∀ row ∈ table, (unpack (pack row)).take width = row := by
    intro row mem
    rw [← lengths row mem]
    exact take_unpack_pack row
  simp only [readouts, ofTable, map_map]
  exact (map_congr_left each).trans (map_id' table)

def single (width : Nat) (row : List Bool) : Outcomes := ofTable width [row]

lemma readouts_single (length : row.length = width) : (single width row).readouts = [row] := by
  apply readouts_ofTable
  intro r mem
  rw [mem_singleton.mp mem, length]

lemma readout_single (length : row.length = width) : (single width row).readout = .ok row := by
  rw [readout, readouts_single length]

def columnsOf (places : List Nat) (row : List Bool) : List Bool :=
  places.map fun i => row.getD i false

lemma mapM_place? (inside : ∀ i ∈ places, i < width) :
    (places.map fun (i : Nat) => (i : Int)).mapM (place? width) = some places := by
  induction places with
  | nil => rfl
  | cons i rest ih =>
    have own : place? width (i : Int) = some i := by
      have below : (i : Int) < width := Int.ofNat_lt.mpr (inside i (by simp))
      rw [place?, if_pos ⟨Int.natCast_nonneg i, below⟩, Int.toNat_natCast]
    rw [map_cons, mapM_cons, own, ih fun j mem => inside j (.tail i mem)]
    rfl

lemma mapM_place?_eq_none (mem : i ∈ places) (beyond : width ≤ i) :
    (places.map fun (i : Nat) => (i : Int)).mapM (place? width) = none := by
  induction places with
  | nil => cases mem
  | cons j rest ih =>
    rw [map_cons, mapM_cons]
    rcases mem_cons.mp mem with rfl | later
    · have own : place? width (i : Int) = none := by
        rw [place?, if_neg (by omega), if_neg (by omega)]
      rw [own]
      rfl
    · rw [ih later]
      cases place? width (j : Int) <;> rfl

lemma choose_ok (inside : ∀ i ∈ places, i < a.width) : a.choose (places.map fun (i : Nat) => (i : Int)) =
    .ok (ofTable places.length (a.readouts.map (columnsOf places))) := by
  rw [choose, mapM_place? inside]
  rfl

lemma choose_error (mem : i ∈ places) (beyond : a.width ≤ i) :
    a.choose (places.map fun (i : Nat) => (i : Int)) = .error .column := by
  rw [choose, mapM_place?_eq_none mem beyond]

def rowsOf (a : Outcomes) : List Outcomes := a.rows.map fun row => ⟨a.width, a.bytes, [row]⟩

lemma map_rowsOf {α : Type} {f : List Bool → α} {g : Outcomes → α}
    (same : ∀ row, g ⟨a.width, a.bytes, [row]⟩ = f ((unpack row).take a.width)) :
    a.rowsOf.map g = a.readouts.map f := by
  rw [rowsOf, readouts, map_map, map_map]
  exact map_congr_left fun row _ => same row

lemma rowsOf_ofTable (width : Nat) (table : List (List Bool)) :
    (ofTable width table).rowsOf = table.map (single width) := map_map

lemma isTally_counts (a : Outcomes) : Counter.IsTally a.counts a.rowsOf := by
  let row (bytes : List UInt8) : Outcomes := ⟨a.width, a.bytes, [bytes]⟩
  have inj : ∀ x ∈ a.rows, ∀ y ∈ a.rows, row x = row y → x = y := by simp [row]
  exact (Counter.isTally_tally rowLe a.rows).map inj

lemma rowsOf_ne_nil (nonempty : a.rows ≠ []) : a.rowsOf ≠ [] := by
  simpa [rowsOf] using nonempty

lemma readoutCounts_ok (lengths : ∀ row ∈ table, row.length = width)
    (tally : Counter.IsTally c (table.map (single width))) :
    ∃ d, readoutCounts c = .ok d ∧ Counter.IsTally d table := by
  -- reading is injective on clean rows, so no two keys fall together
  let bitsOf (a : Outcomes) : List Bool := a.readout.toOption.getD []
  have bitsOf_single : ∀ row ∈ table, bitsOf (single width row) = row := by
    intro row mem
    simp only [bitsOf, readout_single (lengths row mem)]
    rfl
  have injective : ∀ x ∈ table.map (single width), ∀ y ∈ table.map (single width),
      bitsOf x = bitsOf y → x = y := by
    intro x first y second same
    obtain ⟨row, inside, rfl⟩ := mem_map.mp first
    obtain ⟨other, inside', rfl⟩ := mem_map.mp second
    rw [bitsOf_single row inside, bitsOf_single other inside'] at same
    rw [same]
  have back : (table.map (single width)).map bitsOf = table := by
    rw [map_map]
    exact (map_congr_left bitsOf_single).trans (map_id' table)
  have renamed := tally.map injective
  rw [back] at renamed
  refine ⟨_, ?_, renamed⟩
  have read : c.mapM (fun e => do return (← e.1.readout, e.2)) =
      Except.ok (c.map fun e => (bitsOf e.1, e.2)) := by
    apply mapM_ok
    intro e mem
    have known := tally.mem_items (mem_map_of_mem mem)
    obtain ⟨row, inside, same⟩ := mem_map.mp known
    rw [← same, readout_single (lengths row inside), bitsOf_single row inside]
    rfl
  rw [readoutCounts, read]
  change Except.ok (Counter.ofEntries _) = _
  rw [Counter.ofEntries_of_nodup renamed.nodup]

lemma rowNumber_pack (bits : List Bool) : rowNumber bits.length (pack bits) =
    (valueOf bits : Int).bmod (2 ^ (64 - padding bits.length)) := by
  have shift : 8 * (pack bits).length - bits.length = padding bits.length := by rw [length_pack, padding]
  have small := padding_lt bits.length
  rw [rowNumber, shift, wordOf_eq, unpack_pack, valueOf_append, valueOf_zeros, Nat.add_zero,
    length_replicate, toInt_sshiftRight _ (by omega)]

open List Outcome Int

def oriented (highestFirst : Bool) (bits : List Bool) : List Bool :=
  if highestFirst then bits else bits.reverse

lemma length_oriented (highestFirst : Bool) (bits : List Bool) :
    (oriented highestFirst bits).length = bits.length := by
  cases highestFirst
  · exact length_reverse
  · rfl

def written (width : Nat) (highestFirst : Bool) (v : Int) : List Bool :=
  oriented highestFirst (padded width v)

def Fits (width : Nat) (v : Int) : Prop := 0 ≤ v ∧ v < 2 ^ width

instance (width : Nat) (v : Int) : Decidable (Fits width v) := inferInstanceAs (Decidable (_ ∧ _))

section

variable {width : Nat} {v : Int}

lemma length_padded (width : Nat) (v : Int) : (padded width v).length = max width (digits v).length := by
  rw [padded, length_append, length_replicate]
  omega

lemma digits_of_nonneg (natural : 0 ≤ v) : digits v = (Nat.toDigits 2 v.natAbs).map (· == '1') := by
  rw [digits, if_neg (not_lt.mpr natural)]

lemma length_padded_eq_iff (positive : 0 < width) (natural : 0 ≤ v) :
    (padded width v).length = width ↔ v < 2 ^ width := by
  have power : ((2 ^ width : Nat) : Int) = 2 ^ width := natCast_pow 2 width
  have count := @Nat.length_toDigits_le_iff 2 v.natAbs width (by decide) positive
  rw [length_padded, digits_of_nonneg natural, length_map]
  omega

lemma valueOf_padded (width : Nat) (natural : 0 ≤ v) : (valueOf (padded width v) : Int) = v := by
  rw [padded, valueOf_append, valueOf_zeros, digits_of_nonneg natural, valueOf_toDigits]
  omega

lemma le_length_written (width : Nat) (highestFirst : Bool) (v : Int) :
    width ≤ (written width highestFirst v).length := by
  rw [written, length_oriented, length_padded]
  exact Nat.le_max_left _ _

lemma length_written_eq_iff (positive : 0 < width) (highestFirst : Bool) (natural : 0 ≤ v) :
    (written width highestFirst v).length = width ↔ v < 2 ^ width := by
  rw [written, length_oriented, length_padded_eq_iff positive natural]

lemma Fits.length_written (fits : Fits width v) (positive : 0 < width) (highestFirst : Bool) :
    (written width highestFirst v).length = width :=
  (length_written_eq_iff positive highestFirst fits.1).mpr fits.2

lemma fits_valueOf (bits : List Bool) : Fits bits.length (valueOf bits) :=
  ⟨natCast_nonneg _, by exact_mod_cast valueOf_lt bits⟩

lemma padded_valueOf {bits : List Bool} (nonempty : bits ≠ []) : padded bits.length (valueOf bits) = bits := by
  rcases fits_valueOf bits with ⟨natural, small⟩
  have positive := length_pos_of_ne_nil nonempty
  apply valueOf_inj ((length_padded_eq_iff positive natural).mpr small)
  exact_mod_cast valueOf_padded bits.length natural

end

section

variable {width : Nat} {highestFirst : Bool} {front : List Int}

lemma getElem?_cutRows (width n : Nat) (bits : List Bool) (i : Nat) : (cutRows width n bits)[i]? =
    if i < n then some ((bits.drop (i * width)).take width) else none := by
  induction n generalizing bits i with
  | zero => rfl
  | succ n ih =>
    cases i with
    | zero => simp [cutRows]
    | succ i =>
      rw [cutRows, getElem?_cons_succ, ih, drop_drop, Nat.succ_mul, Nat.add_comm width]
      simp

lemma getElem?_rows_ofNumbers (numbers : List Int) (width : Nat) (highestFirst : Bool) (i : Nat) :
    (ofNumbers numbers width highestFirst).rows[i]? = if i < numbers.length then
    some (pack (((numbers.flatMap (written width highestFirst)).drop (i * width)).take width)) else none := by
  change ((cutRows width numbers.length
    (numbers.flatMap (written width highestFirst))).map pack)[i]? = _
  rw [getElem?_map, getElem?_cutRows]
  split <;> rfl

lemma row_after (front : List Int) (v : Int) (rest : List Int) :
    (ofNumbers (front ++ v :: rest) width highestFirst).rows[front.length]? =
    some (pack (((front.flatMap (written width highestFirst) ++
    (written width highestFirst v ++ rest.flatMap (written width highestFirst))).drop
    (front.length * width)).take width)) := by
  have inside : front.length < (front ++ v :: rest).length := by simp
  rw [getElem?_rows_ofNumbers, if_pos inside, flatMap_append, flatMap_cons]

lemma length_flatMap_written (positive : 0 < width) (fits : ∀ u ∈ front, Fits width u) :
    (front.flatMap (written width highestFirst)).length = front.length * width := by
  apply length_flatMap
  intro u mem
  exact (fits u mem).length_written positive highestFirst

lemma le_length_flatMap_written (front : List Int) :
    front.length * width ≤ (front.flatMap (written width highestFirst)).length := by
  induction front with
  | nil => simp
  | cons u rest ih =>
    have own := le_length_written width highestFirst u
    rw [flatMap_cons, length_append, length_cons, Nat.succ_mul]
    omega

section

variable (positive : 0 < width)

include positive

lemma lt_length_flatMap_written (natural : ∀ u ∈ front, 0 ≤ u) (long : ∃ u ∈ front, 2 ^ width ≤ u) :
    front.length * width < (front.flatMap (written width highestFirst)).length := by
  rcases long with ⟨u, mem, large⟩
  have exact_ := length_written_eq_iff positive highestFirst (natural u mem)
  have more := le_length_written width highestFirst u
  rcases append_of_mem mem with ⟨before, after_, rfl⟩
  have first : before.length * width ≤ (before.flatMap (written width highestFirst)).length :=
    le_length_flatMap_written before
  have last : after_.length * width ≤ (after_.flatMap (written width highestFirst)).length :=
    le_length_flatMap_written after_
  rw [flatMap_append, flatMap_cons, length_append, length_append, length_append, length_cons, Nat.add_mul, Nat.succ_mul]
  omega

lemma row_after_fitting (fits : ∀ u ∈ front, Fits width u) (v : Int) (rest : List Int) :
    (ofNumbers (front ++ v :: rest) width highestFirst).rows[front.length]? =
    some (pack ((written width highestFirst v).take width)) := by
  rw [row_after, ← length_flatMap_written positive fits, drop_left, take_append_of_le_length (le_length_written _ _ _)]

lemma row_after_long (natural : ∀ u ∈ front, 0 ≤ u) (long : ∃ u ∈ front, 2 ^ width ≤ u) :
    ∃ b, ∀ (v : Int) (rest : List Int), ∃ bits : List Bool,
    (ofNumbers (front ++ v :: rest) width highestFirst).rows[front.length]? = some (pack bits) ∧
    bits.length = width ∧ bits.head? = some b := by
  have beyond : front.length * width < (front.flatMap (written width highestFirst)).length :=
    lt_length_flatMap_written positive natural long
  refine ⟨(front.flatMap (written width highestFirst))[front.length * width], ?_⟩
  intro v rest
  have own := le_length_written width highestFirst v
  refine ⟨_, row_after front v rest, ?_, ?_⟩
  · rw [length_take, length_drop, length_append, length_append]
    omega
  · rw [head?_take, if_neg positive.ne', head?_drop, getElem?_append_left beyond, getElem?_eq_getElem beyond]

lemma row_of_fitting {xs : List Int} (natural : ∀ v ∈ xs, 0 ≤ v)
    (small : ∀ v ∈ xs.take i, v < 2 ^ width) : (ofNumbers xs width highestFirst).rows[i]? =
    xs[i]?.map fun v => pack ((written width highestFirst v).take width) := by
  by_cases inside : i < xs.length
  · have fits : ∀ u ∈ xs.take i, Fits width u := fun u mem =>
      ⟨natural u (mem_of_mem_take mem), small u mem⟩
    have row := @row_after_fitting width highestFirst _ positive fits xs[i] (xs.drop (i + 1))
    rw [getElem_cons_drop, take_append_drop, length_take_of_le inside.le] at row
    rw [row, getElem?_eq_getElem inside, Option.map_some]
  · rw [getElem?_rows_ofNumbers, if_neg inside, getElem?_eq_none (Nat.le_of_not_lt inside)]
    rfl

lemma written_constant (highestFirst digit : Bool) : Fits width (valueOf (replicate width digit)) ∧
    written width highestFirst (valueOf (replicate width digit)) = replicate width digit := by
  have length : (replicate width digit).length = width := length_replicate
  have ne : replicate width digit ≠ [] := by simpa using positive.ne'
  have fits := fits_valueOf (replicate width digit)
  have back := padded_valueOf ne
  rw [length] at fits back
  refine ⟨fits, ?_⟩
  rw [written, back, oriented, reverse_replicate, ite_self]

lemma exists_row_moved (natural : ∀ u ∈ front, 0 ≤ u) (long : ∃ u ∈ front, 2 ^ width ≤ u) :
    ∃ v, Fits width v ∧ ∀ others rest rest' : List Int, others.length = front.length →
    (∀ u ∈ others, Fits width u) → (ofNumbers (front ++ v :: rest) width highestFirst).rows[front.length]? ≠
    (ofNumbers (others ++ v :: rest') width highestFirst).rows[front.length]? := by
  rcases @row_after_long width highestFirst front positive natural long with ⟨b, moved⟩
  -- the row starts with `b`, so a number of other digits is not read from it
  rcases written_constant positive highestFirst (!b) with ⟨small, own⟩
  refine ⟨_, small, ?_⟩
  intro others rest rest' len fits same
  rcases moved (valueOf (replicate width (!b))) rest with ⟨bits, row, length, first⟩
  have clean := @row_after_fitting width highestFirst _ positive fits
    (valueOf (replicate width (!b))) rest'
  rw [own, take_of_length_le (by simp), len, ← same, row] at clean
  have eq := pack_inj (by simpa using length) (Option.some.inj clean)
  rw [eq, head?_replicate, if_neg positive.ne'] at first
  cases b <;> cases first

end

/-- Rows are independent as long as the numbers before them fit: two lists of numbers with the same
number in one place have the same row there. A number that does not fit breaks this for the row after
any numbers among which it stands: there is a number, itself fitting, whose row is not what it is
after numbers that fit. -/
theorem rows_ofNumbers_independent (positive : 0 < width) (highestFirst : Bool) :
    (∀ xs ys : List Int, xs.length = ys.length → (∀ v ∈ xs ++ ys, 0 ≤ v) →
      ∀ i, xs[i]? = ys[i]? → (∀ v ∈ xs.take i ++ ys.take i, v < 2 ^ width) →
        (ofNumbers xs width highestFirst).rows[i]? = (ofNumbers ys width highestFirst).rows[i]?) ∧
    ∀ front : List Int, (∀ u ∈ front, 0 ≤ u) → (∃ u ∈ front, 2 ^ width ≤ u) →
      ∃ v, Fits width v ∧ ∀ others rest rest' : List Int, others.length = front.length →
        (∀ u ∈ others, Fits width u) →
          (ofNumbers (front ++ v :: rest) width highestFirst).rows[front.length]? ≠
            (ofNumbers (others ++ v :: rest') width highestFirst).rows[front.length]? := by
  refine ⟨?_, fun front natural long => exists_row_moved positive natural long⟩
  intro xs ys _ natural i same small
  rcases List.forall_mem_append.mp natural with ⟨naturalX, naturalY⟩
  rcases List.forall_mem_append.mp small with ⟨smallX, smallY⟩
  rw [row_of_fitting positive naturalX smallX, row_of_fitting positive naturalY smallY, same]

/-- A number of three digits in a table of two columns: the last row holds the rest of its digits and
one of its own. -/
theorem rows_ofNumbers_independent_moved :
    (ofNumbers [4, 1] 2 true).readouts = [[true, false], [false, false]] ∧
    (ofNumbers [0, 1] 2 true).readouts = [[false, false], [false, true]] ∧
    (ofNumbers [1, 4, 1] 2 true).rows[1]? = (ofNumbers [0, 4, 5] 2 true).rows[1]? ∧
    ∃ v, Fits 2 v ∧ (ofNumbers [4, v] 2 true).rows[1]? ≠ (ofNumbers [0, v] 2 true).rows[1]? := by
  rcases @rows_ofNumbers_independent 2 (by decide) true with ⟨alike, broken⟩
  rcases broken [4] (by decide) (by decide) with ⟨v, fits, moved⟩
  exact ⟨by decide, by decide, alike [1, 4, 1] [0, 4, 5] rfl (by decide) 1 rfl (by decide), v, fits,
    moved [0] [] [] rfl (by decide)⟩

end

section

variable {width : Nat} {v : Int} {ints : List Int}

def turned (width : Nat) (kept : Bool) (v : Int) : Int :=
  if kept then v else (BitVec.ofInt width v).reverse.toNat

lemma oriented_oriented (made read : Bool) (bits : List Bool) :
    oriented read (oriented made bits) = oriented (made == read) bits := by
  cases made <;> cases read <;> simp [oriented]

lemma valueOf_written (positive : 0 < width) (fits : Fits width v) (made read : Bool) :
    (valueOf (oriented read (written width made v)) : Int) = turned width (made == read) v := by
  rcases fits with ⟨natural, small⟩
  have value := valueOf_padded width natural
  have length := (length_padded_eq_iff positive natural).mpr small
  rw [written, oriented_oriented]
  cases made == read with
  | true => exact value
  | false =>
    have mirrored := valueOf_reverse (padded width v)
    rw [length, ← BitVec.ofInt_natCast, value] at mirrored
    exact congrArg ofNat mirrored

lemma cutRows_flatMap {α : Type} {f : α → List Bool} {xs : List α}
    (lengths : ∀ x ∈ xs, (f x).length = width) : cutRows width xs.length (xs.flatMap f) = xs.map f := by
  induction xs with
  | nil => rfl
  | cons x xs ih =>
    rcases forall_mem_cons.mp lengths with ⟨own, others⟩
    rw [length_cons, flatMap_cons, cutRows, take_left' own, drop_left' own, ih others, map_cons]

lemma ofNumbers_of_fits (positive : 0 < width) {numbers : List Int}
    (fits : ∀ v ∈ numbers, Fits width v) (highestFirst : Bool) : ofNumbers numbers width highestFirst =
    ofTable width (numbers.map (written width highestFirst)) := by
  have len : ∀ v ∈ numbers, (written width highestFirst v).length = width := by
    intro v mem
    exact (fits v mem).length_written positive highestFirst
  exact congrArg (ofTable width) (cutRows_flatMap len)

lemma numbers_ofTable {table : List (List Bool)} (nonempty : table ≠ [])
    (lengths : ∀ row ∈ table, row.length = width) (read : Bool) : (ofTable width table).numbers read =
    .ok (table.map fun row => (valueOf (oriented read row) : Int).bmod (2 ^ (64 - padding width))) := by
  have some_ : (ofTable width table).rows.isEmpty = false := by simpa [ofTable] using nonempty
  rw [numbers, some_, readouts_ofTable lengths]
  cases read with
  | true =>
    change Except.ok ((table.map pack).map (rowNumber width)) = _
    rw [map_map]
    congr 1
    apply map_congr_left
    intro row mem
    have number := rowNumber_pack row
    rwa [lengths row mem] at number
  | false =>
    change Except.ok (table.map fun row => rowNumber row.length (pack row.reverse)) = _
    congr 1
    apply map_congr_left
    intro row mem
    have number := rowNumber_pack row.reverse
    rw [length_reverse] at number
    rw [number, lengths row mem]
    rfl

lemma fits_turned (fits : Fits width v) (kept : Bool) : Fits width (turned width kept v) := by
  cases kept with
  | true => exact fits
  | false =>
    have below := (BitVec.ofInt width v).reverse.isLt
    exact ⟨natCast_nonneg _, ofNat_lt.mpr below⟩

def signPlace (width : Nat) : Nat := 63 - padding width

lemma le_signPlace_iff : width ≤ signPlace width ↔ width ≤ 56 := by
  rw [signPlace, padding, byteCount]
  omega

lemma bmod_eq_self_iff (natural : 0 ≤ v) : v.bmod (2 ^ (64 - padding width)) = v ↔ v < 2 ^ signPlace width := by
  have small := padding_lt width
  have places : 2 ^ (64 - padding width) = 2 * 2 ^ signPlace width := by
    rw [← Nat.pow_succ', signPlace]
    congr 1
    omega
  have power : ((2 ^ signPlace width : Nat) : Int) = 2 ^ signPlace width := natCast_pow 2 _
  have positive := Nat.two_pow_pos (signPlace width)
  rw [places, bmod_eq_iff (by omega), sub_self, and_iff_left (dvd_zero _), ← power]
  omega

lemma exists_turned_ge (positive : 0 < width) (reached : signPlace width < width) (made read : Bool) :
    ∃ v, Fits width v ∧ 2 ^ signPlace width ≤ turned width (made == read) v := by
  rcases written_constant positive made true with ⟨fits, own⟩
  refine ⟨_, fits, ?_⟩
  have set_ : (valueOf (replicate width true)).testBit (signPlace width) = true := by
    simp [testBit_valueOf, reached]
  have large := Nat.ge_two_pow_of_testBit set_
  rw [← valueOf_written positive fits, own, oriented, reverse_replicate, ite_self]
  exact_mod_cast large

lemma numbers_ofNumbers_words (positive : 0 < width) (nonempty : ints ≠ [])
    (fits : ∀ v ∈ ints, Fits width v) (made read : Bool) : (ofNumbers ints width made).numbers read =
    .ok (ints.map fun v => (turned width (made == read) v).bmod (2 ^ (64 - padding width))) := by
  have lengths : ∀ row ∈ ints.map (written width made), row.length = width := by
    intro row mem
    rcases mem_map.mp mem with ⟨v, inside, rfl⟩
    exact (fits v inside).length_written positive made
  rw [ofNumbers_of_fits positive fits, numbers_ofTable (by simpa using nonempty) lengths, map_map]
  congr 1
  apply map_congr_left
  intro v mem
  exact congrArg (bmod · _) (valueOf_written positive (fits v mem) made read)

lemma numbers_ofNumbers_iff (positive : 0 < width) (nonempty : ints ≠ []) (fits : ∀ v ∈ ints, Fits width v)
    (made read : Bool) : (ofNumbers ints width made).numbers read = .ok (ints.map (turned width (made == read))) ↔
    ∀ v ∈ ints, turned width (made == read) v < 2 ^ signPlace width := by
  rw [numbers_ofNumbers_words positive nonempty fits, Except.ok.injEq, map_inj_left]
  exact forall₂_congr fun v mem => bmod_eq_self_iff (fits_turned (fits v mem) _).1

/-- A table of numbers is read in the order in which it was made as these numbers, and in the other
order as the numbers with their bits reversed, as far as the words go: places above the sign are lost
and the sign counts negative. So a list of numbers is read back just if they are all below the sign,
and every list is just if the width is at most 56. -/
theorem numbers_ofNumbers_back (positive : 0 < width) (made read : Bool) :
    (∀ ints : List Int, ints ≠ [] → (∀ v ∈ ints, Fits width v) →
      (ofNumbers ints width made).numbers read =
        .ok (ints.map fun v => (turned width (made == read) v).bmod (2 ^ (64 - padding width))) ∧
      ((ofNumbers ints width made).numbers read = .ok (ints.map (turned width (made == read))) ↔
        ∀ v ∈ ints, turned width (made == read) v < 2 ^ signPlace width)) ∧
    ((∀ ints : List Int, ints ≠ [] → (∀ v ∈ ints, Fits width v) →
      (ofNumbers ints width made).numbers read = .ok (ints.map (turned width (made == read)))) ↔
        width ≤ 56) := by
  constructor
  · intro ints nonempty fits
    exact ⟨numbers_ofNumbers_words positive nonempty fits made read,
      numbers_ofNumbers_iff positive nonempty fits made read⟩
  rw [← le_signPlace_iff]
  constructor
  · intro always
    by_contra reached
    rcases exists_turned_ge positive (Nat.lt_of_not_le reached) made read with ⟨v, fits, large⟩
    have single : ∀ u ∈ [v], Fits width u := by simpa using fits
    have small := (numbers_ofNumbers_iff positive (by simp) single made read).mp
      (always [v] (by simp) single) v (by simp)
    omega
  · intro room ints nonempty fits
    apply (numbers_ofNumbers_iff positive nonempty fits made read).mpr
    intro v member
    have power : (2 : Int) ^ width ≤ 2 ^ signPlace width := by
      exact_mod_cast Nat.pow_le_pow_right (by decide) room
    have below := (fits_turned (fits v member) (made == read)).2
    omega

/-- A number of 65 digits is read as 0 and one of 64 digits as a negative number; numbers of 9 digits
are read in the other order with their bits reversed. -/
theorem numbers_ofNumbers_back_wide :
    Fits 72 (2 ^ 64) ∧ (ofNumbers [2 ^ 64] 72 true).numbers true = .ok [0] ∧
    Fits 64 (2 ^ 63) ∧ (ofNumbers [2 ^ 63] 64 true).numbers true = .ok [-2 ^ 63] ∧
    Fits 9 1 ∧ Fits 9 384 ∧ (ofNumbers [1, 384] 9 false).numbers true = .ok [256, 3] := by
  have lost := ((@numbers_ofNumbers_back 72 (by decide) true true).1 [2 ^ 64] (by simp) (by decide)).1
  have negative := ((@numbers_ofNumbers_back 64 (by decide) true true).1 [2 ^ 63] (by simp)
    (by decide)).1
  have back := (@numbers_ofNumbers_back 9 (by decide) false true).2.mpr (by decide) [1, 384] (by simp)
    (by decide)
  exact ⟨by decide, lost.trans (by decide), by decide, negative.trans (by decide), by decide,
    by decide, back.trans (by decide)⟩

end

end CircuitWorks.Outcomes
