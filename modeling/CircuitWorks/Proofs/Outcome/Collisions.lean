import CircuitWorks.Proofs.Result.Counts
import Mathlib.Data.List.GetD
import Mathlib.Algebra.BigOperators.Ring.Finset
import Mathlib.Algebra.Order.BigOperators.Group.Finset

/-!
Tables of bits, the bytes that hold them, and the lists that they are stored as. Rows are counted by their
bytes, and of the counts of rows that have the same bits only the last is kept.
-/

namespace CircuitWorks

section

open List Json

variable {i : Int}

section

variable {α β : Type}

def Inside (length : Nat) (i : Int) : Prop := -length ≤ i ∧ i < length

instance (length : Nat) (i : Int) : Decidable (Inside length i) :=
  inferInstanceAs (Decidable (_ ∧ _))

lemma Inside.below {length : Nat} (inside : Inside length i) : (i % length).toNat < length := by
  rcases inside with ⟨low, high⟩
  have positive : (0 : Int) < length := by omega
  have upper := Int.emod_lt_of_pos i positive
  omega

def entryAt (missing : α) (xs : List α) (i : Int) : α := xs.getD (i % xs.length).toNat missing

lemma entryAt_mem (missing : α) {xs : List α} (inside : Inside xs.length i) : entryAt missing xs i ∈ xs := by
  rw [entryAt, getD_eq_getElem _ _ inside.below]
  exact getElem_mem _

lemma entryAt_map (f : α → β) (missing : α) (missing' : β) {xs : List α} (inside : Inside xs.length i) :
    entryAt missing' (xs.map f) i = f (entryAt missing xs i) := by
  have below := inside.below
  rw [entryAt, entryAt, length_map, getD_eq_getElem _ _ below, getD_eq_getElem _ _ (by simpa using below), getElem_map]

end

namespace Outcomes

open Outcome

structure Clean (a : Outcomes) : Prop extends Valid a where
  bytes : a.bytes = byteCount a.width
  zeros : ∀ row ∈ a.rows, (unpack row).drop a.width = List.replicate (padding a.width) false

section

variable {width : Nat} {table : List (List Bool)} (lengths : ∀ row ∈ table, row.length = width)

include lengths

lemma clean_ofTable : (ofTable width table).Clean where
  rows := by
    intro packed mem
    rcases mem_map.mp mem with ⟨row, inside, rfl⟩
    rw [length_pack, lengths row inside]
    rfl
  room := by
    have enough := add_padding width
    exact enough ▸ Nat.le_add_right width (padding width)
  bytes := rfl
  zeros := by
    intro packed mem
    rcases mem_map.mp mem with ⟨row, inside, rfl⟩
    have length := lengths row inside
    change (unpack (pack row)).drop width = _
    rw [unpack_pack, ← length, drop_left]
    rfl

lemma ofTable_eq_iff {width' : Nat} {other : List (List Bool)} (nonempty : table ≠ [])
    (lengths' : ∀ row ∈ other, row.length = width') : ofTable width table = ofTable width' other ↔ table = other := by
  constructor
  · intro same
    rw [← readouts_ofTable lengths, same, readouts_ofTable lengths']
  · rintro rfl
    -- the width of a table with a row is seen from its bits
    rcases exists_mem_of_ne_nil table nonempty with ⟨row, mem⟩
    rw [← lengths row mem, ← lengths' row mem]

lemma ofReadoutsJson_ofBits (nonempty : table ≠ []) :
    ofReadoutsJson (.arr (table.map .ofBits)) = .ok (ofTable width table) := by
  let numbers : List (List Int) := table.map fun row => row.map fun b => (ofBit b).whole
  have rows : ∀ row ∈ table, (ofBits row).tensor? = some ⟨[width], row.map .ofBit⟩ := by
    intro row mem
    rw [ofBits, tensor?_leaves ofBit (fun _ => rfl), lengths row mem]
  have array := tensor?_arr ofBits (fun row => row.map .ofBit) [width] rows (.inl nonempty)
  have whole : Tensor.map whole ⟨[table.length, width], table.flatMap fun row =>
      row.map ofBit⟩ = Tensor.ofRows width numbers := by
    simp [Tensor.map, Tensor.ofRows, numbers, flatMap_def, Function.comp_def]
  have sized : ∀ row ∈ numbers, row.length = width := by
    intro row mem
    rcases mem_map.mp mem with ⟨bits, inside, rfl⟩
    rw [length_map, lengths bits inside]
  have back : (numbers.map fun row => row.map fun n => decide (n ≠ 0)) = table := by
    have digit : ∀ b, (!decide ((ofBit b).whole = 0)) = b := by
      intro b
      cases b <;> rfl
    simp [numbers, Function.comp_def, digit]
  have read := Tensor.rows?_ofRows sized
  rw [ofReadoutsJson, array]
  simp only [whole, ofReadouts, read]
  rw [Tensor.ofRows]
  simp only [back]

end

def entriesAt (columns : List Int) (row : List Bool) : List Bool := columns.map (entryAt false row)

lemma length_of_mem_entriesAt {columns : List Int} {table : List (List Bool)} :
    ∀ row ∈ table.map (entriesAt columns), row.length = columns.length := by
  intro row mem
  rcases mem_map.mp mem with ⟨bits, _, rfl⟩
  exact length_map _

lemma place?_of_inside {width : Nat} (inside : Inside width i) : place? width i = some (i % width).toNat := by
  rcases inside with ⟨low, high⟩
  rw [place?]
  split
  · rename_i front
    rw [Int.emod_eq_of_lt front.1 high]
  · have shift : i % width = width + i := by
      rw [← Int.add_emod_left, Int.emod_eq_of_lt (by omega) (by omega)]
    rw [if_pos (by omega), shift]

variable {width : Nat} {table : List (List Bool)} {columns picked : List Int}

lemma choose_ofTable (lengths : ∀ row ∈ table, row.length = width) (inside : ∀ i ∈ columns, Inside width i) :
    (ofTable width table).choose columns = .ok (ofTable columns.length (table.map (entriesAt columns))) := by
  have places : columns.mapM (place? (ofTable width table).width) =
      some (columns.map fun (i : Int) => (i % width).toNat) :=
    mapM_some _ _ columns fun i mem => place?_of_inside (inside i mem)
  have chosen : ∀ row ∈ table, ((columns.map fun (i : Int) => (i % width).toNat).map fun i =>
      row.getD i false) = entriesAt columns row := by
    intro row mem
    rw [map_map, entriesAt, ← lengths row mem]
    rfl
  rw [choose, places, readouts_ofTable lengths]
  simp only [length_map, map_congr_left chosen]

lemma entriesAt_entriesAt (inside : ∀ j ∈ picked, Inside columns.length j) (row : List Bool) :
    entriesAt picked (entriesAt columns row) = entriesAt (picked.map (entryAt 0 columns)) row := by
  rw [entriesAt, entriesAt, entriesAt, map_map]
  apply map_congr_left
  intro j mem
  exact entryAt_map (entryAt false row) 0 false (inside j mem)

lemma choose_choose (lengths : ∀ row ∈ table, row.length = width) (inside : ∀ i ∈ columns, Inside width i)
    (inside' : ∀ j ∈ picked, Inside columns.length j) :
    (ofTable columns.length (table.map (entriesAt columns))).choose picked =
    (ofTable width table).choose (picked.map (entryAt 0 columns)) := by
  have reached : ∀ i ∈ picked.map (entryAt 0 columns), Inside width i := by
    intro i mem
    rcases mem_map.mp mem with ⟨j, own, rfl⟩
    exact inside _ (entryAt_mem 0 (inside' j own))
  rw [choose_ofTable length_of_mem_entriesAt inside', choose_ofTable lengths reached, map_map, length_map]
  congr 2
  exact map_congr_left fun row _ => entriesAt_entriesAt inside' row

/-- Packing is faithful. A table of bits with a row is packed with its own width and zeros after the
bits, and read back as it was; it equals another packed table just if their bits are the same. Columns
at any places of the table, in any order and also several times, are chosen as from the bits, and a
second choice among them is a choice of columns of the table itself. -/
theorem ofReadoutsJson_faithful (nonempty : table ≠ [])
    (lengths : ∀ row ∈ table, row.length = width) :
    ∃ a, ofReadoutsJson (.arr (table.map .ofBits)) = .ok a ∧
      a.readouts = table ∧ a.width = width ∧ a.Clean ∧
      (∀ (width' : Nat) (other : List (List Bool)), other ≠ [] →
        (∀ row ∈ other, row.length = width') →
        ∃ b, ofReadoutsJson (.arr (other.map .ofBits)) = .ok b ∧ (a == b ↔ table = other)) ∧
      ∀ columns : List Int, (∀ i ∈ columns, Inside width i) →
        ∃ b, a.choose columns = .ok b ∧ b.readouts = table.map (entriesAt columns) ∧
          ∀ picked : List Int, (∀ j ∈ picked, Inside columns.length j) →
            ∃ c, b.choose picked = .ok c ∧ a.choose (picked.map (entryAt 0 columns)) = .ok c := by
  refine ⟨ofTable width table, ofReadoutsJson_ofBits lengths nonempty, readouts_ofTable lengths, rfl,
    clean_ofTable lengths, ?_, ?_⟩
  · intro width' other nonempty' lengths'
    refine ⟨ofTable width' other, ofReadoutsJson_ofBits lengths' nonempty', ?_⟩
    rw [beq_iff_eq]
    exact ofTable_eq_iff lengths nonempty lengths'
  · intro columns inside
    refine ⟨_, choose_ofTable lengths inside, readouts_ofTable length_of_mem_entriesAt, ?_⟩
    intro picked inside'
    have second := choose_ofTable (@length_of_mem_entriesAt columns table) inside'
    exact ⟨_, second, (choose_choose lengths inside inside').symm.trans second⟩

def nineColumns : List (List Bool) :=
  [[true, false, false, false, false, false, false, false, true],
    [false, true, true, true, true, true, true, true, true]]

theorem ofReadoutsJson_faithful_nine :
    nineColumns ≠ [] ∧ (∀ row ∈ nineColumns, row.length = 9) ∧
    ∃ a, ofReadoutsJson (.arr (nineColumns.map .ofBits)) = .ok a ∧
      a.readouts = nineColumns ∧ a.width = 9 ∧ a.Clean ∧
      ∃ b, a.choose [8, -9, 8] = .ok b ∧
        b.readouts = [[true, true, true], [true, false, true]] ∧
        ∃ c, b.choose [1, -1] = .ok c ∧ a.choose [-9, 8] = .ok c := by
  have nonempty : nineColumns ≠ [] := by decide
  have lengths : ∀ row ∈ nineColumns, row.length = 9 := by decide
  rcases ofReadoutsJson_faithful nonempty lengths with ⟨a, packed, back, width, clean, _, choices⟩
  rcases choices [8, -9, 8] (by decide) with ⟨b, chosen, columns, again⟩
  rcases again [1, -1] (by decide) with ⟨c, second, atOnce⟩
  exact ⟨nonempty, lengths, a, packed, back, width, clean, b, chosen, columns, c, second, atOnce⟩

end Outcomes

end

section

open List Option Outcomes Nested

variable {width : Nat} {a : Outcomes} (numbers : List Int)

namespace Tensor

variable {α β : Type} {t : Tensor α}

lemma Full.map (full : t.Full) (f : α → β) : (t.map f).Full :=
  (length_map f).trans full

lemma full_of_stack? {ts : List (Tensor α)} (each : ∀ u ∈ ts, u.Full) (done : stack? ts = some t) : t.Full := by
  cases ts with
  | nil =>
    have empty := some.inj done
    rw [← empty]
    rfl
  | cons first rest =>
    rw [stack?] at done
    split at done
    · rename_i alike
      have same := some.inj done
      have shapes : ∀ u ∈ rest, u.entries.length = volume first.shape := by
        intro u mem
        have shape : u.shape = first.shape := of_decide_eq_true (all_eq_true.mp alike u mem)
        rw [← shape]
        exact each u (.tail first mem)
      have own : first.entries.length = volume first.shape := each first (by simp)
      rw [← same, Full, volume_cons, length_append, length_flatMap _ shapes, own, Nat.succ_mul, Nat.add_comm]
    · cases done

lemma Full.rows? (full : t.Full) (shape : t.shape = [n, width]) :
    ∃ rows, t.rows? = some rows ∧ rows.length = n ∧ ∀ row ∈ rows, row.length = width := by
  have side : volume [width] = width := by simp [volume]
  have length : t.entries.length = n * width := by rw [full, shape, volume_cons, side]
  have rows : t.rows? = some ((range n).map fun k => part width k t.entries) := by
    simp [Tensor.rows?, slices, shape, side]
  refine ⟨_, rows, by simp, ?_⟩
  intro row mem
  rcases mem_map.mp mem with ⟨k, below, rfl⟩
  exact length_part length (mem_range.mp below)

lemma full_of_mapM? {u : Tensor β} (full : t.Full) (done : t.mapM? f = some u) : u.Full := by
  rcases map_eq_some_iff.mp done with ⟨entries, read, rfl⟩
  exact (length_of_mapM_eq_some read).trans full

end Tensor

mutual

lemma Nested.full_of_tensor? (n : Nested α) (read : n.tensor? = some t) : t.Full := by
  match n with
  | .leaf a =>
    have same : (⟨[], [a]⟩ : Tensor α) = t := some.inj read
    rw [← same]
    rfl
  | .node items =>
    rw [tensor?] at read
    rcases bind_eq_some_iff.mp read with ⟨ts, parts, stacked⟩
    exact Tensor.full_of_stack? (full_of_tensors? items parts) stacked

lemma Nested.full_of_tensors? (items : List (Nested α)) {ts : List (Tensor α)}
    (read : tensors? items = some ts) : ∀ t ∈ ts, t.Full := by
  match items with
  | [] =>
    have none : [] = ts := some.inj read
    simp [← none]
  | n :: rest =>
    rw [tensors?] at read
    rcases bind_eq_some_iff.mp read with ⟨t, first, others⟩
    rcases bind_eq_some_iff.mp others with ⟨us, later, joined⟩
    have same : t :: us = ts := some.inj joined
    rw [← same]
    exact forall_mem_cons.mpr
      ⟨full_of_tensor? n first, full_of_tensors? rest later⟩

end

lemma Nested.shape_ne_zero {n : Nested α} (read : n.tensor? = some t)
    {rows : Nat} (shape : t.shape = [rows, width]) : rows ≠ 0 := by
  cases n with
  | leaf a =>
    have same : (⟨[], [a]⟩ : Tensor α) = t := some.inj read
    simp [← same] at shape
  | node items =>
    rcases bind_eq_some_iff.mp read with ⟨ts, _, stacked⟩
    cases ts with
    | nil =>
      have same : (⟨[0], []⟩ : Tensor α) = t := some.inj stacked
      simp [← same] at shape
    | cons first rest =>
      rw [Tensor.stack?] at stacked
      split at stacked
      · have same := some.inj stacked
        rw [← same] at shape
        have count : rest.length + 1 = rows := (cons.inj shape).1
        omega
      · cases stacked

namespace Outcomes

open Outcome

lemma valid_ofBytes (full : t.Full) (made : ofBytes t width = .ok a) : a.Valid := by
  rw [ofBytes] at made
  split at made
  · rename_i n bytes rows shape read
    rcases full.rows? shape with ⟨rows', read', _, len⟩
    have same : rows = rows' := some.inj (read.symm.trans read')
    split at made
    · cases made
    · rename_i room
      have table := Except.ok.inj made
      rw [← table]
      exact ⟨same ▸ len, Nat.le_of_not_lt room⟩
  · cases made

lemma ofReadouts_shape (full : t.Full)
    (made : ofReadouts t = .ok a) : a.Valid ∧ t.shape = [a.count, a.width] := by
  rw [ofReadouts] at made
  split at made
  · rename_i n width rows shape read
    rcases full.rows? shape with ⟨rows', read', count, len⟩
    have same : rows = rows' := some.inj (read.symm.trans read')
    have table := Except.ok.inj made
    have bits : ∀ row ∈ rows.map fun row => row.map fun v => decide (v ≠ 0), row.length = width := by
      intro row mem
      rcases mem_map.mp mem with ⟨numbers, inside, rfl⟩
      rw [length_map, len numbers (same ▸ inside)]
    have rowsLength : a.count = n := by rw [← table, Outcomes.count, ofTable, length_map, length_map, same, count]
    have columns : a.width = width := by
      rw [← table]
      rfl
    rw [rowsLength, columns, ← table]
    exact ⟨(clean_ofTable bits).toValid, shape⟩
  · cases made

lemma length_of_mem_cutRows {bits : List Bool} (enough : n * width ≤ bits.length) :
    ∀ row ∈ cutRows width n bits, row.length = width := by
  induction n generalizing bits with
  | zero => simp [cutRows]
  | succ n ih =>
    rw [Nat.succ_mul] at enough
    have rest : n * width ≤ (bits.drop width).length := by
      rw [length_drop]
      omega
    rw [cutRows, forall_mem_cons, length_take]
    exact ⟨by omega, ih rest⟩

lemma valid_ofNumbers (width : Nat) (highestFirst : Bool) : (ofNumbers numbers width highestFirst).Valid := by
  have enough : numbers.length * width ≤ (numbers.flatMap (written width highestFirst)).length :=
    le_length_flatMap_written numbers
  exact (clean_ofTable (length_of_mem_cutRows enough)).toValid

lemma count_ofNumbers (width : Nat) (highestFirst : Bool) :
    (ofNumbers numbers width highestFirst).count = numbers.length := by
  have rows : ∀ (n : Nat) (bits : List Bool), (cutRows width n bits).length = n := by
    intro n
    induction n with
    | zero => intro bits; rfl
    | succ n ih => intro bits; rw [cutRows, length_cons, ih]
  rw [count, ofNumbers, ofTable, length_map, rows]

lemma valid_choose {columns : List Int} (made : a.choose columns = .ok b) : b.Valid := by
  rw [choose] at made
  split at made
  · have table := Except.ok.inj made
    rw [← table]
    refine (clean_ofTable ?_).toValid
    intro row mem
    rcases mem_map.mp mem with ⟨bits, _, rfl⟩
    exact length_map _
  · cases made

lemma Valid.counted (valid : a.Valid) (counted : (b, n) ∈ a.counts) : b.Valid := by
  have mem := (isTally_counts a).mem_items (mem_map_of_mem (f := Prod.fst) counted)
  rcases mem_map.mp mem with ⟨row, inside, rfl⟩
  refine ⟨?_, valid.room⟩
  intro r single
  rw [mem_singleton.mp single]
  exact valid.rows row inside

/-- A table of lists of numbers has a row, since an empty list has no second dimension. -/
lemma valid_ofReadoutsJson (made : ofReadoutsJson j = .ok a) : a.Valid ∧ a.count ≠ 0 := by
  rw [ofReadoutsJson] at made
  split at made
  · cases made
  · rename_i t read
    have full := full_of_tensor? _ read
    rcases ofReadouts_shape (full.map Json.whole) made with ⟨valid, shape⟩
    exact ⟨valid, shape_ne_zero read shape⟩

lemma valid_ofJson (made : ofJson j = .ok a) : a.Valid := by
  rw [ofJson] at made
  split at made
  · rename_i array _
    split at made
    · rename_i t read
      split at made
      · rename_i bytes entries
        split at made
        · have full := full_of_tensor? _ read
          exact valid_ofBytes (Tensor.full_of_mapM? full entries) made
        · cases made
      · cases made
    · cases made
  · cases made

/-- The tables that there are: made from bytes, from numbers, from arrays or lists of bits, read from
what was stored, with columns chosen from another or counted as a row of another. -/
inductive Made : Outcomes → Prop
  | ofBytes {t : Tensor UInt8} {width : Nat} {a : Outcomes} (full : t.Full)
      (made : ofBytes t width = .ok a) : Made a
  | ofNumbers (numbers : List Int) (width : Nat) (highestFirst : Bool) :
      Made (ofNumbers numbers width highestFirst)
  | ofReadouts {t : Tensor Int} {a : Outcomes} (full : t.Full)
      (made : ofReadouts t = .ok a) : Made a
  | ofReadoutsJson {j : Json} {a : Outcomes} (made : ofReadoutsJson j = .ok a) : Made a
  | ofJson {j : Json} {a : Outcomes} (made : ofJson j = .ok a) : Made a
  | choose {a b : Outcomes} {columns : List Int} (known : Made a)
      (made : a.choose columns = .ok b) : Made b
  | counts {a b : Outcomes} {n : Int} (known : Made a) (counted : (b, n) ∈ a.counts) : Made b

lemma Made.valid (made : Made a) : a.Valid := by
  induction made with
  | ofBytes full made => exact valid_ofBytes full made
  | ofNumbers numbers width highestFirst => exact valid_ofNumbers numbers width highestFirst
  | ofReadouts full made => exact (ofReadouts_shape full made).1
  | ofReadoutsJson made => exact (valid_ofReadoutsJson made).1
  | ofJson made => exact valid_ofJson made
  | choose _ made _ => exact valid_choose made
  | counts _ counted valid => exact valid.counted counted

/-- What is stored of a table without rows is refused, whatever its width was. -/
lemma ofJson_toJson_of_count_eq_zero (empty : a.count = 0) : ofJson a.toJson = .error .shape := by
  have rows : a.rows = [] := eq_nil_of_length_eq_zero empty
  have array : a.toJson.get? "array" = some (.arr []) := by simp [toJson, Json.get?, Json.lookup, rows]
  have shape : (Json.arr []).tensor? = some ⟨[0], []⟩ := rfl
  simp only [ofJson, array, shape]
  rfl

lemma Valid.read_back_iff (valid : a.Valid) : ofJson a.toJson = .ok a ↔ a.count ≠ 0 := by
  constructor
  · intro back empty
    rw [ofJson_toJson_of_count_eq_zero empty] at back
    cases back
  · intro counted
    have rows : a.rows ≠ [] := by
      intro none
      exact counted (by rw [count, none]; rfl)
    exact ofJson_toJson valid rows

/-- A table is read back from what is stored of it just if it has a row, and is refused for its shape
otherwise. So all tables of lists of bits are read back, and tables of numbers unless there are no
numbers. -/
theorem made_read_back_iff {a : Outcomes} (made : Made a) :
    (ofJson a.toJson = .ok a ↔ a.count ≠ 0) ∧
    (a.count = 0 → ofJson a.toJson = .error .shape) ∧
    (∀ (numbers : List Int) (width : Nat) (highestFirst : Bool),
      a = ofNumbers numbers width highestFirst → (ofJson a.toJson = .ok a ↔ numbers ≠ [])) ∧
    (∀ t : Tensor Int, t.Full → ofReadouts t = .ok a →
      (ofJson a.toJson = .ok a ↔ t.shape.head? ≠ some 0)) ∧
    ∀ j : Json, ofReadoutsJson j = .ok a → ofJson a.toJson = .ok a := by
  have exactly := made.valid.read_back_iff
  refine ⟨exactly, ofJson_toJson_of_count_eq_zero, ?_, ?_, ?_⟩
  · intro numbers width highestFirst same
    rw [exactly, same, count_ofNumbers]
    exact not_congr List.length_eq_zero_iff
  · intro t full read
    rw [exactly, (ofReadouts_shape full read).2, List.head?_cons]
    simp
  · intro j read
    exact exactly.mpr (valid_ofReadoutsJson read).2

/-- A number of nine digits is read back, and a table of no numbers is not. -/
theorem made_read_back_iff_nine :
    Made (ofNumbers [257] 9 true) ∧
    ofJson (ofNumbers [257] 9 true).toJson = .ok (ofNumbers [257] 9 true) ∧
    Made (ofNumbers [] 2 true) ∧ ofJson (ofNumbers [] 2 true).toJson = .error .shape := by
  have nine := made_read_back_iff (.ofNumbers [257] 9 true)
  have none := made_read_back_iff (.ofNumbers [] 2 true)
  exact ⟨.ofNumbers [257] 9 true, nine.1.mpr (by decide), .ofNumbers [] 2 true, none.2.1 rfl⟩

end Outcomes

end

open List Counter

namespace Counter

variable {κ : Type} [DecidableEq κ] (entries : List (κ × Int)) {le : κ → κ → Bool}

lemma get_set (c : Counter κ) (key : κ) (n : Int) (k : κ) :
    (c.set key n).get k = if key = k then n else c.get k := by
  induction c with
  | nil => rfl
  | cons e rest ih =>
    rcases e with ⟨j, m⟩
    by_cases same : j = key
    · subst same
      rw [set, if_pos rfl, get, get]
      split <;> rfl
    · rw [set, if_neg same, get, get, ih]
      by_cases own : j = k
      · have other : key ≠ k := fun eq => same (own.trans eq.symm)
        rw [if_pos own, if_pos own, if_neg other]
      · rw [if_neg own, if_neg own]

lemma ofEntries_concat (e : κ × Int) :
    ofEntries (entries ++ [e]) = (ofEntries entries).set e.1 e.2 := foldl_append

lemma get_ofEntries (key : κ) : (ofEntries entries).get key =
    ((entries.filter (·.1 = key)).getLast?.map (·.2)).getD 0 := by
  induction entries using reverseRecOn with
  | nil => rfl
  | append_singleton entries e ih =>
    rw [ofEntries_concat, get_set, filter_append]
    by_cases same : e.1 = key
    · simp [same]
    · simp [same, ih]

lemma nodup_ofEntries : ((ofEntries entries).map (·.1)).Nodup := by
  induction entries using reverseRecOn with
  | nil => exact nodup_nil
  | append_singleton entries e ih =>
    rw [ofEntries_concat]
    exact nodup_set ih e.1 e.2

lemma mem_keys_ofEntries (key : κ) : key ∈ (ofEntries entries).map (·.1) ↔ key ∈ entries.map (·.1) := by
  induction entries using reverseRecOn with
  | nil => exact Iff.rfl
  | append_singleton entries e ih =>
    rw [ofEntries_concat, mem_keys_set, ih, map_append, mem_append, map_singleton, mem_singleton, or_comm]

lemma map_get_keys {c : Counter κ} (nodup : (c.map (·.1)).Nodup) : (c.map (·.1)).map c.get = c.map (·.2) := by
  induction c with
  | nil => rfl
  | cons e rest ih =>
    rcases e with ⟨k, n⟩
    rcases nodup_cons.mp nodup with ⟨apart, later⟩
    have others : ∀ j ∈ rest.map (·.1), get ((k, n) :: rest) j = get rest j := by
      intro j mem
      have other : k ≠ j := fun same => apart (same ▸ mem)
      rw [get, if_neg other]
    rw [map_cons, map_cons, map_congr_left others, ih later, map_cons]
    simp [get]

omit [DecidableEq κ] in
lemma total_eq_sum (c : Counter κ) : c.total = (c.map (·.2)).sum := by
  induction c with
  | nil => rfl
  | cons e rest ih => exact congrArg (e.2 + ·) ih

lemma total_eq_sum_keys {c : Counter κ} (nodup : (c.map (·.1)).Nodup) {keys : Finset κ}
    (listed : ∀ k, k ∈ keys ↔ k ∈ c.map (·.1)) : c.total = ∑ k ∈ keys, c.get k := by
  have same : keys = (c.map (·.1)).toFinset := by
    ext k
    rw [listed, mem_toFinset]
  rw [same, sum_toFinset c.get nodup, map_get_keys nodup, total_eq_sum]

lemma keys_tally (le : κ → κ → Bool) (items : List κ) : (tally le items).keys = (items.mergeSort le).eraseDups := by
  rw [keys, tally, map_map]
  exact map_id _

lemma mem_keys_tally {items : List κ} : k ∈ (tally le items).keys ↔ k ∈ items := by
  rw [keys_tally]
  simp

lemma pairwise_keys_tally (trans : ∀ x y z, le x y = true → le y z = true → le x z = true)
    (total : ∀ x y, (le x y || le y x) = true) (items : List κ) :
    (tally le items).keys.Pairwise fun x y => le x y = true := by
  rw [keys_tally]
  exact (pairwise_mergeSort trans total items).sublist (eraseDups_sublist _)

end Counter

section

variable {α : Type} [DecidableEq α] {chosen : α → Bool} {x : α} (own : chosen x = true)

include own

lemma countP_eq_le (items : List α) : items.countP (· = x) ≤ items.countP chosen := by
  apply countP_mono_left
  intro y _ same
  rw [of_decide_eq_true same, own]

lemma countP_eq_iff (items : List α) :
    items.countP (· = x) = items.countP chosen ↔ ∀ y ∈ items, chosen y = true → y = x := by
  induction items with
  | nil => simp
  | cons y ys ih =>
    have fewer := countP_eq_le own ys
    rw [countP_cons, countP_cons, forall_mem_cons, ← ih]
    by_cases same : y = x
    · simp [same, own]
    · cases inside : chosen y with
      | true =>
        have more : ys.countP (· = x) ≠ ys.countP chosen + 1 := by omega
        simp [same, more]
      | false => simp [same]

end

namespace Counter

section

variable {κ μ : Type} [DecidableEq κ] [DecidableEq μ]

def collapsed (le : κ → κ → Bool) (name : κ → μ) (items : List κ) : Counter μ :=
  ofEntries ((tally le items).map fun e => (name e.1, e.2))

variable {le : κ → κ → Bool} {name : κ → μ} {items : List κ} {key : μ}

lemma mem_keys_collapsed : key ∈ (collapsed le name items).map (·.1) ↔ key ∈ items.map name := by
  have names : ((tally le items).map fun e => (name e.1, e.2)).map (·.1) = (tally le items).keys.map name := by
    rw [keys, map_map, map_map]
    rfl
  rw [collapsed, mem_keys_ofEntries, names, mem_map, mem_map]
  simp only [mem_keys_tally]

lemma get_collapsed : (collapsed le name items).get key =
    (((tally le items).keys.filter (name · = key)).getLast?.map fun k => (items.countP (· = k) : Int)).getD 0 := by
  have entries : (tally le items).map (fun e => (name e.1, e.2)) =
      (tally le items).keys.map fun k => (name k, (items.countP (· = k) : Int)) := by
    rw [keys_tally, tally, map_map]
    rfl
  rw [collapsed, entries, get_ofEntries, filter_map, getLast?_map, Option.map_map]
  rfl

lemma get_collapsed_of_not_mem (absent : key ∉ items.map name) : (collapsed le name items).get key = 0 := by
  have none : (tally le items).keys.filter (name · = key) = [] := by
    apply filter_eq_nil_iff.mpr
    intro k mem same
    exact absent (mem_map.mpr ⟨k, mem_keys_tally.mp mem, of_decide_eq_true same⟩)
  rw [get_collapsed, none]
  rfl

variable (trans : ∀ x y z, le x y = true → le y z = true → le x z = true)
  (total : ∀ x y, (le x y || le y x) = true)

include trans total

lemma exists_kept (named : key ∈ items.map name) :
    ∃ x ∈ items, name x = key ∧ (∀ y ∈ items, name y = key → le y x = true) ∧
    (collapsed le name items).get key = items.countP (· = x) := by
  have kind : ∀ k, k ∈ (tally le items).keys.filter (name · = key) ↔ k ∈ items ∧ name k = key := by
    intro k
    rw [mem_filter, mem_keys_tally, decide_eq_true_iff]
  have ordered := (pairwise_keys_tally trans total items).filter (name · = key)
  rcases mem_map.mp named with ⟨first, mem, own⟩
  have ne := ne_nil_of_mem ((kind first).mpr ⟨mem, own⟩)
  rcases Option.ne_none_iff_exists'.mp (mt getLast?_eq_none_iff.mp ne) with ⟨x, last⟩
  rcases getLast?_eq_some_iff.mp last with ⟨before, shape⟩
  rcases (kind x).mp (mem_of_getLast? last) with ⟨inside, same⟩
  refine ⟨x, inside, same, ?_, by rw [get_collapsed, last]; rfl⟩
  intro y other alike
  have found := (kind y).mpr ⟨other, alike⟩
  rw [shape] at found ordered
  rcases mem_append.mp found with earlier | self
  · exact (pairwise_append.mp ordered).2.2 y earlier x (by simp)
  · rw [mem_singleton.mp self]
    exact (Bool.or_self _).symm.trans (total x x)

lemma get_collapsed_le (key : μ) : (collapsed le name items).get key ≤ (items.map name).countP (· = key) := by
  by_cases named : key ∈ items.map name
  · rcases exists_kept trans total named with ⟨x, _, own, _, kept⟩
    have fewer := @countP_eq_le _ _ (name · = key) x (decide_eq_true own) items
    rw [kept, countP_map]
    exact Int.ofNat_le.mpr fewer
  · rw [get_collapsed_of_not_mem named]
    exact Int.natCast_nonneg _

lemma get_collapsed_eq_iff (named : key ∈ items.map name) :
    (collapsed le name items).get key = (items.map name).countP (· = key) ↔
    ∀ x ∈ items, ∀ y ∈ items, name x = key → name y = key → x = y := by
  rcases exists_kept trans total named with ⟨x, inside, own, _, kept⟩
  have same := @countP_eq_iff _ _ (name · = key) x (decide_eq_true own) items
  rw [kept, countP_map, Int.natCast_inj]
  refine same.trans ⟨?_, ?_⟩
  · intro single y first z second nameY nameZ
    rw [single y first (decide_eq_true nameY), single z second (decide_eq_true nameZ)]
  · intro alike y mem nameY
    exact alike y mem x inside (of_decide_eq_true nameY) own

lemma get_collapsed_named_iff : (∀ key ∈ items.map name,
    (collapsed le name items).get key = (items.map name).countP (· = key)) ↔
    ∀ x ∈ items, ∀ y ∈ items, name x = name y → x = y := by
  constructor
  · intro right x first y second same
    have named : name x ∈ items.map name := mem_map_of_mem first
    exact (get_collapsed_eq_iff trans total named).mp (right _ named) x first y second rfl same.symm
  · intro apart key named
    apply (get_collapsed_eq_iff trans total named).mpr
    intro x first y second nameX nameY
    exact apart x first y second (nameX.trans nameY.symm)

lemma get_collapsed_all_iff : (∀ key, (collapsed le name items).get key = (items.map name).countP (· = key)) ↔
    ∀ x ∈ items, ∀ y ∈ items, name x = name y → x = y := by
  rw [← get_collapsed_named_iff trans total]
  refine ⟨fun right key _ => right key, ?_⟩
  intro right key
  by_cases named : key ∈ items.map name
  · exact right key named
  · have none : (items.map name).countP (· = key) = 0 := by
      apply countP_eq_zero.mpr
      intro k mem same
      exact named (of_decide_eq_true same ▸ mem)
    rw [get_collapsed_of_not_mem named, none]
    rfl

lemma total_collapsed_eq_iff : (collapsed le name items).total = items.length ↔
    ∀ x ∈ items, ∀ y ∈ items, name x = name y → x = y := by
  have sum : (collapsed le name items).total = ∑ key ∈ (items.map name).toFinset, (collapsed le name items).get key :=
    total_eq_sum_keys (nodup_ofEntries _) fun _ => mem_toFinset.trans mem_keys_collapsed.symm
  have all : ∑ key ∈ (items.map name).toFinset, (items.map name).countP (· = key) = items.length :=
    (sum_toFinset_count_eq_length _).trans (length_map name)
  rw [sum, ← all, Nat.cast_sum, Finset.sum_eq_sum_iff_of_le fun key _ => get_collapsed_le trans total key,
    ← get_collapsed_named_iff trans total]
  simp only [mem_toFinset]

end

end Counter

namespace Outcomes

open Outcome

lemma rowLe_total (x y : List UInt8) : (rowLe x y || rowLe y x) = true := by
  induction x generalizing y with
  | nil => rfl
  | cons b x ih =>
    cases y with
    | nil => rfl
    | cons c y =>
      rw [rowLe, rowLe]
      by_cases same : b = c
      · rw [if_pos same, if_pos same.symm, ih]
      · rw [if_neg same, if_neg (Ne.symm same)]
        have apart : b.toNat ≠ c.toNat := fun eq => same (UInt8.toNat_inj.mp eq)
        simp only [UInt8.lt_iff_toNat_lt, Bool.or_eq_true, decide_eq_true_eq]
        omega

lemma rowLe_trans (x y z : List UInt8) (first : rowLe x y = true) (second : rowLe y z = true) : rowLe x z = true := by
  induction x generalizing y z with
  | nil => rfl
  | cons b x ih =>
    cases y with
    | nil => cases first
    | cons c y =>
      cases z with
      | nil => cases second
      | cons d z =>
        rw [rowLe] at first second ⊢
        by_cases front : b = c
        · subst front
          rw [if_pos rfl] at first
          by_cases back : b = d
          · rw [if_pos back] at second ⊢
            exact ih y z first second
          · rw [if_neg back] at second ⊢
            exact second
        · rw [if_neg front] at first
          by_cases back : c = d
          · subst back
            rw [if_neg front]
            exact first
          · rw [if_neg back] at second
            have less : b < d :=
              UInt8.lt_trans (of_decide_eq_true first) (of_decide_eq_true second)
            rw [if_neg (UInt8.ne_of_lt less)]
            exact decide_eq_true less

def bitsOf (a : Outcomes) (row : List UInt8) : List Bool := (unpack row).take a.width

/-- Rows with the same bits have the same bytes. -/
def Determined (a : Outcomes) : Prop :=
  ∀ x ∈ a.rows, ∀ y ∈ a.rows, a.bitsOf x = a.bitsOf y → x = y

instance (a : Outcomes) : Decidable a.Determined :=
  inferInstanceAs (Decidable (∀ x ∈ a.rows, ∀ y ∈ a.rows, a.bitsOf x = a.bitsOf y → x = y))

lemma unpack_injective : Function.Injective unpack := by
  intro x
  induction x with
  | nil =>
    intro y same
    have length := congrArg length same
    rw [length_unpack, length_unpack, length_nil] at length
    exact (length_eq_zero_iff.mp (by omega)).symm
  | cons b x ih =>
    intro y same
    cases y with
    | nil => cases same
    | cons c y =>
      rcases append_inj same (by simp) with ⟨digits, later⟩
      have bytes := congrArg valueOf digits
      rw [valueOf_byte, valueOf_byte] at bytes
      rw [UInt8.toNat_inj.mp bytes, ih later]

lemma Clean.determined {a : Outcomes} (clean : a.Clean) : a.Determined := by
  intro x first y second same
  apply unpack_injective
  rw [← take_append_drop a.width (unpack x), ← take_append_drop a.width (unpack y),
    clean.zeros x first, clean.zeros y second]
  exact congrArg (· ++ _) same

lemma readoutCounts_counts (a : Outcomes) : readoutCounts a.counts = .ok (collapsed rowLe a.bitsOf a.rows) := by
  have read : a.counts.mapM (fun e => do return (← e.1.readout, e.2)) =
      (.ok ((tally rowLe a.rows).map fun e => (a.bitsOf e.1, e.2)) : Except Error _) := by
    rw [counts, List.mapM_map]
    apply mapM_ok
    intro e _
    rfl
  rw [readoutCounts, read]
  rfl

/-- Counting a table by its bits. The count of a readout is that of the greatest row with these bits,
and the counts of other rows with them are lost. So each readout has the number of its rows, and the
counts add up to the number of all rows, just if the bits of a row determine its bytes; which they do
in every table with zeros after the bits. -/
theorem readoutCounts_counts_iff (a : Outcomes) :
    ∃ d, readoutCounts a.counts = .ok d ∧ (d.map (·.1)).Nodup ∧
      (∀ bits, bits ∉ a.readouts → d.get bits = 0) ∧
      (∀ bits ∈ a.readouts, ∃ row ∈ a.rows, a.bitsOf row = bits ∧
        (∀ other ∈ a.rows, a.bitsOf other = bits → rowLe other row = true) ∧
        d.get bits = a.rows.countP (· = row)) ∧
      ((∀ bits, d.get bits = a.readouts.countP (· = bits)) ↔ a.Determined) ∧
      (d.total = a.count ↔ a.Determined) ∧ (a.Clean → a.Determined) := by
  refine ⟨_, readoutCounts_counts a, Counter.nodup_ofEntries _, ?_, ?_, ?_, ?_, Clean.determined⟩
  · intro bits absent
    exact Counter.get_collapsed_of_not_mem absent
  · intro bits read
    exact Counter.exists_kept rowLe_trans rowLe_total read
  · exact Counter.get_collapsed_all_iff rowLe_trans rowLe_total
  · exact Counter.total_collapsed_eq_iff rowLe_trans rowLe_total

/-- Two shots of one bit that differ behind it. -/
theorem readoutCounts_counts_iff_padded :
    ofJson (.obj [("width", .int 1), ("array", .arr [.arr [.int 128], .arr [.int 129]])]) =
      .ok ⟨1, 1, [[128], [129]]⟩ ∧
    readouts ⟨1, 1, [[128], [129]]⟩ = [[true], [true]] ∧
    ∃ d, readoutCounts (counts ⟨1, 1, [[128], [129]]⟩) = .ok d ∧ d.get [true] = 1 ∧ d.total ≠ 2 := by
  rcases readoutCounts_counts_iff ⟨1, 1, [[128], [129]]⟩ with ⟨d, read, _, _, kept, _, lost, _⟩
  have once : ∀ row ∈ ([[128], [129]] : List (List UInt8)),
      ([[128], [129]] : List (List UInt8)).countP (· = row) = 1 := by decide
  rcases kept [true] (by decide) with ⟨row, member, _, _, count⟩
  refine ⟨by rfl, by decide, d, read, ?_, fun whole => ?_⟩
  · rw [count, once row member]
    rfl
  · exact absurd (lost.mp whole) (by decide)

end Outcomes

end CircuitWorks
