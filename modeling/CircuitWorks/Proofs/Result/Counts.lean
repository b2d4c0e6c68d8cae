import CircuitWorks.Proofs.Outcome.Tables
import CircuitWorks.Result.Read

/-!
Measured results as a table and as counts: the columns of the stored bits, post-processing row by row,
and the choice of columns.
-/

namespace CircuitWorks

open List Json Tensor

variable {shape : List Nat} {β α : Type} (f : β → Json)

namespace Tensor

variable {α : Type} {rows : List (List α)}

def Full (t : Tensor α) : Prop := t.entries.length = volume t.shape

/-- An array whose shape can be read from its lists. -/
structure WellFormed (t : Tensor α) : Prop where
  length : t.entries.length = volume t.shape
  sides : ∀ n ∈ t.shape.dropLast, 0 < n

lemma volume_cons (n : Nat) (shape : List Nat) : volume (n :: shape) = n * volume shape := by
  rw [volume, volume, ← prod_eq_foldl, ← prod_eq_foldl, prod_cons]

section

variable {size : Nat} {xs : List α}

lemma length_part (length : xs.length = n * size) (below : k < n) : (part size k xs).length = size := by
  have room : k * size + size ≤ n * size := by
    calc
      k * size + size = (k + 1) * size := by rw [Nat.succ_mul]
      _ ≤ n * size := Nat.mul_le_mul_right size below
  rw [part, length_take, length_drop]
  omega

lemma flatMap_part (length : xs.length = n * size) : ((range n).flatMap fun k => part size k xs) = xs := by
  have front : ∀ m, ((range m).flatMap fun k => part size k xs) = xs.take (m * size) := by
    intro m
    induction m with
    | zero => simp
    | succ m ih =>
      rw [range_succ, flatMap_append, ih, Nat.succ_mul, take_add]
      simp [part]
  rw [front, ← length, take_length]

lemma map_part_flatten (lengths : ∀ row ∈ rows, row.length = size) :
    ((range rows.length).map fun k => part size k rows.flatten) = rows := by
  apply ext_getElem (by simp)
  intro k _ inside
  have row := take_drop_flatMap lengths (getElem?_eq_getElem inside)
  simpa [part, flatMap_id'] using row

end

lemma stretchTo_self {xs : List α} (length : xs.length = volume shape) : stretchTo shape shape xs = some xs := by
  induction shape generalizing xs with
  | nil => rfl
  | cons n rest ih =>
    rw [volume_cons] at length
    have parts : ((range n).map fun k => part (volume rest) k xs).mapM
        (stretchTo rest rest) = some ((range n).map fun k => part (volume rest) k xs) := by
      rw [mapM_some (stretchTo rest rest) id, map_id]
      intro row mem
      obtain ⟨k, below, rfl⟩ := mem_map.mp mem
      exact ih (length_part length (mem_range.mp below))
    rw [stretchTo]
    simp only [parts, Option.bind_eq_bind, Option.bind_some, if_pos]
    rw [← flatMap_def, flatMap_part length]
    rfl

lemma broadcast_self {t : Tensor α} (length : t.entries.length = volume t.shape) : t.broadcast t.shape = some t := by
  rw [broadcast, if_pos (Nat.le_refl _), Nat.sub_self]
  simp only [replicate_zero, nil_append]
  rw [stretchTo_self length]
  rfl

lemma rows?_ofRows {width : Nat} (lengths : ∀ row ∈ rows, row.length = width) :
    (ofRows width rows).rows? = some rows := by
  have side : volume [width] = width := by simp [volume]
  simp only [rows?, ofRows, slices, side, map_map, Option.some.injEq]
  exact map_part_flatten lengths

lemma stack?_of_shape {ts : List (Tensor α)} (same : ∀ t ∈ ts, t.shape = shape)
    (seen : ts ≠ [] ∨ shape = []) : stack? ts = some ⟨ts.length :: shape, ts.flatMap entries⟩ := by
  cases ts with
  | nil =>
    obtain rfl := seen.resolve_left (by simp)
    rfl
  | cons t ts =>
    obtain ⟨own, others⟩ := forall_mem_cons.mp same
    have all : (ts.all fun u => u.shape = t.shape) = true := by
      rw [all_eq_true]
      intro u mem
      exact decide_eq_true ((others u mem).trans own.symm)
    rw [stack?, if_pos all, own, flatMap_cons]
    rfl

end Tensor

lemma Json.nestedItems_eq (items : List Json) : nestedItems items = items.map nested := by
  induction items with
  | nil => rfl
  | cons j rest ih => rw [nestedItems, ih, map_cons]

lemma Nested.tensors?_map {f : β → Nested α} {value : β → Tensor α} {xs : List β}
    (each : ∀ x ∈ xs, (f x).tensor? = some (value x)) : Nested.tensors? (xs.map f) = some (xs.map value) := by
  induction xs with
  | nil => rfl
  | cons x xs ih =>
    obtain ⟨own, others⟩ := forall_mem_cons.mp each
    rw [map_cons, Nested.tensors?, own, ih others]
    rfl

lemma Json.tensor?_arr (value : β → List Json) (shape : List Nat) {xs : List β}
    (each : ∀ x ∈ xs, (f x).tensor? = some ⟨shape, value x⟩) (seen : xs ≠ [] ∨ shape = []) :
    (arr (xs.map f)).tensor? = some ⟨xs.length :: shape, xs.flatMap value⟩ := by
  have items : Nested.tensors? (xs.map fun x => (f x).nested) =
      some (xs.map fun x => ⟨shape, value x⟩) := Nested.tensors?_map each
  have same : ∀ t ∈ xs.map fun x => (⟨shape, value x⟩ : Tensor Json), t.shape = shape := by simp
  have stacked := stack?_of_shape same (by simpa using seen)
  rw [tensor?, nested, nestedItems_eq, map_map, Nested.tensor?,
    Function.comp_def, items, Option.bind_some, stacked, length_map, flatMap_map]

lemma Json.tensor?_leaves (leaf : ∀ x, (f x).nested = .leaf (f x)) (xs : List β) :
    (arr (xs.map f)).tensor? = some ⟨[xs.length], xs.map f⟩ := by
  have single : ∀ x ∈ xs, (f x).tensor? = some ⟨[], [f x]⟩ := by
    intro x _
    rw [tensor?, leaf, Nested.tensor?]
  rw [tensor?_arr f (fun x => [f x]) [] single (.inr rfl), map_eq_flatMap]

lemma mapM_map (read : β → Option α) (write : α → β) (each : ∀ x, read (write x) = some x) (xs : List α) :
    (xs.map write).mapM read = some xs := by
  induction xs with
  | nil => rfl
  | cons x xs ih =>
    rw [map_cons, mapM_cons, each, ih]
    rfl

namespace Outcomes

def byteJson (b : UInt8) : Json := .int (b.toNat : Nat)

lemma byte?_byteJson (b : UInt8) : byte? (byteJson b) = some b := by
  have value : (byteJson b).whole = b.toNat := rfl
  have below := b.toNat_lt
  rw [byte?, value, if_pos (by omega), Int.toNat_natCast, UInt8.ofNat_toNat]

lemma ofJson_toJson (valid : a.Valid) (nonempty : a.rows ≠ []) : ofJson a.toJson = .ok a := by
  have rows : ∀ row ∈ a.rows, (arr (row.map byteJson)).tensor? =
      some ⟨[a.bytes], row.map byteJson⟩ := by
    intro row mem
    rw [tensor?_leaves byteJson (fun _ => rfl), valid.rows row mem]
  have array : (arr (a.rows.map fun row => arr (row.map byteJson))).tensor? =
      some ⟨[a.rows.length, a.bytes], a.rows.flatten.map byteJson⟩ := by
    rw [tensor?_arr _ _ _ rows (.inl nonempty), map_flatten, flatMap_def]
  have bytes : mapM? byte? ⟨[a.rows.length, a.bytes], a.rows.flatten.map byteJson⟩ =
      some (ofRows a.bytes a.rows) := by
    rw [mapM?, mapM_map byte? byteJson byte?_byteJson]
    rfl
  have made : ofBytes (ofRows a.bytes a.rows) a.width = .ok a := by
    have table := rows?_ofRows valid.rows
    rw [ofBytes]
    simp only [table]
    rw [ofRows]
    simp only [if_neg (Nat.not_lt.mpr valid.room)]
  have stored : a.toJson.get? "array" =
      some (Json.arr (a.rows.map fun row => Json.arr (row.map byteJson))) := by
    simp [toJson, Json.get?, Json.lookup, byteJson]
  simp only [ofJson, stored, array, bytes]
  exact made

end Outcomes

namespace Result

lemma nestedItems_map (f : α → Json) (g : β → Nested α) (xs : List β) :
    nestedItems f (xs.map g) = xs.map fun x => nestedJson f (g x) := by
  induction xs with
  | nil => rfl
  | cons x xs ih => rw [map_cons, nestedItems, ih, map_cons]

lemma tensor?_nest (f : α → Json) (leaf : ∀ x, (f x).nested = .leaf (f x)) {xs : List α}
    (length : xs.length = volume shape) (sides : ∀ n ∈ shape.dropLast, 0 < n) :
    (nestedJson f (nest shape xs)).tensor? = some ⟨shape, xs.map f⟩ := by
  induction shape generalizing xs with
  | nil =>
    obtain ⟨x, rfl⟩ := length_eq_one_iff.mp length
    rw [nest, nestedJson, tensor?, leaf, Nested.tensor?]
    rfl
  | cons n rest ih =>
    rw [volume_cons] at length
    have below : ∀ n ∈ rest.dropLast, 0 < n := by
      cases rest with
      | nil => simp
      | cons m rest => exact fun k mem => sides k (.tail n mem)
    have each : ∀ k ∈ range n, (nestedJson f (nest rest (part (volume rest) k xs))).tensor? =
          some ⟨rest, (part (volume rest) k xs).map f⟩ := by
      intro k mem
      exact ih (length_part length (mem_range.mp mem)) below
    have seen : range n ≠ [] ∨ rest = [] := by
      cases rest with
      | nil => exact .inr rfl
      | cons m rest =>
        have pos := sides n (by simp)
        exact .inl (by simpa using Nat.ne_of_gt pos)
    rw [nest, nestedJson, nestedItems_map, tensor?_arr _ _ _ each seen,
      length_range, ← map_flatMap, flatMap_part length]

lemma numbersOf_nested (wellFormed : t.WellFormed) :
    numbersOf (nestedJson float t.nested) = .ok t := by
  have entries : (t.entries.map float).mapM number? = some t.entries :=
    mapM_map number? float (fun _ => rfl) t.entries
  rw [numbersOf, Tensor.nested, tensor?_nest float (fun _ => rfl) wellFormed.length wellFormed.sides, Option.bind_some,
    Tensor.mapM?, entries]
  rfl

lemma arrayOf_arrayJson (wellFormed : t.WellFormed) : arrayOf (arrayJson t) = .ok t := by
  have part : ∀ f : Amplitude → Float, (t.map f).WellFormed := by
    intro f
    exact ⟨(length_map f).trans wellFormed.length, wellFormed.sides⟩
  have entries : ((t.entries.map Amplitude.re).zip (t.entries.map Amplitude.im)).map
      (fun e => (⟨e.1, e.2⟩ : Amplitude)) = t.entries := by
    rw [zip_map', map_map]
    exact map_id t.entries
  have re : required (arrayJson t) "real" =
      .ok (nestedJson Json.float (t.map Amplitude.re).nested) := by
    simp [required, arrayJson, Json.get?, Json.lookup]
  have im : required (arrayJson t) "imag" =
      .ok (nestedJson Json.float (t.map Amplitude.im).nested) := by
    simp [required, arrayJson, Json.get?, Json.lookup]
  have fits : (t.map Amplitude.im).broadcast (t.map Amplitude.re).shape =
      some (t.map Amplitude.im) := broadcast_self (part Amplitude.im).length
  simp only [arrayOf, re, im, bind, Except.bind, numbersOf_nested (part _), fits]
  exact congrArg (fun xs => Except.ok (Tensor.mk t.shape xs)) entries

end Result

end CircuitWorks

namespace CircuitWorks.Result

open List Outcomes Counter

section

variable {row : List Bool}

section

variable {bits : List UnitId}

lemma number_of_not_mem {units : List (UnitId × Nat)}
    (absent : u ∉ units.map (·.1)) : number u i units = units ++ [(u, i)] := by
  induction units with
  | nil => rfl
  | cons e rest ih =>
    rw [map_cons, mem_cons, not_or] at absent
    rw [number, if_neg (Ne.symm absent.1), ih absent.2]
    rfl

lemma numbered_eq (distinct : bits.Nodup) : numbered bits = bits.zipIdx := by
  -- by induction on the units, after any numbered units that are not among them
  have general : ∀ (units : List UnitId) (k : Nat) (before : List (UnitId × Nat)), units.Nodup →
      (∀ u ∈ units, u ∉ before.map (·.1)) →
      (units.zipIdx k).foldl (fun m e => number e.1 e.2 m) before = before ++ units.zipIdx k := by
    intro units
    induction units with
    | nil => simp
    | cons u rest ih =>
      intro k before apart fresh
      have parts := nodup_cons.mp apart
      rw [zipIdx_cons, foldl_cons, number_of_not_mem (fresh u (by simp)),
        ih _ _ parts.2, append_assoc, singleton_append]
      intro v mem
      rw [map_append, mem_append, not_or]
      refine ⟨fresh v (.tail u mem), ?_⟩
      intro same
      have equal : v = u := by simpa using same
      exact parts.1 (equal ▸ mem)
  exact general bits 0 [] distinct (by simp)

lemma assign_eq {kind : UnitKind} (distinct : bits.Nodup) (columns : bits.length = n) :
    assign kind bits n = .ok bits.zipIdx := by
  by_cases empty : bits.isEmpty = true
  · have none : bits = [] := isEmpty_iff.mp empty
    subst none
    rw [← columns]
    rfl
  · rw [assign, if_neg empty, if_pos columns, numbered_eq distinct]

lemma lookup_zipIdx (mem : u ∈ bits) (k : Nat) : (bits.zipIdx k).lookup u = some (bits.idxOf u + k) := by
  induction bits generalizing k with
  | nil => cases mem
  | cons v rest ih =>
    rw [zipIdx_cons]
    by_cases same : u = v
    · subst same
      simp
    · have later : u ∈ rest := by simpa [same] using mem
      rw [lookup_cons, idxOf_cons_ne _ (Ne.symm same), beq_false_of_ne same, ih later]
      simp [Nat.add_assoc, Nat.add_comm 1 k]

lemma lookup_zip (mem : u ∈ bits) (length : row.length = bits.length) :
    (bits.zip row).lookup u = some (row.getD (bits.idxOf u) false) := by
  induction bits generalizing row with
  | nil => cases mem
  | cons v rest ih =>
    cases row with
    | nil => cases length
    | cons b row =>
      by_cases same : u = v
      · subst same
        simp
      · have later : u ∈ rest := by simpa [same] using mem
        rw [zip_cons_cons, lookup_cons, beq_false_of_ne same,
          ih later (by simpa using length), idxOf_cons_ne _ (Ne.symm same)]
        simp

lemma mapM_lookup {request : List UnitId} (stored : ∀ u ∈ request, u ∈ bits) :
    request.mapM (fun u => bits.zipIdx.lookup u) = some (request.map bits.idxOf) := by
  induction request with
  | nil => rfl
  | cons u rest ih =>
    rw [mapM_cons, lookup_zipIdx (stored u (by simp)), ih fun v mem => stored v (.tail u mem)]
    rfl

lemma valuation_eq (length : row.length = bits.length) : valuation bits.zipIdx row = .ok (bits.zip row) := by
  have values : bits.zipIdx.map (fun e => (e.1, row.getD e.2 false)) = bits.zip row := by
    apply ext_getElem
    · simp [length]
    · intro i first second
      have inside : i < row.length := by simpa [length] using first
      simp [inside]
  rw [valuation, mapM_ok _ (fun e => (e.1, row.getD e.2 false)), values]
  intro e mem
  have inside : e.2 < row.length := by
    have bound := snd_lt_of_mem_zipIdx mem
    omega
  simp [inside]

end

section

variable {bits request : List UnitId}

/-- Post-processing that gives a value to every bit, whatever the values were. -/
def Covers (p : Processor) (bits : List UnitId) : Prop :=
  ∀ v : Valuation, v.map (·.1) = bits → ∃ w, p v = some w ∧ ∀ u ∈ bits, ∃ b, w.lookup u = some b

def after (process : Option Processor) (v : Valuation) : Valuation :=
  match process with
  | none => v
  | some p => (p v).getD []

def reading (process : Option Processor) (bits request : List UnitId) (row : List Bool) : List Bool :=
  request.map fun u => ((after process (bits.zip row)).lookup u).getD false

lemma length_reading (process : Option Processor) (bits request : List UnitId) (row : List Bool) :
    (reading process bits request row).length = request.length := length_map _

lemma Covers.processed (covers : Covers p bits) (length : row.length = bits.length) :
    processed bits.zipIdx p row = .ok (after (some p) (bits.zip row)) ∧
    ∀ u ∈ bits, valueOf (after (some p) (bits.zip row)) u =
    .ok (((after (some p) (bits.zip row)).lookup u).getD false) := by
  have named : (bits.zip row).map (·.1) = bits := by rw [map_fst_zip (Nat.le_of_eq length.symm)]
  obtain ⟨w, done, values⟩ := covers _ named
  have same : after (some p) (bits.zip row) = w := by
    rw [after, done]
    rfl
  constructor
  · rw [Result.processed, valuation_eq length, same]
    simp only [bind, Except.bind, done]
    rfl
  · intro u mem
    obtain ⟨b, found⟩ := values u mem
    rw [same, valueOf, found]
    rfl

lemma foldl_columns (value : UnitId → Bool) (units : List UnitId) (filled : List Bool) :
    (units.zipIdx filled.length).foldl (fun row e => if value e.1 then row.set e.2 true else row)
    (filled ++ replicate units.length false) = filled ++ units.map value := by
  induction units generalizing filled with
  | nil => simp
  | cons u rest ih =>
    have step : (if value u then
          (filled ++ false :: replicate rest.length false).set filled.length true
        else filled ++ false :: replicate rest.length false) =
        (filled ++ [value u]) ++ replicate rest.length false := by
      cases value u <;> simp
    rw [zipIdx_cons, foldl_cons, length_cons, replicate_succ, step]
    have later := ih (filled ++ [value u])
    rw [length_append, length_singleton] at later
    rw [later]
    simp

lemma Covers.processRow (covers : Covers p bits) (length : row.length = bits.length) :
    processRow bits.zipIdx p bits.length row = .ok (reading (some p) bits bits row) := by
  obtain ⟨done, values⟩ := covers.processed length
  rw [Result.processRow, done]
  let value (u : UnitId) : Bool := ((after (some p) (bits.zip row)).lookup u).getD false
  have each : ∀ e ∈ bits.zipIdx, ∀ filled : List Bool,
      (do return if ← valueOf (after (some p) (bits.zip row)) e.1 then filled.set e.2 true
          else filled : Except Error (List Bool)) =
        .ok (if value e.1 then filled.set e.2 true else filled) := by
    intro e mem filled
    rw [values e.1 (fst_mem_of_mem_zipIdx mem)]
    rfl
  refine (foldlM_ok _ _ bits.zipIdx each _).trans ?_
  have columns := foldl_columns value bits []
  rw [length_nil, nil_append, nil_append] at columns
  rw [columns]
  rfl

lemma Covers.processShots (covers : Covers p bits) (valid : a.Valid)
    (nonempty : a.rows ≠ []) (columns : bits.length = a.width) : processShots bits.zipIdx p a =
    .ok (ofTable a.width (a.readouts.map (reading (some p) bits bits))) := by
  have each : ∀ row ∈ a.readouts, Result.processRow bits.zipIdx p a.width row =
      .ok (reading (some p) bits bits row) := by
    intro row mem
    rw [← columns]
    exact covers.processRow ((valid.length row mem).trans columns.symm)
  have some_ : (a.readouts.map (reading (some p) bits bits)).isEmpty = false := by simpa [readouts] using nonempty
  rw [Result.processShots, mapM_ok _ _ _ each]
  change (if (a.readouts.map (reading (some p) bits bits)).isEmpty then _ else _) = _
  rw [some_]
  rfl

lemma Covers.processCounts (covers : Covers p bits) (stored : ∀ u ∈ request, u ∈ bits)
    {items : List Outcomes} (tally : IsTally c items) (rowOf : Outcomes → List Bool)
    (rows : ∀ a ∈ items, a.readout = .ok (rowOf a) ∧ (rowOf a).length = bits.length) :
    ∃ d, processCounts bits.zipIdx p request c = .ok d ∧ IsTally d
    (items.map fun a => single request.length (reading (some p) bits request (rowOf a))) := by
  let rename (a : Outcomes) := single request.length (reading (some p) bits request (rowOf a))
  have each : ∀ e ∈ c, ∀ d : Counter Outcomes,
      (do let values ← Result.processed bits.zipIdx p (← liftOutcome e.1.readout)
          let row ← request.mapM (valueOf values)
          return d.bump (ofTable request.length [row]) e.2 :
        Except Error (Counter Outcomes)) = .ok (d.bump (rename e.1) e.2) := by
    intro e mem d
    obtain ⟨read, length⟩ := rows e.1 (tally.mem_items (mem_map_of_mem mem))
    obtain ⟨done, values⟩ := covers.processed length
    have row := mapM_ok _ _ request fun u inside => values u (stored u inside)
    refine bind_eq_ok.mpr ⟨rowOf e.1, by rw [read]; rfl, ?_⟩
    refine bind_eq_ok.mpr ⟨_, done, ?_⟩
    exact bind_eq_ok.mpr ⟨_, row, rfl⟩
  -- outcomes that become alike are added up, so the renamed entries need not be a counter
  have counted := tally.toTallies.map rename
  have empty : Collects ([] : Counter Outcomes) [] := ⟨by simp, by simp, fun _ => rfl⟩
  have collects := collects_foldl_bump counted.positive empty
  refine ⟨_, foldlM_ok _ _ c each [], ?_⟩
  rw [foldl_map] at collects
  exact collects.isTally counted

end

section

variable {items : List Outcomes} {places : List Nat}

def chooseCounts (c : Counter Outcomes) (columns : List Int) :
    Except Error (Option (Counter Outcomes)) := do
  let parts ← c.mapM fun (a, n) => do return [(← liftOutcome (a.choose columns), n)]
  pure (mergeAll parts)

lemma chooseCounts_ok (tally : IsTally c items) (nonempty : items ≠ [])
    (rowOf : Outcomes → List Bool) (rows : ∀ a ∈ items, a.readouts = [rowOf a])
    (inside : ∀ a ∈ items, ∀ i ∈ places, i < a.width) :
    ∃ d, chooseCounts c (places.map fun (i : Nat) => (i : Int)) = .ok (some d) ∧
    IsTally d (items.map fun a => single places.length (columnsOf places (rowOf a))) := by
  let rename (a : Outcomes) := single places.length (columnsOf places (rowOf a))
  have each : ∀ e ∈ c, (do return [(← liftOutcome (e.1.choose (places.map fun (i : Nat) => (i : Int))), e.2)] :
      Except Error (Counter Outcomes)) = .ok [(rename e.1, e.2)] := by
    intro e mem
    have known := tally.mem_items (mem_map_of_mem mem)
    rw [choose_ok (inside e.1 known), rows e.1 known]
    rfl
  have counted := tally.toTallies.map rename
  obtain ⟨d, merged, collects⟩ :=
    mergeAll_singles counted.positive (by simpa using tally.ne_nil nonempty)
  refine ⟨d, ?_, collects.isTally counted⟩
  refine bind_eq_ok.mpr ⟨_, mapM_ok _ _ c each, ?_⟩
  rw [map_map] at merged
  exact congrArg Except.ok merged

def rowOf (b : Outcomes) : List Bool := b.readouts.headD []

lemma chooseCounts_singles {rows : List (List Bool)} {width : Nat}
    (lengths : ∀ row ∈ rows, row.length = width) (nonempty : rows ≠ [])
    (tally : IsTally c (rows.map (single width))) (inside : ∀ i ∈ places, i < width) :
    ∃ d, chooseCounts c (places.map fun (i : Nat) => (i : Int)) = .ok (some d) ∧
    IsTally d ((rows.map (columnsOf places)).map (single places.length)) := by
  have one : ∀ b ∈ rows.map (single width), b.readouts = [rowOf b] := by
    intro b mem
    obtain ⟨row, _, rfl⟩ := mem_map.mp mem
    rfl
  have wide : ∀ b ∈ rows.map (single width), ∀ i ∈ places, i < b.width := by
    intro b mem
    obtain ⟨row, _, rfl⟩ := mem_map.mp mem
    exact inside
  obtain ⟨d, chosen, counted⟩ := chooseCounts_ok tally (by simpa using nonempty) rowOf one wide
  have columns : (rows.map (single width)).map
      (fun b => single places.length (columnsOf places (rowOf b))) =
      (rows.map (columnsOf places)).map (single places.length) := by
    rw [map_map, map_map]
    apply map_congr_left
    intro row mem
    have read : rowOf (single width row) = row := by
      rw [rowOf, readouts_single (lengths row mem)]
      rfl
    rw [Function.comp_apply, Function.comp_apply, read]
  rw [columns] at counted
  exact ⟨d, chosen, counted⟩

lemma chooseCounts_error (tally : IsTally c items) (nonempty : items ≠ [])
    (mem : i ∈ places) (beyond : ∀ a ∈ items, a.width ≤ i) :
    chooseCounts c (places.map fun (i : Nat) => (i : Int)) = .error (.outcome .column) := by
  cases c with
  | nil => exact absurd rfl (tally.ne_nil nonempty)
  | cons e rest =>
    obtain ⟨a, n⟩ := e
    have known : a ∈ items := tally.mem_items (by simp)
    rw [chooseCounts, mapM_cons]
    dsimp only
    rw [choose_error mem (beyond a known)]
    rfl

end

end

variable {process : Option Processor}

section

variable {a : Outcomes} {bits request : List UnitId}

def ofShots (a : Outcomes) (bits : List UnitId) (process : Option Processor) : Except Error Result :=
  ofStored { shots := some a } bits [] process

def ofCounts (a : Outcomes) (bits : List UnitId) (process : Option Processor) : Except Error Result :=
  ofStored { counts := some a.counts } bits [] process

lemma ofShots_eq (distinct : bits.Nodup) (columns : bits.length = a.width) (process : Option Processor) :
    ofShots a bits process = .ok ⟨{ shots := some a }, bits.zipIdx, [], process⟩ := by
  refine bind_eq_ok.mpr ⟨some a.width, rfl, ?_⟩
  refine bind_eq_ok.mpr ⟨bits.zipIdx, assign_eq distinct columns, ?_⟩
  rfl

lemma ofCounts_eq (nonempty : a.rows ≠ []) (distinct : bits.Nodup) (columns : bits.length = a.width)
    (process : Option Processor) :
    ofCounts a bits process = .ok ⟨{ counts := some a.counts }, bits.zipIdx, [], process⟩ := by
  have first : columnCount? { counts := some a.counts } = .ok (some a.width) := by
    have tally := a.isTally_counts
    unfold columnCount?
    cases counts : a.counts with
    | nil =>
      rw [counts] at tally
      exact absurd rfl (tally.ne_nil (rowsOf_ne_nil nonempty))
    | cons e rest =>
      rw [counts] at tally
      have known : e.1 ∈ a.rowsOf := tally.mem_items (by simp)
      obtain ⟨row, _, same⟩ := mem_map.mp known
      have more : 0 < e.2 := tally.positive e (by simp)
      simp [more, ← same]
  refine bind_eq_ok.mpr ⟨some a.width, first, ?_⟩
  refine bind_eq_ok.mpr ⟨bits.zipIdx, assign_eq distinct columns, ?_⟩
  rfl

def shotsAfter (process : Option Processor) (bits : List UnitId) (a : Outcomes) :
    Except Error Outcomes :=
  match process with
  | some p => processShots bits.zipIdx p a
  | none => pure a

def countsAfter (process : Option Processor) (bits request : List UnitId) (c : Counter Outcomes) :
    Except Error (Counter Outcomes) :=
  match process with
  | some p => processCounts bits.zipIdx p request c
  | none => pure c

lemma measured_shots (stored : ∀ u ∈ request, u ∈ bits)
    (processed : shotsAfter process bits a = .ok b)
    (chosen : b.choose ((request.map bits.idxOf).map fun (i : Nat) => (i : Int)) = .ok d) :
    measured ⟨{ shots := some a }, bits.zipIdx, [], process⟩ request none = .ok { shots := some d } := by
  have columns := mapM_lookup stored
  have kept : processorOf ⟨{ shots := some a }, bits.zipIdx, [], process⟩ none = .ok process := by cases process <;> rfl
  have lifted : liftOutcome (b.choose ((request.map bits.idxOf).map fun (i : Nat) => (i : Int))) = .ok d := by
    rw [chosen]
    rfl
  unfold measured
  simp only [isMeasured, kept, columns]
  refine bind_eq_ok.mpr ⟨process, rfl, ?_⟩
  refine bind_eq_ok.mpr ⟨none, rfl, ?_⟩
  cases process with
  | none =>
    cases processed
    exact bind_eq_ok.mpr ⟨a, rfl, bind_eq_ok.mpr ⟨d, lifted, rfl⟩⟩
  | some p => exact bind_eq_ok.mpr ⟨b, processed, bind_eq_ok.mpr ⟨d, lifted, rfl⟩⟩

lemma measured_counts (stored : ∀ u ∈ request, u ∈ bits)
    (processed : countsAfter process bits request c = .ok d) :
    measured ⟨{ counts := some c }, bits.zipIdx, [], process⟩ request none = (do
    let counts ← chooseCounts d ((request.map bits.idxOf).map fun (i : Nat) => (i : Int))
    return { counts }) := by
  have columns := mapM_lookup stored
  have kept : processorOf ⟨{ counts := some c }, bits.zipIdx, [], process⟩ none = .ok process := by
    cases process <;> rfl
  unfold measured
  simp only [isMeasured, kept, columns]
  cases process with
  | none =>
    cases processed
    rw [chooseCounts, bind_assoc]
    rfl
  | some p =>
    change (processCounts bits.zipIdx p request c >>= _) = _
    rw [show processCounts bits.zipIdx p request c = .ok d from processed, chooseCounts, bind_assoc]
    rfl

def counted (r : Except Error Result) (request : List UnitId) :
    Except Error (Counter (List Bool)) := do
  (← r).countTable (some (typed .bit request)) .ilo none

lemma ofBits_typed (r : Result) (request : List UnitId) :
    r.ofBits (some (typed .bit request)) .ilo none = r.measured request none := by
  have kinds : ((typed .bit request).all fun u => u.kind = .bit) = true := by simp [typed]
  have ids : (typed .bit request).map (·.id) = request := by simp [typed, Function.comp_def]
  rw [ofBits, Option.getD_some, resultFor, if_pos kinds, ids]

lemma columnsOf_row (stored : ∀ u ∈ request, u ∈ bits) {row : List Bool} (length : row.length = bits.length) :
    columnsOf (request.map bits.idxOf) row = reading none bits request row := by
  rw [columnsOf, reading, map_map]
  apply map_congr_left
  intro u mem
  rw [after, lookup_zip (stored u mem) length]
  rfl

lemma columnsOf_reading (stored : ∀ u ∈ request, u ∈ bits) (process : Option Processor) (row : List Bool) :
    columnsOf (request.map bits.idxOf) (reading process bits bits row) = reading process bits request row := by
  rw [columnsOf, reading, reading, map_map]
  apply map_congr_left
  intro u mem
  have inside := idxOf_lt_length_of_mem (stored u mem)
  simp [inside]

/-- The bits at the columns of the requested bits in a row that holds the requested bits alone. -/
def twice (bits request : List UnitId) : List UnitId :=
  request.map fun u => request.getD (bits.idxOf u) u

lemma columnsOf_twice (narrow : ∀ u ∈ request, bits.idxOf u < request.length)
    (process : Option Processor) (row : List Bool) :
    columnsOf (request.map bits.idxOf) (reading process bits request row) =
    reading process bits (twice bits request) row := by
  simp only [columnsOf, reading, twice, map_map]
  apply map_congr_left
  intro u mem
  simp [narrow u mem]

section

variable (valid : a.Valid) (nonempty : a.rows ≠ []) (distinct : bits.Nodup)
  (columns : bits.length = a.width) (stored : ∀ u ∈ request, u ∈ bits) {rows : List (List Bool)}

include columns stored in
lemma idxOf_lt_width : ∀ i ∈ request.map bits.idxOf, i < a.width := by
  intro i mem
  obtain ⟨u, own, rfl⟩ := mem_map.mp mem
  rw [← columns]
  exact idxOf_lt_length_of_mem (stored u own)

include valid nonempty columns stored in
lemma choose_shotsAfter (covers : ∀ p ∈ process, Covers p bits) : ∃ b, shotsAfter process bits a = .ok b ∧
    b.choose ((request.map bits.idxOf).map fun (i : Nat) => (i : Int)) =
    .ok (ofTable request.length (a.readouts.map (reading process bits request))) := by
  have inside := idxOf_lt_width columns stored
  cases process with
  | none =>
    refine ⟨a, rfl, ?_⟩
    have rows : a.readouts.map (columnsOf (request.map bits.idxOf)) = a.readouts.map (reading none bits request) := by
      apply map_congr_left
      intro row mem
      exact columnsOf_row stored ((valid.length row mem).trans columns.symm)
    rw [choose_ok inside, length_map, rows]
  | some p =>
    have covered := covers p rfl
    refine ⟨_, covered.processShots valid nonempty columns, ?_⟩
    have len : ∀ row ∈ a.readouts.map (reading (some p) bits bits), row.length = a.width := by
      intro row mem
      obtain ⟨old, _, rfl⟩ := mem_map.mp mem
      rw [length_reading, columns]
    have rows : (a.readouts.map (reading (some p) bits bits)).map
        (columnsOf (request.map bits.idxOf)) = a.readouts.map (reading (some p) bits request) := by
      rw [map_map]
      apply map_congr_left
      intro row _
      exact columnsOf_reading stored (some p) row
    have wide : ∀ i ∈ request.map bits.idxOf,
        i < (ofTable a.width (a.readouts.map (reading (some p) bits bits))).width := inside
    rw [choose_ok wide, length_map, readouts_ofTable len, rows]

lemma length_of_mem_reading : ∀ row ∈ rows.map (reading process bits request), row.length = request.length := by
  intro row mem
  obtain ⟨old, _, rfl⟩ := mem_map.mp mem
  exact length_reading process bits request old

include valid nonempty distinct columns stored in
lemma counted_ofShots (process : Option Processor) (covers : ∀ p ∈ process, Covers p bits) :
    ∃ c, counted (ofShots a bits process) request = .ok c ∧
    IsTally c (a.readouts.map (reading process bits request)) := by
  obtain ⟨b, processed, chosen⟩ := choose_shotsAfter valid nonempty columns stored covers
  have table := measured_shots stored processed chosen
  have packed := (ofTable request.length
    (a.readouts.map (reading process bits request))).isTally_counts
  rw [rowsOf_ofTable] at packed
  obtain ⟨c, read, tally⟩ := readoutCounts_ok length_of_mem_reading packed
  refine ⟨c, ?_, tally⟩
  refine bind_eq_ok.mpr ⟨_, ofShots_eq distinct columns process, ?_⟩
  refine bind_eq_ok.mpr ⟨_, (ofBits_typed _ request).trans table, ?_⟩
  exact congrArg liftOutcome read

lemma counted_of_measured (lengths : ∀ row ∈ rows, row.length = request.length)
    (made : ofCounts a bits process = .ok ⟨{ counts := some c }, bits.zipIdx, [], process⟩)
    (table : measured ⟨{ counts := some c }, bits.zipIdx, [], process⟩ request none =
    .ok { counts := some d }) (tally : IsTally d (rows.map (single request.length))) :
    ∃ c, counted (ofCounts a bits process) request = .ok c ∧ IsTally c rows := by
  obtain ⟨c, read, tally⟩ := readoutCounts_ok lengths tally
  refine ⟨c, ?_, tally⟩
  refine bind_eq_ok.mpr ⟨_, made, ?_⟩
  refine bind_eq_ok.mpr ⟨_, (ofBits_typed _ request).trans table, ?_⟩
  exact congrArg liftOutcome read

include valid nonempty distinct columns stored in
lemma counted_ofCounts : ∃ c, counted (ofCounts a bits none) request = .ok c ∧
    IsTally c (a.readouts.map (reading none bits request)) := by
  have inside : ∀ b ∈ a.rowsOf, ∀ i ∈ request.map bits.idxOf, i < b.width := by
    intro b mem
    obtain ⟨row, _, rfl⟩ := mem_map.mp mem
    exact idxOf_lt_width columns stored
  have rows : ∀ b ∈ a.rowsOf, b.readouts = [rowOf b] := by
    intro b mem
    obtain ⟨row, _, rfl⟩ := mem_map.mp mem
    rfl
  obtain ⟨d, chosen, tally⟩ :=
    chooseCounts_ok a.isTally_counts (rowsOf_ne_nil nonempty) rowOf rows inside
  have table := measured_counts stored (rfl : countsAfter none bits request a.counts = .ok a.counts)
  rw [chosen] at table
  have same : a.rowsOf.map (fun b => single (request.map bits.idxOf).length
      (columnsOf (request.map bits.idxOf) (rowOf b))) =
      (a.readouts.map (reading none bits request)).map (single request.length) := by
    rw [map_rowsOf (f := fun row => single (request.map bits.idxOf).length
      (columnsOf (request.map bits.idxOf) row)) fun row => rfl, map_map, length_map]
    apply map_congr_left
    intro row mem
    rw [columnsOf_row stored ((valid.length row mem).trans columns.symm)]
    rfl
  rw [same] at tally
  exact counted_of_measured length_of_mem_reading (ofCounts_eq nonempty distinct columns none) table
    tally

include valid nonempty distinct columns stored in
lemma counted_ofCounts_processed (covers : Covers p bits) :
    ((∀ u ∈ request, bits.idxOf u < request.length) → ∃ c, counted (ofCounts a bits (some p)) request = .ok c ∧
    IsTally c (a.readouts.map (reading (some p) bits (twice bits request)))) ∧
    ((∃ u ∈ request, request.length ≤ bits.idxOf u) →
    counted (ofCounts a bits (some p)) request = .error (.outcome .column)) := by
  have rows : ∀ b ∈ a.rowsOf, b.readout = .ok (rowOf b) ∧ (rowOf b).length = bits.length := by
    intro b mem
    obtain ⟨row, own, rfl⟩ := mem_map.mp mem
    refine ⟨rfl, ?_⟩
    rw [columns]
    exact valid.length _ (mem_map.mpr ⟨row, own, rfl⟩)
  obtain ⟨d, processed, tally⟩ := covers.processCounts stored a.isTally_counts rowOf rows
  have after_ : countsAfter (some p) bits request a.counts = .ok d := processed
  have table := measured_counts stored after_
  have made := ofCounts_eq nonempty distinct columns (some p)
  have renamed : a.rowsOf.map
      (fun b => single request.length (reading (some p) bits request (rowOf b))) =
      (a.readouts.map (reading (some p) bits request)).map (single request.length) := by
    rw [map_map]
    exact map_rowsOf fun row => rfl
  rw [renamed] at tally
  have some_ : a.readouts.map (reading (some p) bits request) ≠ [] := by simpa [readouts] using nonempty
  constructor
  · intro narrow
    have inside : ∀ i ∈ request.map bits.idxOf, i < request.length := by
      intro i index
      obtain ⟨u, own, rfl⟩ := mem_map.mp index
      exact narrow u own
    obtain ⟨e, chosen, counted⟩ := chooseCounts_singles length_of_mem_reading some_ tally inside
    rw [chosen] at table
    -- the columns are those of the stored bits, the rows hold the requested bits
    have again : (a.readouts.map (reading (some p) bits request)).map
        (columnsOf (request.map bits.idxOf)) =
        a.readouts.map (reading (some p) bits (twice bits request)) := by
      rw [map_map]
      apply map_congr_left
      intro row _
      exact columnsOf_twice narrow (some p) row
    rw [again, length_map] at counted
    refine counted_of_measured ?_ made table counted
    intro row mem
    obtain ⟨old, _, rfl⟩ := mem_map.mp mem
    rw [length_reading, twice, length_map]
  · rintro ⟨u, own, beyond⟩
    have refused : chooseCounts d ((request.map bits.idxOf).map fun (i : Nat) => (i : Int)) =
        .error (.outcome .column) := by
      apply chooseCounts_error tally (by simpa using some_) (mem_map_of_mem own)
      intro b mem
      obtain ⟨row, _, rfl⟩ := mem_map.mp mem
      exact beyond
    rw [refused] at table
    rw [counted, made]
    change (ofBits _ (some (typed .bit request)) .ilo none >>= _) = _
    rw [ofBits_typed, table]
    rfl

/-- Both forms give the rows after post-processing, read at the requested bits. -/
def Agree (a : Outcomes) (bits : List UnitId) (process : Option Processor)
    (request : List UnitId) : Prop :=
  ∃ c d, counted (ofShots a bits process) request = .ok c ∧
    counted (ofCounts a bits process) request = .ok d ∧ c.Perm d ∧
    IsTally c (a.readouts.map (reading process bits request))

def only (bits : List UnitId) (u : UnitId) : Processor :=
  fun _ => some (bits.map fun w => (w, decide (w = u)))

lemma lookup_only (mem : v ∈ bits) :
    (bits.map fun w => (w, decide (w = u))).lookup v = some (decide (v = u)) := by
  induction bits with
  | nil => cases mem
  | cons w rest ih =>
    rw [map_cons, lookup_cons]
    by_cases same : v = w
    · subst same
      simp
    · rw [beq_false_of_ne same]
      exact ih (by simpa [same] using mem)

lemma covers_only (u : UnitId) : Covers (only bits u) bits := by
  intro v _
  refine ⟨_, rfl, ?_⟩
  intro w mem
  exact ⟨_, lookup_only mem⟩

lemma reading_only (stored : ∀ v ∈ request, v ∈ bits) (u : UnitId) :
    reading (some (only bits u)) bits request = fun _ => request.map fun v => decide (v = u) := by
  funext row
  apply map_congr_left
  intro v mem
  rw [show after (some (only bits u)) (bits.zip row) = bits.map fun w => (w, decide (w = u)) from rfl,
    lookup_only (stored v mem)]
  rfl

include nonempty stored in
lemma place_of_perm (mem : u ∈ request)
    (narrow : ∀ v ∈ request, bits.idxOf v < request.length)
    (perm : c.Perm d) (right : IsTally c (a.readouts.map (reading (some (only bits u)) bits request)))
    (given : IsTally d (a.readouts.map (reading (some (only bits u)) bits (twice bits request)))) :
    request[bits.idxOf u]? = some u := by
  have inside : ∀ v ∈ twice bits request, v ∈ bits := by
    intro v own
    obtain ⟨w, asked, rfl⟩ := mem_map.mp own
    rw [getD_eq_getElem?_getD, getElem?_eq_getElem (narrow w asked)]
    exact stored _ (getElem_mem (narrow w asked))
  rw [reading_only stored] at right
  rw [reading_only inside] at given
  have some_ : a.readouts ≠ [] := by simpa [readouts] using nonempty
  obtain ⟨row, own⟩ := exists_mem_of_ne_nil _ some_
  -- the only row of one tally is the only row of the other
  have key := given.mem_keys (mem_map_of_mem own)
  have same := right.mem_items ((perm.map (·.1)).mem_iff.mpr key)
  obtain ⟨_, _, eq⟩ := mem_map.mp same
  rw [twice, map_map] at eq
  have found := map_inj_left.mp eq u mem
  have there : request.getD (bits.idxOf u) u = u := by simpa using found
  rw [getD_eq_getElem?_getD, getElem?_eq_getElem (narrow u mem)] at there
  rw [getElem?_eq_getElem (narrow u mem)]
  exact congrArg some there

lemma twice_eq (places : ∀ u ∈ request, request[bits.idxOf u]? = some u) : twice bits request = request := by
  refine (map_congr_left ?_).trans (map_id' request)
  intro u mem
  rw [getD_eq_getElem?_getD, places u mem]
  rfl

include valid nonempty distinct columns stored in
/-- The forms agree under every post-processing just if each requested bit stands, among the
requested bits, at its own column. -/
lemma agree_iff : (∀ p, Covers p bits → Agree a bits (some p) request) ↔
    ∀ u ∈ request, request[bits.idxOf u]? = some u := by
  constructor
  · intro agree u mem
    -- post-processing that sets this bit alone shows where the counts look for it
    obtain ⟨c, d, _, given, perm, right⟩ := agree (only bits u) (covers_only u)
    obtain ⟨reads, refuses⟩ :=
      counted_ofCounts_processed valid nonempty distinct columns stored (covers_only u)
    by_cases narrow : ∀ v ∈ request, bits.idxOf v < request.length
    · obtain ⟨e, read, tally⟩ := reads narrow
      rw [given] at read
      cases read
      exact place_of_perm nonempty stored mem narrow perm right tally
    · have beyond : ∃ v ∈ request, request.length ≤ bits.idxOf v := by simpa using narrow
      rw [refuses beyond] at given
      cases given
  · intro places p covers
    have narrow : ∀ u ∈ request, bits.idxOf u < request.length := by
      intro u mem
      exact (List.getElem?_eq_some_iff.mp (places u mem)).1
    obtain ⟨c, shots, first⟩ :=
      counted_ofShots valid nonempty distinct columns stored (some p) (by simpa using covers)
    obtain ⟨d, counts, second⟩ :=
      (counted_ofCounts_processed valid nonempty distinct columns stored covers).1 narrow
    rw [twice_eq places] at second
    exact ⟨c, d, shots, counts, first.perm second, first⟩

include valid nonempty distinct columns stored in
lemma agree_none : Agree a bits none request := by
  obtain ⟨c, shots, first⟩ := counted_ofShots valid nonempty distinct columns stored none (by simp)
  obtain ⟨d, counts, second⟩ := counted_ofCounts valid nonempty distinct columns stored
  exact ⟨c, d, shots, counts, first.perm second, first⟩

include valid nonempty distinct columns stored in
/-- A table counts its rows after post-processing, read at the requested bits. Counts agree with it
where there is no post-processing. Where there is, the requested bits are looked up at their columns
among the requested bits, so the counts agree only if each of these is at its own column. -/
theorem forms_of_counted :
    (∀ process, (∀ p ∈ process, Covers p bits) →
      ∃ c, counted (ofShots a bits process) request = .ok c ∧
        IsTally c (a.readouts.map (reading process bits request))) ∧
    Agree a bits none request ∧
    (∀ p, Covers p bits →
      ((∀ u ∈ request, bits.idxOf u < request.length) →
        ∃ c, counted (ofCounts a bits (some p)) request = .ok c ∧
          IsTally c (a.readouts.map (reading (some p) bits (twice bits request)))) ∧
      ((∃ u ∈ request, request.length ≤ bits.idxOf u) →
        counted (ofCounts a bits (some p)) request = .error (.outcome .column))) ∧
    ((∀ p, Covers p bits → Agree a bits (some p) request) ↔
      ∀ u ∈ request, request[bits.idxOf u]? = some u) := by
  refine ⟨?_, ?_, ?_, ?_⟩
  · intro process covers
    exact counted_ofShots valid nonempty distinct columns stored process covers
  · exact agree_none valid nonempty distinct columns stored
  · intro p covers
    exact counted_ofCounts_processed valid nonempty distinct columns stored covers
  · exact agree_iff valid nonempty distinct columns stored

/-- Two bits that are asked for in the other order. -/
theorem forms_of_counted_swapped :
    Agree (Outcomes.ofTable 2 [[false, true], [true, true]]) [⟨"c", [0]⟩, ⟨"c", [1]⟩] none
      [⟨"c", [1]⟩, ⟨"c", [0]⟩] ∧
    ¬ ∀ p, Covers p [⟨"c", [0]⟩, ⟨"c", [1]⟩] →
      Agree (Outcomes.ofTable 2 [[false, true], [true, true]]) [⟨"c", [0]⟩, ⟨"c", [1]⟩] (some p)
        [⟨"c", [1]⟩, ⟨"c", [0]⟩] := by
  have forms := @forms_of_counted (Outcomes.ofTable 2 [[false, true], [true, true]])
    [⟨"c", [0]⟩, ⟨"c", [1]⟩] [⟨"c", [1]⟩, ⟨"c", [0]⟩] ⟨by decide, by decide⟩ (by decide) (by decide)
    (by decide) (by decide)
  exact ⟨forms.2.1, fun agree => absurd (forms.2.2.2.mp agree) (by decide)⟩

end

end

end CircuitWorks.Result
