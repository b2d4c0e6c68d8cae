import CircuitWorks.Proofs.Result.Counts
import Mathlib

namespace CircuitWorks

open List UnitId Json

lemma UnitId.ofJson?_toJson (u : UnitId) : ofJson? u.toJson = some u := by
  have index : (u.index.map fun i => int (i : Nat)).mapM indexOf? = some u.index :=
    mapM_map indexOf? _ (fun i => by simp [indexOf?]) u.index
  simp only [toJson, ofJson?, index]
  rfl

namespace Result

variable {us vs : List UnitId}

section

variable {kind : UnitKind} {units : List UnitId}

lemma storageOrder_zipIdx (units : List UnitId) : storageOrder units.zipIdx = units := by
  have numbers : (units.zipIdx.map Prod.snd).Pairwise fun i j => decide (i ≤ j) = true := by
    simp only [decide_eq_true_eq, zipIdx_map_snd]
    exact pairwise_le_range'
  have sorted : units.zipIdx.Pairwise fun a b => decide (a.2 ≤ b.2) = true :=
    pairwise_map.mp numbers
  rw [storageOrder, mergeSort_of_pairwise sorted]
  exact zipIdx_map_fst 0 units

lemma unitsOf_toJson (units : List UnitId) : unitsOf (.arr (units.map UnitId.toJson)) = .ok units := by
  rw [unitsOf, items?, Option.getD_some, List.mapM_map]
  refine (mapM_ok _ id units ?_).trans (by rw [map_id])
  intro u _
  rw [Function.comp_apply, ofJson?_toJson]
  rfl

def defaultUnit : UnitKind → Nat → UnitId
  | .qubit => qubit
  | .bit => bit

lemma defaultUnit_injective (kind : UnitKind) : Function.Injective (defaultUnit kind) := by
  intro i j same
  cases kind with
  | qubit => simpa [defaultUnit, qubit] using same
  | bit => simpa [defaultUnit, bit] using same

lemma zipIdx_of_assign (distinct : units.Nodup) (done : assign kind units n = .ok m) :
    ∃ us : List UnitId, us.Nodup ∧ us.length = n ∧ m = us.zipIdx := by
  by_cases empty : units.isEmpty = true
  · have numbers : m = (range n).map fun i => (defaultUnit kind i, i) := by
      rw [assign, if_pos empty] at done
      cases kind <;> exact (Except.ok.inj done).symm
    refine ⟨(range n).map (defaultUnit kind), ?_, by simp, ?_⟩
    · exact (nodup_map_iff (defaultUnit_injective kind)).mpr nodup_range
    · rw [numbers]
      apply ext_getElem
      · simp
      · simp
  · rw [assign, if_neg empty] at done
    split at done
    · rename_i columns
      rw [numbered_eq distinct] at done
      exact ⟨units, distinct, columns, (Except.ok.inj done).symm⟩
    · cases done

lemma sameNumbers_self (distinct : us.Nodup) : sameNumbers us.zipIdx us.zipIdx = true := by
  rw [sameNumbers, Bool.and_eq_true, all_eq_true]
  refine ⟨decide_eq_true rfl, ?_⟩
  rintro ⟨u, i⟩ mem
  obtain ⟨inside, rfl⟩ := List.getElem?_eq_some_iff.mp (mk_mem_zipIdx_iff_getElem?.mp mem)
  have found := lookup_zipIdx (getElem_mem inside) 0
  rw [List.Nodup.idxOf_getElem distinct i inside] at found
  exact decide_eq_true found

end

lemma lookup_append (key : String) (first second : List (String × Json)) :
    Json.lookup key (first ++ second) = (Json.lookup key first).or (Json.lookup key second) := by
  induction first with
  | nil => rfl
  | cons e first ih =>
    rw [cons_append, Json.lookup, Json.lookup]
    split
    · rfl
    · exact ih

lemma lookup_field (key name : String) (f : α → Json) (x : Option α) :
    Json.lookup key (field name f x) = if name = key then x.map f else none := by
  cases x with
  | none => simp [field, Json.lookup]
  | some a => simp [field, Json.lookup]

lemma optional_eq {name : String} {read : Json → Except Error α} (write : α → Json)
    (stored : j.get? name = x.map write) (each : ∀ a ∈ x, read (write a) = .ok a) :
    optional j name read = .ok x := by
  rw [optional, stored]
  cases x with
  | none => rfl
  | some a =>
    simp only [Option.map_some, each a rfl]
    rfl

lemma countOf_countJson (valid : e.1.Valid) (nonempty : e.1.rows ≠ []) :
    countOf (countJson e) = .ok e := by
  have outcome : required (countJson e) "outcome" = .ok e.1.toJson := by
    simp [required, countJson, Json.get?, Json.lookup]
  simp only [countOf, outcome, bind, Except.bind, Outcomes.ofJson_toJson valid nonempty]
  rfl

def arrays (s : Stored) : List (Tensor Amplitude) :=
  s.state.toList ++ s.unitary.toList ++ s.density.toList

lemma forall_arrays {p : Tensor Amplitude → Prop} : (∀ t ∈ arrays s, p t) ↔
    (∀ t ∈ s.state, p t) ∧ (∀ t ∈ s.unitary, p t) ∧ ∀ t ∈ s.density, p t := by
  simp only [arrays, mem_append, Option.mem_toList, Option.mem_def, or_imp, forall_and, and_assoc]

/-- Data that can be stored: tables with rows, counts of distinct tables, and arrays whose shape can
be seen from their lists. -/
structure Storable (s : Stored) : Prop where
  shots : ∀ a ∈ s.shots, a.Valid ∧ a.rows ≠ []
  counts : ∀ c ∈ s.counts, (c.map (·.1)).Nodup ∧ ∀ e ∈ c, e.1.Valid ∧ e.1.rows ≠ []
  arrays : ∀ t ∈ Result.arrays s, t.WellFormed

section

variable {bits qubits : List UnitId}

/-- What a result without post-processing is: its data and the numbers of distinct units, as many as
the data ask for. -/
structure Numbers (r : Result) (s : Stored) (bits qubits : List UnitId) : Prop where
  eq : r = ⟨s, bits.zipIdx, qubits.zipIdx, none⟩
  bitsApart : bits.Nodup
  qubitsApart : qubits.Nodup
  again : ofStored s bits qubits none = .ok r

def assigned (kind : UnitKind) (units : List UnitId) : Option Nat → Except Error (List (UnitId × Nat))
  | some n => assign kind units n
  | none => .ok []

lemma ofStored_eq (s : Stored) (bits qubits : List UnitId) (process : Option Processor) :
    ofStored s bits qubits process = (do
    let columns ← columnCount? s
    let first ← assigned .bit bits columns
    let digits ← qubitCount? s
    let second ← assigned .qubit qubits digits
    return ⟨s, first, second, process⟩) := by
  rw [ofStored]
  cases columnCount? s with
  | error e => rfl
  | ok columns =>
    cases qubitCount? s with
    | error e => cases columns <;> rfl
    | ok digits => cases columns <;> cases digits <;> rfl

lemma assigned_again {kind : UnitKind} {units : List UnitId} {count : Option Nat} (distinct : units.Nodup)
    (done : assigned kind units count = .ok m) :
    ∃ us : List UnitId, us.Nodup ∧ m = us.zipIdx ∧ assigned kind us count = .ok m := by
  cases count with
  | none => exact ⟨[], nodup_nil, (Except.ok.inj done).symm, done⟩
  | some n =>
    obtain ⟨us, apart, length, rfl⟩ := zipIdx_of_assign distinct done
    exact ⟨us, apart, rfl, assign_eq apart length⟩

lemma numbers_of_ofStored (built : ofStored s bits qubits none = .ok r) (bitsApart : bits.Nodup)
    (qubitsApart : qubits.Nodup) : ∃ us vs, Numbers r s us vs := by
  rw [ofStored_eq] at built
  obtain ⟨columns, counted, built⟩ := bind_eq_ok.mp built
  obtain ⟨first, assigned, built⟩ := bind_eq_ok.mp built
  obtain ⟨digits, sized, built⟩ := bind_eq_ok.mp built
  obtain ⟨second, placed, built⟩ := bind_eq_ok.mp built
  obtain rfl := Except.ok.inj built
  obtain ⟨us, apart, rfl, assigned⟩ := assigned_again bitsApart assigned
  obtain ⟨vs, apart', rfl, placed⟩ := assigned_again qubitsApart placed
  refine ⟨us, vs, rfl, apart, apart', ?_⟩
  rw [ofStored_eq, counted]
  simp only [bind, Except.bind, assigned, sized, placed]
  rfl

lemma countsOf_toJson (apart : (c.map (·.1)).Nodup)
    (each : ∀ e ∈ c, e.1.Valid ∧ e.1.rows ≠ []) :
    (do return Counter.ofEntries (← ((arr (c.map countJson)).items?.getD []).mapM countOf)) =
    (.ok c : Except Error (Counter Outcomes)) := by
  have entries : (c.map countJson).mapM countOf = .ok c := by
    rw [List.mapM_map]
    refine (mapM_ok _ id c ?_).trans (by rw [map_id])
    intro e mem
    exact countOf_countJson (each e mem).1 (each e mem).2
  simp only [items?, Option.getD_some, entries, bind, Except.bind, Counter.ofEntries_of_nodup apart]
  rfl

lemma ofJson_of_numbers (storable : Storable s) (numbers : Numbers r s us vs) : ofJson r.toJson = .ok r := by
  obtain ⟨rfl, _, _, again⟩ := numbers
  let r : Result := ⟨s, us.zipIdx, vs.zipIdx, none⟩
  let unitsJson (units : List UnitId) : Json := .arr (units.map UnitId.toJson)
  have qubitField : optional r.toJson "qubits" unitsOf = .ok (some vs) := by
    apply optional_eq unitsJson
    · simp [r, unitsJson, toJson, Json.get?, Json.lookup, qubitList, storageOrder_zipIdx]
    · exact fun us _ => unitsOf_toJson us
  have bitField : optional r.toJson "bits" unitsOf = .ok (some us) := by
    apply optional_eq unitsJson
    · simp [r, unitsJson, toJson, Json.get?, Json.lookup, bitList, storageOrder_zipIdx]
    · exact fun us _ => unitsOf_toJson us
  have shotField : optional r.toJson "shots" (fun v => liftOutcome (Outcomes.ofJson v)) =
      .ok s.shots := by
    apply optional_eq Outcomes.toJson
    · simp [r, toJson, Json.get?, Json.lookup, lookup_append, lookup_field]
    · intro a mem
      obtain ⟨valid, ne⟩ := storable.shots a mem
      rw [Outcomes.ofJson_toJson valid ne]
      rfl
  have countField : optional r.toJson "counts" (fun v => do
      return Counter.ofEntries (← (v.items?.getD []).mapM countOf)) = .ok s.counts := by
    apply optional_eq fun c => .arr (c.map countJson)
    · simp [r, toJson, Json.get?, Json.lookup, lookup_append, lookup_field]
    · intro c mem
      exact countsOf_toJson (storable.counts c mem).1 (storable.counts c mem).2
  have arrayField : ∀ name x, r.toJson.get? name = x.map arrayJson → (∀ t ∈ x, t ∈ arrays s) →
      optional r.toJson name arrayOf = .ok x := by
    intro name x stored among
    exact optional_eq arrayJson stored fun t mem =>
      arrayOf_arrayJson (storable.arrays t (among t mem))
  have stateField := arrayField "state" s.state
    (by simp [r, toJson, Json.get?, Json.lookup, lookup_append, lookup_field])
    (by simp +contextual [arrays])
  have unitaryField := arrayField "unitary" s.unitary
    (by simp [r, toJson, Json.get?, Json.lookup, lookup_append, lookup_field])
    (by simp +contextual [arrays])
  have densityField := arrayField "density_matrix" s.density
    (by simp [r, toJson, Json.get?, Json.lookup, lookup_append, lookup_field])
    (by simp +contextual [arrays])
  rw [ofJson, qubitField, bitField, shotField, countField, stateField, unitaryField, densityField]
  exact again

end

def IsNumber (z : Amplitude) : Prop := z.re.isNaN = false ∧ z.im.isNaN = false

lemma float_beq_self_iff (x : Float) : (x == x) = true ↔ x.isNaN = false := by
  change x.toModel.unpack.beq x.toModel.unpack = true ↔ x.toModel.unpack.isNaN = false
  cases x.toModel.unpack with
  | infinity sign => cases sign <;> decide
  | notANumber => decide
  | zero sign => cases sign <;> decide
  | finite sign mantissa exponent pos =>
    cases sign <;> simp [Float.Model.UnpackedFloat.beq, Float.Model.UnpackedFloat.compare,
      Float.Model.UnpackedFloat.isNaN]

lemma amplitude_beq_self_iff (z : Amplitude) : (z == z) = true ↔ IsNumber z := by
  change (z.re == z.re && z.im == z.im) = true ↔ _
  rw [Bool.and_eq_true, float_beq_self_iff, float_beq_self_iff]
  rfl

lemma list_beq_self_iff (zs : List Amplitude) : (zs == zs) = true ↔ ∀ z ∈ zs, IsNumber z := by
  induction zs with
  | nil => simp
  | cons z zs ih => rw [cons_beq_cons, Bool.and_eq_true, amplitude_beq_self_iff, ih, forall_mem_cons]

lemma array_beq_self_iff (x : Option (Tensor Amplitude)) :
    (x == x) = true ↔ ∀ t ∈ x, ∀ z ∈ t.entries, IsNumber z := by
  cases x with
  | none => simp
  | some t =>
    change (t.shape == t.shape && t.entries == t.entries) = true ↔ _
    rw [Bool.and_eq_true, list_beq_self_iff]
    simp

lemma counter_same_self (c : Counter Outcomes) : Counter.same c c = true := by
  rw [Counter.same, all_eq_true]
  exact fun k _ => beq_self_eq_true _

lemma same_self_iff {r : Result} (numbers : Numbers r s us vs) :
    r.same r = true ↔ ∀ t ∈ arrays s, ∀ z ∈ t.entries, IsNumber z := by
  obtain ⟨rfl, bitsApart, qubitsApart, _⟩ := numbers
  have units := And.intro (sameNumbers_self qubitsApart) (sameNumbers_self bitsApart)
  obtain ⟨counts, shots, state, unitary, density⟩ := s
  cases counts with
  | none =>
    simp only [same, units, decide_true, Bool.true_and, Bool.and_true, Bool.and_eq_true,
      array_beq_self_iff, forall_arrays, and_assoc]
  | some c =>
    simp only [same, units, decide_true, Bool.true_and, counter_same_self, Bool.and_true,
      Bool.and_eq_true, array_beq_self_iff, forall_arrays, and_assoc]

/-- A result with distinct units and data that can be stored is read as it was written: with the same
data, the same numbers of its units and no post-processing, so that it answers every request in the
same way. It is also the same as what is read by comparison, unless one of its arrays holds an entry
that is no number. -/
theorem ofStored_read_back {s : Stored} {bits qubits : List UnitId} {r : Result}
    (built : ofStored s bits qubits none = .ok r) (bitsApart : bits.Nodup)
    (qubitsApart : qubits.Nodup) (storable : Storable s) :
    ofJson r.toJson = .ok r ∧
      (r.same r = true ↔ ∀ t ∈ arrays s, ∀ z ∈ t.entries, IsNumber z) := by
  obtain ⟨us, vs, numbers⟩ := numbers_of_ofStored built bitsApart qubitsApart
  exact ⟨ofJson_of_numbers storable numbers, same_self_iff numbers⟩

def mixed : Stored where
  counts := some [(⟨3, 1, [[255]]⟩, 5), (⟨3, 1, [[224]]⟩, 0)]
  state := some ⟨[2], [⟨0, 0⟩, ⟨0, 1⟩]⟩

lemma storable_mixed : Storable mixed where
  shots := by simp [mixed]
  counts := by
    have valid : ∀ row : UInt8, (⟨3, 1, [[row]]⟩ : Outcomes).Valid := by
      intro row
      exact ⟨by simp, Nat.le_add_left 3 5⟩
    rintro c ⟨⟩
    refine ⟨by decide, ?_⟩
    simp only [forall_mem_cons, not_mem_nil]
    exact ⟨⟨valid 255, by simp⟩, ⟨valid 224, by simp⟩, by simp⟩
  arrays := by
    rw [forall_arrays]
    exact ⟨by simpa [mixed] using ⟨rfl, by decide⟩, by simp [mixed], by simp [mixed]⟩

theorem ofStored_read_back_mixed : ∃ r,
    ofStored mixed [⟨"c", [2]⟩, ⟨"a", []⟩, ⟨"c", [0]⟩] [] none = .ok r ∧ Storable mixed ∧
      ofJson r.toJson = .ok r ∧ r.same r = true := by
  let r : Result := ⟨mixed, [⟨"c", [2]⟩, ⟨"a", []⟩, ⟨"c", [0]⟩].zipIdx, [⟨"q", [0]⟩].zipIdx, none⟩
  have built : ofStored mixed [⟨"c", [2]⟩, ⟨"a", []⟩, ⟨"c", [0]⟩] [] none = .ok r := by
    cbv
  obtain ⟨back, same⟩ := ofStored_read_back built (by decide) (by decide) storable_mixed
  refine ⟨r, built, storable_mixed, back, same.mpr ?_⟩
  rw [forall_arrays]
  have zero : IsNumber ⟨0, 0⟩ := ⟨by decide, by decide⟩
  have unit : IsNumber ⟨0, 1⟩ := ⟨by decide, by decide⟩
  simp [mixed, zero, unit]

end Result

end CircuitWorks

namespace CircuitWorks.Result

open List Except

variable (units : List UnitId)

/-- Distinct units with distinct numbers below a bound. -/
structure Injects (m : List (UnitId × Nat)) (n : Nat) : Prop where
  units : (m.map (·.1)).Nodup
  numbers : (m.map (·.2)).Nodup
  below : ∀ e ∈ m, e.2 < n

/-- Distinct units, of which every number below a bound belongs to one. -/
structure IsNumbering (m : List (UnitId × Nat)) (n : Nat) : Prop where
  units : (m.map (·.1)).Nodup
  numbers : (m.map (·.2)).Perm (range n)

lemma isNumbering_iff (m : List (UnitId × Nat)) (n : Nat) : IsNumbering m n ↔ Injects m n ∧ m.length = n := by
  constructor
  · intro numbering
    have length := numbering.numbers.length_eq
    rw [length_map, length_range] at length
    refine ⟨⟨numbering.units, numbering.numbers.nodup_iff.mpr nodup_range, ?_⟩, length⟩
    intro e mem
    exact mem_range.mp (numbering.numbers.mem_iff.mp (mem_map_of_mem mem))
  · intro both
    rcases both with ⟨injects, length⟩
    have inside : m.map (·.2) ⊆ range n := by
      intro i mem
      rcases mem_map.mp mem with ⟨e, own, same⟩
      exact mem_range.mpr (same ▸ injects.below e own)
    have enough : (range n).length ≤ (m.map (·.2)).length := by
      rw [length_range, length_map]
      omega
    exact ⟨injects.units, (subperm_of_subset injects.numbers inside).perm_of_length_le enough⟩

lemma mem_keys_number (u : UnitId) (i : Nat) (m : List (UnitId × Nat)) (v : UnitId) :
    v ∈ (number u i m).map (·.1) ↔ v = u ∨ v ∈ m.map (·.1) := by
  induction m with
  | nil => simp [number]
  | cons e rest ih =>
    rw [number]
    split
    · rename_i same
      simp [same]
    · rw [map_cons, mem_cons, ih, map_cons, mem_cons]
      tauto

lemma mem_number (mem : e ∈ number u i m) : e = (u, i) ∨ e ∈ m := by
  induction m with
  | nil => exact .inl (mem_singleton.mp mem)
  | cons f rest ih =>
    rw [number] at mem
    split at mem
    · rcases mem_cons.mp mem with same | inside
      · exact .inl same
      · exact .inr (.tail f inside)
    · rcases mem_cons.mp mem with same | inside
      · exact .inr (mem_cons.mpr (.inl same))
      · exact (ih inside).imp id (mem_cons_of_mem f)

/-- A new number is above all others, also where it takes the place of an old one. -/
lemma Injects.number (injects : Injects m n) (u : UnitId) : Injects (number u n m) (n + 1) := by
  have below : ∀ e ∈ Result.number u n m, e.2 < n + 1 := by
    intro e mem
    rcases mem_number mem with same | inside
    · rw [same]
      exact Nat.lt_succ_self n
    · exact Nat.lt_succ_of_lt (injects.below e inside)
  refine ⟨?_, ?_, below⟩
  · clear below
    have apart := injects.units
    clear injects
    induction m with
    | nil => simp [Result.number]
    | cons e rest ih =>
      have parts := nodup_cons.mp apart
      rw [Result.number]
      split
      · rename_i same
        exact same ▸ apart
      · rename_i other
        rw [map_cons, nodup_cons, mem_keys_number, not_or]
        exact ⟨⟨other, parts.1⟩, ih parts.2⟩
  · clear below
    induction m with
    | nil => simp [Result.number]
    | cons e rest ih =>
      have parts := nodup_cons.mp injects.numbers
      have later : Injects rest n := ⟨(nodup_cons.mp injects.units).2, parts.2,
        fun f mem => injects.below f (.tail e mem)⟩
      rw [Result.number]
      split
      · rw [map_cons, nodup_cons]
        refine ⟨?_, parts.2⟩
        intro mem
        rcases mem_map.mp mem with ⟨f, inside, same⟩
        have bound := later.below f inside
        omega
      · rw [map_cons, nodup_cons]
        refine ⟨?_, ih later⟩
        intro mem
        rcases mem_map.mp mem with ⟨f, inside, same⟩
        rcases mem_number inside with fresh | old
        · have bound := injects.below e (by simp)
          rw [fresh] at same
          omega
        · exact parts.1 (mem_map.mpr ⟨f, old, same⟩)

lemma injects_numbered : Injects (numbered units) units.length := by
  -- by induction on the units, after any that have numbers already
  have general : ∀ (units : List UnitId) (k : Nat) (m : List (UnitId × Nat)), Injects m k →
      Injects ((units.zipIdx k).foldl (fun m e => number e.1 e.2 m) m) (k + units.length) := by
    intro units
    induction units with
    | nil => simp
    | cons u rest ih =>
      intro k m injects
      have later := ih (k + 1) _ (injects.number u)
      rw [zipIdx_cons, foldl_cons, length_cons, Nat.add_comm rest.length 1,
        ← Nat.add_assoc]
      exact later
  have all := general units 0 [] ⟨by simp, by simp, by simp⟩
  rwa [Nat.zero_add] at all

lemma mem_keys_numbered (v : UnitId) : v ∈ (numbered units).map (·.1) ↔ v ∈ units := by
  have general : ∀ (units : List UnitId) (k : Nat) (m : List (UnitId × Nat)),
      v ∈ ((units.zipIdx k).foldl (fun m e => number e.1 e.2 m) m).map (·.1) ↔ v ∈ units ∨ v ∈ m.map (·.1) := by
    intro units
    induction units with
    | nil => simp
    | cons u rest ih =>
      intro k m
      rw [zipIdx_cons, foldl_cons, ih, mem_keys_number, mem_cons]
      tauto
  exact (general units 0 []).trans (by simp)

/-- A unit that occurs twice has one number, so there are as many as there are different units. -/
lemma length_numbered : (numbered units).length = units.dedup.length := by
  have same : ((numbered units).map (·.1)).Perm units.dedup := by
    apply (perm_ext_iff_of_nodup (injects_numbered units).units units.nodup_dedup).mpr
    intro v
    rw [mem_keys_numbered, mem_dedup]
  rw [← same.length_eq, length_map]

lemma isNumbering_numbered_iff : IsNumbering (numbered units) units.length ↔ units.Nodup := by
  rw [isNumbering_iff, length_numbered]
  constructor
  · intro full
    exact dedup_eq_self.mp ((dedup_sublist units).eq_of_length full.2)
  · intro nodup
    exact ⟨injects_numbered units, congrArg length (dedup_eq_self.mpr nodup)⟩

section

variable {kind : UnitKind} {units : List UnitId} {n : Nat}

def listed (kind : UnitKind) (units : List UnitId) (n : Nat) : List UnitId :=
  if units.isEmpty then (range n).map (defaultUnit kind) else units

lemma nodup_listed_iff (kind : UnitKind) (units : List UnitId) (n : Nat) :
    (listed kind units n).Nodup ↔ units.Nodup := by
  rw [listed]
  split
  · rename_i empty
    rw [isEmpty_iff.mp empty, nodup_map_iff (defaultUnit_injective kind)]
    exact iff_of_true nodup_range nodup_nil
  · exact Iff.rfl

lemma assign_eq_ok (done : assign kind units n = .ok m) :
    (listed kind units n).length = n ∧ m = numbered (listed kind units n) := by
  by_cases empty : units.isEmpty = true
  · have shown : listed kind units n = (range n).map (defaultUnit kind) := if_pos empty
    have nodup : (listed kind units n).Nodup := by
      rw [nodup_listed_iff, isEmpty_iff.mp empty]
      exact nodup_nil
    have length : (listed kind units n).length = n := by rw [shown, length_map, length_range]
    -- the default units are distinct, so each has its own number
    have numbers : m = (range n).map fun i => (defaultUnit kind i, i) := by
      rw [assign, if_pos empty] at done
      cases kind <;> exact (ok.inj done).symm
    refine ⟨length, ?_⟩
    rw [numbered_eq nodup, shown, numbers]
    apply ext_getElem
    · simp
    · simp
  · have shown : listed kind units n = units := if_neg empty
    rw [assign, if_neg empty] at done
    split at done
    · rename_i length
      rw [shown]
      exact ⟨length, (ok.inj done).symm⟩
    · cases done

lemma assign_eq_zipIdx (distinct : units.Nodup) (done : assign kind units n = .ok m) :
    m = (listed kind units n).zipIdx := by
  rw [(assign_eq_ok done).2, numbered_eq ((nodup_listed_iff kind units n).mpr distinct)]

lemma injects_of_assign (done : assign kind units n = .ok m) : Injects m n := by
  rcases assign_eq_ok done with ⟨length, numbers⟩
  have injects := injects_numbered (listed kind units n)
  rwa [length, ← numbers] at injects

lemma isNumbering_of_assign_iff (done : assign kind units n = .ok m) : IsNumbering m n ↔ units.Nodup := by
  rcases assign_eq_ok done with ⟨length, numbers⟩
  have full := isNumbering_numbered_iff (listed kind units n)
  rwa [length, ← numbers, nodup_listed_iff] at full

end

section

variable {s : Stored} {bits qubits : List UnitId} {process : Option Processor} {r : Result}
  {t : Tensor Amplitude}

def outcomesOf (s : Stored) : List Outcomes := s.shots.toList ++ (s.counts.getD []).map (·.1)

/-- Arrays over the basis states of some number of qubits. -/
structure OnQubits (s : Stored) (n : Nat) : Prop where
  state : ∀ t ∈ s.state, t.shape = [2 ^ n]
  unitary : ∀ t ∈ s.unitary, t.shape = [2 ^ n, 2 ^ n]
  density : ∀ t ∈ s.density, t.shape = [2 ^ n, 2 ^ n]

/-- The bits stand for the columns of every stored table, the qubits for the digits of every basis
state of every stored array. -/
structure Represents (r : Result) : Prop where
  bits : ∀ a ∈ outcomesOf r.toStored, IsNumbering r.bits a.width
  qubits : arrays r.toStored ≠ [] → ∃ n, OnQubits r.toStored n ∧ IsNumbering r.qubits n

lemma columnCount?_eq_ok {columns : Option Nat} (counted : columnCount? s = .ok columns) :
    (columns = none ∧ outcomesOf s = []) ∨ ∃ a ∈ outcomesOf s, columns = some a.width := by
  rcases s with ⟨counts, shots, state, unitary, density⟩
  cases counts with
  | none =>
    cases shots with
    | none => exact .inl ⟨(ok.inj counted).symm, rfl⟩
    | some a => exact .inr ⟨a, by simp [outcomesOf], (ok.inj counted).symm⟩
  | some c =>
    cases shots with
    | some a => cases counted
    | none =>
      rw [columnCount?] at counted
      cases first : c.find? fun e => 0 < e.2 with
      | none =>
        simp only [first] at counted
        cases counted
      | some e =>
        simp only [first] at counted
        have mem := mem_of_find?_eq_some first
        exact .inr ⟨e.1, by simpa [outcomesOf] using ⟨e.2, mem⟩, (ok.inj counted).symm⟩

lemma lastSide_eq_ok {side : Nat} (done : lastSide t = .ok side) : t.shape.getLast? = some side := by
  rw [lastSide] at done
  split at done
  · rename_i n last
    rw [last, ok.inj done]
  · cases done

lemma firstSide_eq_ok {side : Nat} (done : firstSide t = .ok side) : t.shape.head? = some side := by
  rw [firstSide] at done
  split at done
  · rename_i n first
    rw [first, ok.inj done]
  · cases done

lemma liftReadout_eq_ok {a : α}
    (done : liftReadout x = .ok a) : x = .ok a := by
  cases x with
  | ok b => exact congrArg ok (ok.inj done)
  | error e => cases done

lemma qubitCount_eq_ok {size : Nat} (done : Readout.qubitCount size = .ok n) : n = size.log2 := by
  rw [Readout.qubitCount] at done
  split at done
  · cases done
  · exact (ok.inj done).symm

lemma stateQubits_eq_ok {size : Nat} (done : Readout.stateQubits size = .ok n) : n = size.log2 := by
  obtain ⟨k, counted, done⟩ := bind_eq_ok.mp done
  split at done
  · cases ok.inj done
    exact qubitCount_eq_ok counted
  · cases done

lemma qubitCount?_eq_ok {digits : Option Nat} (sized : qubitCount? s = .ok digits) :
    (digits = none ∧ arrays s = []) ∨ ∃ t ∈ arrays s, ∃ side ∈ t.shape, digits = some side.log2 ∧
    ∀ n, OnQubits s n → side = 2 ^ n := by
  -- the last side of a matrix is looked at, the first side of a state
  have matrix : ∀ t ∈ arrays s, (∀ n, OnQubits s n → t.shape = [2 ^ n, 2 ^ n]) →
      (do return some (← liftReadout (Readout.qubitCount (← lastSide t)))) = ok digits →
      ∃ t ∈ arrays s, ∃ side ∈ t.shape, digits = some side.log2 ∧
        ∀ n, OnQubits s n → side = 2 ^ n := by
    intro t mem square sized
    obtain ⟨side, last, sized⟩ := bind_eq_ok.mp sized
    obtain ⟨n, counted, sized⟩ := bind_eq_ok.mp sized
    have last := lastSide_eq_ok last
    have count := qubitCount_eq_ok (liftReadout_eq_ok counted)
    refine ⟨t, mem, side, mem_of_getLast? last, ?_, ?_⟩
    · rw [← count]
      exact (ok.inj sized).symm
    · intro n on
      rw [square n on] at last
      exact (Option.some.inj last).symm
  rcases s with ⟨counts, shots, state, unitary, density⟩
  cases unitary with
  | some u => exact .inr (matrix u (by simp [arrays]) (fun n on => on.unitary u rfl) sized)
  | none =>
    cases state with
    | some v =>
      obtain ⟨side, first, sized⟩ := bind_eq_ok.mp sized
      obtain ⟨n, counted, sized⟩ := bind_eq_ok.mp sized
      have first := firstSide_eq_ok first
      have count := stateQubits_eq_ok (liftReadout_eq_ok counted)
      refine .inr ⟨v, by simp [arrays], side, mem_of_head? first, ?_, ?_⟩
      · rw [← count]
        exact (ok.inj sized).symm
      · intro n on
        rw [on.state v rfl] at first
        exact (Option.some.inj first).symm
    | none =>
      cases density with
      | some d => exact .inr (matrix d (by simp [arrays]) (fun n on => on.density d rfl) sized)
      | none => exact .inl ⟨(ok.inj sized).symm, rfl⟩

section

variable (built : ofStored s bits qubits process = .ok r)

include built

lemma ofStored_eq_ok : ∃ columns digits, columnCount? s = .ok columns ∧ assigned .bit bits columns = .ok r.bits ∧
    qubitCount? s = .ok digits ∧ assigned .qubit qubits digits = .ok r.qubits ∧
    r.toStored = s ∧ r.process = process := by
  rw [ofStored_eq] at built
  obtain ⟨columns, counted, built⟩ := bind_eq_ok.mp built
  obtain ⟨first, numbered, built⟩ := bind_eq_ok.mp built
  obtain ⟨digits, sized, built⟩ := bind_eq_ok.mp built
  obtain ⟨second, placed, built⟩ := bind_eq_ok.mp built
  cases ok.inj built
  exact ⟨columns, digits, counted, numbered, sized, placed, rfl, rfl⟩

/-- The bits stand for all columns just if none is given twice and all tables have one width. -/
lemma bits_represent_iff : (outcomesOf s ≠ [] → ∃ a ∈ outcomesOf s, Injects r.bits a.width) ∧
    ((∀ a ∈ outcomesOf s, IsNumbering r.bits a.width) ↔ (outcomesOf s ≠ [] → bits.Nodup) ∧
    ∀ a ∈ outcomesOf s, ∀ b ∈ outcomesOf s, a.width = b.width) := by
  rcases ofStored_eq_ok built with ⟨columns, _, counted, numbered, _⟩
  rcases columnCount?_eq_ok counted with ⟨_, empty⟩ | ⟨a, mem, width⟩
  · simp [empty]
  · rw [width] at numbered
    have some_ : outcomesOf s ≠ [] := ne_nil_of_mem mem
    have full := isNumbering_of_assign_iff numbered
    refine ⟨fun _ => ⟨a, mem, injects_of_assign numbered⟩, ?_⟩
    constructor
    · intro all
      refine ⟨fun _ => full.mp (all a mem), ?_⟩
      intro b first c second
      have left := (all b first).numbers.length_eq
      have right := (all c second).numbers.length_eq
      rw [length_range] at left right
      omega
    · intro both b other
      rcases both with ⟨nodup, widths⟩
      rw [widths b other a mem]
      exact full.mpr (nodup some_)

lemma qubits_represent_iff : (arrays s ≠ [] → ∃ t ∈ arrays s, ∃ side ∈ t.shape, Injects r.qubits side.log2) ∧
    ((arrays s ≠ [] → ∃ n, OnQubits s n ∧ IsNumbering r.qubits n) ↔
    (arrays s ≠ [] → qubits.Nodup ∧ ∃ n, OnQubits s n)) := by
  rcases ofStored_eq_ok built with ⟨_, digits, _, _, sized, placed, _⟩
  rcases qubitCount?_eq_ok sized with ⟨_, empty⟩ | ⟨t, mem, side, own, count, whole⟩
  · simp [empty]
  · rw [count] at placed
    have full := isNumbering_of_assign_iff placed
    have logarithm : ∀ n, OnQubits s n → side.log2 = n := by
      intro n on
      rw [whole n on, Nat.log2_two_pow]
    refine ⟨fun _ => ⟨t, mem, side, own, injects_of_assign placed⟩, ?_⟩
    apply imp_congr_right
    intro _
    constructor
    · intro represented
      rcases represented with ⟨n, on, numbering⟩
      rw [← logarithm n on] at numbering
      exact ⟨full.mp numbering, n, on⟩
    · intro sound
      rcases sound with ⟨nodup, n, on⟩
      refine ⟨n, on, ?_⟩
      rw [← logarithm n on]
      exact full.mpr nodup

end

/-- A constructed result gives different numbers to different units, below the width of one of its
tables and the number of qubits of one side of its arrays. It numbers all columns and all digits just
if no unit is given twice, all tables have the same width, and all arrays are of the size of one
number of qubits. -/
theorem ofStored_represents_iff (built : ofStored s bits qubits process = .ok r) :
    (outcomesOf s ≠ [] → ∃ a ∈ outcomesOf s, Injects r.bits a.width) ∧
    (arrays s ≠ [] → ∃ t ∈ arrays s, ∃ side ∈ t.shape, Injects r.qubits side.log2) ∧
    (Represents r ↔
      (outcomesOf s ≠ [] → bits.Nodup) ∧
      (∀ a ∈ outcomesOf s, ∀ b ∈ outcomesOf s, a.width = b.width) ∧
      (arrays s ≠ [] → qubits.Nodup ∧ ∃ n, OnQubits s n)) := by
  rcases bits_represent_iff built with ⟨columns, allColumns⟩
  rcases qubits_represent_iff built with ⟨digits, allDigits⟩
  rcases ofStored_eq_ok built with ⟨_, _, _, _, _, _, stored, _⟩
  refine ⟨columns, digits, ?_⟩
  rw [← and_assoc, ← allColumns, ← allDigits, ← stored]
  exact ⟨fun represents => ⟨represents.bits, represents.qubits⟩, fun both => ⟨both.1, both.2⟩⟩

/-- One bit given for both columns of a table. -/
theorem ofStored_represents_iff_repeated : ∃ r : Result,
    ofStored { shots := some (Outcomes.ofTable 2 [[false, true]]) } [⟨"c", [0]⟩, ⟨"c", [0]⟩] [] none =
      .ok r ∧ r.bits = [(⟨"c", [0]⟩, 1)] ∧ ¬Represents r := by
  let s : Stored := { shots := some (Outcomes.ofTable 2 [[false, true]]) }
  let r : Result := ⟨s, [(⟨"c", [0]⟩, 1)], [], none⟩
  have built : ofStored s [⟨"c", [0]⟩, ⟨"c", [0]⟩] [] none = .ok r := by
    cbv
  refine ⟨r, built, rfl, ?_⟩
  intro represents
  have distinct := ((ofStored_represents_iff built).2.2.mp represents).1 (by simp [s, outcomesOf])
  exact absurd distinct (by decide)

end

end CircuitWorks.Result
