import CircuitWorks.Proofs.Result.Numbering

/-!
Measured results asked for some of their bits, and results with post-processing that are stored.
-/

namespace CircuitWorks.Result

open List Outcomes Counter

section

variable {width : Nat} {columns : Option Nat}

structure CountsRows (c : Counter Outcomes) (width : Nat) : Prop where
  nonempty : c ≠ []
  keys : (c.map (·.1)).Nodup
  positive : ∀ e ∈ c, 0 < e.2
  rows : ∀ e ∈ c, e.1.Valid ∧ e.1.rows.length = 1 ∧ e.1.width = width

/-- Measured data: a table with a row, or counts of rows. -/
structure Sampled (s : Stored) : Prop where
  shots : ∀ a ∈ s.shots, a.Valid ∧ a.rows ≠ []
  counts : ∀ c ∈ s.counts, ∃ width, CountsRows c width
  present : s.shots.isSome ∨ s.counts.isSome

/-- The rows that were read, each with the number of times. -/
def samples (s : Stored) : List (List Bool × Int) :=
  match s.shots with
  | some a => a.readouts.map fun row => (row, 1)
  | none => (s.counts.getD []).map fun e => (rowOf e.1, e.2)

/-- Counts of rows after a projection: each value has the number of all rows that become it. -/
structure IsMarginal (c : Counter (List Bool)) (samples : List (List Bool × Int))
    (project : List Bool → List Bool) : Prop where
  keys : (c.map (·.1)).Nodup
  positive : ∀ e ∈ c, 0 < e.2
  get : ∀ x, c.get x = weight (fun row => project row = x) samples
  total : c.total = addUp (samples.map (·.2))

lemma IsMarginal.of_tally {samples : List (List Bool × Int)}
    {project : List Bool → List Bool} (positive : ∀ e ∈ samples, 0 < e.2)
    (tally : IsTally c ((occurrences samples).map project)) : IsMarginal c samples project := by
  have counted := Counter.tallies_occurrences positive
  refine ⟨tally.nodup, tally.positive, ?_, ?_⟩
  · intro x
    rw [Counter.get_eq_weight tally.nodup, tally.weight, counted.weight, countP_map]
    rfl
  · have all := Counter.total_eq_weight samples
    rw [Counter.total] at all
    rw [Counter.total_eq_weight, tally.weight, countP_map, all, counted.weight]
    rfl

lemma CountsRows.isTally (counts : CountsRows c width) : IsTally c (occurrences c) :=
  { tallies_occurrences counts.positive with nodup := counts.keys }

lemma CountsRows.readouts (counts : CountsRows c width) (mem : e ∈ c) : e.1.readouts = [rowOf e.1] := by
  rcases length_eq_one_iff.mp (counts.rows e mem).2.1 with ⟨row, only⟩
  rw [rowOf, Outcomes.readouts, only]
  rfl

lemma CountsRows.length_row (counts : CountsRows c width) (mem : e ∈ c) : (rowOf e.1).length = width := by
  rcases counts.rows e mem with ⟨valid, _, wide⟩
  rw [← wide]
  exact valid.length _ (by rw [counts.readouts mem]; exact mem_singleton_self _)

lemma CountsRows.row (counts : CountsRows c width) :
    ∀ a ∈ occurrences c, a.readouts = [rowOf a] ∧ a.width = width := by
  intro a mem
  rcases mem_of_mem_occurrences mem with ⟨e, inside, same⟩
  subst same
  exact ⟨counts.readouts inside, (counts.rows e inside).2.2⟩

structure HasTable (s : Stored) (a : Outcomes) : Prop where
  shots : s.shots = some a
  alone : s.counts = none
  valid : a.Valid
  nonempty : a.rows ≠ []

structure HasCounts (s : Stored) (c : Counter Outcomes) (width : Nat) : Prop where
  counts : s.counts = some c
  alone : s.shots = none
  rows : CountsRows c width

lemma HasTable.samples_eq (table : HasTable s a) : samples s = a.readouts.map fun row => (row, 1) := by
  rw [samples, table.shots]

lemma HasTable.occurrences_eq (table : HasTable s a) : occurrences (samples s) = a.readouts := by
  rw [table.samples_eq, occurrences_ones]

lemma HasCounts.samples_eq (counts : HasCounts s c width) : samples s = c.map fun e => (rowOf e.1, e.2) := by
  rw [samples, counts.alone, counts.counts]
  rfl

lemma HasCounts.occurrences_eq (counts : HasCounts s c width) :
    occurrences (samples s) = (occurrences c).map rowOf := by
  rw [counts.samples_eq, occurrences_map]

lemma Sampled.forms (sampled : Sampled s) (counted : columnCount? s = .ok columns) :
    (∃ a, columns = some a.width ∧ HasTable s a) ∨ ∃ c width, columns = some width ∧ HasCounts s c width := by
  rcases s with ⟨counts, shots, state, unitary, density⟩
  cases shots with
  | some a =>
    cases counts with
    | some c => cases counted
    | none =>
      have whole := sampled.shots a rfl
      exact .inl ⟨a, (Except.ok.inj counted).symm, rfl, rfl, whole.1, whole.2⟩
  | none =>
    cases counts with
    | none => exact absurd sampled.present (by simp)
    | some c =>
      rcases sampled.counts c rfl with ⟨width, rows⟩
      refine .inr ⟨c, width, ?_, rfl, rfl, rows⟩
      cases c with
      | nil => exact absurd rfl rows.nonempty
      | cons e rest =>
        have own := rows.positive e (by simp)
        have wide := (rows.rows e (by simp)).2.2
        have first : columnCount? ⟨some (e :: rest), none, state, unitary, density⟩ = .ok (some width) := by
          simp [columnCount?, own, wide]
        exact Except.ok.inj (counted.symm.trans first)

lemma Sampled.spec (sampled : Sampled s) (counted : columnCount? s = .ok columns) :
    ∃ width, columns = some width ∧ ∀ e ∈ samples s, 0 < e.2 ∧ e.1.length = width := by
  rcases sampled.forms counted with ⟨a, wide, table⟩ | ⟨c, width, wide, counts⟩
  · refine ⟨a.width, wide, ?_⟩
    intro e mem
    rw [table.samples_eq] at mem
    rcases mem_map.mp mem with ⟨row, inside, same⟩
    subst same
    exact ⟨Int.one_pos, table.valid.length row inside⟩
  · refine ⟨width, wide, ?_⟩
    intro e mem
    rw [counts.samples_eq] at mem
    rcases mem_map.mp mem with ⟨f, inside, same⟩
    subst same
    exact ⟨counts.rows.positive f inside, counts.rows.length_row inside⟩

end

section

variable {units request : List UnitId} {numbers : List (UnitId × Nat)}
  {width : Nat} {process : Option Processor} (row : List Bool)

def project (units request : List UnitId) : List Bool → List Bool :=
  columnsOf (request.map units.idxOf)

lemma length_project : (project units request row).length = request.length := by
  simp [project, columnsOf]

lemma length_of_mem_project {rows : List (List Bool)} :
    ∀ row ∈ rows.map (project units request), row.length = request.length := by
  intro row mem
  rcases mem_map.mp mem with ⟨old, _, same⟩
  rw [← same, length_project]

lemma project_reverse : project units request.reverse row = (project units request row).reverse := by
  simp [project, columnsOf, map_reverse]

section

variable (table : HasTable s a) (length : units.length = a.width) (known : ∀ u ∈ request, u ∈ units)

include table length known

lemma HasTable.measured_reading (covers : ∀ p ∈ process, Covers p units) :
    measured ⟨s, units.zipIdx, numbers, process⟩ request none = .ok { shots := some (ofTable request.length
    (a.readouts.map (reading process units request))) } := by
  rcases choose_shotsAfter table.valid table.nonempty length known covers with ⟨b, processed, chosen⟩
  have answer := measured_shots known processed chosen
  change measured ⟨⟨s.counts, s.shots, none, none, none⟩, units.zipIdx, [], process⟩ request none = _
  rw [table.shots, table.alone]
  exact answer

lemma HasTable.shotTable_reading (covers : ∀ p ∈ process, Covers p units) :
    shotTable ⟨s, units.zipIdx, numbers, process⟩ (some (typed .bit request)) .ilo none =
    .ok (a.readouts.map (reading process units request)) := by
  rw [shotTable, ofBits_typed, table.measured_reading length known covers]
  change Except.ok (readouts _) = _
  rw [readouts_ofTable length_of_mem_reading]

lemma HasTable.map_reading :
    a.readouts.map (reading none units request) = a.readouts.map (project units request) := by
  apply map_congr_left
  intro row mem
  exact (columnsOf_row known ((table.valid.length row mem).trans length.symm)).symm

end

variable (numbers) in
lemma HasCounts.measured_rows (counts : HasCounts s c width) (length : units.length = width)
    (known : ∀ u ∈ request, u ∈ units) :
    ∃ d, measured ⟨s, units.zipIdx, numbers, none⟩ request none = .ok { counts := some d } ∧
    IsTally d (((occurrences (samples s)).map (project units request)).map (single request.length)) := by
  have rows := counts.rows
  have inside : ∀ a ∈ occurrences c, ∀ i ∈ request.map units.idxOf, i < a.width := by
    intro a mem
    exact idxOf_lt_width (length.trans (rows.row a mem).2.symm) known
  have some_ := occurrences_ne_nil rows.nonempty rows.positive
  rcases chooseCounts_ok rows.isTally some_ rowOf (fun a mem => (rows.row a mem).1) inside with
    ⟨d, chosen, tally⟩
  refine ⟨d, ?_, ?_⟩
  · have answer := measured_counts known (rfl : countsAfter none units request c = .ok c)
    rw [chosen] at answer
    change measured ⟨⟨s.counts, s.shots, none, none, none⟩, units.zipIdx, [], none⟩ request none = _
    rw [counts.counts, counts.alone]
    exact answer
  · rw [length_map] at tally
    rw [counts.occurrences_eq, map_map, map_map]
    exact tally

variable (numbers) in
lemma HasCounts.countTable_rows (counts : HasCounts s c width) (length : units.length = width)
    (known : ∀ u ∈ request, u ∈ units) :
    ∃ d, countTable ⟨s, units.zipIdx, numbers, none⟩ (some (typed .bit request)) .ilo none = .ok d ∧
    IsTally d ((occurrences (samples s)).map (project units request)) := by
  rcases counts.measured_rows numbers length known with ⟨d, answer, packed⟩
  rcases readoutCounts_ok length_of_mem_project packed with ⟨e, read, tally⟩
  refine ⟨e, ?_, tally⟩
  rw [countTable, ofBits_typed, answer]
  exact congrArg liftOutcome read

lemma mapM_lookup_eq_none (unknown : ∃ u ∈ request, u ∉ units) :
    request.mapM (fun u => units.zipIdx.lookup u) = none := by
  induction request with
  | nil =>
    rcases unknown with ⟨u, mem, _⟩
    cases mem
  | cons u rest ih =>
    rw [mapM_cons]
    by_cases own : u ∈ units
    · have later : ∃ v ∈ rest, v ∉ units := by
        rcases unknown with ⟨v, mem, absent⟩
        rcases mem_cons.mp mem with same | inside
        · exact absurd (same ▸ own) absent
        · exact ⟨v, inside, absent⟩
      rw [lookup_zipIdx own, ih later]
      rfl
    · have missing : units.zipIdx.lookup u = none := by
        apply lookup_eq_none_iff.mpr
        intro e mem
        have known := fst_mem_of_mem_zipIdx mem
        have other : u ≠ e.1 := fun same => own (same ▸ known)
        simpa using other
      rw [missing]
      rfl

lemma measured_unknown (sampled : Sampled s) (unknown : ∃ u ∈ request, u ∉ units) :
    measured ⟨s, units.zipIdx, numbers, none⟩ request none = .error .unknownBit := by
  have some_ : isMeasured ⟨s, units.zipIdx, numbers, none⟩ = true := by
    rw [isMeasured, Bool.or_eq_true]
    exact sampled.present.symm
  have kept : processorOf ⟨s, units.zipIdx, numbers, none⟩ none = .ok none := rfl
  unfold measured
  simp only [some_, kept, mapM_lookup_eq_none unknown]
  rfl

variable (numbers) in
lemma countTable_isTally (sampled : Sampled s) (columns : columnCount? s = .ok (some width))
    (length : units.length = width) (known : ∀ u ∈ request, u ∈ units) :
    ∃ c, countTable ⟨s, units.zipIdx, numbers, none⟩ (some (typed .bit request)) .ilo none = .ok c ∧
    IsTally c ((occurrences (samples s)).map (project units request)) := by
  rcases sampled.forms columns with ⟨a, wide, table⟩ | ⟨c, _, wide, counts⟩
  · cases wide
    have packed := (ofTable request.length
      (a.readouts.map (reading none units request))).isTally_counts
    rw [rowsOf_ofTable] at packed
    rcases readoutCounts_ok length_of_mem_reading packed with ⟨c, read, tally⟩
    refine ⟨c, ?_, ?_⟩
    · rw [countTable, ofBits_typed, table.measured_reading length known (by simp)]
      exact congrArg liftOutcome read
    · rw [table.occurrences_eq, ← table.map_reading length known]
      exact tally
  · cases wide
    exact counts.countTable_rows numbers length known

lemma shotTable_eq (sampled : Sampled s) (columns : columnCount? s = .ok (some width))
    (length : units.length = width) (known : ∀ u ∈ request, u ∈ units) (stored : s.shots = some a) :
    shotTable ⟨s, units.zipIdx, numbers, none⟩ (some (typed .bit request)) .ilo none =
    .ok (a.readouts.map (project units request)) := by
  rcases sampled.forms columns with ⟨b, wide, table⟩ | ⟨c, _, _, counts⟩
  · cases Option.some.inj (stored.symm.trans table.shots)
    cases wide
    rw [table.shotTable_reading length known (by simp), table.map_reading length known]
  · rw [counts.alone] at stored
    cases stored

lemma ordered_perm (basis : BasisOrder) (units : List UnitId) : (ordered basis units.zipIdx).Perm units := by
  have sorted : (UnitId.sort (units.zipIdx.map (·.1))).Perm units := by
    rw [zipIdx_map_fst]
    exact mergeSort_perm units UnitId.le
  cases basis with
  | ilo => exact sorted
  | dlo => exact (reverse_perm _).trans sorted

lemma countTable_reverse (sampled : Sampled s) (columns : columnCount? s = .ok (some width))
    (length : units.length = width) : ∃ up down, countTable ⟨s, units.zipIdx, numbers, none⟩ none .ilo none = .ok up ∧
    countTable ⟨s, units.zipIdx, numbers, none⟩ none .dlo none = .ok down ∧
    down.Perm (up.map fun e => (e.1.reverse, e.2)) := by
  have known : ∀ basis, ∀ u ∈ ordered basis units.zipIdx, u ∈ units :=
    fun basis u mem => (ordered_perm basis units).mem_iff.mp mem
  rcases countTable_isTally numbers sampled columns length (known .ilo) with ⟨up, first, ascending⟩
  rcases countTable_isTally numbers sampled columns length (known .dlo) with ⟨down, second, descending⟩
  refine ⟨up, down, first, second, ?_⟩
  have turned := ascending.map (f := List.reverse) fun x _ y _ same => reverse_injective same
  rw [map_map] at turned
  have back : project units (ordered .dlo units.zipIdx) = List.reverse ∘ project units (ordered .ilo units.zipIdx) := by
    funext row
    exact project_reverse row
  rw [back] at descending
  exact descending.perm turned

end

/-- A result of a table or of counts, without post-processing, counts at any list of its bits the
marginal of its rows: at each value the number of rows that have it in the columns of these bits. No
row is lost, the rows of a table keep their order, the two orders of all bits give the same counts with
every value reversed, and a bit that is not there is refused. -/
theorem marginals_of_ofStored {s : Stored} {bits qubits : List UnitId} {r : Result}
    (built : ofStored s bits qubits none = .ok r) (distinct : bits.Nodup) (sampled : Sampled s) :
    (r.bitList = listed .bit bits r.bitList.length ∧
      ∀ e ∈ samples s, e.1.length = r.bitList.length) ∧
    (∀ request, (∀ u ∈ request, u ∈ r.bitList) →
      (∃ c, r.countTable (some (typed .bit request)) .ilo none = .ok c ∧
        IsMarginal c (samples s) (project r.bitList request)) ∧
      ∀ a ∈ s.shots, r.shotTable (some (typed .bit request)) .ilo none =
        .ok (a.readouts.map (project r.bitList request))) ∧
    (∃ up down, r.countTable none .ilo none = .ok up ∧ r.countTable none .dlo none = .ok down ∧
      down.Perm (up.map fun e => (e.1.reverse, e.2))) ∧
    ∀ request, (∃ u ∈ request, u ∉ r.bitList) →
      ∃ e, r.countTable (some (typed .bit request)) .ilo none = .error e ∧
        r.shotTable (some (typed .bit request)) .ilo none = .error e ∧
        (HasProblem.problem e).fault = .value := by
  rcases ofStored_eq_ok built with ⟨columns, _, counted, numbered, _, _, stored, process⟩
  rcases sampled.spec counted with ⟨width, wide, rows⟩
  subst wide
  have length := (assign_eq_ok numbered).1
  have places := assign_eq_zipIdx distinct numbered
  have order : r.bitList = listed .bit bits width := by
    rw [bitList, places, storageOrder_zipIdx]
  have whole : r = ⟨s, (listed .bit bits width).zipIdx, r.qubits, none⟩ := by
    rw [← places, ← stored, ← process]
  rw [order, length]
  refine ⟨⟨rfl, fun e member => (rows e member).2⟩, ?_, ?_, ?_⟩
  · intro request known
    refine ⟨?_, ?_⟩
    · rcases countTable_isTally r.qubits sampled counted length known with ⟨c, answer, tally⟩
      rw [whole]
      exact ⟨c, answer, .of_tally (fun e member => (rows e member).1) tally⟩
    · intro a table
      rw [whole]
      exact shotTable_eq sampled counted length known table
  · rw [whole]
    exact countTable_reverse sampled counted length
  · intro request unknown
    have refused : measured ⟨s, (listed .bit bits width).zipIdx, r.qubits, none⟩ request none =
        .error .unknownBit := measured_unknown sampled unknown
    rw [whole]
    refine ⟨.unknownBit, ?_, ?_, rfl⟩
    · rw [countTable, ofBits_typed, refused]
      rfl
    · rw [shotTable, ofBits_typed, refused]
      rfl

def wideCounts : Counter Outcomes :=
  [(⟨9, 2, [[160, 128]]⟩, 2), (⟨9, 2, [[64, 255]]⟩, 3), (⟨9, 2, [[64, 127]]⟩, 4)]

lemma sampled_wideCounts : Sampled { counts := some wideCounts } where
  shots := by simp
  counts := by
    intro c stored
    cases Option.some.inj stored
    refine ⟨9, by simp [wideCounts], by decide, by decide, ?_⟩
    have valid : ∀ first second : UInt8, (⟨9, 2, [[first, second]]⟩ : Outcomes).Valid := by
      intro first second
      exact ⟨by simp, by simp⟩
    simp only [wideCounts, forall_mem_cons, not_mem_nil]
    simp [valid]
  present := .inr rfl

theorem marginals_of_ofStored_wide : ∃ r c,
    ofStored { counts := some wideCounts } [] [] none = .ok r ∧ Sampled { counts := some wideCounts } ∧
      r.countTable (some (typed .bit [⟨"c", [8]⟩, ⟨"c", [8]⟩])) .ilo none = .ok c ∧
      c.get [true, true] = 5 ∧ c.total = 9 := by
  let r : Result := ⟨{ counts := some wideCounts },
    ((List.range 9).map UnitId.bit).zipIdx, [], none⟩
  have built : ofStored { counts := some wideCounts } [] [] none = .ok r := by
    cbv
  rcases marginals_of_ofStored built List.nodup_nil sampled_wideCounts with ⟨_, marginals, _⟩
  have bits : r.bitList = (List.range 9).map UnitId.bit := storageOrder_zipIdx _
  rw [bits] at marginals
  rcases (marginals [⟨"c", [8]⟩, ⟨"c", [8]⟩] (by decide)).1 with ⟨c, answer, marginal⟩
  refine ⟨r, c, built, sampled_wideCounts, answer, ?_, ?_⟩
  · rw [marginal.get]
    cbv
  · rw [marginal.total]
    cbv

def unprocessed (r : Result) : Result := { r with process := none }

section

variable {bits qubits : List UnitId} {process : Option Processor}

lemma ofStored_unprocessed (built : ofStored s bits qubits process = .ok r) :
    ofStored s bits qubits none = .ok r.unprocessed := by
  rcases ofStored_eq_ok built with ⟨columns, digits, counted, numbered, sized, placed, stored, _⟩
  rw [ofStored_eq, counted]
  simp only [bind, Except.bind, numbered, sized, placed]
  rw [← stored]
  rfl

lemma ofJson_toJson_unprocessed (built : ofStored s bits qubits process = .ok r)
    (bitsApart : bits.Nodup) (qubitsApart : qubits.Nodup) (storable : Storable s) :
    ofJson r.toJson = .ok r.unprocessed := by
  rcases numbers_of_ofStored (ofStored_unprocessed built) bitsApart qubitsApart with
    ⟨us, vs, numbers⟩
  exact ofJson_of_numbers storable numbers

end

section

variable {units request : List UnitId}

lemma project_self (distinct : units.Nodup) {row : List Bool} (length : row.length = units.length) :
    project units units row = row := by
  apply ext_getElem
  · rw [length_project, length]
  · intro i first second
    have inside : i < units.length := by omega
    simp [project, columnsOf, List.Nodup.idxOf_getElem distinct i inside, second]

lemma project_reading (known : ∀ u ∈ request, u ∈ units) (process : Option Processor) (row : List Bool) :
    project units request (reading process units units row) = reading process units request row :=
  columnsOf_reading known process row

end

section

variable {units request : List UnitId} {numbers : List (UnitId × Nat)}
  {width : Nat}

lemma CountsRows.readout (rows : CountsRows c width) :
    ∀ a ∈ occurrences c, a.readout = .ok (rowOf a) ∧ (rowOf a).length = width := by
  intro a mem
  rcases mem_of_mem_occurrences mem with ⟨e, inside, same⟩
  subst same
  rw [Outcomes.readout, rows.readouts inside]
  exact ⟨rfl, rows.length_row inside⟩

lemma HasCounts.samples_ne_nil (counts : HasCounts s c width) : occurrences (samples s) ≠ [] := by
  have filled := occurrences_ne_nil counts.rows.nonempty counts.rows.positive
  simpa [counts.occurrences_eq] using filled

section

variable (counts : HasCounts s c width) (length : units.length = width)
  (known : ∀ u ∈ request, u ∈ units) (covers : Covers p units)

include counts length known covers

variable (numbers)

lemma HasCounts.measured_processed :
    ∃ d, measured ⟨s, units.zipIdx, numbers, some p⟩ request none = (do
    let counts ← chooseCounts d ((request.map units.idxOf).map fun (i : Nat) => (i : Int))
    return { counts }) ∧
    IsTally d (((occurrences (samples s)).map (reading (some p) units request)).map
    (single request.length)) := by
  have rows : ∀ a ∈ occurrences c, a.readout = .ok (rowOf a) ∧ (rowOf a).length = units.length := by
    rw [length]
    exact counts.rows.readout
  rcases covers.processCounts known counts.rows.isTally rowOf rows with ⟨d, processed, tally⟩
  refine ⟨d, ?_, ?_⟩
  · have after_ : countsAfter (some p) units request c = .ok d := processed
    have answer := measured_counts known after_
    change measured ⟨⟨s.counts, s.shots, none, none, none⟩, units.zipIdx, [], some p⟩ request none = _
    rw [counts.counts, counts.alone]
    exact answer
  · rw [counts.occurrences_eq, map_map, map_map]
    exact tally

lemma HasCounts.countTable_narrow (narrow : ∀ u ∈ request, units.idxOf u < request.length) :
    (∃ d, countTable ⟨s, units.zipIdx, numbers, some p⟩ (some (typed .bit request)) .ilo none = .ok d ∧
    IsTally d ((occurrences (samples s)).map (reading (some p) units (twice units request)))) ∧
    shotTable ⟨s, units.zipIdx, numbers, some p⟩ (some (typed .bit request)) .ilo none = .error (.missing .shots) := by
  rcases counts.measured_processed numbers length known covers with ⟨d, answer, tally⟩
  have inside : ∀ i ∈ request.map units.idxOf, i < request.length := by
    intro i mem
    rcases mem_map.mp mem with ⟨u, own, same⟩
    exact same ▸ narrow u own
  rcases chooseCounts_singles length_of_mem_reading (by simpa using counts.samples_ne_nil) tally
    inside with ⟨e, chosen, packed⟩
  have again : ((occurrences (samples s)).map (reading (some p) units request)).map
      (columnsOf (request.map units.idxOf)) =
      (occurrences (samples s)).map (reading (some p) units (twice units request)) := by
    rw [map_map]
    apply map_congr_left
    intro row _
    exact columnsOf_twice narrow (some p) row
  have twiceLength : (twice units request).length = request.length := length_map _
  rw [again, length_map, ← twiceLength] at packed
  rcases readoutCounts_ok length_of_mem_reading packed with ⟨f, read, final⟩
  rw [chosen] at answer
  refine ⟨⟨f, ?_, final⟩, ?_⟩
  · rw [countTable, ofBits_typed, answer]
    exact congrArg liftOutcome read
  · rw [shotTable, ofBits_typed, answer]
    rfl

lemma HasCounts.countTable_beyond (own : u ∈ request) (beyond : request.length ≤ units.idxOf u) :
    countTable ⟨s, units.zipIdx, numbers, some p⟩ (some (typed .bit request)) .ilo none =
    .error (.outcome .column) := by
  rcases counts.measured_processed numbers length known covers with ⟨d, answer, tally⟩
  have refused : chooseCounts d ((request.map units.idxOf).map fun (i : Nat) => (i : Int)) =
      .error (.outcome .column) := by
    apply chooseCounts_error tally (by simpa using counts.samples_ne_nil) (mem_map_of_mem own)
    intro b mem
    rcases mem_map.mp mem with ⟨row, _, same⟩
    exact same ▸ beyond
  rw [countTable, ofBits_typed, answer, refused]
  rfl

end

lemma places_of_single (single : units.length ≤ 1) (known : ∀ u ∈ request, u ∈ units) :
    ∀ u ∈ request, request[units.idxOf u]? = some u := by
  intro u mem
  have inside := idxOf_lt_length_of_mem (known u mem)
  have only : ∀ v ∈ request, v = u := by
    intro v other
    have place := idxOf_lt_length_of_mem (known v other)
    exact (idxOf_inj (known v other)).mp (by omega)
  have first : units.idxOf u = 0 := by omega
  have some_ : 0 < request.length := length_pos_of_mem mem
  rw [first, getElem?_eq_getElem some_]
  exact congrArg some (only _ (getElem_mem some_))

end

section

/-- Counts with the same entries, in whatever order, or the same failure. -/
def Alike (x y : Except Error (Counter (List Bool))) : Prop :=
  (∃ c d, x = .ok c ∧ y = .ok d ∧ c.Perm d) ∨ ∃ e, x = .error e ∧ y = .error e

lemma Alike.refl (x : Except Error (Counter (List Bool))) : Alike x x := by
  cases x with
  | ok c => exact .inl ⟨c, c, rfl, rfl, .refl c⟩
  | error e => exact .inr ⟨e, rfl, rfl⟩

lemma Alike.perm
    (alike : Alike x y) (first : x = .ok c) (second : y = .ok d) : c.Perm d := by
  subst first second
  rcases alike with ⟨c', d', left, right, perm⟩ | ⟨e, left, _⟩
  · cases left
    cases right
    exact perm
  · cases left

/-- Two results that answer alike for every list of the bits of the first. -/
structure SameAnswers (r r' : Result) : Prop where
  counts : ∀ request : List UnitId, (∀ u ∈ request, u ∈ r.bitList) →
    Alike (r.countTable (some (typed .bit request)) .ilo none)
      (r'.countTable (some (typed .bit request)) .ilo none)
  shots : ∀ request : List UnitId, (∀ u ∈ request, u ∈ r.bitList) →
    r.shotTable (some (typed .bit request)) .ilo none =
      r'.shotTable (some (typed .bit request)) .ilo none

variable {units : List UnitId} {numbers : List (UnitId × Nat)}

lemma HasTable.sameAnswers_iff (table : HasTable s a)
    (length : units.length = a.width) (distinct : units.Nodup) (covers : Covers p units) :
    SameAnswers ⟨s, units.zipIdx, numbers, some p⟩ ⟨s, units.zipIdx, numbers, none⟩ ↔
    ∀ row ∈ a.readouts, reading (some p) units units row = row := by
  have order : bitList ⟨s, units.zipIdx, numbers, some p⟩ = units := storageOrder_zipIdx units
  have covered : ∀ q ∈ some p, Covers q units := by simpa using covers
  have raw : ∀ row ∈ a.readouts, reading none units units row = row := by
    intro row mem
    have wide : row.length = units.length := (table.valid.length row mem).trans length.symm
    rw [← columnsOf_row (fun u own => own) wide]
    exact project_self distinct wide
  constructor
  · intro same row mem
    have shots := same.shots units (by rw [order]; exact fun u own => own)
    rw [table.shotTable_reading length (fun u own => own) covered,
      table.shotTable_reading length (fun u own => own) (by simp)] at shots
    exact (map_inj_left.mp (Except.ok.inj shots) row mem).trans (raw row mem)
  · intro fixed
    -- the whole answer is the same, so both tables and counts are
    have answer : ∀ request : List UnitId, (∀ u ∈ request, u ∈ units) →
        measured ⟨s, units.zipIdx, numbers, some p⟩ request none =
          measured ⟨s, units.zipIdx, numbers, none⟩ request none := by
      intro request known
      have rows : a.readouts.map (reading (some p) units request) =
          a.readouts.map (reading none units request) := by
        apply map_congr_left
        intro row mem
        rw [← project_reading known, fixed row mem, ← project_reading known, raw row mem]
      rw [table.measured_reading length known covered,
        table.measured_reading length known (by simp), rows]
    refine ⟨?_, ?_⟩
    · intro request known
      rw [order] at known
      rw [countTable, countTable, ofBits_typed, ofBits_typed, answer request known]
      exact .refl _
    · intro request known
      rw [order] at known
      rw [shotTable, shotTable, ofBits_typed, ofBits_typed, answer request known]

section

variable {width : Nat} (counts : HasCounts s c width)
  (length : units.length = width) (covers : Covers p units)

include counts length covers

variable (numbers)

lemma HasCounts.alike_iff_perm {request : List UnitId} (known : ∀ u ∈ request, u ∈ units)
    (places : ∀ u ∈ request, request[units.idxOf u]? = some u) :
    Alike (countTable ⟨s, units.zipIdx, numbers, some p⟩ (some (typed .bit request)) .ilo none)
    (countTable ⟨s, units.zipIdx, numbers, none⟩ (some (typed .bit request)) .ilo none) ↔
    ((occurrences (samples s)).map (reading (some p) units request)).Perm
    ((occurrences (samples s)).map (project units request)) := by
  have narrow : ∀ u ∈ request, units.idxOf u < request.length := by
    intro u mem
    exact (List.getElem?_eq_some_iff.mp (places u mem)).1
  rcases counts.countTable_narrow numbers length known covers narrow with ⟨⟨d, first, left⟩, _⟩
  rw [twice_eq places] at left
  rcases counts.countTable_rows numbers length known with ⟨e, second, right⟩
  rw [← left.perm_iff right]
  constructor
  · intro alike
    exact alike.perm first second
  · intro perm
    exact .inl ⟨d, e, first, second, perm⟩

lemma HasCounts.not_alike_second (distinct : units.Nodup) (second : 1 < units.length) :
    ¬Alike (countTable ⟨s, units.zipIdx, numbers, some p⟩ (some (typed .bit [units[1]])) .ilo none)
    (countTable ⟨s, units.zipIdx, numbers, none⟩ (some (typed .bit [units[1]])) .ilo none) := by
  have known : ∀ u ∈ [units[1]], u ∈ units := by simp
  have beyond : [units[1]].length ≤ units.idxOf units[1] := by
    rw [List.Nodup.idxOf_getElem distinct 1 second, length_singleton]
  rcases counts.countTable_rows numbers length known with ⟨d, answer, _⟩
  rw [counts.countTable_beyond numbers length known covers (mem_singleton_self _) beyond, answer]
  intro alike
  rcases alike with ⟨_, _, left, _⟩ | ⟨_, _, right⟩
  · cases left
  · cases right

/-- Counts answer alike just if there is at most one bit and post-processing leaves the rows, taken
together, as they are. -/
lemma HasCounts.sameAnswers_iff (distinct : units.Nodup) :
    SameAnswers ⟨s, units.zipIdx, numbers, some p⟩ ⟨s, units.zipIdx, numbers, none⟩ ↔
    units.length ≤ 1 ∧ ((occurrences (samples s)).map (reading (some p) units units)).Perm
    (occurrences (samples s)) := by
  have order : bitList ⟨s, units.zipIdx, numbers, some p⟩ = units := storageOrder_zipIdx units
  have raw : (occurrences (samples s)).map (project units units) = occurrences (samples s) := by
    refine (map_congr_left ?_).trans (map_id' _)
    intro row mem
    rw [counts.occurrences_eq] at mem
    rcases mem_map.mp mem with ⟨a, inside, same⟩
    exact project_self distinct (same ▸ (counts.rows.readout a inside).2.trans length.symm)
  constructor
  · intro same
    have single : units.length ≤ 1 := by
      by_contra many
      have second : 1 < units.length := by omega
      apply counts.not_alike_second numbers length covers distinct second
      exact same.counts _ (by simp [order])
    have places := places_of_single single fun u own => own
    have perm := (counts.alike_iff_perm numbers length covers (fun u own => own) places).mp
      (same.counts units (by simp [order]))
    rw [raw] at perm
    exact ⟨single, perm⟩
  · intro both
    rcases both with ⟨single, perm⟩
    refine ⟨?_, ?_⟩
    · intro request known
      rw [order] at known
      apply (counts.alike_iff_perm numbers length covers known (places_of_single single known)).mpr
      have projected := perm.map (project units request)
      rw [map_map] at projected
      refine .trans (.of_eq ?_) projected
      apply map_congr_left
      intro row _
      exact (project_reading known (some p) row).symm
    · intro request known
      rw [order] at known
      have narrow : ∀ u ∈ request, units.idxOf u < request.length := by
        intro u mem
        exact (List.getElem?_eq_some_iff.mp (places_of_single single known u mem)).1
      rcases counts.measured_rows numbers length known with ⟨d, answer, _⟩
      rw [(counts.countTable_narrow numbers length known covers narrow).2, shotTable, ofBits_typed, answer]
      rfl

end

end

lemma isSome_lookup_set (v : Valuation) (t : UnitId) (b : Bool)
    (there : (v.lookup u).isSome) : ((v.set t b).lookup u).isSome := by
  induction v with
  | nil => cases there
  | cons e rest ih =>
    rw [Valuation.set]
    split
    · rename_i same
      subst same
      cases own : u == e.1 <;> simp_all
    · rw [lookup_cons]
      cases own : u == e.1 <;> simp_all

lemma covers_follow {rules : List Rule} {bits : List UnitId}
    (sources : ∀ rule ∈ rules, rule.source ∈ bits) : Covers (Valuation.follow rules) bits := by
  intro v named
  have known : ∀ u ∈ bits, (v.lookup u).isSome := by
    intro u mem
    rw [← named] at mem
    rcases mem_map.mp mem with ⟨e, inside, same⟩
    rw [Option.isSome_iff_ne_none]
    intro missing
    have other := lookup_eq_none_iff.mp missing e inside
    simp [same] at other
  -- by induction on the rules: none of them takes the value of a bit away
  have general : ∀ rest : List Rule, (∀ rule ∈ rest, rule.source ∈ bits) → ∀ after : Valuation,
      (∀ u ∈ bits, (after.lookup u).isSome) →
      ∃ w, rest.foldlM (fun after rule => do
          return after.set rule.target ((← v.lookup rule.source) ^^ rule.invert)) after = some w ∧
        ∀ u ∈ bits, (w.lookup u).isSome := by
    intro rest
    induction rest with
    | nil =>
      intro _ after all
      exact ⟨after, rfl, all⟩
    | cons rule rest ih =>
      intro read after all
      rcases forall_mem_cons.mp read with ⟨own, later⟩
      rcases Option.isSome_iff_exists.mp (known rule.source own) with ⟨b, found⟩
      rw [foldlM_cons, found]
      apply ih later
      intro u mem
      exact isSome_lookup_set after rule.target _ (all u mem)
  rcases general rules sources v known with ⟨w, done, all⟩
  exact ⟨w, done, fun u mem => Option.isSome_iff_exists.mp (all u mem)⟩

/-- Post-processing is lost when a result is written and read: what is read is the result without it.
Its tables have the rows as they were measured, so it answers as before just if post-processing leaves
each of them as it is; for counts the rows together have to stay as they are, and there may be one bit
at most. -/
theorem forgets_of_ofStored {s : Stored} {bits qubits : List UnitId} {p : Processor} {r : Result}
    (built : ofStored s bits qubits (some p) = .ok r) (bitsApart : bits.Nodup)
    (qubitsApart : qubits.Nodup) (storable : Storable s) :
    ofJson r.toJson = .ok r.unprocessed ∧ ofStored s bits qubits none = .ok r.unprocessed ∧
    (Sampled s → Covers p r.bitList →
      (∀ a ∈ s.shots,
        (∀ request : List UnitId, (∀ u ∈ request, u ∈ r.bitList) →
          r.shotTable (some (typed .bit request)) .ilo none =
            .ok (a.readouts.map (reading (some p) r.bitList request)) ∧
          r.unprocessed.shotTable (some (typed .bit request)) .ilo none =
            .ok (a.readouts.map (reading none r.bitList request))) ∧
        (SameAnswers r r.unprocessed ↔
          ∀ row ∈ a.readouts, reading (some p) r.bitList r.bitList row = row)) ∧
      ∀ c ∈ s.counts, SameAnswers r r.unprocessed ↔
        r.bitList.length ≤ 1 ∧
          ((occurrences (samples s)).map (reading (some p) r.bitList r.bitList)).Perm
            (occurrences (samples s))) := by
  refine ⟨ofJson_toJson_unprocessed built bitsApart qubitsApart storable,
    ofStored_unprocessed built, ?_⟩
  intro sampled covers
  rcases ofStored_eq_ok built with ⟨columns, _, counted, numbered, _, _, stored, process⟩
  rcases sampled.spec counted with ⟨width, wide, _⟩
  subst wide
  have length := (assign_eq_ok numbered).1
  have places := assign_eq_zipIdx bitsApart numbered
  have distinct : (listed .bit bits width).Nodup := (nodup_listed_iff ..).mpr bitsApart
  have order : r.bitList = listed .bit bits width := by
    rw [bitList, places, storageOrder_zipIdx]
  have whole : r = ⟨s, (listed .bit bits width).zipIdx, r.qubits, some p⟩ := by
    rw [← places, ← stored, ← process]
  have bare : r.unprocessed = ⟨s, (listed .bit bits width).zipIdx, r.qubits, none⟩ := by
    rw [← places, ← stored]
    rfl
  rw [order] at covers
  have covered : ∀ q ∈ some p, Covers q (listed .bit bits width) := by simpa using covers
  rw [order, bare, whole]
  rcases sampled.forms counted with ⟨a, wide, table⟩ | ⟨c, _, wide, counts⟩
  · cases wide
    refine ⟨?_, by simp [table.alone]⟩
    intro b same
    cases Option.some.inj (table.shots.symm.trans same)
    refine ⟨?_, table.sameAnswers_iff length distinct covers⟩
    intro request known
    exact ⟨table.shotTable_reading length known covered,
      table.shotTable_reading length known (by simp)⟩
  · cases wide
    refine ⟨by simp [counts.alone], ?_⟩
    intro d _
    exact counts.sameAnswers_iff _ length covers distinct

def copied : Stored where
  shots := some (ofTable 2 [[false, true]])

lemma storable_copied : Storable copied where
  shots := by
    intro a stored
    cases Option.some.inj stored
    exact ⟨⟨by decide, by decide⟩, by decide⟩
  counts := by simp [copied]
  arrays := by simp [copied, arrays]

lemma sampled_copied : Sampled copied where
  shots := storable_copied.shots
  counts := by simp [copied]
  present := .inl rfl

theorem forgets_of_ofStored_copied : ∃ r r',
    ofStored copied [⟨"c", [0]⟩, ⟨"c", [1]⟩] []
      (some (Valuation.follow [⟨⟨"c", [0]⟩, ⟨"c", [1]⟩, false⟩])) = .ok r ∧
    ofJson r.toJson = .ok r' ∧
    r.shotTable (some (typed .bit [⟨"c", [0]⟩, ⟨"c", [1]⟩])) .ilo none = .ok [[true, true]] ∧
    r'.shotTable (some (typed .bit [⟨"c", [0]⟩, ⟨"c", [1]⟩])) .ilo none = .ok [[false, true]] ∧
    ¬SameAnswers r r' := by
  let bits : List UnitId := [⟨"c", [0]⟩, ⟨"c", [1]⟩]
  let p : Processor := Valuation.follow [⟨⟨"c", [0]⟩, ⟨"c", [1]⟩, false⟩]
  let r : Result := ⟨copied, bits.zipIdx, [], some p⟩
  have built : ofStored copied bits [] (some p) = .ok r := rfl
  have order : r.bitList = bits := storageOrder_zipIdx bits
  rcases forgets_of_ofStored built (by decide) List.nodup_nil storable_copied with
    ⟨back, _, answers⟩
  have covers : Covers p bits := covers_follow (by decide)
  rw [order] at answers
  rcases (answers sampled_copied covers).1 _ rfl with ⟨shots, same⟩
  rcases shots bits fun u own => own with ⟨before, after_⟩
  refine ⟨r, r.unprocessed, built, back, before.trans (by cbv), after_.trans (by cbv), ?_⟩
  rw [same]
  decide

end CircuitWorks.Result
