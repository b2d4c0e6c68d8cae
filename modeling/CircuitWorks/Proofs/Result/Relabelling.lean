import CircuitWorks.Proofs.Readout.Inverses
import CircuitWorks.Proofs.Result.Numbering

/-!
Simulated results asked for their qubits in another order.
-/

namespace CircuitWorks.Result

open List Tensor UnitId Option BitPermuter Digits Readout

section

variable {storage request : List UnitId}

lemma map_idxOf_self (distinct : storage.Nodup) : storage.map storage.idxOf = range storage.length := by
  apply ext_getElem
  · simp
  · intro i first second
    have inside : i < storage.length := by simpa using first
    simp [List.Nodup.idxOf_getElem distinct i inside]

lemma places_perm (distinct : storage.Nodup) (perm : request.Perm storage) :
    (request.map storage.idxOf).Perm (range (request.map storage.idxOf).length) := by
  rw [length_map, perm.length_eq, ← map_idxOf_self distinct]
  exact perm.map storage.idxOf

lemma permutation_eq {r : Result} (numbered : r.qubits = storage.zipIdx) (distinct : storage.Nodup)
    (perm : request.Perm storage) :
    r.permutation request = .ok ((request.map storage.idxOf).map fun (i : Nat) => (i : Int)) := by
  have order : r.qubitList = storage := by rw [qubitList, numbered, storageOrder_zipIdx]
  have length := perm.length_eq
  let place (u : UnitId) : Int := (storage.idxOf (request.getD (storage.idxOf u) u) : Nat)
  have all : storage.map place = (request.map storage.idxOf).map fun (i : Nat) => (i : Int) := by
    apply ext_getElem
    · simp [length]
    · intro i first second
      have inside : i < storage.length := by simpa using first
      have asked : i < request.length := by omega
      simp [place, List.Nodup.idxOf_getElem distinct i inside, asked]
  rw [permutation, order, numbered, ← all]
  apply mapM_ok
  intro u mem
  have inside : storage.idxOf u < request.length := by
    rw [length]
    exact idxOf_lt_length_of_mem mem
  have known : request[storage.idxOf u] ∈ storage := perm.mem_iff.mp (getElem_mem inside)
  have found : storage.findIdx? (· = request[storage.idxOf u]) = some (storage.idxOf request[storage.idxOf u]) :=
    findIdx?_eq_some_of_exists ⟨_, known, by simp⟩
  have asked := lookup_zipIdx mem 0
  rw [Nat.add_zero] at asked
  simp only [asked, getElem?_eq_getElem inside, found, place, getD_eq_getElem?_getD, getD_some]
  rfl

end

section

variable {s : Stored} {n : Nat} {storage request : List UnitId} {r : Result}

/-- Arrays over the basis states of some number of qubits, at least one of them. -/
structure Simulates (s : Stored) (n : Nat) : Prop extends OnQubits s n where
  lengths : ∀ t ∈ arrays s, t.entries.length = volume t.shape
  present : arrays s ≠ []

/-- A result that numbers distinct qubits in the order in which they are stored. -/
structure Stores (r : Result) (storage : List UnitId) : Prop where
  simulates : Simulates r.toStored storage.length
  numbered : r.qubits = storage.zipIdx
  distinct : storage.Nodup

variable {t : Tensor Amplitude}

lemma Simulates.state_length (simulates : Simulates s n) (stored : s.state = some t) : t.entries.length = 2 ^ n := by
  rw [simulates.lengths t (by simp [arrays, stored]), simulates.state t stored]
  simp [volume]

lemma Simulates.unitary_length (simulates : Simulates s n)
    (stored : s.unitary = some t) : t.entries.length = 2 ^ n * 2 ^ n := by
  rw [simulates.lengths t (by simp [arrays, stored]), simulates.unitary t stored]
  simp [volume]

lemma Simulates.density_length (simulates : Simulates s n)
    (stored : s.density = some t) : t.entries.length = 2 ^ n * 2 ^ n := by
  rw [simulates.lengths t (by simp [arrays, stored]), simulates.density t stored]
  simp [volume]

lemma ofQubits_typed (r : Result) (nonempty : request ≠ []) (basis : BasisOrder) :
    r.ofQubits (some (typed .qubit request)) basis = r.simulated request := by
  have bits : ((typed .qubit request).all fun u => u.kind = .bit) = false := by
    cases request with
    | nil => exact absurd rfl nonempty
    | cons u rest => simp [typed]
  have qubits : ((typed .qubit request).all fun u => u.kind = .qubit) = true := by simp [typed]
  have ids : (typed .qubit request).map (·.id) = request := by simp [typed, Function.comp_def]
  rw [ofQubits, getD_some, resultFor, bits, qubits, ids]
  rfl

lemma mapM_relabel {places : List Int}
    {related : Tensor Amplitude → Tensor Amplitude → Prop}
    (each : ∀ t ∈ x, ∃ u, relabel places t = .ok u ∧ related t u) :
    ∃ y, x.mapM (relabel places) = .ok y ∧ (x = none → y = none) ∧ ∀ t ∈ x, ∃ u, y = some u ∧ related t u := by
  cases x with
  | none => exact ⟨none, rfl, fun _ => rfl, by simp⟩
  | some t =>
    rcases each t rfl with ⟨u, done, relation⟩
    refine ⟨some u, ?_, by simp, ?_⟩
    · change (some <$> relabel places t) = _
      rw [done]
      rfl
    · intro v same
      cases some.inj same
      exact ⟨u, rfl, relation⟩

def source (storage request : List UnitId) (v : Nat) : Nat :=
  moved (request.map storage.idxOf) false v

/-- The digit at the storage place of every requested qubit is the digit at its place in the request. -/
structure Relabels (storage request : List UnitId) (f : Nat → Nat) : Prop where
  below : ∀ v, f v < 2 ^ storage.length
  digits : ∀ v k (inside : k < request.length),
    digitAt storage.length (storage.idxOf request[k]) (f v) = digitAt storage.length k v

lemma relabels_source (distinct : storage.Nodup) (perm : request.Perm storage) :
    Relabels storage request (source storage request) := by
  have length : (request.map storage.idxOf).length = storage.length := by rw [length_map, perm.length_eq]
  refine ⟨?_, ?_⟩
  · intro v
    rw [← length]
    exact moved_lt (request.map storage.idxOf) v
  · intro v k inside
    have digits := digitAt_moved (places_perm distinct perm) v (k := k) (by simpa using inside)
    simpa only [source, getElem_map, length] using digits

lemma source_self (distinct : storage.Nodup) (below : v < 2 ^ storage.length) :
    source storage storage v = v := by
  rw [source, map_idxOf_self distinct]
  exact moved_range below

lemma relabel_vector (distinct : storage.Nodup) (perm : request.Perm storage)
    (shape : t.shape = [2 ^ storage.length]) (length : t.entries.length = 2 ^ storage.length) :
    ∃ u, relabel ((request.map storage.idxOf).map fun (i : Nat) => (i : Int)) t = .ok u ∧
    VectorMoved (source storage request) (2 ^ storage.length) t u := by
  have count : (request.map storage.idxOf).length = storage.length := by rw [length_map, perm.length_eq]
  rcases permuteBasis_moved (places_perm distinct perm) (count ▸ shape) (count ▸ length) with
    ⟨u, permuted, entries⟩
  rw [count] at entries
  refine ⟨u, ?_, entries⟩
  rw [relabel, shape, if_pos length_singleton, permuted]
  rfl

lemma relabel_matrix (distinct : storage.Nodup) (perm : request.Perm storage)
    (shape : t.shape = [2 ^ storage.length, 2 ^ storage.length])
    (length : t.entries.length = 2 ^ storage.length * 2 ^ storage.length) :
    ∃ u, relabel ((request.map storage.idxOf).map fun (i : Nat) => (i : Int)) t = .ok u ∧
    MatrixMoved (source storage request) (2 ^ storage.length) t u := by
  have count : (request.map storage.idxOf).length = storage.length := by rw [length_map, perm.length_eq]
  rcases permuteSides_moved (places_perm distinct perm) (count ▸ shape) (count ▸ length) with
    ⟨u, permuted, entries⟩
  rw [count] at entries
  refine ⟨u, ?_, entries⟩
  rw [relabel, shape, if_neg (by simp), permuted]
  rfl

/-- The arrays of an answer beside those that are stored. -/
structure Answers (storage request : List UnitId) (s answer : Stored) : Prop where
  noState : s.state = none → answer.state = none
  state : ∀ t ∈ s.state, ∃ u, answer.state = some u ∧
    VectorMoved (source storage request) (2 ^ storage.length) t u
  unitary : ∀ t ∈ s.unitary, ∃ u, answer.unitary = some u ∧
    MatrixMoved (source storage request) (2 ^ storage.length) t u
  density : ∀ t ∈ s.density, ∃ u, answer.density = some u ∧
    MatrixMoved (source storage request) (2 ^ storage.length) t u

lemma Stores.simulated (stores : Stores r storage) (perm : request.Perm storage) :
    ∃ answer, r.simulated request = .ok answer ∧ Answers storage request r.toStored answer := by
  have simulates := stores.simulates
  have known : r.qubits.map (·.1) = storage := by
    rw [stores.numbered]
    exact zipIdx_map_fst 0 storage
  have some_ : r.isSimulated = true := by
    have present := simulates.present
    simp only [arrays, ne_eq, append_eq_nil_iff, toList_eq_nil_iff] at present
    simp only [isSimulated, Bool.or_eq_true, isSome_iff_ne_none]
    tauto
  have valid : (request.length ≠ storage.length || !request.all (storage.contains ·) ||
      !storage.all (request.contains ·)) = false := by
    simp [perm.length_eq, perm.mem_iff]
  rcases mapM_relabel fun t stored => relabel_vector stores.distinct perm
    (simulates.state t stored) (simulates.state_length stored) with ⟨state, first, noState, state_⟩
  rcases mapM_relabel fun t stored => relabel_matrix stores.distinct perm
    (simulates.unitary t stored) (simulates.unitary_length stored) with ⟨unitary, second, _, unitary_⟩
  rcases mapM_relabel fun t stored => relabel_matrix stores.distinct perm
    (simulates.density t stored) (simulates.density_length stored) with ⟨density, third, _, density_⟩
  refine ⟨⟨none, none, state, unitary, density⟩, ?_, noState, state_, unitary_, density_⟩
  simp only [Result.simulated, some_, known, valid, bind, Except.bind,
    permutation_eq stores.numbered stores.distinct perm, first, second, third]
  rfl

end

section

variable {f : Nat → Nat} {size : Nat} {t v : Tensor Amplitude}

lemma firstColumn_moved (positive : 0 < size) (shape : t.shape = [size, size])
    (length : t.entries.length = size * size) : ∃ v, firstColumn t = .ok v ∧ VectorMoved (· * size) size t v := by
  have inside : ∀ k ∈ [0], k < size := by simpa using positive
  have picked := pickColumns_eq shape inside
  have single : ∀ i < size, (part size i t.entries).length = size * 1 := by
    intro i below
    rw [Nat.mul_one]
    exact length_part length below
  have rowLength : ∀ i ∈ range size, ([0].flatMap fun k => part 1 k (part size i t.entries)).length = 1 := by
    intro i mem
    exact length_chosen (single i (mem_range.mp mem)) inside
  refine ⟨⟨[size], (range size).flatMap fun i =>
    [0].flatMap fun k => part 1 k (part size i t.entries)⟩, ?_, rfl, ?_, ?_⟩
  · rw [firstColumn]
    simp only [shape, picked]
    simp [volume]
  · rw [length_flatMap 1 rowLength, length_range, Nat.mul_one]
  · intro i below
    have entry := getElem?_flatMap rowLength i Nat.one_pos
    have chosen := getElem?_chosen (single i below) inside 0 Nat.one_pos
    have source := getElem?_part positive i t.entries
    simp only [Nat.mul_one, Nat.add_zero] at entry chosen source
    rw [entry, getElem?_range below, bind_some, chosen]
    simp [source]

lemma column_of_moved (fixed : f 0 = 0) (positive : 0 < size) (below : ∀ i < size, f i < size)
    (matrix : MatrixMoved f size t u)
    (first : VectorMoved (· * size) size t v) (second : VectorMoved (· * size) size u w)
    (vector : VectorMoved f size v x) : w = x := by
  apply VectorMoved.unique (t := t) (f := fun i => f i * size)
  · refine ⟨second.shape, second.length, ?_⟩
    intro i inside
    have entry := matrix.entry i inside 0 positive
    rw [second.entry i inside]
    simpa [fixed] using entry
  · refine ⟨vector.shape, vector.length, ?_⟩
    intro i inside
    rw [vector.entry i inside, first.entry (f i) (below i inside)]

end

section

variable {s : Stored} {bits qubits storage request : List UnitId} {process : Option Processor}
  {r : Result} {n : Nat}

lemma simulates_of_column (simulates : Simulates s n)
    (column : VectorMoved (· * 2 ^ n) (2 ^ n) t v) : Simulates { s with state := some v, unitary := none } n := by
  refine ⟨⟨?_, by simp, simulates.density⟩, ?_, by simp [arrays]⟩
  · intro w same
    cases some.inj same
    exact column.shape
  · rw [forall_arrays]
    refine ⟨?_, by simp, ?_⟩
    · intro w same
      cases some.inj same
      rw [column.shape, column.length]
      simp [volume]
    · exact (forall_arrays.mp simulates.lengths).2.2

lemma stores_of_ofStored (distinct : qubits.Nodup) (simulates : Simulates s n)
    (built : ofStored s bits qubits process = .ok r) :
    Stores r (listed .qubit qubits n) ∧ (listed .qubit qubits n).length = n ∧
    assign .qubit qubits n = .ok r.qubits := by
  rcases ofStored_eq_ok built with ⟨_, digits, _, _, sized, placed, stored, _⟩
  rcases qubitCount?_eq_ok sized with ⟨_, empty⟩ | ⟨_, _, side, _, count, whole⟩
  · exact absurd empty simulates.present
  · rw [count, whole n simulates.toOnQubits, Nat.log2_two_pow] at placed
    have length := (assign_eq_ok placed).1
    refine ⟨⟨?_, assign_eq_zipIdx distinct placed, (nodup_listed_iff ..).mpr distinct⟩, length, placed⟩
    rw [stored, length]
    exact simulates

/-- The answers for an order of the qubits have the stored entries of other basis states. -/
structure Shows (r : Result) (s : Stored) (request : List UnitId) (f : Nat → Nat) (size : Nat) :
    Prop where
  state : ∀ t ∈ s.state, ∀ basis, ∃ u,
    r.stateVector (some (typed .qubit request)) basis = .ok u ∧ VectorMoved f size t u
  unitary : ∀ t ∈ s.unitary, ∀ basis, ∃ u,
    r.unitaryMatrix (some (typed .qubit request)) basis = .ok u ∧ MatrixMoved f size t u
  density : ∀ t ∈ s.density, ∀ basis, ∃ u,
    r.densityMatrix (some (typed .qubit request)) basis = .ok u ∧ MatrixMoved f size t u

lemma Stores.shows (stores : Stores r storage) (nonempty : request ≠ []) (perm : request.Perm storage) :
    Shows r r.toStored request (source storage request) (2 ^ storage.length) := by
  rcases stores.simulated perm with ⟨answer, done, answers⟩
  have asked (basis : BasisOrder) := (ofQubits_typed r nonempty basis).trans done
  refine ⟨?_, ?_, ?_⟩
  · intro t stored basis
    rcases answers.state t stored with ⟨u, shown, entries⟩
    refine ⟨u, ?_, entries⟩
    simp only [stateVector, asked, bind, Except.bind, shown]
    rfl
  · intro t stored basis
    rcases answers.unitary t stored with ⟨u, shown, entries⟩
    refine ⟨u, ?_, entries⟩
    simp only [unitaryMatrix, asked, bind, Except.bind, shown]
    rfl
  · intro t stored basis
    rcases answers.density t stored with ⟨u, shown, entries⟩
    refine ⟨u, ?_, entries⟩
    simp only [densityMatrix, asked, bind, Except.bind, shown]
    rfl

lemma Stores.stateVector_eq (stores : Stores r storage) (nonempty : request ≠ [])
    (perm : request.Perm storage) (none_ : r.state = none) (stored : r.unitary = some t) (basis : BasisOrder) : ∃ u,
    r.stateVector (some (typed .qubit request)) basis = firstColumn u ∧
    MatrixMoved (source storage request) (2 ^ storage.length) t u := by
  rcases stores.simulated perm with ⟨answer, done, answers⟩
  rcases answers.unitary t stored with ⟨u, shown, entries⟩
  refine ⟨u, ?_, entries⟩
  simp only [stateVector, (ofQubits_typed r nonempty basis).trans done, bind, Except.bind,
    answers.noState none_, shown]

lemma Stores.shows_self (stores : Stores r storage) (nonempty : storage ≠ []) (basis : BasisOrder) :
    (∀ t ∈ r.state, r.stateVector (some (typed .qubit storage)) basis = .ok t) ∧
    (∀ t ∈ r.unitary, r.unitaryMatrix (some (typed .qubit storage)) basis = .ok t) ∧
    ∀ t ∈ r.density, r.densityMatrix (some (typed .qubit storage)) basis = .ok t := by
  have simulates := stores.simulates
  have shows := stores.shows nonempty (.refl storage)
  have fixed : ∀ v < 2 ^ storage.length, source storage storage v = v :=
    fun v below => source_self stores.distinct below
  refine ⟨?_, ?_, ?_⟩
  · intro t mem
    rcases shows.state t mem basis with ⟨u, done, entries⟩
    rwa [entries.eq fixed (simulates.state t mem) (simulates.state_length mem)] at done
  · intro t mem
    rcases shows.unitary t mem basis with ⟨u, done, entries⟩
    rwa [entries.eq fixed (simulates.unitary t mem) (simulates.unitary_length mem)] at done
  · intro t mem
    rcases shows.density t mem basis with ⟨u, done, entries⟩
    rwa [entries.eq fixed (simulates.density t mem) (simulates.density_length mem)] at done

lemma Stores.stateVector_column (stores : Stores r storage)
    (stores' : Stores r' storage) (nonempty : request ≠ []) (perm : request.Perm storage)
    (none_ : r.state = none) (stored : r.unitary = some t) (stored' : r'.state = some v)
    (column : VectorMoved (· * 2 ^ storage.length) (2 ^ storage.length) t v) (basis : BasisOrder) :
    r'.stateVector (some (typed .qubit request)) basis = r.stateVector (some (typed .qubit request)) basis := by
  have side : 0 < 2 ^ storage.length := by positivity
  rcases (stores'.shows nonempty perm).state v stored' basis with ⟨x, vector, moved⟩
  rcases stores.stateVector_eq nonempty perm none_ stored basis with ⟨u, matrix, entries⟩
  rcases firstColumn_moved side entries.shape entries.length with ⟨w, first, column'⟩
  have below := (relabels_source stores.distinct perm).below
  rw [vector, matrix, first, column_of_moved (moved_zero _) side (fun i _ => below i)
    entries column column' moved]

lemma ofStored_column (placed : assign .qubit qubits n = .ok r.qubits)
    (column : VectorMoved (· * 2 ^ n) (2 ^ n) t v) (built : ofStored s bits qubits process = .ok r) :
    ∃ r', ofStored { s with state := some v, unitary := none } bits qubits process = .ok r' := by
  rcases ofStored_eq_ok built with ⟨columns, _, counted, numbered, _⟩
  have again : columnCount? { s with state := some v, unitary := none } = .ok columns := counted
  have sized : qubitCount? { s with state := some v, unitary := none } = .ok (some n) := by
    have side : firstSide v = .ok (2 ^ n) := by
      rw [firstSide, column.shape]
      rfl
    have count : stateQubits (2 ^ n) = .ok n := by
      have pos : 2 ^ n ≠ 0 := by positivity
      simp only [stateQubits, qubitCount, pos, if_false, Nat.log2_two_pow, bind, Except.bind]
      exact if_pos rfl
    simp only [qubitCount?, side, bind, Except.bind, count, liftReadout]
    rfl
  refine ⟨⟨{ s with state := some v, unitary := none }, r.bits, r.qubits, process⟩, ?_⟩
  rw [ofStored_eq, again]
  simp only [bind, Except.bind, numbered, sized]
  simp only [assigned, placed]
  rfl

/-- Every permutation of the qubits only relabels the basis states of what is stored, the storage
order gives the stored arrays, and the state shown for a unitary is that shown for its first column. -/
theorem relabelled_of_ofStored (distinct : qubits.Nodup) (positive : 0 < n)
    (simulates : Simulates s n) (built : ofStored s bits qubits process = .ok r) :
    r.qubitList = listed .qubit qubits n ∧ r.qubitList.length = n ∧
    (∀ request : List UnitId, request.Perm r.qubitList →
      ∃ f, Relabels r.qubitList request f ∧ Shows r s request f (2 ^ n)) ∧
    (∀ basis,
      (∀ t ∈ s.state, r.stateVector (some (typed .qubit r.qubitList)) basis = .ok t) ∧
      (∀ t ∈ s.unitary, r.unitaryMatrix (some (typed .qubit r.qubitList)) basis = .ok t) ∧
      ∀ t ∈ s.density, r.densityMatrix (some (typed .qubit r.qubitList)) basis = .ok t) ∧
    (s.state = none → ∀ t ∈ s.unitary, ∃ v r', firstColumn t = .ok v ∧
      ofStored { s with state := some v, unitary := none } bits qubits process = .ok r' ∧
      ∀ request : List UnitId, request.Perm r.qubitList → ∀ basis,
        r'.stateVector (some (typed .qubit request)) basis =
          r.stateVector (some (typed .qubit request)) basis) := by
  rcases stores_of_ofStored distinct simulates built with ⟨stores, length, placed⟩
  rcases ofStored_eq_ok built with ⟨_, _, _, _, _, _, stored, _⟩
  have order : r.qubitList = listed .qubit qubits n := by
    rw [qubitList, stores.numbered, storageOrder_zipIdx]
  have nonempty : ∀ request : List UnitId, request.Perm (listed .qubit qubits n) → request ≠ [] := by
    intro request perm
    apply List.ne_nil_of_length_pos
    rw [perm.length_eq, length]
    exact positive
  rw [order]
  refine ⟨rfl, length, ?_, ?_, ?_⟩
  · intro request perm
    have shows := stores.shows (nonempty request perm) perm
    rw [stored, length] at shows
    exact ⟨_, relabels_source stores.distinct perm, shows⟩
  · rw [← stored]
    exact stores.shows_self (nonempty _ (.refl _))
  · intro none_ t member
    rcases firstColumn_moved (by positivity) (simulates.unitary t member)
      (simulates.unitary_length member) with ⟨v, first, column⟩
    rcases ofStored_column placed column built with ⟨r', other⟩
    rcases stores_of_ofStored distinct (simulates_of_column simulates column) other with
      ⟨stores', _, _⟩
    rcases ofStored_eq_ok other with ⟨_, _, _, _, _, _, stored', _⟩
    refine ⟨v, r', first, other, ?_⟩
    intro request perm basis
    apply stores.stateVector_column stores' (nonempty request perm) perm
    · rw [stored]
      exact none_
    · rw [stored]
      exact member
    · rw [stored']
    · rw [length]
      exact column

def ramp : Tensor Amplitude where
  shape := [8]
  entries := [⟨0, 0⟩, ⟨1, 0⟩, ⟨2, 0⟩, ⟨3, 0⟩, ⟨4, 0⟩, ⟨5, 0⟩, ⟨6, 0⟩, ⟨7, 0⟩]

lemma simulates_ramp : Simulates { state := some ramp } 3 := by
  refine ⟨⟨?_, by simp, by simp⟩, ?_, by simp [arrays]⟩
  · intro t same
    cases some.inj same
    rfl
  · intro t mem
    have same : t = ramp := by simpa [arrays] using mem
    rw [same]
    rfl

/-- The first qubit is asked for last, so the last digit of an index is the leading digit of its
source. -/
theorem relabelled_of_ofStored_turned : ∃ r u,
    ofStored { state := some ramp } [] [] none = .ok r ∧
    r.stateVector (some (typed .qubit [UnitId.qubit 1, UnitId.qubit 2, UnitId.qubit 0])) .ilo = .ok u ∧
    u.entries[1]? = some ⟨4, 0⟩ := by
  let storage := [UnitId.qubit 0, UnitId.qubit 1, UnitId.qubit 2]
  let r : Result := ⟨{ state := some ramp }, [], storage.zipIdx, none⟩
  have built : ofStored { state := some ramp } [] [] none = .ok r := by rfl
  rcases relabelled_of_ofStored List.nodup_nil (by decide) simulates_ramp built with
    ⟨order, _, all, _⟩
  have order : r.qubitList = storage := order
  rw [order] at all
  rcases all [UnitId.qubit 1, UnitId.qubit 2, UnitId.qubit 0] (by decide) with ⟨f, relabels, shows⟩
  rcases shows.state ramp rfl .ilo with ⟨u, done, entries⟩
  refine ⟨r, u, built, done, ?_⟩
  have below : f 1 < 8 := relabels.below 1
  have places : storage.idxOf (UnitId.qubit 1) = 1 ∧ storage.idxOf (UnitId.qubit 2) = 2 ∧
      storage.idxOf (UnitId.qubit 0) = 0 := by decide
  have middle : digitAt 3 (storage.idxOf (UnitId.qubit 1)) (f 1) = 0 :=
    (relabels.digits 1 0 (by decide)).trans (by decide)
  have last : digitAt 3 (storage.idxOf (UnitId.qubit 2)) (f 1) = 0 :=
    (relabels.digits 1 1 (by decide)).trans (by decide)
  have leading : digitAt 3 (storage.idxOf (UnitId.qubit 0)) (f 1) = 1 :=
    (relabels.digits 1 2 (by decide)).trans (by decide)
  norm_num [places, digitAt, Nat.pow_eq] at middle last leading
  have place : f 1 = 4 := by omega
  rw [entries.entry 1 (by decide), place]
  rfl

end

end CircuitWorks.Result
