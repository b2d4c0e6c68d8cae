import CircuitWorks.Proofs.Spam.Matrices

/-!
Correctors of disjoint subsets, whatever they were asked to do: the places of nodes and the matrices
follow the subsets.

The order in which a corrector takes bits and matrices, and what calibration makes of results.
-/

namespace CircuitWorks.Spam

open List

variable {subsets : List (List UnitId)}

variable {κ : Type} (units : List UnitId)

lemma nodup_distinct : (UnitId.distinct units).Nodup := by
  induction units with
  | nil => exact nodup_nil
  | cons u rest ih =>
    rw [UnitId.distinct, nodup_cons]
    exact ⟨by simp, ih.filter _⟩

lemma distinct_sublist : (UnitId.distinct units).Sublist units := by
  induction units with
  | nil => exact List.Sublist.slnil
  | cons u rest ih => exact (filter_sublist.trans ih).cons_cons u

lemma lookup_of_mem {α : Type} {entries : List (UnitId × α)}
    (distinct : (entries.map (·.1)).Nodup) {a : α} (mem : (u, a) ∈ entries) :
    entries.lookup u = some a := by
  induction entries with
  | nil => cases mem
  | cons e rest ih =>
    obtain ⟨v, b⟩ := e
    have parts : v ∉ rest.map (·.1) ∧ (rest.map (·.1)).Nodup := nodup_cons.mp distinct
    rcases mem_cons.mp mem with same | later
    · cases same
      simp
    · have other : u ≠ v := by
        rintro rfl
        exact parts.1 (mem_map_of_mem (f := Prod.fst) later)
      rw [lookup_cons, beq_false_of_ne other, ih parts.2 later]

namespace Corrector

variable {ms : List (Dense κ)}

section

variable {c : Corrector κ}

/-- The subsets and a square matrix for each. -/
def Matched (subsets : List (List UnitId)) (ms : List (Dense κ)) : Prop :=
  List.Forall₂ (fun subset m => Square (2 ^ subset.length) m) subsets ms

/-- What holds of a corrector of disjoint subsets, whatever it was asked to do: each node is in one
subset, the places of nodes are those in the subsets, and there is a matrix for each subset. -/
structure Charted (c : Corrector κ) : Prop where
  apart : c.subsets.flatten.Nodup
  nodes : c.nodes.Perm c.subsets.flatten
  places : ∀ ms ∈ c.matrices, c.places = some c.nodePlaces
  matrices : ∀ ms ∈ c.matrices, Matched c.subsets ms

lemma charted_ofSubsets (made : ofSubsets subsets = .ok c) : Charted c := by
  rw [ofSubsets] at made
  split at made
  · cases made
  · rename_i len
    obtain rfl := Except.ok.inj made
    have nodup : subsets.flatten.Nodup := by
      have same := (distinct_sublist subsets.flatten).eq_of_length (not_not.mp len)
      exact same ▸ nodup_distinct subsets.flatten
    let sorted := subsets.mergeSort fun a b => a.length ≥ b.length
    have sortedApart : sorted.flatten.Nodup :=
      (mergeSort_perm subsets _).flatten.nodup_iff.mpr nodup
    have apart : sorted.eraseDups.flatten.Nodup := by
      rw [nodup_flatten] at sortedApart ⊢
      exact ⟨fun subset mem => sortedApart.1 subset (mem_eraseDups.mp mem),
        sortedApart.2.sublist (eraseDups_sublist sorted)⟩
    refine ⟨apart, ?_, by simp, by simp⟩
    apply (perm_ext_iff_of_nodup nodup apart).mpr
    intro u
    simp only [mem_flatten, mem_eraseDups, sorted, mem_mergeSort]

lemma calibrationCircuits_fst (c : Corrector κ) : ∃ ps, c.calibrationCircuits.1 = { c with preparations := ps } := by
  rw [calibrationCircuits]
  split
  · exact ⟨c.preparations, rfl⟩
  · dsimp only
    split
    · exact ⟨_, rfl⟩
    · exact ⟨_, rfl⟩

variable [Arithmetic κ]

lemma square_addEntry (square : Square n m) (r k : Nat) (x : κ) : Square n (addEntry m r k x) := by
  constructor
  · rw [addEntry, length_modify, square.rows]
  · intro row mem
    obtain ⟨i, below, rfl⟩ := mem_iff_getElem.mp mem
    have inside : i < m.length := by simpa [addEntry] using below
    have length := square.columns m[i] (getElem_mem inside)
    simp only [addEntry, getElem_modify]
    split
    · rw [length_modify, length]
    · exact length

def addAll (m : Dense κ) (k : Nat) (counts : Counter (List Bool)) : Dense κ :=
  counts.foldl (fun m e => addEntry m (ofBinary e.1) k (Arithmetic.ofInt e.2)) m

lemma square_addAll {m : Dense κ} (square : Square n m) (counts : Counter (List Bool)) (k : Nat) :
    Square n (addAll m k counts) := by
  induction counts generalizing m with
  | nil => exact square
  | cons e counts ih => exact ih (square_addEntry square _ _ _)

/-- The state of a subset that a circuit prepares. -/
def prepared (p : Preparation) (s : List UnitId) : Nat := ofBinary ((p.states.lookup s).getD [])

def bitsOf (p : Preparation) (s : List UnitId) : Except Error (List UnitId) :=
  s.mapM fun u => (p.bits.lookup u).elim (.error .key) .ok

def countsOf (e : Result × Preparation) (s : List UnitId) : Except Error (Counter (List Bool)) := do
  results (e.1.countTable (some (Result.typed .bit (← bitsOf e.2 s))) .ilo none)

def countsAt (e : Result × Preparation) (s : List UnitId) : Counter (List Bool) :=
  match countsOf e s with
  | .ok counts => counts
  | .error _ => []

def addRun (s : List UnitId) (m : Dense κ) (e : Result × Preparation) : Dense κ :=
  addAll m (prepared e.2 s) (countsAt e s)

/-- Every result has counts for every subset. -/
def Countable (subsets : List (List UnitId)) (runs : List (Result × Preparation)) : Prop :=
  ∀ e ∈ runs, ∀ s ∈ subsets, ∃ counts, countsOf e s = .ok counts

lemma addCounts_eq (e : Result × Preparation) (s : List UnitId) (m : Dense κ) :
    addCounts e.2 e.1 s m = (countsOf e s).map (addAll m (prepared e.2 s)) := by
  rw [countsOf]
  change (bitsOf e.2 s >>= _) = _
  cases bitsOf e.2 s with
  | error e => rfl
  | ok bits =>
    cases results (e.1.countTable (some (Result.typed .bit bits)) .ilo none) <;> rfl

lemma addResult_eq {subsets : List (List UnitId)} (g : List UnitId → Dense κ)
    (each : ∀ s ∈ subsets, ∃ counts, countsOf e s = .ok counts) :
    addResult e.2 e.1 (subsets.map fun s => (s, g s)) = (subsets.map fun s => addRun s (g s) e, none) := by
  induction subsets with
  | nil => rfl
  | cons s subsets ih =>
    obtain ⟨⟨counts, found⟩, later⟩ := forall_mem_cons.mp each
    rw [map_cons, addResult, addCounts_eq, found, ih later]
    simp [Except.map, addRun, countsAt, found]

/-- The subset at which a result was found not to be usable keeps its sum, as do those after it. -/
lemma addResult_stopped {front back : List (List UnitId)} {s : List UnitId} {problem : Error}
    (g : List UnitId → Dense κ) (each : ∀ s ∈ front, ∃ counts, countsOf e s = .ok counts)
    (refused : countsOf e s = .error problem) :
    addResult e.2 e.1 ((front ++ s :: back).map fun s => (s, g s)) =
      ((front.map fun s => addRun s (g s) e) ++ (s :: back).map g, some problem) := by
  induction front with
  | nil =>
    rw [nil_append, map_cons, addResult, addCounts_eq, refused]
    simp [Except.map]
  | cons first front ih =>
    obtain ⟨⟨counts, found⟩, later⟩ := forall_mem_cons.mp each
    rw [cons_append, map_cons, addResult, addCounts_eq, found, ih later]
    simp [Except.map, addRun, countsAt, found]

/-- The first result that cannot be used, and the first subset for which it cannot. -/
structure StopsAt (subsets : List (List UnitId)) (runs before : List (Result × Preparation))
    (e : Result × Preparation) (front back : List (List UnitId)) (s : List UnitId) (problem : Error) :
    Prop where
  reached : ∃ later, runs = before ++ e :: later
  parted : subsets = front ++ s :: back
  earlier : Countable subsets before
  usable : Countable front [e]
  refused : countsOf e s = .error problem

lemma exists_stopsAt {subsets : List (List UnitId)} {runs : List (Result × Preparation)}
    (not : ¬Countable subsets runs) :
    ∃ before e front back s problem, StopsAt subsets runs before e front back s problem := by
  have first (e : Result × Preparation) (subsets : List (List UnitId))
      (not : ¬Countable subsets [e]) : ∃ front back s problem, subsets = front ++ s :: back ∧
      Countable front [e] ∧ countsOf e s = .error problem := by
    induction subsets with
    | nil => exact absurd (by simp [Countable]) not
    | cons s subsets ih =>
      cases read : countsOf e s with
      | error problem => exact ⟨[], subsets, s, problem, rfl, by simp [Countable], read⟩
      | ok counts =>
        obtain ⟨front, back, t, problem, rfl, each, refused⟩ := ih fun each => not (by
          simpa [Countable, read] using each)
        exact ⟨s :: front, back, t, problem, rfl, by simpa [Countable, read] using each, refused⟩
  induction runs with
  | nil => exact absurd (by simp [Countable]) not
  | cons e runs ih =>
    by_cases here : Countable subsets [e]
    · have later : ¬Countable subsets runs := fun later => not (by
        exact forall_mem_cons.mpr ⟨here e mem_cons_self, later⟩)
      obtain ⟨before, f, front, back, s, problem, stop⟩ := ih later
      obtain ⟨after, rfl⟩ := stop.reached
      refine ⟨e :: before, f, front, back, s, problem, ⟨after, rfl⟩, stop.parted, ?_, stop.usable, stop.refused⟩
      exact forall_mem_cons.mpr ⟨here e mem_cons_self, stop.earlier⟩
    · obtain ⟨front, back, s, problem, same, each, refused⟩ := first e subsets here
      exact ⟨[], e, front, back, s, problem, ⟨runs, rfl⟩, same, by simp [Countable], each, refused⟩

lemma addResults_append {subsets : List (List UnitId)} {runs : List (Result × Preparation)} (g : List UnitId → Dense κ)
    (each : Countable subsets runs) (more : List (Result × Preparation)) :
    addResults subsets (runs ++ more) (subsets.map g) =
      addResults subsets more (subsets.map fun s => runs.foldl (addRun s) (g s)) := by
  induction runs generalizing g with
  | nil => rfl
  | cons e runs ih =>
    obtain ⟨here, later⟩ := forall_mem_cons.mp each
    rw [cons_append, addResults, ← map_prod_left_eq_zip, addResult_eq g here]
    exact ih _ later

lemma addResults_eq {subsets : List (List UnitId)} {runs : List (Result × Preparation)} (g : List UnitId → Dense κ)
    (each : Countable subsets runs) : addResults subsets runs (subsets.map g) =
      (subsets.map fun s => runs.foldl (addRun s) (g s), none) := by
  rw [← append_nil runs, addResults_append g each, append_nil]
  rfl

lemma addResults_stopped {runs before : List (Result × Preparation)} {subsets front back : List (List UnitId)}
    {s : List UnitId} {problem : Error} (g : List UnitId → Dense κ)
    (stop : StopsAt subsets runs before e front back s problem) :
    addResults subsets runs (subsets.map g) =
      ((front.map fun s => (before ++ [e]).foldl (addRun s) (g s)) ++
        (s :: back).map fun s => before.foldl (addRun s) (g s), some problem) := by
  obtain ⟨later, rfl⟩ := stop.reached
  have each : ∀ s ∈ front, ∃ counts, countsOf e s = .ok counts := stop.usable e mem_cons_self
  rw [addResults_append g stop.earlier, addResults, ← map_prod_left_eq_zip, stop.parted]
  simp only [addResult_stopped _ each stop.refused]
  simp

/-- The numbers of shots in which each state was read after each was prepared. -/
def totals (runs : List (Result × Preparation)) (s : List UnitId) : Dense κ :=
  runs.foldl (addRun s) (zeros (2 ^ s.length))

lemma square_zeros (n : Nat) : Square n (zeros n : Dense κ) :=
  ⟨length_replicate, fun row mem => by rw [eq_of_mem_replicate mem, length_replicate]⟩

lemma square_totals (runs : List (Result × Preparation)) (s : List UnitId) :
    Square (2 ^ s.length) (totals runs s : Dense κ) :=
  foldlRecOn runs (addRun s) (square_zeros _) fun _ square _ _ => square_addAll square _ _

/-- What was added up when calibration stopped. -/
def sumsAt (before : List (Result × Preparation)) (e : Result × Preparation)
    (front rest : List (List UnitId)) : List (Dense κ) :=
  front.map (totals (before ++ [e])) ++ rest.map (totals before)

lemma calibrate_eq {ps : List Preparation} (known : c.preparations = some ps) (some : ps ≠ [])
    (rs : List Result) :
    (∃ before e front back s problem, StopsAt c.subsets (rs.zip ps) before e front back s problem ∧
      c.calibrate rs = ({ c with
        places := Option.some c.nodePlaces
        sums := Option.some (sumsAt before e front (s :: back)) }, .error problem)) ∨
    Countable c.subsets (rs.zip ps) ∧
    let ms := c.subsets.map fun s => normalise (totals (rs.zip ps) s)
    c.calibrate rs = ({ c with
      places := Option.some c.nodePlaces
      matrices := Option.some ms
      sums := Option.some (c.subsets.map (totals (rs.zip ps))) }, .ok ms) := by
  obtain ⟨p, ps, rfl⟩ := exists_cons_of_ne_nil some
  rw [calibrate, known]
  by_cases each : Countable c.subsets (rs.zip (p :: ps))
  · refine .inr ⟨each, ?_⟩
    simp only [addResults_eq (fun s => zeros (Nat.pow 2 s.length)) each, map_map]
    rfl
  · obtain ⟨before, e, front, back, s, problem, stop⟩ := exists_stopsAt each
    refine .inl ⟨before, e, front, back, s, problem, stop, ?_⟩
    simp only [addResults_stopped (fun s => zeros (Nat.pow 2 s.length)) stop]
    rfl

lemma calibrate_fst (c : Corrector κ) (rs : List Result) : (c.calibrate rs).1 = c ∨
    ∃ ms sums, (c.calibrate rs).1 = { c with places := some c.nodePlaces, matrices := ms, sums := sums } ∧
    (ms = c.matrices ∨ ∃ runs, ms = some (c.subsets.map fun s => normalise (totals runs s))) := by
  obtain none | ⟨ps, known⟩ := Option.eq_none_or_eq_some c.preparations
  · exact .inl (by rw [calibrate, none])
  · by_cases none : ps = []
    · exact .inl (by rw [calibrate, known, none])
    · rcases calibrate_eq known none rs with ⟨_, _, _, _, _, _, _, failed⟩ | ⟨_, done⟩
      · exact .inr ⟨_, _, congrArg Prod.fst failed, .inl rfl⟩
      · exact .inr ⟨_, _, congrArg Prod.fst done, .inr ⟨_, rfl⟩⟩

end

/-- The correctors of some subsets, after any calls. -/
inductive Reached [Arithmetic κ] (subsets : List (List UnitId)) : Corrector κ → Prop where
  | made {c : Corrector κ} (made : ofSubsets subsets = .ok c) : Reached subsets c
  | prepared {c : Corrector κ} (before : Reached subsets c) : Reached subsets c.calibrationCircuits.1
  | calibrated {c : Corrector κ} (before : Reached subsets c) (rs : List Result) :
    Reached subsets (c.calibrate rs).1

lemma Reached.charted [Arithmetic κ] {c : Corrector κ} (reached : Reached subsets c) : Charted c := by
  induction reached with
  | made made => exact charted_ofSubsets made
  | @prepared c _ ih =>
    obtain ⟨ps, same⟩ := calibrationCircuits_fst c
    rw [same]
    exact ⟨ih.apart, ih.nodes, ih.places, ih.matrices⟩
  | @calibrated c _ rs ih =>
    rcases calibrate_fst c rs with same | ⟨ms, sums, same, old | ⟨runs, new⟩⟩
    · rw [same]
      exact ih
    · rw [same, old]
      exact ⟨ih.apart, ih.nodes, fun _ _ => rfl, ih.matrices⟩
    · rw [same, new]
      refine ⟨ih.apart, ih.nodes, fun _ _ => rfl, ?_⟩
      rintro _ ⟨⟩
      rw [Matched, forall₂_map_right_iff, forall₂_same]
      exact fun s _ => square_normalise (Nat.two_pow_pos _) (square_totals runs s)

variable (p : UnitId → Bool) (subset : List UnitId)

section

variable {c : Corrector κ} (start : Nat)

/-- The places of the units of subsets: the number of the subset and the place in it. -/
def placesFrom (start : Nat) (subsets : List (List UnitId)) : List (UnitId × Int × Int) :=
  (subsets.zipIdx start).flatMap fun e =>
    e.1.zipIdx.map fun f => (f.1, (e.2 : Int), (f.2 : Int))

lemma nodePlaces_eq (c : Corrector κ) : c.nodePlaces = placesFrom 0 c.subsets := rfl

lemma placesFrom_cons (subset : List UnitId) (subsets : List (List UnitId)) :
    placesFrom start (subset :: subsets) = (subset.zipIdx.map fun f => (f.1, (start : Int), (f.2 : Int))) ++
    placesFrom (start + 1) subsets := by
  rfl

lemma units_placesFrom (subsets : List (List UnitId)) : (placesFrom start subsets).map (·.1) = subsets.flatten := by
  induction subsets generalizing start with
  | nil => rfl
  | cons subset subsets ih =>
    have units : subset.zipIdx.map Prod.fst = subset := zipIdx_map_fst 0 subset
    rw [placesFrom_cons, map_append, ih, map_map, flatten_cons]
    exact congrArg (· ++ subsets.flatten) units

lemma le_of_mem_placesFrom {start : Nat} (mem : e ∈ placesFrom start subsets) :
    (start : Int) ≤ e.2.1 ∧ e.2.1 < start + subsets.length := by
  obtain ⟨f, inside, mem⟩ := mem_flatMap.mp mem
  obtain ⟨g, _, rfl⟩ := mem_map.mp mem
  have lower := le_snd_of_mem_zipIdx inside
  have upper := snd_lt_add_of_mem_zipIdx inside
  exact ⟨Int.ofNat_le.mpr lower, by simp only; omega⟩

lemma filter_placesFrom (k : Nat) (subsets : List (List UnitId)) :
    ((placesFrom start subsets).filter fun e => e.2.1 = ((start + k : Nat) : Int)) =
    (subsets.getD k []).zipIdx.map fun f => (f.1, ((start + k : Nat) : Int), (f.2 : Int)) := by
  induction subsets generalizing start k with
  | nil => simp [placesFrom]
  | cons subset subsets ih =>
    rw [placesFrom_cons, filter_append]
    cases k with
    | zero =>
      have none : ((placesFrom (start + 1) subsets).filter fun e =>
          e.2.1 = ((start + 0 : Nat) : Int)) = [] := by
        rw [filter_eq_nil_iff]
        intro e mem
        have bound := (le_of_mem_placesFrom mem).1
        simp only [decide_eq_true_eq]
        omega
      rw [none, append_nil, filter_eq_self.mpr]
      · rfl
      · intro e mem
        obtain ⟨f, _, rfl⟩ := mem_map.mp mem
        exact decide_eq_true rfl
    | succ k =>
      have other : ((subset.zipIdx.map fun f => (f.1, (start : Int), (f.2 : Int))).filter
          fun e => e.2.1 = ((start + (k + 1) : Nat) : Int)) = [] := by
        rw [filter_eq_nil_iff]
        intro e mem
        obtain ⟨f, _, rfl⟩ := mem_map.mp mem
        simp only [decide_eq_true_eq]
        omega
      have shift : start + (k + 1) = start + 1 + k := by omega
      rw [other, nil_append, shift, ih]
      rfl

lemma holes_map : holes (subset.map p) 0 = (subset.zipIdx.filter fun f => !p f.1).map fun f => (f.2 : Int) := by
  rw [holes, zipIdx_map, filter_map, map_map]
  rfl

lemma nodup_nodePlaces (charted : Charted c) : (c.nodePlaces.map (·.1)).Nodup := by
  rw [nodePlaces_eq, units_placesFrom]
  exact charted.apart

lemma exists_place (charted : Charted c) (held : c.matrices = some ms) {u : UnitId} (mem : u ∈ c.nodes) :
    ∃ place, c.nodePlaces.lookup u = some place ∧ 0 ≤ place.1 ∧ place.1 < ms.length := by
  have inside : u ∈ c.nodePlaces.map (·.1) := by
    rw [nodePlaces_eq, units_placesFrom]
    exact charted.nodes.mem_iff.mp mem
  obtain ⟨e, inPlaces, rfl⟩ := mem_map.mp inside
  have bounds := le_of_mem_placesFrom inPlaces
  have sizes := (charted.matrices ms held).length_eq
  exact ⟨e.2, lookup_of_mem (nodup_nodePlaces charted) inPlaces, by omega, by omega⟩

lemma removed_perm (charted : Charted c) (p : UnitId → Bool) (k : Nat) :
    ((((c.nodes.filter fun u => !p u).map fun u => (c.nodePlaces.lookup u).getD (0, 0)).filter
    fun e => e.1 = (k : Int)).map (·.2)).Perm (holes ((c.subsets.getD k []).map p) 0) := by
  have units : c.nodePlaces.map (·.1) = c.subsets.flatten := units_placesFrom 0 c.subsets
  have entries : ((c.subsets.flatten.filter fun u => !p u).map fun u =>
      (c.nodePlaces.lookup u).getD (0, 0)) =
      (c.nodePlaces.filter fun e => !p e.1).map (·.2) := by
    rw [← units, filter_map, map_map]
    apply map_congr_left
    intro e mem
    have found : c.nodePlaces.lookup e.1 = some e.2 :=
      lookup_of_mem (nodup_nodePlaces charted) (mem_of_mem_filter mem)
    simp [found]
  have own : ((c.nodePlaces.filter fun e => !p e.1).filter fun e => e.2.1 = (k : Int)) =
      ((c.subsets.getD k []).zipIdx.filter fun f => !p f.1).map fun f =>
        (f.1, (k : Int), (f.2 : Int)) := by
    have all := filter_placesFrom 0 k c.subsets
    rw [Nat.zero_add] at all
    rw [filter_comm, nodePlaces_eq, all, filter_map]
    rfl
  have perm := (((charted.nodes.filter fun u => !p u).map fun u =>
    (c.nodePlaces.lookup u).getD (0, 0)).filter fun e => e.1 = (k : Int)).map (·.2)
  refine perm.trans (List.Perm.of_eq ?_)
  rw [entries, filter_map]
  change (((c.nodePlaces.filter fun e => !p e.1).filter fun e => e.2.1 = (k : Int)).map (·.2)).map
    (·.2) = _
  rw [own, map_map, map_map, holes_map]
  rfl

end

section

variable [Arithmetic κ] {c : Corrector κ} {ms : List (Dense κ)} {measures : List (UnitId × UnitId)}

def isMeasured (measures : List (UnitId × UnitId)) (u : UnitId) : Bool := measures.any (·.1 = u)

def factors (p : UnitId → Bool) (subsets : List (List UnitId)) (ms : List (Dense κ)) :
    List (Dense κ) :=
  ((subsets.zip ms).filter fun e => e.1.any p).map fun e => restricted p e.1 e.2

def reduced (p : UnitId → Bool) (e : List UnitId × Dense κ) : Dense κ :=
  if (e.1.map p).count true = 0 then [] else restrict (e.1.map p) e.2

lemma count_eq_zero_iff : (subset.map p).count true = 0 ↔ subset.any p = false := by
  rw [count_map, length_eq_zero_iff, filter_eq_nil_iff, any_eq_false]

lemma isEmpty_reduced (e : List UnitId × Dense κ) : (!(reduced p e).isEmpty) = e.1.any p := by
  rw [reduced]
  split
  · rename_i unmeasured
    rw [(count_eq_zero_iff p e.1).mp unmeasured]
    rfl
  · rename_i measured
    rw [count_eq_zero_iff, Bool.not_eq_false] at measured
    have rows : restrict (e.1.map p) e.2 ≠ [] := by
      rw [← length_pos_iff, restrict, (square_table _ _).rows]
      exact Nat.two_pow_pos _
    rw [measured, isEmpty_eq_false_iff.mpr rows]
    rfl

lemma map_zipIdx_reduced (sizes : subsets.length = ms.length) :
    (ms.zipIdx.map fun e => reduced p (subsets.getD e.2 [], e.1)) = (subsets.zip ms).map (reduced p) := by
  apply ext_getElem
  · simp [sizes]
  · intro k first second
    have below : k < subsets.length := by
      have bound : k < ms.length := by simpa using first
      omega
    simp [below]

lemma filter_reduced (subsets : List (List UnitId)) (ms : List (Dense κ)) :
    ((((subsets.zip ms).map (reduced p)).filter fun m => !m.isEmpty).map normalise) = factors p subsets ms := by
  have measured : (subsets.zip ms).filter ((fun m => !m.isEmpty) ∘ reduced p) =
      (subsets.zip ms).filter fun e => e.1.any p :=
    filter_congr fun e _ => isEmpty_reduced p e
  rw [filter_map, map_map, factors, measured]
  apply map_congr_left
  intro e mem
  have anyMeasured : e.1.any p = true := (mem_filter.mp mem).2
  rw [Function.comp_apply, reduced, if_neg, restricted]
  rw [count_eq_zero_iff, anyMeasured]
  exact Bool.noConfusion

lemma reduceMatrices_eq {p : UnitId → Bool} {entries : List (Int × Int)} (matched : Matched subsets ms)
    (known : ∀ e ∈ entries, 0 ≤ e.1 ∧ e.1 < ms.length)
    (removed : ∀ k : Nat, ((entries.filter fun e => e.1 = (k : Int)).map (·.2)).Perm
    (holes ((subsets.getD k []).map p) 0)) : reduceMatrices entries ms = .ok (factors p subsets ms) := by
  have guard : (entries.any fun e => e.1 < 0 || ms.length ≤ e.1.toNat) = false := by
    rw [any_eq_false]
    intro e mem
    have bounds := known e mem
    simp only [Bool.or_eq_true, decide_eq_true_eq]
    omega
  have sizes := matched.length_eq
  have each : ms.zipIdx.mapM (fun e =>
      reduceMatrix ((entries.filter fun f => f.1 = (e.2 : Int)).map (·.2)) e.1) =
        .ok (ms.zipIdx.map fun e => reduced p (subsets.getD e.2 [], e.1)) := by
    apply mapM_ok
    intro e mem
    obtain ⟨inside, place⟩ := List.getElem?_eq_some_iff.mp (mem_zipIdx_iff_getElem?.mp mem)
    have below : e.2 < subsets.length := by omega
    have square := (List.forall₂_iff_get.mp matched).2 e.2 below inside
    have own : subsets.getD e.2 [] = subsets.get ⟨e.2, below⟩ := by simp [below]
    rw [get_eq_getElem, get_eq_getElem, place] at square
    have removedOwn := removed e.2
    rw [own] at removedOwn ⊢
    have len : (2 : Nat) ^ ((subsets.get ⟨e.2, below⟩).map p).length =
        2 ^ (subsets.get ⟨e.2, below⟩).length := by rw [length_map]
    exact reduceMatrix_eq (len ▸ square) removedOwn
  have entriesKnown : reduceMatrices entries ms = (do
      let all ← ms.zipIdx.mapM fun e =>
        reduceMatrix ((entries.filter fun f => f.1 = (e.2 : Int)).map (·.2)) e.1
      return (all.filter fun m => !m.isEmpty).map normalise) := by
    rw [reduceMatrices, guard]
    rfl
  rw [entriesKnown, each, map_zipIdx_reduced p sizes, ← filter_reduced]
  rfl

lemma part_eq (charted : Charted c) (held : c.matrices = some ms) (known : ∀ e ∈ measures, e.1 ∈ c.nodes) :
    c.part measures = .ok (measures.map (·.2), factors (isMeasured measures) c.subsets ms) := by
  have none : (measures.find? fun e => !c.nodes.contains e.1) = none := by
    rw [find?_eq_none]
    intro e mem
    simpa using known e mem
  let entries := (c.nodes.filter fun u => !isMeasured measures u).map fun u =>
    (c.nodePlaces.lookup u).getD (0, 0)
  have found : ((c.nodes.filter fun u => !isMeasured measures u).mapM fun u =>
      (c.nodePlaces.lookup u).elim (.error Error.key : Except Error (Int × Int)) .ok) =
      .ok entries := by
    apply mapM_ok
    intro u mem
    obtain ⟨place, found, _⟩ := exists_place charted held (mem_of_mem_filter mem)
    rw [found]
    rfl
  have reduced : reduceMatrices entries ms = .ok (factors (isMeasured measures) c.subsets ms) := by
    apply reduceMatrices_eq (charted.matrices ms held)
    · intro e mem
      obtain ⟨u, inside, rfl⟩ := mem_map.mp mem
      obtain ⟨place, found, bounds⟩ := exists_place charted held (mem_of_mem_filter inside)
      rw [found]
      exact bounds
    · exact removed_perm charted (isMeasured measures)
  simp only [part, none, charted.places ms held, held]
  refine bind_eq_ok.mpr ⟨entries, found, ?_⟩
  rw [reduced]
  rfl

lemma part_error (unknown : ¬∀ e ∈ measures, e.1 ∈ c.nodes) : ∃ u, c.part measures = .error (.uncharacterised u) := by
  cases first : measures.find? fun e => !c.nodes.contains e.1 with
  | none =>
    rw [find?_eq_none] at first
    exact absurd (fun e mem => by simpa using first e mem) unknown
  | some e =>
    refine ⟨e.1, ?_⟩
    simp only [part, first]
    rfl

end

end Corrector

variable {κ : Type}

lemma eq_of_map_eq {α β : Type} {f : α → β} {xs ys : List α} (apart : (xs.map f).Nodup)
    (perm : xs.Perm ys) (same : xs.map f = ys.map f) : xs = ys := by
  apply ext_getElem perm.length_eq
  intro i first second
  have value : f xs[i] = f ys[i] := by
    have both := congrArg (·[i]?) same
    simpa [first, second] using both
  exact inj_on_of_nodup_map apart (getElem_mem first)
    (perm.mem_iff.mpr (getElem_mem second)) value

namespace Corrector

section

variable {α : Type} (place : α → Nat) (value : α → κ) {items : List α}

lemma getElem?_foldl_set_of_not_mem (other : ∀ a ∈ items, place a ≠ i) (v : List κ) :
    (items.foldl (fun v a => v.set (place a) (value a)) v)[i]? = v[i]? := by
  induction items generalizing v with
  | nil => rfl
  | cons a items ih =>
    obtain ⟨own, others⟩ := forall_mem_cons.mp other
    rw [foldl_cons, ih others, getElem?_set_ne own]

lemma getElem?_foldl_set (apart : (items.map place).Nodup) (mem : a ∈ items) {v : List κ}
    (inside : place a < v.length) :
    (items.foldl (fun v a => v.set (place a) (value a)) v)[place a]? = some (value a) := by
  induction items generalizing v with
  | nil => cases mem
  | cons b items ih =>
    have parts := nodup_cons.mp apart
    rw [foldl_cons]
    rcases mem_cons.mp mem with rfl | later
    · rw [getElem?_foldl_set_of_not_mem place value, getElem?_set_self inside]
      intro b mem same
      exact parts.1 (same ▸ mem_map_of_mem mem)
    · exact ih parts.2 later (by rw [length_set]; exact inside)

lemma getElem?_distribution [Arithmetic κ] {width : Nat} {counts : Counter (List Bool)}
    (apart : (counts.map (·.1)).Nodup) (lengths : ∀ e ∈ counts, e.1.length = width)
    (mem : e ∈ counts) : (distribution width counts : κ × List κ).2[ofBinary e.1]? =
    some (Arithmetic.ofInt e.2 / (distribution width counts : κ × List κ).1) := by
  have places : (counts.map fun e => ofBinary e.1).Nodup := by
    have map : counts.map (fun e => ofBinary e.1) = (counts.map (·.1)).map ofBinary := by
      rw [map_map]
      rfl
    rw [map]
    refine List.Nodup.map_on ?_ apart
    intro first inFirst second inSecond same
    obtain ⟨f, left, rfl⟩ := mem_map.mp inFirst
    obtain ⟨g, right, rfl⟩ := mem_map.mp inSecond
    exact ofBinary_inj ((lengths f left).trans (lengths g right).symm) same
  have inside : ofBinary e.1 < (List.replicate (Nat.pow 2 width) (0 : κ)).length := by
    have below := ofBinary_lt e.1
    rw [lengths e mem] at below
    rw [length_replicate]
    exact below
  have value := getElem?_foldl_set (fun e => ofBinary e.1)
    (fun e : List Bool × Int => (Arithmetic.ofInt e.2 : κ)) places mem inside
  rw [distribution]
  simp only [getElem?_map]
  rw [value]
  rfl

end

section

variable {c : Corrector κ} {measures : List (UnitId × UnitId)}

def inOrder (c : Corrector κ) (measures : List (UnitId × UnitId)) : List UnitId :=
  c.subsets.flatten.filter (isMeasured measures)

def bitsInOrder (c : Corrector κ) (measures : List (UnitId × UnitId)) : List UnitId :=
  c.subsets.flatten.filterMap fun u => measures.lookup u

lemma isMeasured_iff : isMeasured measures u = true ↔ u ∈ measures.map (·.1) := by
  simp [isMeasured]

lemma inOrder_perm (charted : Charted c) (distinct : (measures.map (·.1)).Nodup)
    (known : ∀ e ∈ measures, e.1 ∈ c.nodes) : (measures.map (·.1)).Perm (c.inOrder measures) := by
  apply (perm_ext_iff_of_nodup distinct (charted.apart.filter _)).mpr
  intro u
  rw [mem_filter, isMeasured_iff]
  constructor
  · intro mem
    obtain ⟨e, inside, rfl⟩ := mem_map.mp mem
    exact ⟨charted.nodes.mem_iff.mp (known e inside), mem⟩
  · exact And.right

def bitOf (measures : List (UnitId × UnitId)) (u : UnitId) : UnitId := (measures.lookup u).getD u

lemma map_bitOf (distinct : (measures.map (·.1)).Nodup) :
    (measures.map (·.1)).map (bitOf measures) = measures.map (·.2) := by
  rw [map_map]
  apply map_congr_left
  intro e mem
  rw [Function.comp_apply, bitOf, lookup_of_mem distinct mem, Option.getD_some]

lemma isSome_lookup (measures : List (UnitId × UnitId)) (u : UnitId) :
    (measures.lookup u).isSome = isMeasured measures u := by
  induction measures with
  | nil => rfl
  | cons e rest ih =>
    rw [lookup_cons, isMeasured, any_cons]
    by_cases same : u = e.1
    · simp [same]
    · rw [beq_false_of_ne same, decide_eq_false (Ne.symm same), Bool.false_or]
      exact ih

lemma bitsInOrder_eq (c : Corrector κ) (measures : List (UnitId × UnitId)) :
    c.bitsInOrder measures = (c.inOrder measures).map (bitOf measures) := by
  rw [bitsInOrder, inOrder]
  induction c.subsets.flatten with
  | nil => rfl
  | cons u units ih =>
    have measured := isSome_lookup measures u
    rw [filterMap_cons, filter_cons, ← measured]
    cases found : measures.lookup u with
    | none => exact ih
    | some b =>
      have bit : bitOf measures u = b := by rw [bitOf, found, Option.getD_some]
      rw [Option.isSome_some, if_pos rfl, map_cons, bit, ← ih]

lemma bits_eq_iff (charted : Charted c) (distinct : (measures.map (·.1)).Nodup)
    (known : ∀ e ∈ measures, e.1 ∈ c.nodes) (apart : (measures.map (·.2)).Nodup) :
    measures.map (·.2) = c.bitsInOrder measures ↔ measures.map (·.1) = c.inOrder measures := by
  have perm := inOrder_perm charted distinct known
  rw [bitsInOrder_eq, ← map_bitOf distinct]
  rw [← map_bitOf distinct] at apart
  constructor
  · exact eq_of_map_eq apart perm
  · intro same
    rw [← same]

end

lemma flatMap_eq_iff {α β : Type} {f g : α → List β} {xs : List α}
    (lengths : ∀ x ∈ xs, (f x).length = (g x).length) : xs.flatMap f = xs.flatMap g ↔ ∀ x ∈ xs, f x = g x := by
  induction xs with
  | nil => simp
  | cons x xs ih =>
    obtain ⟨own, others⟩ := forall_mem_cons.mp lengths
    rw [flatMap_cons, flatMap_cons, forall_mem_cons, ← ih others]
    constructor
    · exact fun same => append_inj same own
    · rintro ⟨first, rest⟩
      rw [first, rest]

section

variable {c : Corrector κ} {ms : List (Dense κ)}

/-- A set of measurements with states that are read and states that were prepared. -/
structure Run where
  measures : List (UnitId × UnitId)
  measured : UnitId → Bool
  prepared : UnitId → Bool

lemma flatMap_measured {subsets : List (List UnitId)} (matched : Matched subsets ms) (p s : UnitId → Bool) :
    (((subsets.zip ms).filter fun e => e.1.any p).flatMap fun e => (e.1.filter p).map s) =
    (subsets.flatten.filter p).map s := by
  induction matched with
  | nil => rfl
  | @cons subset m subsets ms _ _ ih =>
    rw [zip_cons_cons, filter_cons, flatten_cons, filter_append, map_append]
    split
    · rw [flatMap_cons, ih]
    · rename_i none
      have unused : subset.filter p = [] := by
        rw [filter_eq_nil_iff]
        exact any_eq_false.mp (Bool.not_eq_true _ ▸ none)
      rw [ih, unused]
      rfl

variable [Arithmetic κ] {sets : List (List (UnitId × UnitId))}

lemma arrangement_eq (charted : Charted c) (held : c.matrices = some ms)
    (known : ∀ m ∈ sets, ∀ e ∈ m, e.1 ∈ c.nodes) : c.arrangement sets = .ok (sets.flatMap fun m => m.map (·.2),
    sets.flatMap fun m => factors (isMeasured m) c.subsets ms) := by
  rw [arrangement, mapM_ok _ _ sets fun m mem => part_eq charted held (known m mem)]
  simp only [bind, Except.bind, flatMap_map]
  rfl

lemma exists_arrangement_iff (charted : Charted c) (held : c.matrices = some ms) :
    (∃ a, c.arrangement sets = .ok a) ↔ ∀ m ∈ sets, ∀ e ∈ m, e.1 ∈ c.nodes := by
  constructor
  · rintro ⟨a, done⟩ m mem
    by_contra unknown
    obtain ⟨u, failed⟩ := part_error unknown
    obtain ⟨parts, each, _⟩ := bind_eq_ok.mp done
    obtain ⟨part, _, succeeded⟩ := exists_of_mapM_eq_ok each m mem
    rw [failed] at succeeded
    cases succeeded
  · intro known
    exact ⟨_, arrangement_eq charted held known⟩

def shares (c : Corrector κ) (ms : List (Dense κ)) (run : Run) : List κ :=
  ((c.subsets.zip ms).filter fun e => e.1.any (isMeasured run.measures)).map fun e =>
    share (isMeasured run.measures) e.1 e.2 run.measured run.prepared

lemma entry_kronAll_factors (matched : Matched c.subsets ms) (runs : List Run) :
    entry (kronAll (runs.flatMap fun run => factors (isMeasured run.measures) c.subsets ms))
    (ofBinary (runs.flatMap fun run => (c.inOrder run.measures).map run.measured))
    (ofBinary (runs.flatMap fun run => (c.inOrder run.measures).map run.prepared)) =
    (runs.flatMap (c.shares ms)).foldr (· * ·) 1 := by
  let factor (run : Run) (e : List UnitId × Dense κ) : Factor κ :=
    { matrix := restricted (isMeasured run.measures) e.1 e.2
      row := (e.1.filter (isMeasured run.measures)).map run.measured
      column := (e.1.filter (isMeasured run.measures)).map run.prepared
      square := by
        rw [length_map]
        exact square_restricted
      columns := by rw [length_map, length_map] }
  let all := runs.flatMap fun run =>
    ((c.subsets.zip ms).filter fun e => e.1.any (isMeasured run.measures)).map (factor run)
  have matrices : all.map Factor.matrix = runs.flatMap fun run => factors (isMeasured run.measures) c.subsets ms := by
    simp only [all, map_flatMap, map_map]
    rfl
  have rows : all.flatMap Factor.row = runs.flatMap fun run => (c.inOrder run.measures).map run.measured := by
    simp only [all, flatMap_assoc, flatMap_map]
    apply flatMap_congr
    intro run _
    exact flatMap_measured matched _ _
  have columns : all.flatMap Factor.column = runs.flatMap fun run => (c.inOrder run.measures).map run.prepared := by
    simp only [all, flatMap_assoc, flatMap_map]
    apply flatMap_congr
    intro run _
    exact flatMap_measured matched _ _
  have entries : (all.map fun f => entry f.matrix (ofBinary f.row) (ofBinary f.column)) =
      runs.flatMap (c.shares ms) := by
    simp only [all, map_flatMap, map_map]
    apply flatMap_congr
    intro run _
    apply map_congr_left
    intro e mem
    apply entry_restricted
    obtain ⟨u, inside, measured⟩ := any_eq_true.mp (mem_filter.mp mem).2
    exact ne_nil_of_mem (mem_filter.mpr ⟨inside, measured⟩)
  rw [← matrices, ← rows, ← columns, ← entries]
  exact (entry_kronAll all).2.2

end

/-- Corrections take the bits in the order of each set of measurements, and matrices whose digits
belong to the measured units in the order of the subsets. Both orders agree exactly if each set lists
its units in the order of the subsets, which nothing checks. -/
theorem bits_follow_matrices_iff [Arithmetic κ] {subsets : List (List UnitId)} {c : Corrector κ}
    (reached : Reached subsets c) {ms : List (Dense κ)} (held : c.matrices = some ms)
    {sets : List (List (UnitId × UnitId))} (distinct : ∀ m ∈ sets, (m.map (·.1)).Nodup) :
    ((∃ a, c.arrangement sets = .ok a) ↔ ∀ m ∈ sets, ∀ e ∈ m, e.1 ∈ c.nodes) ∧
    ∀ bits matrices, c.arrangement sets = .ok (bits, matrices) →
      (∀ r method, c.correct r sets method = mend r method bits matrices) ∧
      (bits = sets.flatMap fun m => m.map (·.2)) ∧
      (∀ counts : Counter (List Bool), (counts.map (·.1)).Nodup →
        (∀ e ∈ counts, e.1.length = bits.length) → ∀ e ∈ counts,
        (distribution bits.length counts : κ × List κ).2[ofBinary e.1]? =
          some (Arithmetic.ofInt e.2 / (distribution bits.length counts : κ × List κ).1)) ∧
      (∀ runs : List Run, runs.map Run.measures = sets →
        entry (kronAll matrices)
          (ofBinary (runs.flatMap fun run => (c.inOrder run.measures).map run.measured))
          (ofBinary (runs.flatMap fun run => (c.inOrder run.measures).map run.prepared)) =
          (runs.flatMap (c.shares ms)).foldr (· * ·) 1) ∧
      ((sets.flatMap fun m => m.map (·.1)) = sets.flatMap c.inOrder ↔
        ∀ m ∈ sets, m.map (·.1) = c.inOrder m) ∧
      ((∀ m ∈ sets, (m.map (·.2)).Nodup) →
        (bits = sets.flatMap c.bitsInOrder ↔ ∀ m ∈ sets, m.map (·.1) = c.inOrder m)) := by
  have charted := reached.charted
  have matched := charted.matrices ms held
  refine ⟨exists_arrangement_iff charted held, ?_⟩
  intro bits matrices done
  have known := (exists_arrangement_iff charted held).mp ⟨_, done⟩
  have taken := Except.ok.inj (done.symm.trans (arrangement_eq charted held known))
  obtain ⟨rfl, rfl⟩ := Prod.mk.inj taken
  have perms : ∀ m ∈ sets, (m.map (·.1)).Perm (c.inOrder m) := fun m member =>
    inOrder_perm charted (distinct m member) (known m member)
  refine ⟨?_, rfl, ?_, ?_, ?_, ?_⟩
  · intro r method
    rw [correct, done]
    rfl
  · intro counts apart lengths e member
    exact getElem?_distribution apart lengths member
  · rintro runs rfl
    rw [List.flatMap_map]
    exact entry_kronAll_factors matched runs
  · exact flatMap_eq_iff fun m member => (perms m member).length_eq
  · intro apart
    rw [flatMap_eq_iff]
    · constructor
      · intro same m member
        exact (bits_eq_iff charted (distinct m member) (known m member) (apart m member)).mp
          (same m member)
      · intro same m member
        exact (bits_eq_iff charted (distinct m member) (known m member) (apart m member)).mpr
          (same m member)
    · intro m member
      have length := (perms m member).length_eq
      rw [bitsInOrder_eq, List.length_map, List.length_map, ← length, List.length_map]

def crossed : Corrector Rat where
  correlations := [[.node 1], [.node 0]]
  subsets := [[.node 1], [.node 0]]
  preparations := some ([false, true].map fun b =>
    ⟨[([.node 1], [b]), ([.node 0], [b])], [(.node 0, .bit 1), (.node 1, .bit 0)]⟩)
  places := some [(.node 1, 0, 0), (.node 0, 1, 0)]
  matrices := some [[[0, 1], [1, 0]], [[1, 0], [0, 1]]]
  sums := some [[[0, 10], [10, 0]], [[10, 0], [0, 10]]]

def crossedReadings : List Result := [[true, false], [false, true]].map fun row =>
  { counts := some [(Outcomes.ofTable 2 [row], 10)]
    bits := [(.bit 0, 0), (.bit 1, 1)]
    qubits := [] }

lemma reached_crossed : Reached [[.node 1], [.node 0]] crossed := by
  let new : Corrector Rat := ⟨[[.node 1], [.node 0]], [[.node 1], [.node 0]], none, none, none, none⟩
  have made : ofSubsets [[.node 1], [.node 0]] = .ok new := by cbv
  have calibrated : (new.calibrationCircuits.1.calibrate crossedReadings).1 = crossed := by cbv
  exact calibrated ▸ ((Reached.made made).prepared).calibrated crossedReadings

/-- Measurements of both nodes in ascending order, which is not that of the subsets: the digit of
each bit meets the matrix of the other node. -/
theorem bits_follow_matrices_iff_crossed : Reached [[.node 1], [.node 0]] crossed ∧
    ∃ matrices, crossed.arrangement [[(.node 0, .bit 0), (.node 1, .bit 1)]] =
      .ok ([.bit 0, .bit 1], matrices) ∧
    [[(.node 0, .bit 0), (.node 1, .bit 1)]].flatMap crossed.bitsInOrder = [.bit 1, .bit 0] := by
  have order := @bits_follow_matrices_iff Rat _ _ crossed reached_crossed _ rfl
    [[(.node 0, .bit 0), (.node 1, .bit 1)]] (by decide)
  obtain ⟨⟨bits, matrices⟩, done⟩ := order.1.mpr (by decide)
  obtain ⟨_, rfl, _⟩ := order.2 bits matrices done
  exact ⟨reached_crossed, matrices, done, by decide⟩

end Corrector

end CircuitWorks.Spam

namespace CircuitWorks.Spam.Corrector

open List Counter

section

variable {n i j : Nat} {m : Dense Rat}

/-- The number of shots in which a state of a subset was read after another was prepared. -/
def shots (runs : List (Result × Preparation)) (s : List UnitId) (read before : Nat) : Int :=
  weight (fun row => ofBinary row = read)
    ((runs.filter fun e => prepared e.2 s = before).flatMap (countsAt · s))

variable (row : i < n) (column : j < n) (k : Nat)

include row column

end

end CircuitWorks.Spam.Corrector
