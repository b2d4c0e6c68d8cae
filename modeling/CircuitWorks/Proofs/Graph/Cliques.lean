import CircuitWorks.Graph.Basic
import CircuitWorks.Proofs.Lists
import Mathlib

/-!
Connected components, the calls that change a graph, and its number of edges. A loop is in one row and any
other edge in two, so half of what the rows hold besides loops counts an edge once.

The search for large cliques, which grow only by vertices above their last one, so each is made once, and
the order of the vertices around a clique.
-/

namespace CircuitWorks

open List

variable {g : Graph} {u v : Nat} (vs : List Nat) (entries : List (Nat × List Nat))

lemma insertAscending_pairwise (v : Nat) (us : List Nat) (ordered : us.Pairwise (· < ·)) :
    (insertAscending v us).Pairwise (· < ·) := by
  induction us with
  | nil => simp [insertAscending]
  | cons w us ih =>
    obtain ⟨above, rest⟩ := pairwise_cons.mp ordered
    simp only [insertAscending]
    split
    · rename_i below
      refine pairwise_cons.mpr ⟨?_, ordered⟩
      intro u mem
      rcases mem_cons.mp mem with rfl | mem
      · exact below
      · exact Nat.lt_trans below (above u mem)
    · split
      · exact ordered
      · refine pairwise_cons.mpr ⟨?_, ih rest⟩
        intro u mem
        rcases (mem_insertAscending u v us).mp mem with rfl | mem
        · omega
        · exact above u mem

private lemma foldl_insertAscending (start : List Nat) (ordered : start.Pairwise (· < ·)) :
    (vs.foldl (fun us v => insertAscending v us) start).Pairwise (· < ·) ∧
    ∀ u, u ∈ vs.foldl (fun us v => insertAscending v us) start ↔ u ∈ vs ∨ u ∈ start := by
  induction vs generalizing start with
  | nil => simpa using ordered
  | cons v vs ih =>
    obtain ⟨sorted, members⟩ := ih _ (insertAscending_pairwise v start ordered)
    refine ⟨sorted, fun u => ?_⟩
    rw [foldl_cons, members, mem_insertAscending, mem_cons]
    tauto

lemma ascending_pairwise : (ascending vs).Pairwise (· < ·) :=
  (foldl_insertAscending vs [] List.Pairwise.nil).1

@[simp] lemma mem_ascending (u : Nat) (vs : List Nat) : u ∈ ascending vs ↔ u ∈ vs := by
  simpa [ascending] using (foldl_insertAscending vs [] List.Pairwise.nil).2 u

lemma ascending_nodup : (ascending vs).Nodup :=
  (ascending_pairwise vs).imp Nat.ne_of_lt

namespace Graph

/-- Each neighbour is a vertex that has the vertex as its own neighbour. -/
structure Undirected (g : Graph) : Prop where
  inside : ∀ u v, v ∈ g.row u → v < g.size
  mutual_row : ∀ u v, v ∈ g.row u → u ∈ g.row v

def Adjacent (g : Graph) (u v : Nat) : Prop := u ≠ v ∧ v ∈ g.row u

def Reaches (g : Graph) : Nat → Nat → Prop := Relation.ReflTransGen fun u v => v ∈ g.row u

def Closed (g : Graph) (vs : List Nat) : Prop := ∀ u ∈ vs, ∀ v ∈ g.row u, v ∈ vs

lemma neighbours_eq (g : Graph) (v : Nat) (inside : v < g.size) : g.neighbours v = .ok (g.row v) := by
  rw [neighbours, if_pos inside]

lemma hasEdge_eq (g : Graph) (i j : Nat) (first : i < g.size) (second : j < g.size) :
    g.hasEdge i j = .ok ((g.row i).contains j) := by
  rw [hasEdge, if_pos ⟨first, second⟩]

lemma Adjacent.symm (und : g.Undirected) (edge : g.Adjacent u v) : g.Adjacent v u :=
  ⟨edge.1.symm, und.mutual_row u v edge.2⟩

lemma Reaches.symm (und : g.Undirected) (path : g.Reaches u v) : g.Reaches v u := by
  induction path with
  | refl => exact .refl
  | tail _ edge ih => exact .head (und.mutual_row _ _ edge) ih

lemma Closed.reaches {vs : List Nat} (closed : g.Closed vs) (path : g.Reaches u v) (mem : u ∈ vs) : v ∈ vs := by
  induction path with
  | refl => exact mem
  | tail _ edge ih => exact closed _ ih _ edge

lemma Reaches.lt_size (und : g.Undirected) (path : g.Reaches u v) (inside : u < g.size) : v < g.size := by
  induction path with
  | refl => exact inside
  | tail _ edge _ => exact und.inside _ _ edge

@[simp] lemma size_ofSize (n : Nat) : (ofSize n).size = n := by
  simp [ofSize, size]

@[simp] lemma row_ofSize (n v : Nat) : (ofSize n).row v = [] := by
  simp only [ofSize, row, getD_eq_getElem?_getD, getElem?_replicate]
  split <;> rfl

lemma ofSize_undirected (n : Nat) : (ofSize n).Undirected :=
  ⟨fun u v mem => by simp at mem, fun u v mem => by simp at mem⟩

@[simp] lemma size_join (g : Graph) (i j : Nat) : (g.join i j).size = g.size := by
  simp [join, size]

private lemma mem_getD_modify (rows : List (List Nat)) (i j u v : Nat) :
    v ∈ (rows.modify i (insertAscending j)).getD u [] ↔ v ∈ rows.getD u [] ∨ (u = i ∧ v = j ∧ i < rows.length) := by
  simp only [getD_eq_getElem?_getD, getElem?_modify]
  rcases Nat.lt_or_ge u rows.length with inside | outside
  · rw [getElem?_eq_getElem inside]
    by_cases place : i = u
    · subst place
      simp [mem_insertAscending, inside, or_comm]
    · simp [place, Ne.symm place]
  · rw [getElem?_eq_none outside]
    have absent : ¬ (u = i ∧ v = j ∧ i < rows.length) := by omega
    simp [absent]

lemma mem_row_join (g : Graph) (i j u v : Nat) (first : i < g.size) (second : j < g.size) :
    v ∈ (g.join i j).row u ↔ v ∈ g.row u ∨ (u = i ∧ v = j) ∨ (u = j ∧ v = i) := by
  unfold row join
  rw [mem_getD_modify, mem_getD_modify, length_modify]
  tauto

lemma join_undirected (g : Graph) (i j : Nat) (und : g.Undirected) (first : i < g.size)
    (second : j < g.size) : (g.join i j).Undirected := by
  constructor
  · intro u v mem
    rw [size_join]
    rcases (mem_row_join g i j u v first second).mp mem with old | ⟨_, rfl⟩ | ⟨_, rfl⟩
    · exact und.inside u v old
    · exact second
    · exact first
  · intro u v mem
    rw [mem_row_join g i j _ _ first second] at mem ⊢
    rcases mem with old | ⟨rfl, rfl⟩ | ⟨rfl, rfl⟩
    · exact .inl (und.mutual_row u v old)
    · exact .inr (.inr ⟨rfl, rfl⟩)
    · exact .inr (.inl ⟨rfl, rfl⟩)

private lemma foldl_size_le_iff (least bound : Nat) :
    entries.foldl (fun n e => e.2.foldl (fun n j => max n (j + 1)) (max n (e.1 + 1))) least ≤ bound ↔
    least ≤ bound ∧ ∀ e ∈ entries, e.1 < bound ∧ ∀ j ∈ e.2, j < bound := by
  have inner : ∀ (js : List Nat) (n : Nat),
      js.foldl (fun n j => max n (j + 1)) n ≤ bound ↔ n ≤ bound ∧ ∀ j ∈ js, j < bound := by
    intro js
    induction js with
    | nil => simp
    | cons j js ih =>
      intro n
      rw [foldl_cons, ih, forall_mem_cons, Nat.max_le, Nat.succ_le_iff, and_assoc]
  induction entries generalizing least with
  | nil => simp
  | cons e entries ih =>
    simp only [foldl_cons, ih, inner, forall_mem_cons, Nat.max_le, Nat.succ_le_iff]
    tauto

/-- The rows a graph is made from are joined one by one, so what joining keeps holds of the graph. -/
lemma ofEntries_induction {P : Graph → Prop} (start : ∀ n, P (ofSize n))
    (step : ∀ g i j, P g → i < g.size → j < g.size → P (g.join i j)) (least : Nat) : P (ofEntries entries least) := by
  have bounds := ((foldl_size_le_iff entries least _).mp (Nat.le_refl _)).2
  have inner : ∀ (v : Nat) (js : List Nat) (g : Graph), P g → v < g.size → (∀ j ∈ js, j < g.size) →
      P (js.foldl (fun g j => g.join v j) g) ∧ (js.foldl (fun g j => g.join v j) g).size = g.size := by
    intro v js
    induction js with
    | nil => exact fun g holds _ _ => ⟨holds, rfl⟩
    | cons j js ih =>
      intro g holds first others
      obtain ⟨second, others⟩ := forall_mem_cons.mp others
      simpa using ih (g.join v j) (step g v j holds first second) (by simpa using first) (by simpa using others)
  have run : ∀ (rest : List (Nat × List Nat)) (g : Graph), P g → (∀ e ∈ rest, e.1 < g.size ∧ ∀ j ∈ e.2, j < g.size) →
      P (rest.foldl (fun g e => e.2.foldl (fun g j => g.join e.1 j) g) g) := by
    intro rest
    induction rest with
    | nil => exact fun g holds _ => holds
    | cons e rest ih =>
      intro g holds inside
      obtain ⟨here, later⟩ := forall_mem_cons.mp inside
      obtain ⟨grown, size⟩ := inner e.1 e.2 g holds here.1 here.2
      exact ih _ grown (by simpa [size] using later)
  exact run entries _ (start _) (by simpa using bounds)

lemma ofEntries_undirected (least : Nat) : (ofEntries entries least).Undirected :=
  ofEntries_induction entries ofSize_undirected join_undirected least

/-- A graph as its functions keep it: besides the edges going both ways, no row lists a neighbour twice. -/
structure Valid (g : Graph) : Prop extends g.Undirected where
  ascending_row : ∀ v, (g.row v).Pairwise (· < ·)

lemma ofSize_valid (n : Nat) : (ofSize n).Valid := ⟨ofSize_undirected n, by simp⟩

lemma join_valid (g : Graph) (i j : Nat) (valid : g.Valid) (first : i < g.size) (second : j < g.size) :
    (g.join i j).Valid := by
  have modified (rows : List (List Nat)) (i j : Nat) (ordered : ∀ v, (rows.getD v []).Pairwise (· < ·)) (v : Nat) :
      ((rows.modify i (insertAscending j)).getD v []).Pairwise (· < ·) := by
    have old := ordered v
    simp only [getD_eq_getElem?_getD, getElem?_modify] at old ⊢
    cases entry : rows[v]? with
    | none => simp
    | some us =>
      rw [entry] at old
      by_cases place : i = v
      · simpa [place] using insertAscending_pairwise j us old
      · simpa [place] using old
  exact ⟨join_undirected g i j valid.toUndirected first second, modified _ j i (modified _ i j valid.ascending_row)⟩

variable {seen : List Nat}

lemma length_le_of_lt {vs : List Nat} (distinct : vs.Nodup) (inside : ∀ v ∈ vs, v < n) : vs.length ≤ n := by
  have sub : vs.Subperm (range n) :=
    distinct.subperm fun v mem => mem_range.mpr (inside v mem)
  simpa using sub.length_le

/-- Between two turns of the search from `v`. What was seen is reached from `v`, and each neighbour of a
vertex that was seen and does not wait was seen too. -/
structure Explored (g : Graph) (v : Nat) (waiting seen : List Nat) : Prop where
  start : v ∈ seen
  sorted : seen.Pairwise (· < ·)
  reached : ∀ u ∈ seen, g.Reaches v u
  noted : waiting ⊆ seen
  examined : ∀ u ∈ seen, u ∉ waiting → g.row u ⊆ seen

/-- Noting vertices keeps those noted before, and each is seen afterwards. -/
lemma foldl_see (us waiting seen : List Nat) (sorted : seen.Pairwise (· < ·)) :
    (us.foldl see (waiting, seen)).2.Pairwise (· < ·) ∧
    (∀ w, w ∈ (us.foldl see (waiting, seen)).2 ↔ w ∈ seen ∨ w ∈ us) ∧
    ∀ w, w ∈ (us.foldl see (waiting, seen)).1 ↔ w ∈ waiting ∨ w ∈ us ∧ w ∉ seen := by
  induction us generalizing waiting seen with
  | nil => simp [sorted]
  | cons u us ih =>
    rw [foldl_cons, see]
    split
    · rename_i old
      have old : u ∈ seen := by simpa using old
      obtain ⟨ordered, seenAfter, waitingAfter⟩ := ih waiting seen sorted
      refine ⟨ordered, fun w => ?_, fun w => ?_⟩
      · rw [seenAfter, mem_cons]
        constructor
        · rintro (before | new)
          exacts [.inl before, .inr (.inr new)]
        · rintro (before | rfl | new)
          exacts [.inl before, .inl old, .inr new]
      · rw [waitingAfter, mem_cons]
        constructor
        · rintro (before | ⟨new, fresh⟩)
          exacts [.inl before, .inr ⟨.inr new, fresh⟩]
        · rintro (before | ⟨rfl | new, fresh⟩)
          exacts [.inl before, absurd old fresh, .inr ⟨new, fresh⟩]
    · rename_i fresh
      have fresh : u ∉ seen := by simpa using fresh
      obtain ⟨ordered, seenAfter, waitingAfter⟩ :=
        ih (u :: waiting) (insertAscending u seen) (insertAscending_pairwise u seen sorted)
      refine ⟨ordered, fun w => ?_, fun w => ?_⟩
      · rw [seenAfter, mem_insertAscending, mem_cons]
        tauto
      · rw [waitingAfter, mem_insertAscending, mem_cons, mem_cons]
        by_cases same : w = u
        · simp [same, fresh]
        · simp [same]

lemma Explored.turn {u : Nat} {waiting : List Nat} (state : g.Explored v (u :: waiting) seen) :
    g.Explored v ((g.row u).foldl see (waiting, seen)).1 ((g.row u).foldl see (waiting, seen)).2 := by
  obtain ⟨sorted, seenAfter, waitingAfter⟩ := foldl_see (g.row u) waiting seen state.sorted
  have here : u ∈ seen := state.noted mem_cons_self
  refine ⟨(seenAfter v).mpr (.inl state.start), sorted, fun w mem => ?_, fun w mem => ?_, ?_⟩
  · rcases (seenAfter w).mp mem with old | new
    · exact state.reached w old
    · exact (state.reached u here).tail new
  · rcases (waitingAfter w).mp mem with old | ⟨new, -⟩
    · exact (seenAfter w).mpr (.inl (state.noted (mem_cons_of_mem _ old)))
    · exact (seenAfter w).mpr (.inr new)
  · intro w mem settled x edge
    rw [waitingAfter, not_or] at settled
    rw [seenAfter]
    by_cases same : w = u
    · exact .inr (same ▸ edge)
    · have old : w ∈ seen := ((seenAfter w).mp mem).elim id fun new =>
        by_contra fun fresh => settled.2 ⟨new, fresh⟩
      exact .inl (state.examined w old (by simp [same, settled.1]) edge)

lemma Explored.explore {waiting : List Nat} (state : g.Explored v waiting seen) :
    g.Explored v [] (g.explore waiting seen) := by
  fun_induction Graph.explore g waiting seen with
  | case1 seen => exact state
  | case2 seen u waiting found ih => exact ih state.turn

lemma explored_component (g : Graph) (v : Nat) : g.Explored v [] (g.component v) := by
  refine Explored.explore ⟨mem_cons_self, pairwise_singleton _ _, fun u mem => ?_, fun _ => id, ?_⟩
  · obtain rfl := mem_singleton.mp mem
    exact .refl
  · exact fun u mem out => absurd mem out

lemma component_closed (g : Graph) (v : Nat) : g.Closed (g.component v) :=
  fun u mem _ edge => (explored_component g v).examined u mem not_mem_nil edge

lemma mem_component (g : Graph) (u v : Nat) : u ∈ g.component v ↔ g.Reaches v u :=
  ⟨(explored_component g v).reached u,
    fun path => (component_closed g v).reaches path (explored_component g v).start⟩

structure Component (g : Graph) (vs : List Nat) : Prop where
  nonempty : vs ≠ []
  distinct : vs.Nodup
  inside : ∀ v ∈ vs, v < g.size
  closed : g.Closed vs
  joined : ∀ u ∈ vs, ∀ v ∈ vs, g.Reaches u v

lemma component_component (und : g.Undirected) (v : Nat) (inside : v < g.size) : g.Component (g.component v) where
  nonempty := ne_nil_of_mem (explored_component g v).start
  distinct := (explored_component g v).sorted.imp Nat.ne_of_lt
  inside := fun u mem => ((mem_component g u v).mp mem).lt_size und inside
  closed := component_closed g v
  joined := by
    intro u first w second
    rw [mem_component] at first second
    exact Relation.ReflTransGen.trans (first.symm und) second

/-- What has been seen is always a union of components that holds every vertex not still to visit.
So a new component has nothing in common with it and starts at its smallest vertex. -/
lemma componentsOf_spec (und : g.Undirected) (seen vs : List Nat) (closed : g.Closed seen)
    (inside : ∀ v ∈ vs, v < g.size) (ordered : vs.Pairwise (· < ·)) (rest : ∀ u < g.size, u ∉ seen → u ∈ vs) :
    (∀ c ∈ g.componentsOf seen vs, g.Component c ∧ ∀ v ∈ c, v ∉ seen) ∧
    (g.componentsOf seen vs).Pairwise List.Disjoint ∧ (∀ v ∈ vs, v ∈ seen ∨ ∃ c ∈ g.componentsOf seen vs, v ∈ c) ∧
    (g.componentsOf seen vs).Pairwise fun c d => ∃ u ∈ c, (∀ w ∈ c, u ≤ w) ∧ ∀ w ∈ d, u < w := by
  induction vs generalizing seen with
  | nil => simp [componentsOf]
  | cons v vs ih =>
    obtain ⟨here, later⟩ := forall_mem_cons.mp inside
    obtain ⟨above, ordered⟩ := pairwise_cons.mp ordered
    simp only [componentsOf, contains_eq_mem, decide_eq_true_eq]
    split
    · rename_i old
      have left (u : Nat) (below : u < g.size) (new : u ∉ seen) : u ∈ vs :=
        (mem_cons.mp (rest u below new)).resolve_left fun same => new (same ▸ old)
      obtain ⟨parts, apart, cover, starts⟩ := ih seen closed later ordered left
      refine ⟨parts, apart, fun u mem => ?_, starts⟩
      rcases mem_cons.mp mem with rfl | mem
      · exact .inl old
      · exact cover u mem
    · rename_i fresh
      have whole := component_component und v here
      have union : g.Closed (seen ++ g.component v) := by
        intro u mem w edge
        rcases mem_append.mp mem with old | new
        · exact mem_append_left _ (closed u old w edge)
        · exact mem_append_right _ (whole.closed u new w edge)
      have new (u : Nat) (mem : u ∈ g.component v) : u ∉ seen := fun old =>
        fresh (closed.reaches (((mem_component g u v).mp mem).symm und) old)
      have left (u : Nat) (below : u < g.size) (out : u ∉ seen ++ g.component v) : u ∈ vs := by
        rw [mem_append, not_or] at out
        exact (mem_cons.mp (rest u below out.1)).resolve_left fun same => out.2 (same ▸ (explored_component g v).start)
      obtain ⟨parts, apart, cover, starts⟩ := ih _ union later ordered left
      refine ⟨?_, pairwise_cons.mpr ⟨?_, apart⟩, ?_, pairwise_cons.mpr ⟨?_, starts⟩⟩
      · intro c mem
        rcases mem_cons.mp mem with rfl | mem
        · exact ⟨whole, new⟩
        · exact ⟨(parts c mem).1, fun u own old => (parts c mem).2 u own (mem_append_left _ old)⟩
      · intro c mem u first second
        exact (parts c mem).2 u second (mem_append_right _ first)
      · intro u mem
        rcases mem_cons.mp mem with rfl | mem
        · exact .inr ⟨_, mem_cons_self, (explored_component g u).start⟩
        · rcases cover u mem with old | ⟨c, part, new⟩
          · rcases mem_append.mp old with old | new
            · exact .inl old
            · exact .inr ⟨_, mem_cons_self, new⟩
          · exact .inr ⟨c, mem_cons_of_mem _ part, new⟩
      · intro d mem
        refine ⟨v, (explored_component g v).start, fun w own => ?_, fun w own => ?_⟩
        · rcases mem_cons.mp (rest w (whole.inside w own) (new w own)) with rfl | more
          · exact Nat.le_refl w
          · exact Nat.le_of_lt (above w more)
        · exact above w (left w ((parts d mem).1.inside w own) ((parts d mem).2 w own))

lemma components_spec (und : g.Undirected) :
    (∀ c ∈ g.components, g.Component c) ∧ g.components.Pairwise List.Disjoint ∧
    (∀ v < g.size, ∃ c ∈ g.components, v ∈ c) ∧
    g.components.Pairwise fun c d => ∃ u ∈ c, (∀ w ∈ c, u ≤ w) ∧ ∀ w ∈ d, u < w := by
  obtain ⟨parts, apart, cover, starts⟩ := componentsOf_spec und [] (range g.size) (by simp [Closed]) (by simp)
    pairwise_lt_range (by simp)
  exact ⟨fun c mem => (parts c mem).1, apart, by simpa [components] using cover, starts⟩

/-- The components are the classes of vertices that reach each other, in the order of their smallest vertices. -/
theorem components_partition (g : Graph) (und : g.Undirected) :
    (∀ c ∈ g.components, c ≠ []) ∧ g.components.Pairwise List.Disjoint ∧ g.components.flatten.Perm (List.range g.size) ∧
      (∀ u < g.size, ∀ v, (∃ c ∈ g.components, u ∈ c ∧ v ∈ c) ↔ g.Reaches u v) ∧
      g.components.Pairwise fun c d => ∃ u ∈ c, (∀ w ∈ c, u ≤ w) ∧ ∀ w ∈ d, u < w := by
  obtain ⟨parts, apart, cover, starts⟩ := components_spec und
  refine ⟨fun c mem => (parts c mem).nonempty, apart, ?_, fun u here v => ⟨?_, fun path => ?_⟩, starts⟩
  · have once : g.components.flatten.Nodup := nodup_flatten.mpr ⟨fun c mem => (parts c mem).distinct, apart⟩
    refine (perm_ext_iff_of_nodup once nodup_range).mpr fun v => ?_
    rw [mem_flatten, mem_range]
    exact ⟨fun ⟨c, mem, own⟩ => (parts c mem).inside v own, cover v⟩
  · rintro ⟨c, mem, first, second⟩
    exact (parts c mem).joined u first v second
  · obtain ⟨c, mem, own⟩ := cover u here
    exact ⟨c, mem, own, (parts c mem).closed.reaches path own⟩

theorem components_partition_three : (ofEntries [(0, [3]), (1, [2])] 5).Undirected ∧
    (ofEntries [(0, [3]), (1, [2])] 5).components = [[0, 3], [1, 2], [4]] ∧
    (ofEntries [(0, [3]), (1, [2])] 5).components.flatten.Perm (List.range 5) :=
  ⟨ofEntries_undirected _ _, by decide +kernel, (components_partition _ (ofEntries_undirected _ _)).2.2.1⟩

end Graph

end CircuitWorks

namespace CircuitWorks.Graph

open List

variable {g : Graph}

/-- The pairs of vertices with an edge from the first to the second that are related. -/
def edgesWhere (g : Graph) (r : Nat → Nat → Prop) [DecidableRel r] : Finset (Nat × Nat) :=
  {e ∈ Finset.range g.size ×ˢ Finset.range g.size | e.2 ∈ g.row e.1 ∧ r e.1 e.2}

/-- The edges, from the smaller vertex to the larger. -/
def edges (g : Graph) : Finset (Nat × Nat) := g.edgesWhere (· ≤ ·)

lemma mem_edgesWhere (und : g.Undirected) [DecidableRel r] :
    (u, v) ∈ g.edgesWhere r ↔ v ∈ g.row u ∧ r u v := by
  simp only [edgesWhere, Finset.mem_filter, Finset.mem_product, Finset.mem_range, and_iff_right_iff_imp]
  rintro ⟨edge, -⟩
  exact ⟨und.inside v u (und.mutual_row u v edge), und.inside u v edge⟩

lemma card_edgesWhere_swap (und : g.Undirected) : (g.edgesWhere (· > ·)).card = (g.edgesWhere (· < ·)).card := by
  refine Finset.card_nbij' Prod.swap Prod.swap ?_ ?_ (fun _ _ => rfl) (fun _ _ => rfl)
  all_goals
    rintro ⟨u, v⟩ mem
    obtain ⟨edge, order⟩ := (mem_edgesWhere und).mp mem
    exact (mem_edgesWhere und).mpr ⟨und.mutual_row u v edge, order⟩

lemma card_edgesWhere_or (r s : Nat → Nat → Prop) [DecidableRel r] [DecidableRel s] (apart : ∀ u v, r u v → ¬ s u v) :
    (g.edgesWhere fun u v => r u v ∨ s u v).card = (g.edgesWhere r).card + (g.edgesWhere s).card := by
  rw [← Finset.card_union_of_disjoint]
  · congr 1
    ext e
    simp only [edgesWhere, Finset.mem_filter, Finset.mem_union]
    tauto
  · refine Finset.disjoint_left.mpr fun e first second => ?_
    exact apart _ _ (Finset.mem_filter.mp first).2.2 (Finset.mem_filter.mp second).2.2

lemma card_edgesWhere (r : Nat → Nat → Prop) [DecidableRel r] : (g.edgesWhere r).card =
    ((range g.size).map fun u => ((Finset.range g.size).filter fun v => v ∈ g.row u ∧ r u v).card).sum := by
  simp only [edgesWhere, Finset.card_filter, Finset.sum_product]
  rfl

lemma rows_eq_map (g : Graph) : g.rows = (range g.size).map g.row := by
  refine ext_getElem (by simp [size]) fun v _ _ => ?_
  simp_all [row]

lemma degrees_eq_card (valid : g.Valid) :
    g.rows.foldr (fun row n => row.length + n) 0 = (g.edgesWhere fun _ _ => True).card := by
  have len (u : Nat) : (g.row u).length = ((Finset.range g.size).filter fun v => v ∈ g.row u ∧ True).card := by
    rw [← toFinset_card_of_nodup ((valid.ascending_row u).imp Nat.ne_of_lt)]
    congr 1
    ext v
    simpa using valid.inside u v
  rw [card_edgesWhere, ← map_congr_left fun u _ => len u, rows_eq_map, foldr_map, sum, foldr_map]

lemma loops_eq_card (und : g.Undirected) :
    (g.rows.zipIdx.filter fun (row, v) => row.contains v).length = (g.edgesWhere (· = ·)).card := by
  have numbered : g.rows.zipIdx = (range g.size).map fun v => (g.row v, v) := by
    refine ext_getElem (by simp [size]) fun v bound _ => ?_
    rw [length_zipIdx] at bound
    simp [row, bound]
  have loops : ((Finset.range g.size).filter fun v => v ∈ g.row v).card = (g.edgesWhere (· = ·)).card := by
    refine Finset.card_nbij' (fun v => (v, v)) Prod.fst ?_ ?_ ?_ ?_
    · intro v mem
      simpa [edgesWhere] using mem
    · rintro ⟨u, v⟩ mem
      obtain ⟨edge, rfl⟩ := (mem_edgesWhere und).mp mem
      simpa [edge] using und.inside u u edge
    · exact fun _ _ => rfl
    · rintro ⟨u, v⟩ mem
      obtain ⟨edge, rfl⟩ := (mem_edgesWhere und).mp mem
      rfl
  rw [numbered, filter_map, length_map, ← loops]
  simp only [contains_eq_mem]
  rfl

lemma edgeCount_eq_card (valid : g.Valid) : g.edgeCount = g.edges.card := by
  have und := valid.toUndirected
  have all := card_edgesWhere_or (g := g) (· > ·) (· ≤ ·) fun u v => by omega
  have upper := card_edgesWhere_or (g := g) (· < ·) (· = ·) fun u v => by omega
  simp only [← Nat.le_iff_lt_or_eq] at upper
  have whole : (g.edgesWhere fun _ _ => True).card = (g.edgesWhere fun u v => u > v ∨ u ≤ v).card := by
    simp only [edgesWhere, Nat.lt_or_ge]
  have swapped := card_edgesWhere_swap und
  simp only [edgeCount, degrees_eq_card valid, loops_eq_card und, edges]
  omega

lemma edges_join (und : g.Undirected) (i j : Nat) (first : i < g.size) (second : j < g.size) :
    (g.join i j).edges = insert (min i j, max i j) g.edges := by
  ext ⟨u, v⟩
  have new : u = min i j ∧ v = max i j ↔ ((u = i ∧ v = j) ∨ (u = j ∧ v = i)) ∧ u ≤ v := by omega
  rw [Finset.mem_insert, edges, edges, mem_edgesWhere (join_undirected g i j und first second), mem_edgesWhere und,
    mem_row_join g i j u v first second, Prod.mk.injEq, new]
  tauto

/-- An edge that is not there is added and counted. -/
structure Gains (g : Graph) (i j : Nat) (grown : Graph) : Prop where
  result : g.addEdge i j = .ok (grown, decide (j ∉ g.row i))
  known : j ∈ g.row i → grown = g
  count : grown.edgeCount = g.edgeCount + if j ∈ g.row i then 0 else 1
  rows : ∀ u v, v ∈ grown.row u ↔ v ∈ g.row u ∨ (u = i ∧ v = j) ∨ (u = j ∧ v = i)

lemma addEdge_eq (valid : g.Valid) (i j : Nat) (first : i < g.size) (second : j < g.size) :
    ∃ grown, g.Gains i j grown ∧ grown.Valid := by
  have und := valid.toUndirected
  by_cases known : j ∈ g.row i
  · refine ⟨g, ⟨?_, fun _ => rfl, by simp [known], fun u v => ⟨.inl, ?_⟩⟩, valid⟩
    · simp [addEdge, hasEdge_eq g i j first second, known]
    rintro (edge | ⟨rfl, rfl⟩ | ⟨rfl, rfl⟩)
    · exact edge
    · exact known
    · exact und.mutual_row v u known
  · have joined := join_valid g i j valid first second
    refine ⟨g.join i j, ⟨?_, (absurd · known), ?_, fun u v => mem_row_join g i j u v first second⟩, joined⟩
    · simp [addEdge, hasEdge_eq g i j first second, known]
    rw [edgeCount_eq_card joined, edgeCount_eq_card valid, edges_join und i j first second, if_neg known]
    refine Finset.card_insert_of_notMem fun old => known ?_
    have edge := ((mem_edgesWhere und).mp old).1
    rcases Nat.le_total i j with before | after
    · simpa [before] using edge
    · exact und.mutual_row j i (by simpa [after] using edge)

lemma addEdge_error (i j : Nat) (outside : ¬ (i < g.size ∧ j < g.size)) :
    g.addEdge i j = .error (.adding (.pair i j g.size)) := by
  simp [addEdge, hasEdge, outside]

inductive Start where
  | vertices (size : Nat)
  | neighbours (entries : List (Nat × List Nat)) (least : Nat)

def Start.graph : Start → Graph
  | .vertices size => ofSize size
  | .neighbours entries least => ofEntries entries least

inductive Call where
  | add (i j : Nat)
  | clear (size : Nat)

/-- The graph that a call leaves. One that fails leaves it as it is. -/
def after (g : Graph) : Call → Graph
  | .add i j =>
    match g.addEdge i j with
    | .ok (grown, _) => grown
    | .error _ => g
  | .clear size => ofSize size

lemma after_valid (valid : g.Valid) (call : Call) : (g.after call).Valid := by
  cases call with
  | clear size => exact ofSize_valid size
  | add i j =>
    by_cases inside : i < g.size ∧ j < g.size
    · obtain ⟨grown, added, still⟩ := addEdge_eq valid i j inside.1 inside.2
      simpa [after, added.result] using still
    · simpa [after, addEdge_error i j inside] using valid

lemma history_valid (start : Start) (calls : List Call) : (calls.foldl after start.graph).Valid := by
  have first : start.graph.Valid := by
    cases start with
    | vertices size => exact ofSize_valid size
    | neighbours entries least => exact ofEntries_induction entries ofSize_valid join_valid least
  generalize start.graph = g at first
  induction calls generalizing g with
  | nil => exact first
  | cons call calls ih => exact ih _ (after_valid first call)

/-- Whatever was called, the graph is symmetric, its edges are counted once each, and a call that adds an edge does
that and nothing else. -/
theorem history_symmetric (start : Start) (calls : List Call) (g : Graph) (made : calls.foldl after start.graph = g) :
    (∀ i j, j ∈ g.row i ↔ i ∈ g.row j) ∧ (∀ i, ∀ j ∈ g.row i, j < g.size) ∧ g.edgeCount = g.edges.card ∧
      ∀ i j, if i < g.size ∧ j < g.size then ∃ grown, g.Gains i j grown
        else (∃ e, g.addEdge i j = .error e) ∧ g.after (.add i j) = g := by
  have valid := made ▸ history_valid start calls
  refine ⟨fun i j => ⟨valid.mutual_row i j, valid.mutual_row j i⟩, valid.inside, edgeCount_eq_card valid, fun i j => ?_⟩
  split
  · rename_i inside
    exact (addEdge_eq valid i j inside.1 inside.2).imp fun _ => And.left
  · rename_i outside
    have failed := addEdge_error i j outside
    exact ⟨⟨_, failed⟩, by simp [after, failed]⟩

theorem history_symmetric_loop :
    [Call.add 0 0, .add 0 7, .add 1 0, .add 0 1].foldl after (Start.neighbours [(2, [0])] 0).graph =
      ⟨[[0, 1, 2], [0], [0]]⟩ ∧ edgeCount ⟨[[0, 1, 2], [0], [0]]⟩ = 3 ∧
      edgeCount ⟨[[0, 1, 2], [0], [0]]⟩ = (edges ⟨[[0, 1, 2], [0], [0]]⟩).card :=
  ⟨by decide, by decide, (history_symmetric (.neighbours [(2, [0])] 0) [.add 0 0, .add 0 7, .add 1 0, .add 0 1] _
    (by decide)).2.2.1⟩

/-- The vertices with the entries of their lists, in the order in which they are read. -/
def listed (lists : List (List Nat)) : List (Nat × Nat) :=
  lists.zipIdx.flatMap fun (js, i) => js.map fun j => (i, j)

/-- What is checked before an entry is inserted in the rows of both vertices. -/
def Passes (size : Nat) (loops : Bool) (e : Nat × Nat) : Prop := ¬(e.1 = e.2 ∧ loops = false) ∧ ¬e.2 > size

instance (size : Nat) (loops : Bool) : DecidablePred (Passes size loops) := fun _ => instDecidableAnd

/-- The entries that are inserted: those before the first that does not pass. -/
def inserted (lists : List (List Nat)) (loops : Bool) : List (Nat × Nat) :=
  (listed lists).takeWhile (Passes lists.length loops ·)

/-- Neighbour lists are refused just if an entry is no vertex or a loop that is not allowed, only rows that are
there are used, and the edges are those of the entries. -/
structure Faithful (lists : List (List Nat)) (loops : Bool) : Prop where
  refused : (∃ e, ofLists lists loops = .error e) ↔
    ∃ e ∈ listed lists, lists.length ≤ e.2 ∨ e.1 = e.2 ∧ loops = false
  inside : ∀ e ∈ inserted lists loops, e.1 < lists.length ∧ e.2 < lists.length
  edges : ∀ g, ofLists lists loops = .ok g →
    g.size = lists.length ∧ ∀ i j, j ∈ g.row i ↔ (i, j) ∈ listed lists ∨ (j, i) ∈ listed lists

section

variable {lists : List (List Nat)} {loops : Bool}

lemma lt_of_mem_listed (mem : e ∈ listed lists) : e.1 < lists.length := by
  obtain ⟨⟨js, i⟩, row, inside⟩ := mem_flatMap.mp mem
  obtain ⟨j, _, rfl⟩ := mem_map.mp inside
  exact (List.getElem?_eq_some_iff.mp (mem_zipIdx_iff_getElem?.mp row)).1

def insertEntry (size : Nat) (loops : Bool) (g : Graph) (e : Nat × Nat) : Except Error Graph :=
  if e.1 = e.2 ∧ loops = false then .error (.loop e.1 size)
  else if e.2 > size then .error (.neighbour e.1 e.2 size)
  else .ok (g.join e.1 e.2)

lemma insertEntry_ok (passes : Passes n loops e) (g : Graph) :
    insertEntry n loops g e = .ok (g.join e.1 e.2) := by
  rw [insertEntry, if_neg passes.1, if_neg passes.2]

lemma insertEntry_error (fails : ¬Passes n loops e) (g : Graph) :
    ∃ x, insertEntry n loops g e = .error x := by
  unfold insertEntry
  split_ifs with loop large
  · exact ⟨_, rfl⟩
  · exact ⟨_, rfl⟩
  · exact absurd ⟨loop, large⟩ fails

lemma ofLists_eq (lists : List (List Nat)) (loops : Bool) : ofLists lists loops =
    (listed lists).foldlM (insertEntry lists.length loops) (ofSize lists.length) := by
  rw [listed, foldlM_flatMap]
  simp only [foldlM_map]
  rfl

lemma foldl_join {entries : List (Nat × Nat)} {g : Graph} (inside : ∀ e ∈ entries, e.1 < g.size ∧ e.2 < g.size) :
    (entries.foldl (fun g e => g.join e.1 e.2) g).size = g.size ∧
    ∀ i j, j ∈ (entries.foldl (fun g e => g.join e.1 e.2) g).row i ↔
      j ∈ g.row i ∨ (i, j) ∈ entries ∨ (j, i) ∈ entries := by
  induction entries generalizing g with
  | nil => simp
  | cons e entries ih =>
    obtain ⟨own, others⟩ := forall_mem_cons.mp inside
    obtain ⟨size, rows⟩ := ih (g := g.join e.1 e.2) (by simpa using others)
    refine ⟨by rw [foldl_cons, size, size_join], fun i j => ?_⟩
    rw [foldl_cons, rows, mem_row_join g e.1 e.2 i j own.1 own.2]
    simp only [mem_cons, Prod.ext_iff]
    tauto

/-- An entry that is the number of vertices passes the check on its size, and is then inserted in a row that is
not there: the lists are read faithfully just if no such entry is reached. -/
theorem ofLists_faithful_iff (lists : List (List Nat)) (loops : Bool) :
    Faithful lists loops ↔ ∀ e ∈ inserted lists loops, e.2 ≠ lists.length := by
  refine ⟨fun faithful e mem => (faithful.inside e mem).2.ne, fun apart => ?_⟩
  have inside : ∀ e ∈ inserted lists loops, e.1 < lists.length ∧ e.2 < lists.length := by
    intro e mem
    have passes : Passes lists.length loops e := by simpa using mem_takeWhile_imp (p := (Passes _ _ ·)) mem
    have small : ¬e.2 > lists.length := passes.2
    have other := apart e mem
    exact ⟨lt_of_mem_listed ((takeWhile_sublist _).subset mem), by omega⟩
  by_cases all : ∀ e ∈ listed lists, Passes lists.length loops e
  · have whole : inserted lists loops = listed lists := takeWhile_eq_self_iff.mpr (by simpa using all)
    have made := foldlM_ok _ (fun g e => g.join e.1 e.2) (listed lists)
      (fun e mem => insertEntry_ok (all e mem)) (ofSize lists.length)
    rw [← ofLists_eq] at made
    rw [whole] at inside
    obtain ⟨size, rows⟩ := foldl_join (g := ofSize lists.length) (by simpa using inside)
    refine ⟨iff_of_false (by simp [made]) ?_, whole ▸ inside, ?_⟩
    · rintro ⟨e, mem, outside | loop⟩
      · exact absurd (inside e mem).2 (by omega)
      · exact (all e mem).1 loop
    · intro g same
      obtain rfl := Except.ok.inj (made.symm.trans same)
      exact ⟨by rw [size, size_ofSize], fun i j => by simpa using rows i j⟩
  · push Not at all
    obtain ⟨e, mem, fails⟩ := all
    obtain ⟨x, failed⟩ := foldlM_error mem (insertEntry_error fails) (ofSize lists.length)
    rw [← ofLists_eq] at failed
    refine ⟨iff_of_true ⟨x, failed⟩ ⟨e, mem, ?_⟩, inside, by simp [failed]⟩
    by_contra legal
    rw [not_or] at legal
    exact fails ⟨legal.2, by omega⟩

end

section

variable {g : Graph} {vs clique : List Nat} {v : Nat}

/-- Vertices of a set, in ascending order, with an edge between any two. -/
structure CliqueIn (g : Graph) (vs clique : List Nat) : Prop where
  nonempty : clique ≠ []
  subset : ∀ v ∈ clique, v ∈ vs
  ordered : clique.Pairwise (· < ·)
  joined : clique.Pairwise fun u v => v ∈ g.row u

lemma cliqueIn_singleton (mem : v ∈ vs) : g.CliqueIn vs [v] where
  nonempty := by simp
  subset := by simpa using mem
  ordered := pairwise_singleton _ _
  joined := pairwise_singleton _ _

lemma CliqueIn.distinct (isClique : g.CliqueIn vs clique) : clique.Nodup :=
  isClique.ordered.imp Nat.ne_of_lt

lemma getLastD_mem (nonempty : clique ≠ []) : clique.getLastD 0 ∈ clique := by
  rw [getLastD_eq_getLast?, getLast?_eq_some_getLast nonempty]
  exact getLast_mem nonempty

lemma CliqueIn.le_getLastD (isClique : g.CliqueIn vs clique) (mem : u ∈ clique) :
    u ≤ clique.getLastD 0 := by
  rw [getLastD_eq_getLast?, getLast?_eq_some_getLast isClique.nonempty]
  exact (isClique.ordered.imp Nat.le_of_lt).rel_getLast mem

lemma CliqueIn.adjacent (und : g.Undirected)
    (isClique : g.CliqueIn vs clique) (first : u ∈ clique) (second : v ∈ clique)
    (different : u ≠ v) : g.Adjacent u v := by
  have either : clique.Pairwise fun u v => v ∈ g.row u ∧ u ∈ g.row v :=
    isClique.joined.imp fun {a b} edge => ⟨edge, und.mutual_row a b edge⟩
  have : Std.Symm fun u v => v ∈ g.row u ∧ u ∈ g.row v := ⟨fun _ _ => And.symm⟩
  exact ⟨different, (either.forall first second different).1⟩

def extenders (g : Graph) (clique : List Nat) : List Nat :=
  (g.row (clique.getLastD 0)).filter fun v =>
    clique.getLastD 0 < v && clique.all fun u => (g.row u).contains v

lemma extensions_eq (g : Graph) (clique : List Nat) (inside : clique.getLastD 0 < g.size) :
    g.extensions clique = .ok ((g.extenders clique).map (clique ++ [·])) := by
  simp only [extensions, neighbours_eq g _ inside]
  rfl

lemma CliqueIn.extend (closed : g.Closed vs)
    (isClique : g.CliqueIn vs clique) (extender : v ∈ g.extenders clique) : g.CliqueIn vs (clique ++ [v]) := by
  simp only [extenders, mem_filter, Bool.and_eq_true, decide_eq_true_eq, all_eq_true, contains_eq_mem] at extender
  obtain ⟨edge, after, joins⟩ := extender
  refine ⟨by simp, ?_, ?_, ?_⟩
  · intro u mem
    rcases mem_append.mp mem with old | new
    · exact isClique.subset u old
    · obtain rfl := mem_singleton.mp new
      exact closed _ (isClique.subset _ (getLastD_mem isClique.nonempty)) _ edge
  · refine pairwise_append.mpr ⟨isClique.ordered, pairwise_singleton _ _, ?_⟩
    intro u mem w new
    obtain rfl := mem_singleton.mp new
    exact Nat.lt_of_le_of_lt (isClique.le_getLastD mem) after
  · refine pairwise_append.mpr ⟨isClique.joined, pairwise_singleton _ _, ?_⟩
    intro u mem w new
    obtain rfl := mem_singleton.mp new
    exact joins u mem

lemma CliqueIn.take (isClique : g.CliqueIn vs clique) (n : Nat) : g.CliqueIn vs (clique.take (n + 1)) where
  nonempty := by simp [isClique.nonempty]
  subset v mem := isClique.subset v (mem_of_mem_take mem)
  ordered := isClique.ordered.take
  joined := isClique.joined.take

lemma CliqueIn.mem_extenders (isClique : g.CliqueIn vs (clique ++ [v])) (nonempty : clique ≠ []) :
    v ∈ g.extenders clique := by
  have below := (pairwise_append.mp isClique.ordered).2.2
  have joins := (pairwise_append.mp isClique.joined).2.2
  have last := getLastD_mem nonempty
  simp only [extenders, mem_filter, Bool.and_eq_true, decide_eq_true_eq, all_eq_true, contains_eq_mem]
  exact ⟨joins _ last v (by simp), below _ last v (by simp), fun u mem => joins u mem v (by simp)⟩

def enlarged (g : Graph) (cliques : List (List Nat)) : List (List Nat) :=
  cliques.flatMap fun clique => (g.extenders clique).map (clique ++ [·])

lemma mem_enlarged {cliques : List (List Nat)} {larger : List Nat} :
    larger ∈ g.enlarged cliques ↔ ∃ clique ∈ cliques, ∃ v ∈ g.extenders clique, clique ++ [v] = larger := by
  simp [enlarged]

lemma enlarged_nodup (rows : ∀ v, (g.row v).Nodup) {cliques : List (List Nat)} (distinct : cliques.Nodup) :
    (g.enlarged cliques).Nodup := by
  refine nodup_flatMap.mpr ⟨fun clique _ => ?_, distinct.imp fun {c d} different => ?_⟩
  · exact ((rows _).filter _).map fun u v same => by simpa using same
  · rintro larger first second
    obtain ⟨u, -, rfl⟩ := mem_map.mp first
    obtain ⟨v, -, same⟩ := mem_map.mp second
    exact different (append_inj_left' same rfl).symm

lemma extendAll_eq (cliques : List (List Nat)) (room : Nat) (inside : ∀ c ∈ cliques, c.getLastD 0 < g.size) :
    g.extendAll cliques room =
    .ok ((g.enlarged cliques).take room, decide (cliques ≠ [] ∧ room ≤ (g.enlarged cliques).length)) := by
  induction cliques generalizing room with
  | nil => simp [extendAll, enlarged]
  | cons clique cliques ih =>
    obtain ⟨here, later⟩ := forall_mem_cons.mp inside
    rw [extendAll]
    by_cases noRoom : room = 0
    · simp [noRoom, pure, Except.pure]
    · rw [if_neg noRoom, extensions_eq g clique here]
      simp only [bind, Except.bind, pure, Except.pure, ih _ later, enlarged, flatMap_cons, take_append, length_take,
        length_append]
      congr 2
      · congr 2
        omega
      · rw [Bool.eq_iff_iff]
        cases cliques <;> simp only [ne_eq, reduceCtorEq, not_true_eq_false, not_false_eq_true, true_and, false_and, decide_false,
          flatMap_nil, length_nil, length_map, Bool.false_or, Bool.or_eq_true, decide_eq_true_eq] <;> omega

def FewerCliques (g : Graph) (vs : List Nat) (size number : Nat) : Prop :=
  ∀ cs : List (List Nat), cs.Nodup → (∀ c ∈ cs, g.CliqueIn vs c ∧ c.length = size) → cs.length < number

/-- The cliques of a size after some rounds: all of them, unless there was no room in one round. -/
structure Grown (g : Graph) (vs : List Nat) (limit size : Nat) (full : Bool) (sets : List (List Nat)) : Prop where
  present : sets ≠ []
  cliques : ∀ c ∈ sets, g.CliqueIn vs c ∧ c.length = size
  complete : full = false → ∀ c, g.CliqueIn vs c → c.length = size → c ∈ sets
  -- Vertices are coloured also where a row lists a neighbour twice, so only these two ask for rows without repeats.
  distinct : (∀ v, (g.row v).Nodup) → sets.Nodup
  many : (∀ v, (g.row v).Nodup) → full = true → ∃ n, ¬ g.FewerCliques vs n limit

variable {limit size : Nat} {full : Bool} {sets : List (List Nat)}

lemma Grown.enlarged_cliques (closed : g.Closed vs) (grown : g.Grown vs limit size full sets) :
    ∀ c ∈ g.enlarged sets, g.CliqueIn vs c ∧ c.length = size + 1 := by
  intro larger mem
  obtain ⟨c, old, v, extender, rfl⟩ := mem_enlarged.mp mem
  obtain ⟨isClique, length⟩ := grown.cliques c old
  exact ⟨isClique.extend closed extender, by simp [length]⟩

lemma Grown.mem_enlarged (grown : g.Grown vs limit size false sets) (larger : List Nat)
    (isClique : g.CliqueIn vs larger) (length : larger.length = size + 1) : larger ∈ g.enlarged sets := by
  obtain ⟨c, old⟩ := exists_mem_of_ne_nil sets grown.present
  obtain ⟨smaller, some⟩ := grown.cliques c old
  obtain ⟨n, rfl⟩ : ∃ n, size = n + 1 := ⟨size - 1, by have := length_pos_of_ne_nil smaller.nonempty; omega⟩
  have split := dropLast_append_getLast isClique.nonempty
  rw [dropLast_eq_take, length, Nat.add_sub_cancel] at split
  have front := isClique.take n
  rw [← split] at isClique
  have known := grown.complete rfl _ front (by simp [length])
  exact Graph.mem_enlarged.mpr ⟨_, known, _, isClique.mem_extenders front.nonempty, split⟩

lemma Grown.filled (closed : g.Closed vs) (grown : g.Grown vs limit size full sets) :
    g.Grown vs limit size (full || decide (limit ≤ (g.enlarged sets).length)) sets :=
  { grown with
    complete := fun room => grown.complete (Bool.or_eq_false_iff.mp room).1
    many := by
      intro rows filled
      rcases Bool.or_eq_true_iff.mp filled with before | now
      · exact grown.many rows before
      · refine ⟨size + 1, fun few => ?_⟩
        have least := few _ (enlarged_nodup rows (grown.distinct rows)) (grown.enlarged_cliques closed)
        exact Nat.not_lt.mpr (of_decide_eq_true now) least }

/-- One round keeps the invariant, as long as it finds a clique. -/
lemma Grown.round (closed : g.Closed vs) (grown : g.Grown vs limit size full sets)
    (more : (g.enlarged sets).take limit ≠ []) :
    g.Grown vs limit (size + 1) (full || decide (limit ≤ (g.enlarged sets).length)) ((g.enlarged sets).take limit) where
  present := more
  cliques c mem := grown.enlarged_cliques closed c (mem_of_mem_take mem)
  complete room larger isClique length := by
    simp only [Bool.or_eq_false_iff, decide_eq_false_iff_not, Nat.not_le] at room
    rw [take_of_length_le (Nat.le_of_lt room.2)]
    obtain ⟨rfl, -⟩ := room
    exact grown.mem_enlarged larger isClique length
  distinct rows := (enlarged_nodup rows (grown.distinct rows)).sublist (take_sublist _ _)
  many := (grown.filled closed).many

def LargestIn (g : Graph) (vs clique : List Nat) : Prop :=
  g.CliqueIn vs clique ∧ ∀ d, g.CliqueIn vs d → d.length ≤ clique.length

/-- A round that finds nothing ends the search, with the largest cliques unless some were left out. -/
lemma Grown.largest (grown : g.Grown vs limit size false sets) (none : g.enlarged sets = []) (c : List Nat) :
    c ∈ sets ↔ g.LargestIn vs c := by
  have bound (d : List Nat) (isClique : g.CliqueIn vs d) : d.length ≤ size := by
    by_contra longer
    have found := grown.mem_enlarged _ (isClique.take size) (by rw [length_take]; omega)
    simp [none] at found
  constructor
  · intro mem
    obtain ⟨isClique, length⟩ := grown.cliques c mem
    exact ⟨isClique, fun d other => length ▸ bound d other⟩
  · rintro ⟨isClique, most⟩
    obtain ⟨d, mem⟩ := exists_mem_of_ne_nil sets grown.present
    obtain ⟨other, length⟩ := grown.cliques d mem
    exact grown.complete rfl c isClique (Nat.le_antisymm (bound c isClique) (length ▸ most d other))

lemma Grown.grow (inside : ∀ v ∈ vs, v < g.size) (closed : g.Closed vs) (grown : g.Grown vs limit size full sets)
    (rounds : Nat) (enough : vs.length < size + rounds) :
    ∃ found size, g.grow limit rounds full sets = .ok found ∧ g.Grown vs limit size (!found.areLargest) found.sets ∧
    (found.areLargest = true → ∀ c, c ∈ found.sets ↔ g.LargestIn vs c) := by
  induction rounds generalizing size full sets with
  | zero =>
    obtain ⟨c, mem⟩ := exists_mem_of_ne_nil sets grown.present
    obtain ⟨isClique, length⟩ := grown.cliques c mem
    have short := (isClique.distinct.subperm isClique.subset).length_le
    omega
  | succ rounds ih =>
    have last (c : List Nat) (mem : c ∈ sets) : c.getLastD 0 < g.size :=
      have isClique := (grown.cliques c mem).1
      inside _ (isClique.subset _ (getLastD_mem isClique.nonempty))
    rw [Graph.grow, extendAll_eq sets limit last]
    simp only [bind, Except.bind, ne_eq, grown.present, not_false_eq_true, true_and]
    by_cases stuck : (g.enlarged sets).take limit = []
    · refine ⟨_, size, by simp only [stuck, isEmpty_nil, if_pos]; rfl, ?_, fun room c => ?_⟩
      · simpa only [Bool.not_not] using grown.filled closed
      · simp only [Bool.not_eq_true', Bool.or_eq_false_iff, decide_eq_false_iff_not, Nat.not_le] at room
        obtain ⟨rfl, below⟩ := room
        rw [take_of_length_le (Nat.le_of_lt below)] at stuck
        exact grown.largest stuck c
    · obtain ⟨found, size, equation, ends⟩ := ih (grown.round closed stuck) (by omega)
      exact ⟨found, size, by simpa [stuck] using equation, ends⟩

lemma largeCliques_grown (nonempty : vs ≠ []) (distinct : vs.Nodup) (inside : ∀ v ∈ vs, v < g.size)
    (closed : g.Closed vs) (limit : Nat) :
    ∃ found size, g.largeCliques vs limit = .ok found ∧ g.Grown vs limit size (!found.areLargest) found.sets ∧
    (found.areLargest = true → ∀ c, c ∈ found.sets ↔ g.LargestIn vs c) := by
  have start : g.Grown vs limit 1 false (vs.map ([·])) := by
    refine ⟨by simpa using nonempty, ?_, fun _ c isClique single => ?_, fun _ => distinct.map fun u v same => by simpa using same, by simp⟩
    · intro c mem
      obtain ⟨v, own, rfl⟩ := mem_map.mp mem
      exact ⟨cliqueIn_singleton own, rfl⟩
    · obtain ⟨v, rfl⟩ := length_eq_one_iff.mp single
      exact mem_map.mpr ⟨v, isClique.subset v (by simp), rfl⟩
  exact start.grow inside closed (vs.length + 1) (by omega)

/-- Different cliques of one size are found, and where they are said to be the largest, these are all. They are said
to be so if the limit exceeds the number of cliques of every size. -/
theorem largeCliques_exact (g : Graph) (valid : g.Valid) (vs : List Nat) (limit : Nat) (nonempty : vs ≠ [])
    (distinct : vs.Nodup) (inside : ∀ v ∈ vs, v < g.size) (closed : g.Closed vs) :
    ∃ found size, g.largeCliques vs limit = .ok found ∧ found.sets ≠ [] ∧ found.sets.Nodup ∧
      (∀ c ∈ found.sets, g.CliqueIn vs c ∧ c.length = size ∧ ∀ u ∈ c, ∀ v ∈ c, u ≠ v → g.Adjacent u v) ∧
      (found.areLargest = true → ∀ c, c ∈ found.sets ↔ g.LargestIn vs c) ∧
      ((∀ n, g.FewerCliques vs n limit) → found.areLargest = true) := by
  have rows (v : Nat) : (g.row v).Nodup := (valid.ascending_row v).imp Nat.ne_of_lt
  obtain ⟨found, size, equation, grown, largest⟩ := largeCliques_grown nonempty distinct inside closed limit
  refine ⟨found, size, equation, grown.present, grown.distinct rows, fun c mem => ?_, largest, fun few => ?_⟩
  · obtain ⟨isClique, length⟩ := grown.cliques c mem
    exact ⟨isClique, length, fun u first v second => isClique.adjacent valid.toUndirected first second⟩
  · by_contra left
    obtain ⟨n, many⟩ := grown.many rows (by simpa using left)
    exact many (few n)

theorem largeCliques_exact_triangle :
    (ofEntries [(0, [1, 2, 3]), (1, [2])] 0).largeCliques [0, 1, 2, 3] 9 = .ok ⟨[[0, 1, 2]], true⟩ ∧
      ∀ c, c ∈ [[0, 1, 2]] ↔ (ofEntries [(0, [1, 2, 3]), (1, [2])] 0).LargestIn [0, 1, 2, 3] c := by
  have equation : (ofEntries [(0, [1, 2, 3]), (1, [2])] 0).largeCliques [0, 1, 2, 3] 9 = .ok ⟨[[0, 1, 2]], true⟩ := by
    decide
  obtain ⟨found, size, same, -, -, -, largest, -⟩ := largeCliques_exact (ofEntries [(0, [1, 2, 3]), (1, [2])] 0)
    (ofEntries_induction _ ofSize_valid join_valid 0) [0, 1, 2, 3] 9 (by decide) (by decide) (by decide)
    (by unfold Closed; decide)
  rw [equation] at same
  obtain rfl := Except.ok.inj same
  exact ⟨equation, largest rfl⟩

end

variable {g : Graph} {vs clique : List Nat} {v : Nat}

def beyond (g : Graph) (filled layer : List Nat) : List Nat :=
  ascending ((layer.map g.row).flatten.filter fun v => !filled.contains v)

lemma mem_beyond (g : Graph) (filled layer : List Nat) (v : Nat) :
    v ∈ g.beyond filled layer ↔ (∃ u ∈ layer, v ∈ g.row u) ∧ v ∉ filled := by
  simp [beyond, ← and_assoc, exists_and_right]

lemma spread_succ (g : Graph) (rounds : Nat) (filled layer : List Nat) (inside : ∀ v ∈ layer, v < g.size) :
    g.spread (rounds + 1) filled layer = if g.beyond filled layer = [] then .ok filled
    else g.spread rounds (filled ++ g.beyond filled layer) (g.beyond filled layer) := by
  have next : layer.mapM g.neighbours = .ok (layer.map g.row) :=
    mapM_ok _ _ _ fun v mem => neighbours_eq g v (inside v mem)
  have fresh : ascending ((layer.map g.row).flatten.filter fun v => !filled.contains v) = g.beyond filled layer := rfl
  simp only [spread, next, fresh]
  cases g.beyond filled layer with
  | nil => rfl
  | cons v rest => rfl

/-- Neighbours of vertices in order are in order too, those of the last layer apart. -/
structure Spreading (g : Graph) (vs filled layer : List Nat) : Prop where
  distinct : filled.Nodup
  subset : ∀ v ∈ filled, v ∈ vs
  last : ∀ v ∈ layer, v ∈ filled
  finished : ∀ u ∈ filled, u ∉ layer → ∀ v ∈ g.row u, v ∈ filled

lemma Spreading.next {filled layer : List Nat} (closed : g.Closed vs) (state : g.Spreading vs filled layer) :
    g.Spreading vs (filled ++ g.beyond filled layer) (g.beyond filled layer) where
  distinct := by
    refine nodup_append.mpr ⟨state.distinct, ascending_nodup _, ?_⟩
    rintro u old v fresh rfl
    exact ((mem_beyond g filled layer u).mp fresh).2 old
  subset := by
    intro v mem
    rcases mem_append.mp mem with old | fresh
    · exact state.subset v old
    · obtain ⟨⟨u, inLayer, edge⟩, _⟩ := (mem_beyond g filled layer v).mp fresh
      exact closed u (state.subset u (state.last u inLayer)) v edge
  last := fun v fresh => mem_append_right _ fresh
  finished := by
    intro u mem notFresh v edge
    have old : u ∈ filled := (mem_append.mp mem).resolve_right notFresh
    by_cases known : v ∈ filled
    · exact mem_append_left _ known
    · by_cases inLayer : u ∈ layer
      · exact mem_append_right _ ((mem_beyond g filled layer v).mpr ⟨⟨u, inLayer, edge⟩, known⟩)
      · exact mem_append_left _ (state.finished u old inLayer v edge)

lemma Spreading.closed {filled layer : List Nat}
    (state : g.Spreading vs filled layer) (empty : g.beyond filled layer = []) : g.Closed filled := by
  intro u mem v edge
  by_cases inLayer : u ∈ layer
  · by_contra missing
    have fresh := (mem_beyond g filled layer v).mpr ⟨⟨u, inLayer, edge⟩, missing⟩
    rw [empty] at fresh
    cases fresh
  · exact state.finished u mem inLayer v edge

lemma spread_closed (component : g.Component vs) (rounds : Nat)
    (filled layer : List Nat) (state : g.Spreading vs filled layer) (enough : vs.length < rounds + filled.length) :
    ∃ order, g.spread rounds filled layer = .ok order ∧ filled <+: order ∧ order.Nodup ∧
    (∀ v ∈ order, v ∈ vs) ∧ g.Closed order := by
  induction rounds generalizing filled layer with
  | zero =>
    have bound := (state.distinct.subperm state.subset).length_le
    omega
  | succ rounds ih =>
    rw [spread_succ g rounds filled layer
      fun v mem => component.inside v (state.subset v (state.last v mem))]
    split
    · rename_i empty
      exact ⟨filled, rfl, prefix_rfl, state.distinct, state.subset, state.closed empty⟩
    · rename_i ne
      have longer := length_pos_of_ne_nil ne
      obtain ⟨order, equation, front, rest⟩ := ih _ _ (state.next component.closed) (by
        rw [length_append]
        omega)
      exact ⟨order, equation, (prefix_append _ _).trans front, rest⟩

lemma Component.perm_of_closed {order : List Nat} (component : g.Component vs)
    (distinct : order.Nodup) (subset : ∀ v ∈ order, v ∈ vs) (closed : g.Closed order)
    (nonempty : order ≠ []) : order.Perm vs := by
  obtain ⟨u, start⟩ := exists_mem_of_ne_nil order nonempty
  refine (perm_ext_iff_of_nodup distinct component.distinct).mpr fun v => ⟨subset v, ?_⟩
  intro mem
  exact closed.reaches (component.joined u (subset u start) v mem) start

lemma sequence_perm (component : g.Component vs) (isClique : g.CliqueIn vs clique) :
    ∃ order, g.sequence vs clique = .ok order ∧ clique <+: order ∧ order.Perm vs := by
  have noStranger : (clique.zipIdx.find? fun p => !vs.contains p.1) = none := by
    rw [find?_eq_none]
    intro p mem
    have known := isClique.subset p.1 (fst_mem_of_mem_zipIdx mem)
    simp [known]
  have start : g.Spreading vs clique clique :=
    ⟨isClique.distinct, isClique.subset, fun _ mem => mem, fun u mem outside => absurd mem outside⟩
  have pos := length_pos_of_ne_nil component.nonempty
  obtain ⟨order, equation, front, nodup, subset, closed⟩ :=
    spread_closed component (2 * vs.length) clique clique start (by omega)
  have ne : order ≠ [] := by
    rintro rfl
    exact isClique.nonempty (prefix_nil.mp front)
  have perm := component.perm_of_closed nodup subset closed ne
  refine ⟨order, ?_, front, perm⟩
  simp only [sequence]
  rw [noStranger]
  simp [bind, Except.bind, pure, Except.pure, equation, perm.length_eq]

namespace Order

def nodeAt (g : Graph) (order : List Nat) (v place : Nat) : Node :=
  ⟨v, ((order.take place).zipIdx.filter fun p => (g.row v).contains p.1).map (·.2)⟩

def ofOrder (g : Graph) (clique order : List Nat) : Order :=
  ⟨order.zipIdx.map fun p => nodeAt g order p.1 p.2, clique⟩

section

variable (g : Graph) (clique order : List Nat)

lemma ofSequence_eq (inside : ∀ v ∈ order, v < g.size) :
    ofSequence g clique order = .ok (ofOrder g clique order) := by
  have nodes : (order.zipIdx.mapM fun p => do
      let before ← (order.take p.2).zipIdx.filterM fun q => g.hasEdge p.1 q.1
      return (⟨p.1, before.map (·.2)⟩ : Node) : Except Error (List Node)) =
        .ok (order.zipIdx.map fun p => nodeAt g order p.1 p.2) := by
    apply mapM_ok
    intro p mem
    have here := inside p.1 (fst_mem_of_mem_zipIdx mem)
    have before : ((order.take p.2).zipIdx.filterM fun q => g.hasEdge p.1 q.1) =
        .ok ((order.take p.2).zipIdx.filter fun q => (g.row p.1).contains q.1) := by
      apply filterM_ok
      intro q earlier
      have there := mem_of_mem_take (fst_mem_of_mem_zipIdx earlier)
      exact hasEdge_eq g p.1 q.1 here (inside q.1 there)
    rw [before]
    rfl
  simp only [ofSequence]
  rw [nodes]
  rfl

@[simp] lemma clique_ofOrder :
    (ofOrder g clique order).clique = clique := rfl

@[simp] lemma length_nodes_ofOrder : (ofOrder g clique order).nodes.length = order.length := by
  simp [ofOrder]

lemma map_vertex_ofOrder : (ofOrder g clique order).nodes.map (·.vertex) = order := by
  simp only [ofOrder, map_map]
  exact zipIdx_map_fst 0 order

end

lemma mem_earlier (g : Graph) (order : List Nat) (v place e : Nat) : e ∈ (nodeAt g order v place).earlier ↔
    e < place ∧ ∃ u, order[e]? = some u ∧ u ∈ g.row v := by
  simp only [nodeAt, mem_map, mem_filter, mem_zipIdx_iff_getElem?,
    getElem?_take, contains_eq_mem, decide_eq_true_eq, Prod.exists, exists_eq_right]
  constructor
  · rintro ⟨u, found, edge⟩
    split at found
    · rename_i before
      exact ⟨before, u, found, edge⟩
    · cases found
  · rintro ⟨before, u, found, edge⟩
    exact ⟨u, by rw [if_pos before]; exact found, edge⟩

lemma ofComponent_eq (component : g.Component vs) (isClique : g.CliqueIn vs clique) :
    ∃ order, ofComponent g vs clique = .ok (ofOrder g clique order) ∧ clique <+: order ∧ order.Perm vs := by
  obtain ⟨order, equation, front, perm⟩ := sequence_perm component isClique
  refine ⟨order, ?_, front, perm⟩
  rw [ofComponent, equation]
  exact ofSequence_eq g clique order fun v mem => component.inside v (perm.mem_iff.mp mem)

end Order

end CircuitWorks.Graph
