import CircuitWorks.Proofs.Graph.Cliques

namespace CircuitWorks.Graph

/-- One allowed colour for each node, none of them that of an earlier neighbour, after the colours
that were chosen before. -/
def Fits (chosen : List Nat) : List Task → List Nat → Prop
  | [], colours => colours = []
  | _ :: _, [] => False
  | (earlier, allowed) :: nodes, colour :: colours =>
    colour ∈ allowed ∧ (∀ place ∈ earlier, chosen[place]? ≠ some colour) ∧
      Fits (chosen ++ [colour]) nodes colours

variable (chosen : List Nat) in
lemma fits_iff (nodes : List Task) (colours : List Nat) :
    Fits chosen nodes colours ↔ colours.length = nodes.length ∧
    ∀ i node colour, nodes[i]? = some node → colours[i]? = some colour →
    colour ∈ node.2 ∧ ∀ place ∈ node.1, (chosen ++ colours.take i)[place]? ≠ some colour := by
  induction nodes generalizing chosen colours with
  | nil => simp [Fits]
  | cons node nodes ih =>
    obtain ⟨earlier, allowed⟩ := node
    cases colours with
    | nil => simp [Fits]
    | cons colour colours =>
      rw [Fits, ih]
      constructor
      · rintro ⟨mem, free, len, later⟩
        refine ⟨by simpa using len, ?_⟩
        intro i node c atNode atColour
        cases i with
        | zero =>
          simp only [List.getElem?_cons_zero, Option.some.injEq] at atNode atColour
          subst atNode atColour
          exact ⟨mem, by simpa using free⟩
        | succ i =>
          simpa using later i node c atNode atColour
      · rintro ⟨len, each⟩
        have first := each 0 (earlier, allowed) colour rfl rfl
        refine ⟨first.1, by simpa using first.2, by simpa using len, ?_⟩
        intro i node c atNode atColour
        simpa using each (i + 1) node c (by simpa using atNode) (by simpa using atColour)

open List

/-- The neighbours of a node stand before it. -/
def Ordered (nodes : List Task) : Prop :=
  ∀ (place : Nat) node, nodes[place]? = some node → ∀ e ∈ node.1, e < place

/-- For each node an index and the colour at it in the list of allowed ones. -/
def Picks : List Task → List (Nat × Nat) → Prop :=
  Forall₂ fun node pick => node.2[pick.1]? = some pick.2

/-- Picks that fit, the first of them at an index from `start` on. -/
structure Selects (chosen : List Nat) (nodes : List Task) (start : Nat)
    (picks : List (Nat × Nat)) : Prop where
  allowed : Picks nodes picks
  fits : Fits chosen nodes (picks.map (·.2))
  after : ∀ pick ∈ picks.head?, start ≤ pick.1

/-- The first of the selections, by their indices. -/
structure SelectsFirst (chosen : List Nat) (nodes : List Task) (start : Nat)
    (picks : List (Nat × Nat)) : Prop extends Selects chosen nodes start picks where
  first : ∀ others, Selects chosen nodes start others →
    ¬ List.Lex (· < ·) (others.map (·.1)) (picks.map (·.1))

/-- Where the search goes from a node that has no colour left. -/
def goBack (nodes : List Task) (place : Nat) (indices : List Nat) :
    Option (Bool × List Nat) :=
  if place = 0 then some (false, indices)
  else do
    let before ← indices[place - 1]?
    tryColours nodes (place - 1) (indices.set (place - 1) (before + 1))

/-- The nodes before the current one have picks, at their current indices. -/
structure Standing (nodes front rest : List Task) (done : List (Nat × Nat))
    (indices : List Nat) : Prop where
  split : nodes = front ++ rest
  picks : Picks front done
  length : indices.length = nodes.length
  stands : indices.take front.length = done.map (·.1)

section

variable {nodes front rest later : List Task} {done picks : List (Nat × Nat)}
  {chosen indices kept earlier allowed : List Nat} {index colour : Nat}

lemma exists_selects {colours : List Nat} (fits : Fits chosen nodes colours) :
    ∃ picks, Selects chosen nodes 0 picks := by
  suffices ∃ picks : List (Nat × Nat), picks.map (·.2) = colours ∧ Picks nodes picks by
    obtain ⟨picks, rfl, own⟩ := this
    exact ⟨picks, own, fits, fun _ _ => Nat.zero_le _⟩
  induction nodes generalizing chosen colours with
  | nil =>
    have none : colours = [] := by simpa [Fits] using fits
    exact ⟨[], none.symm, .nil⟩
  | cons node nodes ih =>
    cases colours with
    | nil => exact fits.elim
    | cons colour colours =>
      obtain ⟨mem, -, later⟩ := fits
      obtain ⟨index, own⟩ := getElem?_of_mem mem
      obtain ⟨picks, rfl, rest⟩ := ih later
      exact ⟨(index, colour) :: picks, rfl, .cons own rest⟩

lemma selects_cons : Selects chosen ((earlier, allowed) :: later) index picks ↔
    ∃ i colour others, picks = (i, colour) :: others ∧ index ≤ i ∧ allowed[i]? = some colour ∧
      (∀ place ∈ earlier, chosen[place]? ≠ some colour) ∧
      Selects (chosen ++ [colour]) later 0 others := by
  constructor
  · rintro ⟨own, fits, after⟩
    cases own with
    | @cons _ pick _ others own rest =>
      exact ⟨pick.1, pick.2, others, rfl, after pick rfl, own, fits.2.1, rest, fits.2.2,
        fun _ _ => Nat.zero_le _⟩
  · rintro ⟨i, colour, others, rfl, after, own, free, rest⟩
    refine ⟨.cons own rest.allowed, ⟨mem_of_getElem? own, free, rest.fits⟩, ?_⟩
    rintro _ ⟨⟩
    exact after

/-- If a colour cannot be taken, or leads to no selection, the selections start after it. -/
lemma selects_succ (own : allowed[index]? = some colour)
    (stuck : (∀ place ∈ earlier, chosen[place]? ≠ some colour) →
      ∀ others, ¬ Selects (chosen ++ [colour]) later 0 others) :
    Selects chosen ((earlier, allowed) :: later) (index + 1) picks ↔
      Selects chosen ((earlier, allowed) :: later) index picks := by
  rw [selects_cons, selects_cons]
  constructor
  · rintro ⟨i, c, others, rfl, after, rest⟩
    exact ⟨i, c, others, rfl, Nat.le_of_succ_le after, rest⟩
  · rintro ⟨i, c, others, rfl, after, at_, free, rest⟩
    refine ⟨i, c, others, rfl, Nat.lt_of_le_of_ne after ?_, at_, free, rest⟩
    rintro rfl
    obtain rfl := Option.some.inj (own.symm.trans at_)
    exact stuck free others rest

lemma SelectsFirst.cons (own : allowed[index]? = some colour)
    (free : ∀ place ∈ earlier, chosen[place]? ≠ some colour)
    (rest : SelectsFirst (chosen ++ [colour]) later 0 picks) :
    SelectsFirst chosen ((earlier, allowed) :: later) index ((index, colour) :: picks) := by
  refine ⟨selects_cons.mpr ⟨_, _, _, rfl, le_rfl, own, free, rest.toSelects⟩, ?_⟩
  intro others selects sooner
  obtain ⟨i, c, others, rfl, after, at_, -, more⟩ := selects_cons.mp selects
  rw [map_cons, map_cons] at sooner
  cases sooner with
  | rel lower => exact absurd after (Nat.not_le_of_lt lower)
  | cons sooner =>
    obtain rfl := Option.some.inj (own.symm.trans at_)
    exact rest.first others more sooner

namespace Standing

lemma set (standing : Standing nodes front rest done indices) {place : Nat}
    (after : front.length ≤ place) (index : Nat) :
    Standing nodes front rest done (indices.set place index) where
  split := standing.split
  picks := standing.picks
  length := by rw [length_set, standing.length]
  stands := by rw [take_set_of_le after, standing.stands]

lemma previous {node : List Nat × List Nat} {pick : Nat × Nat}
    (standing : Standing nodes (front ++ [node]) later (done ++ [pick]) indices) :
    Standing nodes front (node :: later) done indices ∧ indices[front.length]? = some pick.1 := by
  have same : front.length = done.length := by
    simpa using Forall₂.length_eq standing.picks
  have room : front.length < indices.length := by
    simp [standing.length, standing.split]
  have stands := standing.stands
  rw [length_append, length_singleton, take_add_one, getElem?_eq_getElem room, map_append] at stands
  obtain ⟨stands, current⟩ := append_inj stands (by simp [← same, room.le])
  refine ⟨⟨by simp [standing.split], ?_, standing.length, stands⟩, ?_⟩
  · have own := forall₂_take front.length standing.picks
    rwa [take_left, same, take_left] at own
  · rw [getElem?_eq_getElem room]
    simpa using current

lemma currentColour_eq (standing : Standing nodes front rest done indices) {place : Nat}
    (before : place < front.length) :
    ∃ colour, (done.map (·.2))[place]? = some colour ∧
      currentColour nodes indices place = some colour := by
  have same := Forall₂.length_eq standing.picks
  have own := Forall₂.get standing.picks before (same ▸ before)
  have stands : (indices.take front.length)[place]? = some (done.get ⟨place, same ▸ before⟩).1 := by
    rw [standing.stands, getElem?_map, getElem?_eq_getElem (same ▸ before)]
    rfl
  rw [getElem?_take_of_lt before] at stands
  refine ⟨(done.get ⟨place, same ▸ before⟩).2, ?_, ?_⟩
  · rw [getElem?_map, getElem?_eq_getElem (same ▸ before)]
    rfl
  · rw [currentColour, standing.split, getElem?_append_left before, getElem?_eq_getElem before]
    simpa [stands] using own

lemma isTaken_eq (standing : Standing nodes front rest done indices)
    (inside : ∀ place ∈ earlier, place < front.length) :
    isTaken nodes indices colour earlier =
      some (decide (∃ place ∈ earlier, (done.map (·.2))[place]? = some colour)) := by
  induction earlier with
  | nil => simp [isTaken]
  | cons place earlier ih =>
    obtain ⟨here, later⟩ := forall_mem_cons.mp inside
    obtain ⟨other, own, current⟩ := standing.currentColour_eq here
    rw [isTaken, current]
    by_cases same : other = colour
    · simp [-getElem?_map, same, own]
    · simp [-getElem?_map, same, own, ih later]

variable (standing : Standing nodes front ((earlier, allowed) :: later) done indices)
include standing

lemma node_eq : nodes[front.length]? = some (earlier, allowed) := by
  rw [standing.split, getElem?_append_right le_rfl, Nat.sub_self, getElem?_cons_zero]

variable (here : indices[front.length]? = some index)
include here

lemma next (own : allowed[index]? = some colour) :
    Standing nodes (front ++ [(earlier, allowed)]) later (done ++ [(index, colour)]) indices where
  split := by simp [standing.split]
  picks := rel_append standing.picks (.cons own .nil)
  length := standing.length
  stands := by
    rw [length_append, length_singleton, take_add_one, here, standing.stands]
    simp

lemma tryColours_stuck (past : allowed.length ≤ index) :
    tryColours nodes front.length indices = goBack nodes front.length indices := by
  rw [tryColours, goBack]
  simp [standing.node_eq, here, Nat.not_lt.mpr past]

/-- One turn at a node that has a colour left. -/
lemma tryColours_turn (inside : ∀ place ∈ earlier, place < front.length)
    (own : allowed[index]? = some colour) :
    tryColours nodes front.length indices =
      if ∃ place ∈ earlier, (done.map (·.2))[place]? = some colour then
        tryColours nodes front.length (indices.set front.length (index + 1))
      else if later = [] then some (true, indices)
      else tryColours nodes (front.length + 1) (indices.set (front.length + 1) 0) := by
  have current : currentColour nodes indices front.length = some colour := by
    simp [currentColour, standing.node_eq, here, own]
  have below : index < allowed.length := (List.getElem?_eq_some_iff.mp own).1
  have more : front.length + 1 < nodes.length ↔ later ≠ [] := by
    rw [standing.split, length_append, length_cons, ← length_pos_iff]
    omega
  rw [tryColours]
  simp only [standing.node_eq, here, current, standing.isTaken_eq inside, below, more,
    Option.bind_eq_bind, Option.bind_some, if_true, decide_eq_true_eq, Option.pure_def, ite_not]

end Standing

/-- How the search goes on from a node, if the picks of the nodes before it stand: it ends with the
first selection, or there is none and it goes back. -/
inductive Ends (nodes front rest : List Task) (done : List (Nat × Nat))
    (index : Nat) : Option (Bool × List Nat) → Prop where
  | found (picks : List (Nat × Nat)) (first : SelectsFirst (done.map (·.2)) rest index picks) :
    Ends nodes front rest done index (some (true, (done ++ picks).map (·.1)))
  | back (kept : List Nat) (none : ∀ picks, ¬ Selects (done.map (·.2)) rest index picks)
    (standing : Standing nodes front rest done kept) :
    Ends nodes front rest done index (goBack nodes front.length kept)

lemma Ends.of_succ {result : Option (Bool × List Nat)} (own : allowed[index]? = some colour)
    (stuck : (∀ place ∈ earlier, (done.map (·.2))[place]? ≠ some colour) →
      ∀ others, ¬ Selects (done.map (·.2) ++ [colour]) later 0 others)
    (ends : Ends nodes front ((earlier, allowed) :: later) done (index + 1) result) :
    Ends nodes front ((earlier, allowed) :: later) done index result := by
  cases ends with
  | found picks first =>
    refine .found picks ⟨(selects_succ own stuck).mp first.toSelects, ?_⟩
    exact fun others selects => first.first others ((selects_succ own stuck).mpr selects)
  | back kept none standing =>
    exact .back kept (fun picks selects => none picks ((selects_succ own stuck).mpr selects)) standing

lemma tryColours_ends (ordered : Ordered nodes) (nonempty : rest ≠ [])
    (standing : Standing nodes front rest done indices)
    (here : indices[front.length]? = some index) :
    Ends nodes front rest done index (tryColours nodes front.length indices) := by
  induction rest generalizing front done indices index with
  | nil => exact absurd rfl nonempty
  | cons node later ih =>
    obtain ⟨earlier, allowed⟩ := node
    have inside := ordered _ _ standing.node_eq
    have room : front.length < nodes.length := by simp [standing.split]
    -- What is left of the colours of this node.
    induction left : allowed.length - index generalizing indices index with
    | zero =>
      have past : allowed.length ≤ index := Nat.le_of_sub_eq_zero left
      rw [standing.tryColours_stuck here past]
      refine .back indices (fun picks selects => ?_) standing
      obtain ⟨i, colour, -, -, after, own, -⟩ := selects_cons.mp selects
      exact absurd (List.getElem?_eq_some_iff.mp own).1 (Nat.not_lt.mpr (past.trans after))
    | succ left more =>
      have below : index < allowed.length := by omega
      obtain ⟨colour, own⟩ : ∃ colour, allowed[index]? = some colour :=
        ⟨_, getElem?_eq_getElem below⟩
      have advance {kept : List Nat}
          (same : Standing nodes front ((earlier, allowed) :: later) done kept) :=
        more (getElem?_set_self (by rw [same.length]; exact room)) (same.set le_rfl (index + 1))
          (by omega)
      rw [standing.tryColours_turn here inside own]
      split_ifs with taken last
      · obtain ⟨place, mem, same⟩ := taken
        exact (advance standing).of_succ own fun free => absurd same (free place mem)
      all_goals
        have free : ∀ place ∈ earlier, (done.map (·.2))[place]? ≠ some colour := by
          simpa only [not_exists, not_and] using taken
      · subst last
        have all : indices = (done ++ [(index, colour)]).map (·.1) := by
          rw [← (standing.next here own).stands, take_of_length_le]
          simp [standing.length, standing.split]
        rw [all]
        refine .found [(index, colour)] (.cons own free ⟨⟨.nil, rfl, by simp⟩, ?_⟩)
        rintro others - sooner
        simp at sooner
      · have next := standing.next here own
        have length : (front ++ [(earlier, allowed)]).length = front.length + 1 := by simp
        have start : (indices.set (front.length + 1) 0)[(front ++ [(earlier, allowed)]).length]? =
            some 0 := by
          rw [length, getElem?_set_self]
          have := length_pos_of_ne_nil last
          simp only [standing.length, standing.split, length_append, length_cons]
          omega
        have deeper := ih last (next.set length.le 0) start
        rw [length] at deeper
        generalize tryColours nodes (front.length + 1) (indices.set (front.length + 1) 0) = result at deeper
        cases deeper with
        | found picks first =>
          rw [append_assoc]
          refine .found _ (.cons own free ?_)
          rwa [map_append] at first
        | back kept none same =>
          obtain ⟨stands, current⟩ := same.previous
          rw [length, goBack, if_neg (Nat.succ_ne_zero _), Nat.add_sub_cancel, current]
          refine (advance stands).of_succ own fun _ others selects => none others ?_
          rwa [map_append]

lemma attempt_ends (ordered : Ordered nodes) (nonempty : nodes ≠ []) :
    (∃ picks, SelectsFirst [] nodes 0 picks ∧ attempt nodes = some (true, picks.map (·.1))) ∨
      (∀ colours, ¬ Fits [] nodes colours) ∧ ∃ indices, attempt nodes = some (false, indices) := by
  have start : Standing nodes [] nodes [] (replicate nodes.length 0) := ⟨rfl, .nil, by simp, by simp⟩
  have first : (replicate nodes.length 0)[0]? = some 0 := by
    simpa [getElem?_replicate] using nonempty
  have ends := tryColours_ends ordered nonempty start first
  rw [length_nil] at ends
  rw [attempt]
  generalize tryColours nodes 0 (replicate nodes.length 0) = result at ends ⊢
  cases ends with
  | found picks first => exact .inl ⟨picks, first, rfl⟩
  | back kept none =>
    refine .inr ⟨fun colours fits => ?_, kept, rfl⟩
    obtain ⟨picks, selects⟩ := exists_selects fits
    exact none picks selects

lemma coloursAt_picks (own : Picks nodes picks) :
    coloursAt nodes (picks.map (·.1)) = some (picks.map (·.2)) := by
  rw [coloursAt]
  induction own with
  | nil => rfl
  | cons own _ ih => simp [own, ih]

end

/-- The search ends, and reads no colour outside a list. It finds a choice exactly if there is one, and its
indices are then those of the first. -/
theorem attempt_first (nodes : List Task) (nonempty : nodes ≠ []) (ordered : Ordered nodes) :
    ∃ found indices, attempt nodes = some (found, indices) ∧
      (found = true ↔ ∃ colours, Fits [] nodes colours) ∧
      (found = true → ∃ picks, indices = picks.map (·.1) ∧ Picks nodes picks ∧
        Fits [] nodes (picks.map (·.2)) ∧ coloursAt nodes indices = some (picks.map (·.2)) ∧
        ∀ others, Picks nodes others → Fits [] nodes (others.map (·.2)) →
          ¬ List.Lex (· < ·) (others.map (·.1)) indices) := by
  rcases attempt_ends ordered nonempty with ⟨picks, first, done⟩ | ⟨none, indices, done⟩
  · refine ⟨true, _, done, ⟨fun _ => ⟨_, first.fits⟩, fun _ => rfl⟩, fun _ => ⟨picks, rfl, first.allowed,
      first.fits, coloursAt_picks first.allowed, fun others own fits => ?_⟩⟩
    exact first.first others ⟨own, fits, fun _ _ => Nat.zero_le _⟩
  · exact ⟨false, indices, done, ⟨nofun, fun ⟨colours, fits⟩ => absurd fits (none colours)⟩, nofun⟩

/-- The first two nodes are neighbours of the last, which is left without a colour at first. -/
theorem attempt_first_back : ∃ indices,
    attempt [([], [0, 1]), ([], [1, 0]), ([0, 1], [0, 1])] = some (true, indices) := by
  have ordered : Ordered [([], [0, 1]), ([], [1, 0]), ([0, 1], [0, 1])] := by
    rintro (_ | _ | _ | place) node own <;> simp at own <;> simp [← own]
  obtain ⟨found, indices, done, success, -⟩ :=
    attempt_first [([], [0, 1]), ([], [1, 0]), ([0, 1], [0, 1])] (by simp) ordered
  obtain rfl := success.mpr ⟨[0, 0, 1], by simp [Fits]⟩
  exact ⟨indices, done⟩

variable {count : Nat} {g : Graph} {vs clique : List Nat}

/-- A colouring of a set of vertices with the colours below `count`. -/
structure ProperOn (g : Graph) (vs : List Nat) (count : Nat) (colour : Nat → Nat) : Prop where
  bounded : ∀ v ∈ vs, colour v < count
  apart : ∀ u ∈ vs, ∀ v ∈ vs, g.Adjacent u v → colour u ≠ colour v

def ColourableOn (g : Graph) (vs : List Nat) (count : Nat) : Prop := ∃ colour, g.ProperOn vs count colour

lemma ColourableOn.mono {more : Nat} (le : count ≤ more) (colourable : g.ColourableOn vs count) :
    g.ColourableOn vs more := by
  obtain ⟨colour, proper⟩ := colourable
  exact ⟨colour, fun v mem => Nat.lt_of_lt_of_le (proper.bounded v mem) le, proper.apart⟩

lemma ColourableOn.subset {ws : List Nat} (colourable : g.ColourableOn ws count) (subset : ∀ v ∈ vs, v ∈ ws) :
    g.ColourableOn vs count := by
  obtain ⟨colour, proper⟩ := colourable
  exact ⟨colour, fun v mem => proper.bounded v (subset v mem),
    fun u first v second => proper.apart u (subset u first) v (subset v second)⟩

lemma colourableOn_length (g : Graph) (vs : List Nat) : g.ColourableOn vs vs.length := by
  refine ⟨vs.idxOf, fun v mem => idxOf_lt_length_of_mem mem, ?_⟩
  intro u first v _ edge same
  exact edge.1 ((idxOf_inj first).mp same)

lemma ProperOn.map_nodup (und : g.Undirected) {colour : Nat → Nat} (proper : g.ProperOn vs count colour)
    (isClique : g.CliqueIn vs clique) : (clique.map colour).Nodup := by
  refine List.Nodup.map_on ?_ isClique.distinct
  intro u first v second same
  by_contra different
  exact proper.apart u (isClique.subset u first) v (isClique.subset v second)
    (isClique.adjacent und first second different) same

lemma ColourableOn.clique_le (und : g.Undirected) (colourable : g.ColourableOn vs count)
    (isClique : g.CliqueIn vs clique) : clique.length ≤ count := by
  obtain ⟨colour, proper⟩ := colourable
  have bound : (clique.map colour).length ≤ count := by
    refine length_le_of_lt (proper.map_nodup und isClique) fun c mem => ?_
    obtain ⟨v, inClique, rfl⟩ := mem_map.mp mem
    exact proper.bounded v (isClique.subset v inClique)
  simpa using bound

/-- The colours are renamed by their places in a list of all colours that begins with the given ones. -/
lemma exists_renaming (count : Nat) (colours : List Nat) (distinct : colours.Nodup)
    (bounded : ∀ c ∈ colours, c < count) : ∃ rename : Nat → Nat, (∀ c < count, rename c < count) ∧
    (∀ c < count, ∀ d, rename c = rename d → c = d) ∧ ∀ i c, colours[i]? = some c → rename c = i := by
  let others := (List.range count).filter fun c => c ∉ colours
  have all : ∀ c < count, c ∈ colours ++ others := by
    intro c below
    by_cases own : c ∈ colours
    · exact mem_append_left _ own
    · exact mem_append_right _ (by simp [others, own, below])
  have length : (colours ++ others).length ≤ count := by
    apply length_le_of_lt
    · exact distinct.append (nodup_range.filter _) fun c own other => by simp [others, own] at other
    · exact forall_mem_append.mpr ⟨bounded, by simp +contextual [others]⟩
  refine ⟨(colours ++ others).idxOf, fun c below => ?_, fun c below d => ?_, fun i c found => ?_⟩
  · exact (idxOf_lt_length_of_mem (all c below)).trans_le length
  · exact (idxOf_inj (all c below)).mp
  · obtain ⟨inside, rfl⟩ := List.getElem?_eq_some_iff.mp found
    exact (idxOf_append_of_mem (getElem_mem inside)).trans (distinct.idxOf_getElem _ _)

lemma ColourableOn.normal (und : g.Undirected) (colourable : g.ColourableOn vs count)
    (isClique : g.CliqueIn vs clique) :
    ∃ colour, g.ProperOn vs count colour ∧ ∀ i v, clique[i]? = some v → colour v = i := by
  obtain ⟨colour, proper⟩ := colourable
  obtain ⟨rename, keeps, inj, places⟩ := exists_renaming count (clique.map colour)
    (proper.map_nodup und isClique) fun c mem => by
      obtain ⟨v, inClique, rfl⟩ := mem_map.mp mem
      exact proper.bounded v (isClique.subset v inClique)
  refine ⟨fun v => rename (colour v), ⟨?_, ?_⟩, ?_⟩
  · exact fun v mem => keeps _ (proper.bounded v mem)
  · intro u first v second edge same
    exact proper.apart u first v second edge (inj _ (proper.bounded u first) _ same)
  · intro i v found
    exact places i (colour v) (by simp [found])

namespace Order

def Open (g : Graph) (clique order : List Nat) (count v place colour : Nat) : Prop :=
  if place < clique.length then colour = place
  else colour < count ∧
    ∀ e ∈ (nodeAt g order v place).earlier, e < clique.length → e ≠ colour

def tasks (o : Order) (count : Nat) : List Task :=
  (o.nodes.map (·.earlier)).zip (o.allowed count)

lemma getElem?_tasks (g : Graph) (clique order : List Nat) (count i : Nat)
    (node : List Nat × List Nat) (found : ((ofOrder g clique order).tasks count)[i]? = some node) :
    ∃ v, order[i]? = some v ∧ node.1 = (nodeAt g order v i).earlier ∧
    ∀ colour, colour ∈ node.2 ↔ Open g clique order count v i colour := by
  have atNode : (ofOrder g clique order).nodes[i]? = (order[i]?).map fun v => nodeAt g order v i := by
    simp only [ofOrder, getElem?_map, getElem?_zipIdx]
    cases order[i]? <;> simp
  simp only [tasks, allowed, getElem?_zip_eq_some, getElem?_map, getElem?_zipIdx, atNode] at found
  cases here : order[i]? with
  | none => simp [here] at found
  | some v =>
    simp only [here, Option.map_some, Option.some.injEq, Nat.zero_add] at found
    obtain ⟨earlier, allowed⟩ := found
    refine ⟨v, rfl, earlier.symm, fun colour => ?_⟩
    rw [← allowed, Open, clique_ofOrder]
    split
    · simp
    · simp

@[simp] lemma length_tasks (g : Graph) (clique order : List Nat) (count : Nat) :
    ((ofOrder g clique order).tasks count).length = order.length := by
  simp [tasks, allowed]

lemma fits_tasks (g : Graph) (clique order : List Nat) (count : Nat) (colours : List Nat) :
    Fits [] ((ofOrder g clique order).tasks count) colours ↔ colours.length = order.length ∧
    ∀ i v colour, order[i]? = some v → colours[i]? = some colour → Open g clique order count v i colour ∧
    ∀ e ∈ (nodeAt g order v i).earlier, colours[e]? ≠ some colour := by
  rw [fits_iff, length_tasks]
  refine and_congr_right fun len => ⟨?_, ?_⟩
  · intro each i v colour atOrder atColours
    have inside : i < ((ofOrder g clique order).tasks count).length := by
      rw [length_tasks]
      exact (List.getElem?_eq_some_iff.mp atOrder).1
    obtain ⟨w, atOrder', earlier, allowed⟩ :=
      getElem?_tasks g clique order count i _ (getElem?_eq_getElem inside)
    obtain rfl : w = v := Option.some.inj (atOrder'.symm.trans atOrder)
    obtain ⟨mem, free⟩ := each i _ colour (getElem?_eq_getElem inside) atColours
    refine ⟨(allowed colour).mp mem, fun e isEarlier => ?_⟩
    have before := ((mem_earlier g order w i e).mp isEarlier).1
    have other := free e (earlier ▸ isEarlier)
    rwa [nil_append, getElem?_take_of_lt before] at other
  · intro each i node colour atTasks atColours
    obtain ⟨v, atOrder, earlier, allowed⟩ := getElem?_tasks g clique order count i node atTasks
    obtain ⟨open_, free⟩ := each i v colour atOrder atColours
    refine ⟨(allowed colour).mpr open_, fun e isEarlier => ?_⟩
    rw [earlier] at isEarlier
    have before := ((mem_earlier g order v i e).mp isEarlier).1
    rw [nil_append, getElem?_take_of_lt before]
    exact free e isEarlier

/-- The vertices of a set in order, those of a clique first. -/
structure Arranged (g : Graph) (vs clique order : List Nat) : Prop where
  undirected : g.Undirected
  distinct : vs.Nodup
  isClique : g.CliqueIn vs clique
  front : clique <+: order
  perm : order.Perm vs

lemma Arranged.fits_of_colourable {order : List Nat} (arranged : Arranged g vs clique order)
    (colourable : g.ColourableOn vs count) : ∃ colours, Fits [] ((ofOrder g clique order).tasks count) colours := by
  obtain ⟨und, nodup, isClique, front, perm⟩ := arranged
  obtain ⟨colour, proper, normal⟩ := colourable.normal und isClique
  have mem : ∀ {i v : Nat}, order[i]? = some v → v ∈ vs := fun found =>
    perm.mem_iff.mp (mem_of_getElem? found)
  have onClique : ∀ {i v : Nat}, order[i]? = some v → i < clique.length → colour v = i := by
    intro i v found inside
    refine normal i v ?_
    obtain ⟨rest, rfl⟩ := front
    rwa [getElem?_append_left inside] at found
  have different : ∀ {i v e u : Nat}, order[i]? = some v → order[e]? = some u → e < i →
      u ∈ g.row v → colour u ≠ colour v := by
    intro i v e u atI atE before edge
    have inside := (List.getElem?_eq_some_iff.mp atI).1
    have unequal := nodup_iff_getElem?_ne_getElem?.mp (perm.nodup_iff.mpr nodup) e i before
      inside
    have vertices : v ≠ u := fun same => unequal (by rw [atI, atE, same])
    exact proper.apart u (mem atE) v (mem atI) (Adjacent.symm und ⟨vertices, edge⟩)
  refine ⟨order.map colour, (fits_tasks g clique order count _).mpr ⟨by simp, ?_⟩⟩
  intro i v c atOrder atColours
  simp only [getElem?_map, atOrder, Option.map_some, Option.some.injEq] at atColours
  subst atColours
  refine ⟨?_, ?_⟩
  · rw [Open]
    split
    · rename_i inClique
      exact onClique atOrder inClique
    · refine ⟨proper.bounded v (mem atOrder), fun e isEarlier inClique => ?_⟩
      obtain ⟨before, u, atE, edge⟩ := (mem_earlier g order v i e).mp isEarlier
      rw [← onClique atE inClique]
      exact different atOrder atE before edge
  · intro e isEarlier
    obtain ⟨before, u, atE, edge⟩ := (mem_earlier g order v i e).mp isEarlier
    simpa [atE] using different atOrder atE before edge

lemma not_fits_of_empty (o : Order) (count : Nat) (empty : (o.allowed count).any isEmpty = true)
    (colours : List Nat) : ¬ Fits [] (o.tasks count) colours := by
  intro fits
  obtain ⟨len, each⟩ := (fits_iff _ _ _).mp fits
  obtain ⟨list, mem, isEmpty⟩ := any_eq_true.mp empty
  obtain ⟨i, inside, atAllowed⟩ := getElem_of_mem mem
  have sizes : o.nodes.length = (o.allowed count).length := by simp [allowed]
  have inTasks : i < (o.tasks count).length := by simpa [tasks, sizes] using inside
  have colour := getElem?_eq_getElem (len ▸ inTasks : i < colours.length)
  have allowed := (each i _ _ (getElem?_eq_getElem inTasks) colour).1
  simp only [tasks, getElem_zip, atAllowed, isEmpty_iff.mp isEmpty] at allowed
  cases allowed

private lemma filter_range_succ (earlier : List Nat) (size count : Nat) (enough : size ≤ count) :
    ((range (count + 1)).filter fun colour => !earlier.any fun e => decide (e < size) && e == colour) =
    ((range count).filter fun colour => !earlier.any fun e => decide (e < size) && e == colour) ++ [count] := by
  have free : (earlier.any fun e => decide (e < size) && e == count) = false := by
    rw [any_eq_false]
    intro e _
    have unequal : e < size → e ≠ count := by omega
    simpa using unequal
  rw [range_succ, filter_append, filter_singleton, free]
  rfl

lemma allowed_succ (o : Order) (count : Nat) (enough : o.clique.length ≤ count) :
    ((o.allowed count).zipIdx.map fun p =>
    if p.2 < o.clique.length then p.1 else p.1 ++ [count]) = o.allowed (count + 1) := by
  apply ext_getElem
  · simp [allowed]
  · intro i first second
    simp only [allowed, getElem_map, getElem_zipIdx, Nat.zero_add]
    split
    · rfl
    · exact (filter_range_succ _ _ _ enough).symm

section

variable {g : Graph} {vs clique order colours : List Nat} {suggested : Nat}

section

variable (arranged : Arranged g vs clique order)

include arranged

lemma Arranged.not_colourable (none : ∀ colours, ¬ Fits [] ((ofOrder g clique order).tasks count) colours) :
    ¬ g.ColourableOn vs count := by
  intro colourable
  obtain ⟨colours, fits⟩ := arranged.fits_of_colourable colourable
  exact none colours fits

lemma Arranged.lt_of_not_colourable (tooFew : ¬ g.ColourableOn vs count) :
    count < order.length ∧ ∀ more, g.ColourableOn vs more → count < more := by
  have below : ∀ more, g.ColourableOn vs more → count < more := by
    intro more colourable
    by_contra notLess
    exact tooFew (colourable.mono (Nat.le_of_not_lt notLess))
  refine ⟨?_, below⟩
  rw [arranged.perm.length_eq]
  exact below _ (colourableOn_length g vs)

lemma Arranged.budget_least (rounds count : Nat) (small : count ≤ order.length)
    (enough : order.length < rounds + count) :
    ∃ least, (ofOrder g clique order).budget rounds count = some least ∧ count ≤ least ∧
    least ≤ order.length ∧ ∀ more, g.ColourableOn vs more → least ≤ max count more := by
  induction rounds generalizing count with
  | zero => omega
  | succ rounds ih =>
    rw [budget, length_nodes_ofOrder, if_neg (by omega)]
    split
    · rename_i empty
      have tooFew := arranged.not_colourable (not_fits_of_empty _ count empty)
      obtain ⟨smaller, below⟩ := arranged.lt_of_not_colourable tooFew
      obtain ⟨least, equation, above, inside, minimal⟩ := ih (count + 1) (by omega) (by omega)
      refine ⟨least, equation, by omega, inside, fun more colourable => ?_⟩
      have bound := minimal more colourable
      have strict := below more colourable
      omega
    · exact ⟨count, rfl, Nat.le_refl _, small, fun more _ => Nat.le_max_left _ _⟩

lemma Arranged.attempts_least (rounds count : Nat) (nonempty : order ≠ []) (cliqueFits : clique.length ≤ count)
    (small : count ≤ order.length) (enough : rounds + count = order.length + 1) : ∃ colours least,
    (ofOrder g clique order).attempts rounds count ((ofOrder g clique order).allowed count) = some colours ∧
    Fits [] ((ofOrder g clique order).tasks least) colours ∧ count ≤ least ∧
    ∀ more, g.ColourableOn vs more → least ≤ max count more := by
  induction rounds generalizing count with
  | zero => omega
  | succ rounds ih =>
    have tasks : ((ofOrder g clique order).nodes.map (·.earlier)).zip
        ((ofOrder g clique order).allowed count) = (ofOrder g clique order).tasks count := rfl
    rw [attempts, tasks]
    have ordered : Ordered ((ofOrder g clique order).tasks count) := by
      intro place node own e earlier
      obtain ⟨v, -, same, -⟩ := getElem?_tasks g clique order count place node own
      exact ((mem_earlier g order v place e).mp (same ▸ earlier)).1
    have some : (ofOrder g clique order).tasks count ≠ [] := by
      have pos := length_pos_of_ne_nil nonempty
      simpa [← length_pos_iff, tasks, allowed] using pos
    rcases attempt_ends ordered some with ⟨picks, first, done⟩ | ⟨none, indices, done⟩
    · exact ⟨picks.map (·.2), count, by simp only [done, coloursAt_picks first.allowed], first.fits, Nat.le_refl _,
        fun more _ => Nat.le_max_left _ _⟩
    · have tooFew := arranged.not_colourable none
      obtain ⟨smaller, below⟩ := arranged.lt_of_not_colourable tooFew
      have more := ih (count + 1) (by omega) (by omega) (by omega)
      rw [← allowed_succ _ count (by simpa using cliqueFits)] at more
      simp only [done]
      obtain ⟨colours, least, equation, fits, above, minimal⟩ := more
      refine ⟨colours, least, equation, fits, by omega, fun more colourable => ?_⟩
      have bound := minimal more colourable
      have strict := below more colourable
      omega

lemma Arranged.fits_apart (fits : Fits [] ((ofOrder g clique order).tasks count) colours) :
    ∀ p ∈ order.zip colours, ∀ q ∈ order.zip colours, g.Adjacent p.1 q.1 → p.2 ≠ q.2 := by
  obtain ⟨-, each⟩ := (fits_tasks g clique order count colours).mp fits
  rintro ⟨u, a⟩ first ⟨v, b⟩ second edge
  obtain ⟨i, atI⟩ := getElem?_of_mem first
  obtain ⟨j, atJ⟩ := getElem?_of_mem second
  obtain ⟨vertexI, colourI⟩ := getElem?_zip_eq_some.mp atI
  obtain ⟨vertexJ, colourJ⟩ := getElem?_zip_eq_some.mp atJ
  rcases Nat.lt_trichotomy i j with before | same | after
  · have earlier := (mem_earlier g order v j i).mpr
      ⟨before, u, vertexI, arranged.undirected.mutual_row u v edge.2⟩
    intro eq
    exact (each j v b vertexJ colourJ).2 i earlier (colourI.trans (congrArg some eq))
  · subst same
    exact absurd (Option.some.inj (vertexI.symm.trans vertexJ)) edge.1
  · have earlier := (mem_earlier g order u i j).mpr ⟨after, v, vertexJ, edge.2⟩
    intro eq
    exact (each i u a vertexI colourI).2 j earlier (colourJ.trans (congrArg some eq.symm))

end

lemma fits_bounded (cliqueFits : clique.length ≤ count)
    (fits : Fits [] ((ofOrder g clique order).tasks count) colours) : ∀ p ∈ order.zip colours, p.2 < count := by
  obtain ⟨-, each⟩ := (fits_tasks g clique order count colours).mp fits
  rintro ⟨v, c⟩ mem
  obtain ⟨i, atI⟩ := getElem?_of_mem mem
  obtain ⟨vertex, colour⟩ := getElem?_zip_eq_some.mp atI
  have open_ := (each i v c vertex colour).1
  rw [Open] at open_
  split at open_
  · change c < count
    omega
  · exact open_.1

/-- A result: each vertex once, different colours on adjacent vertices, and no more colours than
were suggested or are needed. -/
structure Coloured (g : Graph) (vs : List Nat) (suggested : Nat) (pairs : List (Nat × Nat)) :
    Prop where
  vertices : (pairs.map (·.1)).Perm vs
  apart : ∀ p ∈ pairs, ∀ q ∈ pairs, g.Adjacent p.1 q.1 → p.2 ≠ q.2
  few : ∀ more, g.ColourableOn vs more → ∀ p ∈ pairs, p.2 < max suggested more

lemma Coloured.of_perm {pairs others : List (Nat × Nat)} (perm : pairs.Perm others)
    (coloured : Coloured g vs suggested others) : Coloured g vs suggested pairs where
  vertices := (perm.map _).trans coloured.vertices
  apart := fun p first q second =>
    coloured.apart p (perm.mem_iff.mp first) q (perm.mem_iff.mp second)
  few := fun more colourable p mem =>
    coloured.few more colourable p (perm.mem_iff.mp mem)

lemma Arranged.coloured_range (arranged : Arranged g vs clique order) (many : order.length ≤ suggested) :
    Coloured g vs suggested (order.zip (List.range order.length)) where
  vertices := by
    rw [map_fst_zip (by simp)]
    exact arranged.perm
  apart := by
    rintro ⟨u, a⟩ first ⟨v, b⟩ second edge eq
    obtain ⟨i, atI⟩ := getElem?_of_mem first
    obtain ⟨j, atJ⟩ := getElem?_of_mem second
    obtain ⟨vertexI, colourI⟩ := getElem?_zip_eq_some.mp atI
    obtain ⟨vertexJ, colourJ⟩ := getElem?_zip_eq_some.mp atJ
    obtain ⟨_, rfl⟩ := List.getElem?_eq_some_iff.mp colourI
    obtain ⟨_, rfl⟩ := List.getElem?_eq_some_iff.mp colourJ
    simp only [getElem_range] at eq
    subst eq
    exact edge.1 (Option.some.inj (vertexI.symm.trans vertexJ))
  few := by
    rintro more _ ⟨v, c⟩ mem
    have below := mem_range.mp (of_mem_zip mem).2
    exact Nat.lt_of_lt_of_le (Nat.lt_of_lt_of_le below many) (Nat.le_max_left _ _)

lemma Arranged.colours_coloured (arranged : Arranged g vs clique order) (suggested : Nat)
    (cliqueFits : clique.length ≤ suggested) :
    ∃ pairs, (ofOrder g clique order).colours suggested = .ok pairs ∧ Coloured g vs suggested pairs := by
  simp only [colours, length_nodes_ofOrder, map_vertex_ofOrder, clique_ofOrder, Nat.max_eq_left cliqueFits]
  by_cases many : order.length ≤ suggested
  · rw [if_pos many]
    exact ⟨_, rfl, (arranged.coloured_range many).of_perm (mergeSort_perm _ _)⟩
  · rw [if_neg many]
    obtain ⟨start, budget, above, inside, startMinimal⟩ :=
      arranged.budget_least (order.length + 1) suggested (by omega) (by omega)
    obtain ⟨colours, least, attempts, fits, aboveStart, minimal⟩ :=
      arranged.attempts_least (order.length + 1 - start) start (ne_nil_of_length_pos (by omega))
        (by omega) inside (by omega)
    simp only [budget, attempts]
    refine ⟨_, rfl, Coloured.of_perm (mergeSort_perm _ _) ⟨?_, ?_, ?_⟩⟩
    · have len := ((fits_tasks g clique order least _).mp fits).1
      rw [map_fst_zip (Nat.le_of_eq len.symm)]
      exact arranged.perm
    · exact arranged.fits_apart fits
    · intro more colourable p mem
      have below := fits_bounded (by omega) fits p mem
      have first := startMinimal more colourable
      have second := minimal more colourable
      omega

end

end Order

variable {g : Graph} {done : List Nat} {p : Progress} (index : Nat)

/-- What is known when the vertices `done` have their colours. -/
structure Advanced (g : Graph) (done : List Nat) (p : Progress) : Prop where
  size : p.colours.length = g.size
  some_of_mem : ∀ v ∈ done, ∃ c, p.colours[v]? = some (some c)
  none_of_not_mem : ∀ v < g.size, v ∉ done → p.colours[v]? = some none
  below : ∀ v c : Nat, p.colours[v]? = some (some c) → c < p.count
  apart : ∀ u v a b : Nat, p.colours[u]? = some (some a) → p.colours[v]? = some (some b) →
    g.Adjacent u v → a ≠ b
  least : ∀ more, g.ColourableOn (range g.size) more → p.count ≤ more

lemma advanced_start (g : Graph) : g.Advanced [] ⟨0, replicate g.size none⟩ where
  size := by simp
  some_of_mem := by simp
  none_of_not_mem := by
    intro v inside _
    simp [inside]
  below := by
    intro v c found
    simp [getElem?_replicate] at found
  apart := by
    intro u v a b found
    simp [getElem?_replicate] at found
  least := fun more _ => Nat.zero_le more

lemma assignIn_eq (p : Progress) (v colour : Nat) (uncoloured : p.colours[v]? = some none) :
    p.assignIn index (v, colour) = .ok ⟨max p.count (colour + 1), p.colours.set v (some colour)⟩ := by
  rw [Progress.assignIn, Progress.assign, uncoloured]

lemma assign_all (pairs : List (Nat × Nat)) (p : Progress) (distinct : (pairs.map (·.1)).Nodup)
    (uncoloured : ∀ v ∈ pairs.map (·.1), p.colours[v]? = some none) :
    ∃ q : Progress, pairs.foldlM (Progress.assignIn index) p = .ok q ∧ q.colours.length = p.colours.length ∧
    (∀ pair ∈ pairs, q.colours[pair.1]? = some (some pair.2) ∧ pair.2 < q.count) ∧
    (∀ v, v ∉ pairs.map (·.1) → q.colours[v]? = p.colours[v]?) ∧ p.count ≤ q.count ∧
    ∀ more, p.count ≤ more → (∀ pair ∈ pairs, pair.2 < more) → q.count ≤ more := by
  induction pairs generalizing p with
  | nil => exact ⟨p, rfl, rfl, by simp, by simp, Nat.le_refl _, fun _ le _ => le⟩
  | cons pair pairs ih =>
    obtain ⟨v, colour⟩ := pair
    simp only [map_cons, nodup_cons] at distinct
    obtain ⟨fresh, distinct⟩ := distinct
    have here := assignIn_eq index p v colour (uncoloured v (by simp))
    obtain ⟨q, equation, length, coloured, others, above, minimal⟩ :=
      ih ⟨max p.count (colour + 1), p.colours.set v (some colour)⟩ distinct fun u mem => by
        have different : v ≠ u := fun same => fresh (same ▸ mem)
        rw [getElem?_set_ne different]
        exact uncoloured u (mem_cons_of_mem v mem)
    have inside : v < p.colours.length :=
      (List.getElem?_eq_some_iff.mp (uncoloured v (by simp))).1
    refine ⟨q, ?_, by simpa using length, ?_, ?_, ?_, ?_⟩
    · simpa only [foldlM_cons, here, bind, Except.bind] using equation
    · intro pair mem
      rcases mem_cons.mp mem with rfl | mem
      · refine ⟨?_, Nat.lt_of_lt_of_le ?_ above⟩
        · rw [others v fresh]
          exact getElem?_set_self inside
        · exact Nat.lt_of_lt_of_le (Nat.lt_succ_self colour) (Nat.le_max_right _ _)
      · exact coloured pair mem
    · intro u outside
      simp only [map_cons, mem_cons, not_or] at outside
      rw [others u outside.2, getElem?_set_ne (Ne.symm outside.1)]
    · exact Nat.le_trans (Nat.le_max_left _ _) above
    · intro more le all
      refine minimal more (Nat.max_le.mpr ⟨le, ?_⟩) fun pair mem =>
        all pair (mem_cons_of_mem _ mem)
      exact all (v, colour) (by simp)

structure Part.Sound (g : Graph) (part : Part) : Prop where
  component : g.Component part.vertices
  clique : g.CliqueIn part.vertices part.clique

lemma Advanced.step (und : g.Undirected) (advanced : g.Advanced done p) {part : Part} (sound : part.Sound g)
    (fresh : List.Disjoint done part.vertices) :
    ∃ q, g.colourPart p part = .ok q ∧ g.Advanced (done ++ part.vertices) q := by
  obtain ⟨order, ofComponent, front, perm⟩ := Order.ofComponent_eq sound.component sound.clique
  obtain ⟨pairs, colours, coloured⟩ := Order.Arranged.colours_coloured
    ⟨und, sound.component.distinct, sound.clique, front, perm⟩
    (max p.count part.clique.length) (Nat.le_max_right _ _)
  have inPart : ∀ v, v ∈ pairs.map (·.1) ↔ v ∈ part.vertices := fun v =>
    coloured.vertices.mem_iff
  obtain ⟨q, assigned, length, onPart, others, above, minimal⟩ := assign_all part.index pairs
    ⟨max p.count part.clique.length, p.colours⟩
    (coloured.vertices.nodup_iff.mpr sound.component.distinct) fun v mem => by
      have vertex := (inPart v).mp mem
      exact advanced.none_of_not_mem v (sound.component.inside v vertex) fun old =>
        fresh old vertex
  -- A coloured vertex is one of the part, with a colour just found, or one from before.
  have origin : ∀ v c, q.colours[v]? = some (some c) →
      (v, c) ∈ pairs ∨ (v ∉ part.vertices ∧ p.colours[v]? = some (some c)) := by
    intro v c found
    by_cases vertex : v ∈ part.vertices
    · obtain ⟨pair, mem, rfl⟩ := mem_map.mp ((inPart v).mpr vertex)
      have here := (onPart pair mem).1
      obtain rfl : pair.2 = c := by simpa using here.symm.trans found
      exact .inl mem
    · rw [others v fun mem => vertex ((inPart v).mp mem)] at found
      exact .inr ⟨vertex, found⟩
  have subset : ∀ v ∈ part.vertices, v ∈ range g.size := fun v mem =>
    mem_range.mpr (sound.component.inside v mem)
  have vertexOf : ∀ {pair}, pair ∈ pairs → pair.1 ∈ part.vertices := fun mem =>
    (inPart _).mp (mem_map_of_mem mem)
  refine ⟨q, ?_, ?_⟩
  · simp only [colourPart, ofComponent, colours, bind, Except.bind]
    exact assigned
  constructor
  · exact length.trans advanced.size
  · intro v mem
    by_cases vertex : v ∈ part.vertices
    · obtain ⟨pair, inPairs, rfl⟩ := mem_map.mp ((inPart v).mpr vertex)
      exact ⟨pair.2, (onPart pair inPairs).1⟩
    · have old := (mem_append.mp mem).resolve_right vertex
      rw [others v fun mem => vertex ((inPart v).mp mem)]
      exact advanced.some_of_mem v old
  · intro v inside outside
    simp only [mem_append, not_or] at outside
    rw [others v fun mem => outside.2 ((inPart v).mp mem)]
    exact advanced.none_of_not_mem v inside outside.1
  · intro v c found
    rcases origin v c found with new | ⟨_, old⟩
    · exact (onPart _ new).2
    · exact Nat.lt_of_lt_of_le (advanced.below v c old)
        (Nat.le_trans (Nat.le_max_left _ _) above)
  · intro u v a b first second edge
    rcases origin u a first with newU | ⟨outU, oldU⟩
    · rcases origin v b second with newV | ⟨outV, _⟩
      · exact coloured.apart _ newU _ newV edge
      · exact absurd (sound.component.closed u (vertexOf newU) v edge.2) outV
    · rcases origin v b second with newV | ⟨_, oldV⟩
      · exact absurd (sound.component.closed v (vertexOf newV) u (edge.symm und).2) outU
      · exact advanced.apart u v a b oldU oldV edge
  · intro more colourable
    have onlyPart := colourable.subset subset
    have suggested : max p.count part.clique.length ≤ more :=
      Nat.max_le.mpr ⟨advanced.least more colourable, onlyPart.clique_le und sound.clique⟩
    refine minimal more suggested fun pair mem => ?_
    have few := coloured.few more onlyPart pair mem
    rwa [Nat.max_eq_right suggested] at few

lemma Advanced.run (und : g.Undirected)
    (advanced : g.Advanced done p) (parts : List Part) (sound : ∀ part ∈ parts, part.Sound g)
    (apart : parts.Pairwise fun a b => List.Disjoint a.vertices b.vertices)
    (fresh : ∀ part ∈ parts, List.Disjoint done part.vertices) : ∃ q, parts.foldlM g.colourPart p = .ok q ∧
    g.Advanced (done ++ parts.flatMap (·.vertices)) q := by
  induction parts generalizing done p with
  | nil => exact ⟨p, rfl, by simpa using advanced⟩
  | cons part parts ih =>
    obtain ⟨first, apart⟩ := pairwise_cons.mp apart
    obtain ⟨middle, here, advanced⟩ :=
      advanced.step und (sound part (by simp)) (fresh part (by simp))
    obtain ⟨q, later, advanced⟩ := ih advanced
      (fun other mem => sound other (mem_cons_of_mem _ mem)) apart
      (fun other mem v seen vertex => by
        rcases mem_append.mp seen with old | new
        · exact fresh other (mem_cons_of_mem _ mem) old vertex
        · exact first other mem new vertex)
    refine ⟨q, ?_, by simpa using advanced⟩
    simpa only [foldlM_cons, here, bind, Except.bind] using later

lemma part_eq {vs : List Nat} (component : g.Component vs) (index : Nat) :
    ∃ clique, g.part vs index = .ok ⟨index, vs, clique⟩ ∧ g.CliqueIn vs clique := by
  obtain ⟨found, _, equation, grown, -⟩ :=
    largeCliques_grown component.nonempty component.distinct component.inside component.closed cliqueLimit
  obtain ⟨clique, others, sets⟩ := exists_cons_of_ne_nil grown.present
  refine ⟨clique, ?_, (grown.cliques clique (by simp [sets])).1⟩
  simp only [part, equation, bind, Except.bind, sets]
  rfl

lemma mapM_part (components : List (List Nat)) (all : ∀ vs ∈ components, g.Component vs) (start : Nat) :
    ∃ parts, (components.zipIdx start).mapM (fun p => g.part p.1 p.2) = .ok parts ∧
    parts.map (·.vertices) = components ∧ ∀ part ∈ parts, part.Sound g := by
  induction components generalizing start with
  | nil => exact ⟨[], rfl, rfl, by simp⟩
  | cons vs components ih =>
    have here := all vs (by simp)
    obtain ⟨clique, first, isClique⟩ := part_eq here start
    obtain ⟨parts, rest, vertices, sound⟩ :=
      ih (fun ws mem => all ws (mem_cons_of_mem _ mem)) (start + 1)
    refine ⟨⟨start, vs, clique⟩ :: parts, ?_, by simp [vertices], ?_⟩
    · rw [zipIdx_cons, mapM_cons]
      simp only [first, rest, bind, Except.bind, pure, Except.pure]
    · intro part mem
      rcases mem_cons.mp mem with rfl | mem
      · exact ⟨here, isClique⟩
      · exact sound part mem

lemma Advanced.finish (advanced : g.Advanced done p) (all : ∀ v < g.size, v ∈ done) :
    ∃ c, p.finish = .ok c ∧ c.colours.map some = p.colours := by
  have enough := advanced.least _ (colourableOn_length g (List.range g.size))
  have each : ∀ x ∈ p.colours.zipIdx, ∃ c, x.1 = some c ∧ c < p.colours.length := by
    rintro ⟨colour, v⟩ mem
    have found := mem_zipIdx_iff_getElem?.mp mem
    have inside := (List.getElem?_eq_some_iff.mp found).1
    rw [advanced.size] at inside
    obtain ⟨c, coloured⟩ := advanced.some_of_mem v (all v inside)
    have below := advanced.below v c coloured
    rw [length_range] at enough
    refine ⟨c, Option.some.inj (found.symm.trans coloured), ?_⟩
    rw [advanced.size]
    omega
  have values : p.colours.zipIdx.mapM (fun x => p.final x.1 x.2) = .ok (p.colours.zipIdx.map fun x => x.1.getD 0) := by
    apply mapM_ok
    intro x mem
    obtain ⟨c, colour, below⟩ := each x mem
    simp [Progress.final, colour, below]
  refine ⟨⟨p.colours.zipIdx.map fun x => x.1.getD 0⟩, ?_, ?_⟩
  · simp only [Progress.finish]
    rw [values]
    rfl
  · rw [map_map]
    calc
      p.colours.zipIdx.map (some ∘ fun x => x.1.getD 0) = p.colours.zipIdx.map (·.1) := by
        apply map_congr_left
        intro x mem
        obtain ⟨c, colour, _⟩ := each x mem
        simp [colour]
      _ = p.colours := zipIdx_map_fst 0 p.colours

lemma Colouring.count_le_iff (c : Colouring) (bound : Nat) :
    c.count ≤ bound ↔ ∀ colour ∈ c.colours, colour < bound := by
  simp [count, foldl_max_le_iff]

lemma Colouring.lt_count (c : Colouring) {colour : Nat} (mem : colour ∈ c.colours) : colour < c.count :=
  (c.count_le_iff c.count).mp (Nat.le_refl _) colour mem

def simple (g : Graph) : SimpleGraph (Fin g.size) :=
  SimpleGraph.fromRel fun u v => v.val ∈ g.row u.val

lemma simple_adj (und : g.Undirected) (u v : Fin g.size) : g.simple.Adj u v ↔ g.Adjacent u v := by
  rw [simple, SimpleGraph.fromRel_adj, Adjacent, Ne, Fin.ext_iff]
  constructor
  · rintro ⟨different, edge | edge⟩
    · exact ⟨different, edge⟩
    · exact ⟨different, und.mutual_row _ _ edge⟩
  · exact fun ⟨different, edge⟩ => ⟨different, .inl edge⟩

lemma colorable_iff (und : g.Undirected) (count : Nat) :
    g.simple.Colorable count ↔ g.ColourableOn (range g.size) count := by
  constructor
  · rintro ⟨colouring⟩
    refine ⟨fun v => if inside : v < g.size then (colouring ⟨v, inside⟩).val else 0, ?_, ?_⟩
    · intro v mem
      have inside := mem_range.mp mem
      simp [inside]
    · intro u first v second edge
      have insideU := mem_range.mp first
      have insideV := mem_range.mp second
      have valid := colouring.valid ((simple_adj und ⟨u, insideU⟩ ⟨v, insideV⟩).mpr edge)
      simpa [insideU, insideV, Fin.ext_iff] using valid
  · rintro ⟨colour, proper⟩
    refine ⟨SimpleGraph.Coloring.mk
      (fun v => ⟨colour v, proper.bounded v (mem_range.mpr v.isLt)⟩) ?_⟩
    intro u v edge
    rw [Ne, Fin.ext_iff]
    exact proper.apart u (mem_range.mpr u.isLt) v (mem_range.mpr v.isLt)
      ((simple_adj und u v).mp edge)

lemma colouring_advanced (und : g.Undirected) {arrange : List Part → List Part}
    (same : ∀ parts, (arrange parts).Perm parts) :
    ∃ c done p, g.colouringBy arrange = .ok c ∧ c.colours.map some = p.colours ∧ g.Advanced done p := by
  obtain ⟨whole, disjoint, cover, -⟩ := components_spec und
  obtain ⟨parts, equation, vertices, sound⟩ := mapM_part g.components whole 0
  have perm := same parts
  have apart : parts.Pairwise fun a b => List.Disjoint a.vertices b.vertices := by
    rw [← pairwise_map, vertices]
    exact disjoint
  obtain ⟨p, run, advanced⟩ := (advanced_start g).run und _
    (fun part mem => sound part (perm.mem_iff.mp mem))
    (perm.symm.pairwise apart fun disjoint => disjoint.symm)
    (fun part mem => disjoint_nil_left _)
  obtain ⟨c, finished, colours⟩ := advanced.finish fun v inside => by
    obtain ⟨vs, mem, vertex⟩ := cover v inside
    rw [← vertices] at mem
    obtain ⟨part, inParts, rfl⟩ := mem_map.mp mem
    exact mem_flatMap.mpr ⟨part, perm.mem_iff.mpr inParts, vertex⟩
  refine ⟨c, _, p, ?_, colours, advanced⟩
  have whole : g.colourParts arrange = .ok c := by
    simp only [colourParts, equation, bind, Except.bind]
    rw [run]
    exact finished
  rw [colouringBy, whole]

/-- Every graph gets a colouring, in whichever order its components come: each vertex a colour below
the number of colours, adjacent vertices different ones, and no proper colouring uses fewer colours. -/
theorem colouring_chromatic (g : Graph) (und : g.Undirected) (arrange : List Part → List Part)
    (same : ∀ parts, (arrange parts).Perm parts) :
    ∃ c, g.colouringBy arrange = .ok c ∧ c.colours.length = g.size ∧
      (∀ v < g.size, ∃ colour, c.colours[v]? = some colour ∧ colour < c.count) ∧
      (∀ u v a b : Nat, u ≠ v → v ∈ g.row u → c.colours[u]? = some a → c.colours[v]? = some b →
        a ≠ b) ∧
      g.simple.chromaticNumber = c.count := by
  obtain ⟨c, done, p, equation, colours, advanced⟩ := colouring_advanced und same
  have length : c.colours.length = g.size := by
    rw [← advanced.size, ← colours, List.length_map]
  have colourOf : ∀ v colour : Nat, c.colours[v]? = some colour →
      p.colours[v]? = some (some colour) := by
    intro v colour found
    rw [← colours, List.getElem?_map, found]
    rfl
  have apart : ∀ u v a b : Nat, u ≠ v → v ∈ g.row u → c.colours[u]? = some a →
      c.colours[v]? = some b → a ≠ b := by
    intro u v a b different edge first second
    exact advanced.apart u v a b (colourOf u a first) (colourOf v b second) ⟨different, edge⟩
  have bounded : ∀ v < g.size, ∃ colour, c.colours[v]? = some colour ∧ colour < c.count := by
    intro v inside
    rw [← length] at inside
    exact ⟨_, List.getElem?_eq_getElem inside, c.lt_count (List.getElem_mem inside)⟩
  refine ⟨c, equation, length, bounded, apart, le_antisymm ?_ ?_⟩
  · rw [SimpleGraph.chromaticNumber_le_iff_colorable, colorable_iff und]
    refine ⟨fun v => (c.colours[v]?).getD 0, ?_, ?_⟩
    · intro v member
      obtain ⟨colour, found, below⟩ := bounded v (List.mem_range.mp member)
      simpa [found] using below
    · intro u first v second edge
      obtain ⟨a, foundA, _⟩ := bounded u (List.mem_range.mp first)
      obtain ⟨b, foundB, _⟩ := bounded v (List.mem_range.mp second)
      simpa [foundA, foundB] using apart u v a b edge.1 edge.2 foundA foundB
  · rw [SimpleGraph.le_chromaticNumber_iff_colorable]
    intro more colorable
    have colourable := (colorable_iff und more).mp colorable
    refine (c.count_le_iff more).mpr fun colour member => ?_
    obtain ⟨v, found⟩ := List.getElem?_of_mem member
    exact Nat.lt_of_lt_of_le (advanced.below v colour (colourOf v colour found))
      (advanced.least more colourable)

def cycleAndMore : Graph :=
  ofEntries [(0, [1, 4]), (1, [2]), (2, [3]), (3, [4]), (5, [5, 6])] 8

theorem colouring_chromatic_cycle :
    cycleAndMore.colouring = .ok ⟨[0, 1, 0, 2, 1, 0, 1, 0]⟩ ∧
      cycleAndMore.simple.chromaticNumber = 3 := by
  have computed : cycleAndMore.colouring = .ok ⟨[0, 1, 0, 2, 1, 0, 1, 0]⟩ := by
    cbv
  obtain ⟨c, equation, -, -, -, number⟩ :=
    colouring_chromatic cycleAndMore (ofEntries_undirected _ _) byClique fun _ => mergeSort_perm _ _
  obtain rfl : c = ⟨[0, 1, 0, 2, 1, 0, 1, 0]⟩ := Except.ok.inj (equation.symm.trans computed)
  exact ⟨computed, number⟩

end CircuitWorks.Graph
