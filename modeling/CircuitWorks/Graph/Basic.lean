import CircuitWorks.Problem

/-!
Undirected graphs as ascending lists of neighbours, their components and large cliques, and the order in
which a component is coloured: a clique first, then the vertices one step away, and so on. Complete graphs
are given by their vertices alone.
-/

namespace CircuitWorks

def insertAscending (v : Nat) : List Nat → List Nat
  | [] => [v]
  | u :: us => if v < u then v :: u :: us else if v = u then u :: us else u :: insertAscending v us

theorem mem_insertAscending (u v : Nat) (us : List Nat) :
    u ∈ insertAscending v us ↔ u = v ∨ u ∈ us := by
  induction us with
  | nil => simp [insertAscending]
  | cons w us ih =>
    rw [insertAscending]
    split
    · simp
    · split
      · rename_i eq
        subst eq
        simp
      · rw [List.mem_cons, ih, List.mem_cons, or_left_comm]

def ascending (vs : List Nat) : List Nat := vs.foldl (fun us v => insertAscending v us) []

structure Graph where
  rows : List (List Nat)
  deriving DecidableEq, Repr

namespace Graph

inductive Error where
  | vertex (v size : Nat)
  | pair (i j size : Nat)
  | adding (cause : Error)
  | loop (v size : Nat)
  | neighbour (v j size : Nat)
  | cliqueVertex (v : Nat)
  | unevenOrder
  | order (clique component size filled : Nat) (cause : Error)
  | budget | exhausted
  | colouring (suggested reached nodes : Nat) (cause : Error) (listing : String)
  | noClique (index size : Nat)
  | illegalVertex
  | coloured (colour : Nat)
  | assigning (index v colour : Nat) (cause : Error)
  | illegalColour (v colour : Nat)
  | whole (components size : Nat) (cause : Error)
  deriving DecidableEq, Repr

def Error.message : Error → String
  | .vertex v size =>
    s!"AdjacencyData: get_neighbours called with invalid vertex {v}; there are only {size} vertices"
  | .pair i j size =>
    s!"AdjacencyData: edge_exists called with vertices {i}, {j}, but there are only {size} vertices"
  | .adding cause => "add_edge : " ++ cause.message
  | .loop v size => s!"AdjacencyData: we have {size} vertices: vertex {v} has a loop."
  | .neighbour v j size =>
    s!"AdjacencyData: we have {size} vertices: vertex {v} has illegal neighbour vertex {j}"
  | .cliqueVertex v => s!"initial clique vertex {v} is not in this component"
  | .unevenOrder =>
    "Final size check: number of filled nodes does not match number of vertices in this component"
  | .order clique component size filled cause =>
    s!"ColouringPriority: fill_initial_node_sequence: initial clique size {clique}, {component} " ++
      s!"vertices in this component (full graph has {size} vertices). So far, filled {filled} " ++
      "nodes. Error: " ++ cause.message
  | .budget => "initial_colouring_setup failed"
  | .exhausted => "suggested_number_of_colours hit number_of_nodes"
  | .colouring suggested reached nodes cause listing =>
    s!"BruteForceColouring: initial_suggested_number_of_colours = {suggested}, reached " ++
      s!"suggested_number_of_colours = {reached}, had {nodes} nodes. Error: " ++ cause.message ++
      listing
  | .noClique index size =>
    s!"component {index} has {size} vertices, but couldn't find a clique!"
  | .illegalVertex => "illegal vertex index"
  | .coloured colour => s!"colour already assigned! Existing colour {colour}"
  | .assigning index v colour cause =>
    s!"colouring single component {index} returned vertex {v} with colour {colour} : " ++
      cause.message
  | .illegalColour v colour => s!"vertex {v} has unassigned or illegal colour {colour}"
  | .whole components size cause =>
    s!"GraphColouringRoutines::get_colouring: we had {components} connected components, {size} " ++
      "vertices in total: " ++ cause.message

instance : HasProblem Error := ⟨fun e => { fault := .computation, message := some e.message }⟩

def ofSize (size : Nat) : Graph := ⟨List.replicate size []⟩

def size (g : Graph) : Nat := g.rows.length

def row (g : Graph) (v : Nat) : List Nat := g.rows.getD v []

def neighbours (g : Graph) (v : Nat) : Except Error (List Nat) :=
  if v < g.size then .ok (g.row v) else .error (.vertex v g.size)

def hasEdge (g : Graph) (i j : Nat) : Except Error Bool :=
  if i < g.size ∧ j < g.size then .ok ((g.row i).contains j) else .error (.pair i j g.size)

def join (g : Graph) (i j : Nat) : Graph :=
  ⟨(g.rows.modify i (insertAscending j)).modify j (insertAscending i)⟩

def addEdge (g : Graph) (i j : Nat) : Except Error (Graph × Bool) :=
  match g.hasEdge i j with
  | .error e => .error (.adding e)
  | .ok true => .ok (g, false)
  | .ok false => .ok (g.join i j, true)

/-- A loop counts once. -/
def edgeCount (g : Graph) : Nat :=
  let degrees := g.rows.foldr (fun row n => row.length + n) 0
  let loops := (g.rows.zipIdx.filter fun (row, v) => row.contains v).length
  loops + (degrees - loops) / 2

def ofEntries (entries : List (Nat × List Nat)) (least : Nat) : Graph :=
  let size := entries.foldl (fun n (v, js) => js.foldl (fun n j => max n (j + 1)) (max n (v + 1)))
    least
  entries.foldl (fun g (v, js) => js.foldl (fun g j => g.join v j) g) (ofSize size)

def ofLists (lists : List (List Nat)) (loops : Bool) : Except Error Graph :=
  let size := lists.length
  lists.zipIdx.foldlM (fun g (js, i) => js.foldlM (fun g j =>
    if i = j ∧ loops = false then .error (.loop i size)
    else if j > size then .error (.neighbour i j size)
    else .ok (g.join i j)) g) (ofSize size)

def listingLine (v : Nat) (js : List Nat) : String :=
  s!"\n    \x7b {v}, \x7b " ++ String.join (js.map fun j => s!"{j}, ") ++ "\x7d \x7d,"

def text (g : Graph) : String :=
  s!"\nThere are {g.size} vertices in total.\nVertex neighbours:\n\x7b" ++
    String.join (g.rows.zipIdx.filterMap fun (row, v) =>
      match row.filter (v ≤ ·) with
      | [] => none
      | js => some (listingLine v js)) ++ "\n\x7d\n"

/-- The vertices still to examine, with the next one first, and those that were seen. -/
def see (found : List Nat × List Nat) (v : Nat) : List Nat × List Nat :=
  if found.2.contains v then found else (v :: found.1, insertAscending v found.2)

def unseen (g : Graph) (seen : List Nat) : Nat := g.rows.flatten.countP (· ∉ seen)

theorem row_subset (g : Graph) (v : Nat) : g.row v ⊆ g.rows.flatten := by
  intro u mem
  rw [row, List.getD_eq_getElem?_getD] at mem
  cases own : g.rows[v]? with
  | none => simp [own] at mem
  | some row => exact List.mem_flatten.mpr ⟨row, List.mem_of_getElem? own, by simpa [own] using mem⟩

theorem countP_insertAscending_lt {v : Nat} {seen vs : List Nat} (fresh : v ∉ seen) (mem : v ∈ vs) :
    vs.countP (· ∉ insertAscending v seen) < vs.countP (· ∉ seen) := by
  induction vs with
  | nil => cases mem
  | cons u vs ih =>
    have weaker : vs.countP (· ∉ insertAscending v seen) ≤ vs.countP (· ∉ seen) :=
      List.countP_mono_left fun w _ out => by
        simp only [mem_insertAscending, decide_eq_true_eq, not_or] at out ⊢
        exact out.2
    rcases List.mem_cons.mp mem with rfl | later
    · rw [List.countP_cons_of_neg (p := (· ∉ insertAscending v seen)) (by simp [mem_insertAscending]),
        List.countP_cons_of_pos (by simpa using fresh)]
      exact Nat.lt_succ_of_le weaker
    · rw [List.countP_cons, List.countP_cons]
      refine Nat.add_lt_add_of_lt_of_le (ih later) ?_
      simp only [mem_insertAscending]
      split <;> simp_all

/-- A vertex that is noted is one fewer of those not seen. -/
theorem unseen_foldl_see (g : Graph) {vs : List Nat} (known : vs ⊆ g.rows.flatten)
    (found : List Nat × List Nat) :
    g.unseen (vs.foldl see found).2 + (vs.foldl see found).1.length ≤
      g.unseen found.2 + found.1.length := by
  induction vs generalizing found with
  | nil => exact Nat.le_refl _
  | cons v vs ih =>
    obtain ⟨here, later⟩ := List.cons_subset.mp known
    refine Nat.le_trans (ih later (see found v)) ?_
    rw [see]
    split
    · exact Nat.le_refl _
    · rename_i fresh
      have less := countP_insertAscending_lt (by simpa using fresh) here
      simp only [unseen, List.length_cons]
      omega

/-- The search takes the vertex that was noted last and notes its neighbours that were not seen. -/
def explore (g : Graph) (waiting seen : List Nat) : List Nat :=
  match waiting with
  | [] => seen
  | v :: waiting =>
    let found := (g.row v).foldl see (waiting, seen)
    g.explore found.1 found.2
termination_by g.unseen seen + waiting.length
decreasing_by
  have less := g.unseen_foldl_see (g.row_subset v) (waiting, seen)
  exact Nat.lt_succ_of_le less

def component (g : Graph) (v : Nat) : List Nat := g.explore [v] [v]

def componentsOf (g : Graph) (seen : List Nat) : List Nat → List (List Nat)
  | [] => []
  | v :: vs =>
    if seen.contains v then g.componentsOf seen vs
    else g.component v :: g.componentsOf (seen ++ g.component v) vs

def components (g : Graph) : List (List Nat) := g.componentsOf [] (List.range g.size)

end Graph

end CircuitWorks

namespace CircuitWorks.Graph

structure Cliques where
  sets : List (List Nat)
  areLargest : Bool
  deriving DecidableEq, Repr

def extensions (g : Graph) (clique : List Nat) : Except Error (List (List Nat)) := do
  let last := clique.getLastD 0
  let next ← g.neighbours last
  return (next.filter fun v => last < v && clique.all fun u => (g.row u).contains v).map (clique ++ [·])

/-- The first `room` extensions of a list of cliques, and whether there was no room left. -/
def extendAll (g : Graph) : List (List Nat) → Nat → Except Error (List (List Nat) × Bool)
  | [], _ => .ok ([], false)
  | clique :: cliques, room => do
    if room = 0 then return ([], true)
    let found := (← g.extensions clique).take room
    let (rest, full) ← g.extendAll cliques (room - found.length)
    return (found ++ rest, full || found.length = room)

def grow (g : Graph) (limit : Nat) : Nat → Bool → List (List Nat) → Except Error Cliques
  | 0, _, sets => .ok ⟨sets, false⟩
  | rounds + 1, full, sets => do
    let (next, filled) ← g.extendAll sets limit
    if next.isEmpty then return ⟨sets, !(full || filled)⟩
    g.grow limit rounds (full || filled) next

def largeCliques (g : Graph) (vertices : List Nat) (limit : Nat) : Except Error Cliques :=
  g.grow limit (vertices.length + 1) false (vertices.map ([·]))

end CircuitWorks.Graph

namespace CircuitWorks.Graph

structure Node where
  vertex : Nat
  earlier : List Nat
  deriving DecidableEq, Repr

structure Order where
  nodes : List Node
  clique : List Nat
  deriving DecidableEq, Repr

/-- Continues an order, layer by layer. A failure tells how many vertices were in order by then. -/
def spread (g : Graph) : Nat → List Nat → List Nat → Except (Nat × Error) (List Nat)
  | 0, filled, _ => .ok filled
  | rounds + 1, filled, layer =>
    match layer.mapM g.neighbours with
    | .error e => .error (filled.length, e)
    | .ok next =>
      match ascending (next.flatten.filter fun v => !filled.contains v) with
      | [] => .ok filled
      | fresh => g.spread rounds (filled ++ fresh) fresh

def sequence (g : Graph) (component clique : List Nat) : Except (Nat × Error) (List Nat) := do
  match clique.zipIdx.find? fun (v, _) => !component.contains v with
  | some (v, place) => throw (place, .cliqueVertex v)
  | none => pure ()
  let filled ← g.spread (2 * component.length) clique clique
  if filled.length = component.length then return filled
  throw (filled.length, .unevenOrder)

namespace Order

/-- Notes for each vertex of a sequence which vertices before it are its neighbours. -/
def ofSequence (g : Graph) (clique vertices : List Nat) : Except Error Order := do
  let nodes ← vertices.zipIdx.mapM fun (v, place) => do
    let before ← (vertices.take place).zipIdx.filterM fun (u, _) => g.hasEdge v u
    return (⟨v, before.map (·.2)⟩ : Node)
  return ⟨nodes, clique⟩

def ofComponent (g : Graph) (component clique : List Nat) : Except Error Order :=
  match g.sequence component clique with
  | .ok vertices => ofSequence g clique vertices
  | .error (filled, cause) =>
    .error (.order clique.length component.length g.size filled cause)

def listing (o : Order) (relabel : Bool) : String :=
  let label (place : Nat) : Nat :=
    if relabel then place else (o.nodes[place]?.map (·.vertex)).getD place
  let edges := o.nodes.zipIdx.flatMap fun (node, place) => node.earlier.map fun e =>
    (min (label place) (label e), max (label place) (label e))
  "\nNeighbours:\nconst std::map<std::size_t, std::vector<std::size_t>> data \x7b " ++
    String.join ((ascending (edges.map (·.1))).map fun v =>
      listingLine v (ascending ((edges.filter (·.1 == v)).map (·.2)))) ++ "\n\x7d;\n\n"

end Order

/-- The earlier neighbours of a node, by place, and its colours. -/
abbrev Task := List Nat × List Nat

def currentColour (nodes : List Task) (indices : List Nat) (place : Nat) : Option Nat := do
  let (_, allowed) ← nodes[place]?
  allowed[← indices[place]?]?

/-- Whether one of the earlier neighbours has a colour. They are read up to the first that has. -/
def isTaken (nodes : List Task) (indices : List Nat) (colour : Nat) :
    List Nat → Option Bool
  | [] => some false
  | place :: earlier => do
    if (← currentColour nodes indices place) = colour then return true
    isTaken nodes indices colour earlier

/-- Goes on to the next node, with its first colour, where the current colour is none of an earlier
neighbour, and back to the one before when a node has no colour left. A read outside a list gives
nothing, as does a search without an end. -/
def tryColours (nodes : List Task) (place : Nat) (indices : List Nat) :
    Option (Bool × List Nat) := do
  let again : Nat → List Nat → Option (Bool × List Nat) := by
    apply tryColours
    exact nodes
  let (earlier, allowed) ← nodes[place]?
  let index ← indices[place]?
  if index < allowed.length then
    if ← isTaken nodes indices (← currentColour nodes indices place) earlier then
      again place (indices.set place (index + 1))
    else if place + 1 < nodes.length then
      again (place + 1) (indices.set (place + 1) 0)
    else return (true, indices)
  else if place = 0 then return (false, indices)
  else
    let before ← indices[place - 1]?
    again (place - 1) (indices.set (place - 1) (before + 1))
partial_fixpoint

/-- All nodes start at their first colours. -/
def attempt (nodes : List Task) : Option (Bool × List Nat) :=
  tryColours nodes 0 (List.replicate nodes.length 0)

def coloursAt (nodes : List Task) (indices : List Nat) : Option (List Nat) :=
  (nodes.zip indices).mapM fun (node, index) => node.2[index]?

namespace Order

def allowed (o : Order) (count : Nat) : List (List Nat) :=
  o.nodes.zipIdx.map fun (node, place) =>
    if place < o.clique.length then [place]
    else (List.range count).filter fun colour =>
      !node.earlier.any fun e => e < o.clique.length && e == colour

/-- The least number of colours from `count` on that leaves a colour for each node, if the nodes
are as many. -/
def budget (o : Order) : Nat → Nat → Option Nat
  | 0, _ => none
  | rounds + 1, count =>
    if count > o.nodes.length then none
    else if (o.allowed count).any List.isEmpty then o.budget rounds (count + 1)
    else some count

def attempts (o : Order) : Nat → Nat → List (List Nat) → Option (List Nat)
  | 0, _, _ => none
  | rounds + 1, count, lists =>
    let nodes := (o.nodes.map (·.earlier)).zip lists
    match attempt nodes with
    | some (true, indices) => coloursAt nodes indices
    | _ => o.attempts rounds (count + 1) (lists.zipIdx.map fun (colours, place) =>
      if place < o.clique.length then colours else colours ++ [count])

/-- The colours of the vertices in ascending order. If as many colours are suggested as there are
vertices, each vertex gets its own. -/
def colours (o : Order) (suggested : Nat) : Except Error (List (Nat × Nat)) := do
  let size := o.nodes.length
  let failure (reached : Nat) (cause : Error) : Error :=
    .colouring suggested reached size cause (o.listing true)
  let chosen ←
    if suggested ≥ size then pure (List.range size)
    else match o.budget (size + 1) (max suggested o.clique.length) with
      | none => throw (failure (size + 1) .budget)
      | some count =>
        match o.attempts (size + 1 - count) count (o.allowed count) with
        | some chosen => pure chosen
        | none => throw (failure (size + 1) .exhausted)
  return ((o.nodes.map (·.vertex)).zip chosen).mergeSort fun a b => a.1 ≤ b.1

end Order

structure Colouring where
  colours : List Nat
  deriving DecidableEq, Repr

namespace Colouring

def count (c : Colouring) : Nat := (c.colours.map (· + 1)).foldl max 0

def text (c : Colouring) : String :=
  s!"\nColouring: {c.colours.length} vertices, {c.count} colours : [ " ++
    String.join (c.colours.map fun colour => s!"{colour}, ") ++ "]"

end Colouring

def cliqueLimit : Nat := 100

/-- A component, its place among the components, and one of its large cliques. -/
structure Part where
  index : Nat
  vertices : List Nat
  clique : List Nat
  deriving DecidableEq, Repr

def part (g : Graph) (vertices : List Nat) (index : Nat) : Except Error Part := do
  let cliques ← g.largeCliques vertices cliqueLimit
  match cliques.sets with
  | [] => throw (.noClique index vertices.length)
  | clique :: _ => return ⟨index, vertices, clique⟩

structure Progress where
  count : Nat
  colours : List (Option Nat)
  deriving DecidableEq, Repr

namespace Progress

def assign (p : Progress) (v colour : Nat) : Except Error Progress :=
  match p.colours[v]? with
  | none => .error .illegalVertex
  | some (some old) =>
    if old < p.colours.length then .error (.coloured old)
    else .ok ⟨max p.count (colour + 1), p.colours.set v (some colour)⟩
  | some none => .ok ⟨max p.count (colour + 1), p.colours.set v (some colour)⟩

def assignIn (index : Nat) (p : Progress) (pair : Nat × Nat) : Except Error Progress :=
  match p.assign pair.1 pair.2 with
  | .ok p => .ok p
  | .error e => .error (.assigning index pair.1 pair.2 e)

def uncoloured : Nat := 18446744073709551615

def final (p : Progress) (colour : Option Nat) (v : Nat) : Except Error Nat :=
  match colour with
  | some c => if c < p.colours.length then .ok c else .error (.illegalColour v c)
  | none => .error (.illegalColour v uncoloured)

def finish (p : Progress) : Except Error Colouring := do
  return ⟨← p.colours.zipIdx.mapM fun (colour, v) => p.final colour v⟩

end Progress

def colourPart (g : Graph) (p : Progress) (part : Part) : Except Error Progress := do
  let suggested := max p.count part.clique.length
  let colours ← (← Order.ofComponent g part.vertices part.clique).colours suggested
  colours.foldlM (Progress.assignIn part.index) ⟨suggested, p.colours⟩

/-- The components are coloured one after another, as they are arranged. -/
def colourParts (g : Graph) (arrange : List Part → List Part) : Except Error Colouring := do
  let parts ← g.components.zipIdx.mapM fun (vertices, index) => g.part vertices index
  let p ← (arrange parts).foldlM g.colourPart ⟨0, List.replicate g.size none⟩
  p.finish

def colouringBy (g : Graph) (arrange : List Part → List Part) : Except Error Colouring :=
  match g.colourParts arrange with
  | .ok c => .ok c
  | .error e => .error (.whole g.components.length g.size e)

/-- The components with the largest cliques come first. -/
def byClique (parts : List Part) : List Part :=
  parts.mergeSort fun a b => a.clique.length ≥ b.clique.length

def colouring (g : Graph) : Except Error Colouring := g.colouringBy byClique

end CircuitWorks.Graph

namespace CircuitWorks

structure CompleteGraph where
  vertices : List Nat
  deriving DecidableEq, Repr

namespace CompleteGraph

inductive Error where
  | missing | empty
  deriving DecidableEq, Repr

def Error.message : Error → String
  | .missing => "The UIDs passed to CompleteGraph::edge_exists must exist."
  | .empty => "Graph is empty."

instance : HasProblem Error := ⟨fun e => { fault := .usage, message := some e.message }⟩

def add (g : CompleteGraph) (v : Nat) : CompleteGraph := ⟨insertAscending v g.vertices⟩

def hasEdge (g : CompleteGraph) (a b : Nat) : Except Error Bool :=
  if a ∈ g.vertices ∧ b ∈ g.vertices then .ok true else .error .missing

def distance (g : CompleteGraph) (a b : Nat) : Except Error Nat := do
  let _ ← g.hasEdge a b
  return if a = b then 0 else 1

def diameter (g : CompleteGraph) : Except Error Nat :=
  match g.vertices with
  | [] => .error .empty
  | [_] => .ok 0
  | _ => .ok 1

def edgesOf : List Nat → List (Nat × Nat)
  | [] => []
  | v :: vs => vs.map (v, ·) ++ edgesOf vs

def edges (g : CompleteGraph) : List (Nat × Nat) := edgesOf g.vertices

end CompleteGraph

end CircuitWorks
