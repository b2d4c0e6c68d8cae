import CircuitWorks.Proofs.Circuit.Execution
import CircuitWorks.Proofs.Qasm.Spelling

/-!
What instructions do when they are read: their word, their operands and the test in front of them are
found again.
-/

namespace CircuitWorks.Qasm

open List Text Sentence Circuit

def Scope.units (s : Scope) (u : UnitId) : Except ParseError (List UnitId) :=
  if u.index = [] then s.lookup u.register.toList else .ok [u]

def unmeasured (u : UnitId) : UnitId :=
  ⟨String.ofList (remove "measure".toList u.register.toList), u.index⟩

def Action.asRead : Action → Action
  | gate word args => gate word args
  | measure q b => measure (unmeasured q) b

def Sentence.asRead : Sentence → Sentence
  | declare kind r => declare kind r
  | act test action => act test action.asRead

def Action.run (header : String) (definitions : List Definition) (s : Scope) (guard : Guard) :
    Action → Except ParseError Scope
  | gate word args => do
    let units ← args.mapM s.units
    if word = "barrier" then s.update (s.circuit.addBarrier units.flatten)
    else addRows s (← namedOp header definitions plainGates word []) guard units
  | measure q b => do
    let source ← s.units q
    let target ← s.units b
    addRows s (gateOp .measure []) guard [source, target]

def Sentence.run (header : String) (definitions : List Definition) (s : Scope) :
    Sentence → Except ParseError Scope
  | declare kind r => do
    let s ← s.update (s.circuit.addRegister kind r)
    return s.define r.name r.bits
  | act none action => action.run header definitions s none
  | act (some (name, value)) action => do
    let bits ← s.lookup name.toList
    action.run header definitions s (some (bits, value))

variable (s : Scope) {word name : List Char} {r : Register}

section

lemma indexed_ofNat (register : List Char) (i : Nat) :
    indexed register (i : Int) = .ok ⟨String.ofList register, [i]⟩ := by
  simp [indexed]

lemma cut_append {mark : Char} {before : List Char} (absent : mark ∉ before) (after : List Char) :
    cut [mark] (before ++ mark :: after) = .ok (before, after) := by
  have split := cut?_append [] absent after
  rw [singleton_append] at split
  rw [cut, split]
  rfl

lemma argument_single (bare : '[' ∉ name) (i : Nat) :
    argument s (name ++ '[' :: (Nat.toDigits 10 i ++ [']'])) = .ok [⟨String.ofList name, [i]⟩] := by
  rw [argument, if_pos (by simp), cut_append bare]
  simp only [bind, Except.bind, dropLast_concat, integer, int?_toDigits, orMalformed, indexed_ofNat]
  rfl

lemma cutSingle_append {mark : Char} {before after : List Char} (first : mark ∉ before)
    (second : mark ∉ after) : cutSingle mark (before ++ mark :: after) = .ok (before, after) := by
  rw [cutSingle, pieces_append first, pieces_of_not_mem second]

lemma measured_single (bare : '[' ∉ name) (i : Nat) :
    measured s (name ++ '[' :: (Nat.toDigits 10 i ++ [']'])) = .ok [⟨String.ofList name, [i]⟩] := by
  have inner : '[' ∉ Nat.toDigits 10 i ++ [']'] := by simpa using not_mem_toDigits (p := '[') (by decide) i
  have closed := cutSingle_append (not_mem_toDigits (p := ']') (by decide) i) not_mem_nil
  rw [measured, if_pos (by simp), cutSingle_append bare inner]
  simp only [bind, Except.bind, closed, integer, int?_toDigits, orMalformed, indexed_ofNat]
  rfl

lemma IsOperand.read {u : UnitId} (known : IsOperand u) (s : Scope) :
    argument s u.text.toList = s.units u ∧ measured s u.text.toList = s.units u := by
  have bare : '[' ∉ u.register.toList := not_mem_of_kind (by decide) known.name.chars
  rcases known.cases with ⟨whole, text⟩ | ⟨i, single, text⟩
  · rw [text, argument, measured, Scope.units, if_neg bare, if_neg bare, if_pos whole]
    exact ⟨rfl, rfl⟩
  · rw [text, argument_single s bare, measured_single s bare, String.ofList_toList, ← single, Scope.units, single]
    exact ⟨rfl, rfl⟩

variable {args : List UnitId}

lemma mapM_argument (known : ∀ u ∈ args, IsOperand u) :
    (args.map (·.text.toList)).mapM (argument s) = args.mapM s.units := by
  rw [List.mapM_map]
  exact mapM_congr fun u mem => ((known u mem).read s).1

lemma rows_singletons (some : args ≠ []) : rows (args.map ([·])) = [args] := by
  induction args with
  | nil => exact absurd rfl some
  | cons u rest ih =>
    cases rest with
    | nil => rfl
    | cons v more =>
      have later := ih (by simp)
      rw [map_cons] at later
      rw [map_cons, map_cons, rows, later]
      · rfl
      · simp

lemma readMeasure_rows {s : Scope} {guard : Guard} {op : Except Error Op} (q b : List UnitId) :
    (q.zip b).foldlM (fun s (u, v) => addGuarded s op guard [u, v]) s = addRows s op guard [q, b] := by
  have pairs : rows [q, b] = (q.zip b).map fun e => [e.1, e.2] := by
    rw [rows, rows, zip_map_right, map_map]
    · rfl
    · simp
  rw [addRows, pairs, foldlM_map]

end

/-- The number of brackets that are opened, less that of those that are closed. -/
def level (cs : List Char) : Int := cs.count '(' - cs.count ')'

section

variable {cs phrase : List Char} {start place opening closing : Nat} {depth : Int} {bracket : Char}

lemma lt_length_of_prefix (present : phrase ≠ []) (stands : phrase <+: cs.drop place) :
    place < cs.length := by
  by_contra past
  rw [drop_eq_nil_of_le (by omega), prefix_nil] at stands
  exact present stands

/-- The first place from `start` on at which the phrase stands, or nothing if there is none. -/
def Finds (cs phrase : List Char) (start : Nat) : Option Nat → Prop
  | none => ∀ i, start ≤ i → ¬ phrase <+: cs.drop i
  | some place => IsLeast {i | start ≤ i ∧ phrase <+: cs.drop i} place

lemma find_finds (present : phrase ≠ []) (cs : List Char) (start : Nat) :
    Finds cs phrase start (find cs phrase start) := by
  have scan (rest : List Char) (position : Nat) :
      match indexOf phrase position rest with
      | none => ∀ k, ¬ phrase <+: rest.drop k
      | some place => ∃ k, place = position + k ∧ IsLeast {k | phrase <+: rest.drop k} k := by
    induction rest generalizing position with
    | nil => simp [indexOf, present]
    | cons c rest ih =>
      rw [indexOf]
      split_ifs with found
      · exact ⟨0, rfl, isPrefixOf_iff_prefix.mp found, fun _ _ => Nat.zero_le _⟩
      · have missed : ¬ phrase <+: c :: rest := fun stands => found <| isPrefixOf_iff_prefix.mpr stands
        have later := ih (position + 1)
        generalize indexOf phrase (position + 1) rest = result at later ⊢
        cases result with
        | none =>
          rintro (_ | k) stands
          · exact missed stands
          · exact later k stands
        | some place =>
          obtain ⟨k, rfl, stands, least⟩ := later
          refine ⟨k + 1, by omega, stands, ?_⟩
          rintro (_ | i) own
          · exact absurd own missed
          · exact Nat.succ_le_succ (least own)
  rw [find]
  split_ifs with inside
  · have searched := scan (cs.drop start) start
    generalize indexOf phrase start (cs.drop start) = result at searched ⊢
    cases result with
    | none =>
      intro i after stands
      obtain ⟨k, rfl⟩ := Nat.exists_eq_add_of_le after
      exact searched k (by rwa [drop_drop])
    | some place =>
      obtain ⟨k, rfl, stands, least⟩ := searched
      refine ⟨⟨Nat.le_add_right _ _, by rwa [← drop_drop]⟩, fun i own => ?_⟩
      obtain ⟨j, rfl⟩ := Nat.exists_eq_add_of_le own.1
      exact Nat.add_le_add_left (least (by simpa [drop_drop] using own.2)) _
  · intro i after stands
    have inside := lt_length_of_prefix present stands
    omega

lemma singleton_prefix_drop (c : Char) (i : Nat) : [c] <+: cs.drop i ↔ cs[i]? = some c := by
  rw [← Nat.add_zero i, ← getElem?_drop, Nat.add_zero]
  cases cs.drop i with
  | nil => simp
  | cons d rest => simp [eq_comm]

lemma getElem?_ne_of_prefix (present : phrase ≠ []) (plain : bracket ∉ phrase)
    (stands : phrase <+: cs.drop place) : cs[place]? ≠ some bracket := by
  obtain ⟨c, rest, rfl⟩ := exists_cons_of_ne_nil present
  have own := (singleton_prefix_drop c place).mp
    ((cons_prefix_cons.mpr ⟨rfl, nil_prefix⟩ : [c] <+: c :: rest).trans stands)
  rw [own, Ne, Option.some.injEq]
  rintro rfl
  exact plain mem_cons_self

lemma count_take_eq (before : start ≤ place)
    (none : ∀ i, start ≤ i → i < place → cs[i]? ≠ some bracket) :
    (cs.take place).count bracket = (cs.take start).count bracket := by
  obtain ⟨k, rfl⟩ := Nat.exists_eq_add_of_le before
  have out : bracket ∉ (cs.drop start).take k := by
    intro mem
    obtain ⟨i, own⟩ := getElem?_of_mem mem
    have below := (List.getElem?_eq_some_iff.mp own).1
    rw [length_take] at below
    rw [getElem?_take_of_lt (by omega), getElem?_drop] at own
    exact none (start + i) (by omega) (by omega) own
  rw [take_add, count_append, count_eq_zero_of_not_mem out, Nat.add_zero]

lemma count_take_succ (stands : cs[place]? = some bracket) :
    (cs.take (place + 1)).count bracket = (cs.take place).count bracket + 1 := by
  rw [take_add_one, stands]
  simp

lemma nextBracket_spec (cs : List Char) (bracket : Char) (inside : start ≤ cs.length) :
    start ≤ nextBracket cs bracket start ∧
    (nextBracket cs bracket start < cs.length → cs[nextBracket cs bracket start]? = some bracket) ∧
    ∀ i, start ≤ i → i < nextBracket cs bracket start → cs[i]? ≠ some bracket := by
  have finds := find_finds (cons_ne_nil bracket []) cs start
  rw [nextBracket]
  generalize find cs [bracket] start = result at finds ⊢
  cases result with
  | none =>
    refine ⟨inside, fun below => absurd below (lt_irrefl _), fun i after _ stands => ?_⟩
    exact finds i after ((singleton_prefix_drop bracket i).mpr stands)
  | some place =>
    obtain ⟨⟨after, stands⟩, least⟩ := finds
    refine ⟨after, fun _ => (singleton_prefix_drop bracket place).mp stands,
      fun i after below stands => ?_⟩
    exact absurd (least ⟨after, (singleton_prefix_drop bracket i).mpr stands⟩) (Nat.not_le_of_lt below)

/-- A cursor stands at a bracket, or at the end, and between the phrase and it there is none. -/
structure Cursor (cs : List Char) (bracket : Char) (place cursor : Nat) : Prop where
  stands : cursor < cs.length → cs[cursor]? = some bracket
  free : ∀ i, place ≤ i → i < cursor → cs[i]? ≠ some bracket

namespace Cursor

variable {cursor later : Nat}

lemma next (inside : start ≤ place) (below : place ≤ cs.length) :
    Cursor cs bracket place (nextBracket cs bracket start) := by
  obtain ⟨-, stands, free⟩ := nextBracket_spec cs bracket (inside.trans below)
  exact ⟨stands, fun i after => free i (inside.trans after)⟩

lemma move (own : Cursor cs bracket place cursor) (after : place ≤ later) :
    Cursor cs bracket later cursor :=
  ⟨own.stands, fun i above => own.free i (after.trans above)⟩

/-- Going on from a bracket counts it. -/
lemma count_next (own : Cursor cs bracket place cursor) (below : cursor < cs.length) :
    (cs.take (nextBracket cs bracket (cursor + 1))).count bracket =
      (cs.take cursor).count bracket + 1 := by
  obtain ⟨after, -, free⟩ := nextBracket_spec cs bracket (Nat.succ_le_of_lt below)
  rw [count_take_eq after free, count_take_succ (own.stands below)]

lemma count_place (own : Cursor cs bracket place cursor) (after : place ≤ cursor) :
    (cs.take cursor).count bracket = (cs.take place).count bracket :=
  count_take_eq after own.free

end Cursor

/-- The brackets that are open at a place, counted from `start` on. -/
def openAt (cs : List Char) (start place : Nat) : Int := level (cs.take place) - level (cs.take start)

/-- The first place from `start` on at which the phrase stands with no bracket open. -/
def IsFirst (cs phrase : List Char) (start : Nat) : Option Nat → Prop
  | none => ∀ i, start ≤ i → phrase <+: cs.drop i → openAt cs start i ≠ 0
  | some place => IsLeast {i | start ≤ i ∧ phrase <+: cs.drop i ∧ openAt cs start i = 0} place

/-- Between two turns: the phrase stands at its cursor, those before it were inside brackets, and
the depth counts the brackets before the other two cursors. -/
structure Seeking (cs phrase : List Char) (start place opening closing : Nat) (depth : Int) : Prop where
  after : start ≤ place
  stands : phrase <+: cs.drop place
  missed : ∀ i, start ≤ i → i < place → phrase <+: cs.drop i → openAt cs start i ≠ 0
  opens : Cursor cs '(' place opening
  closes : Cursor cs ')' place closing
  counted : depth = (cs.take opening).count '(' - (cs.take closing).count ')' - level (cs.take start)

lemma Seeking.depth_eq (state : Seeking cs phrase start place opening closing depth)
    (first : place < opening ∧ place < closing) : depth = openAt cs start place := by
  rw [state.counted, state.opens.count_place first.1.le, state.closes.count_place first.2.le]
  rfl

lemma seek_first (present : phrase ≠ []) (plain : '(' ∉ phrase ∧ ')' ∉ phrase)
    (state : Seeking cs phrase start place opening closing depth) :
    ∃ found, seek cs phrase (some place) opening closing depth = some found ∧
      IsFirst cs phrase start found := by
  -- Each turn moves one of the three cursors on.
  induction left : (cs.length - place) + (cs.length - opening) + (cs.length - closing)
    using Nat.strong_induction_on generalizing place opening closing depth with
  | _ left ih =>
    have inside := lt_length_of_prefix present state.stands
    have after := state.after
    rw [seek]
    split_ifs with first free sooner
    · refine ⟨some place, rfl, ⟨state.after, state.stands, ?_⟩, fun i own => ?_⟩
      · rw [← state.depth_eq first, free]
      · by_contra before
        exact state.missed i own.1 (not_le.mp before) own.2.1 own.2.2
    · have missed : ∀ i, start ≤ i → i < place + 1 → phrase <+: cs.drop i → openAt cs start i ≠ 0 := by
        intro i after below stands
        rcases Nat.lt_succ_iff_lt_or_eq.mp below with before | rfl
        · exact state.missed i after before stands
        · rwa [← state.depth_eq first]
      have finds := find_finds present cs (place + 1)
      generalize find cs phrase (place + 1) = result at finds ⊢
      cases result with
      | none =>
        refine ⟨none, by rw [seek], fun i after stands => ?_⟩
        rcases Nat.lt_or_ge i (place + 1) with below | beyond
        · exact missed i after below stands
        · exact absurd stands (finds i beyond)
      | some other =>
        obtain ⟨⟨beyond, stands⟩, least⟩ := finds
        have below := lt_length_of_prefix present stands
        refine ih _ ?_ ⟨by omega, stands, fun i after below stands => ?_, state.opens.move (by omega),
          state.closes.move (by omega), state.counted⟩ rfl
        · omega
        · rcases Nat.lt_or_ge i (place + 1) with old | new
          · exact missed i after old stands
          · exact absurd (least ⟨new, stands⟩) (Nat.not_le_of_lt below)
    · have other : opening ≠ place := by
        rintro rfl
        exact getElem?_ne_of_prefix present plain.1 state.stands (state.opens.stands inside)
      have moved := (nextBracket_spec cs '(' (by omega : opening + 1 ≤ cs.length)).1
      refine ih _ (by omega) ⟨after, state.stands, state.missed,
        .next (by omega) inside.le, state.closes, ?_⟩ rfl
      rw [state.opens.count_next (by omega), state.counted]
      push_cast
      ring
    · have other : closing ≠ place := by
        rintro rfl
        exact getElem?_ne_of_prefix present plain.2 state.stands (state.closes.stands inside)
      have moved := (nextBracket_spec cs ')' (by omega : closing + 1 ≤ cs.length)).1
      refine ih _ (by omega) ⟨after, state.stands, state.missed, state.opens,
        .next (by omega) inside.le, ?_⟩ rfl
      rw [state.closes.count_next (by omega), state.counted]
      push_cast
      ring

lemma findOutside_first (present : phrase ≠ []) (plain : '(' ∉ phrase ∧ ')' ∉ phrase) (cs : List Char)
    (from_ : Int) : ∃ found, findOutside cs phrase from_ = some found ∧
      IsFirst cs phrase (placeOf cs from_) found := by
  have finds := find_finds present cs (placeOf cs from_)
  rw [findOutside]
  generalize find cs phrase (placeOf cs from_) = result at finds ⊢
  cases result with
  | none => exact ⟨none, by rw [seek], fun i after stands => absurd stands (finds i after)⟩
  | some place =>
    obtain ⟨⟨after, stands⟩, least⟩ := finds
    have inside := lt_length_of_prefix present stands
    obtain ⟨opensAfter, -, opens⟩ := nextBracket_spec cs '(' (after.trans inside.le)
    obtain ⟨closesAfter, -, closes⟩ := nextBracket_spec cs ')' (after.trans inside.le)
    refine seek_first present plain ⟨after, stands, fun i above below stands => ?_,
      .next after inside.le, .next after inside.le, ?_⟩
    · exact absurd (least ⟨above, stands⟩) (Nat.not_le_of_lt below)
    · rw [count_take_eq opensAfter opens, count_take_eq closesAfter closes]
      exact (sub_self _).symm

lemma openAt_eq_level {k : Nat} : openAt cs start (start + k) = level ((cs.drop start).take k) := by
  rw [openAt, take_add, level, level, level, count_append, count_append]
  push_cast
  ring

/-- The pieces between the marks outside brackets: each but the last closes its brackets, so that
the mark after it is outside, and none has such a mark itself. -/
structure SplitsOutside (mark : Char) (cs : List Char) (pieces : List (List Char)) : Prop where
  present : pieces ≠ []
  joined : [mark].intercalate pieces = cs
  closed : ∀ piece ∈ pieces.dropLast, level piece = 0
  whole : ∀ piece ∈ pieces, ∀ k : Nat, piece[k]? = some mark → level (piece.take k) ≠ 0

lemma splitOutside_splits {mark : Char} (plain : mark ≠ '(' ∧ mark ≠ ')') (cs : List Char) (start : Nat)
    (done : List (List Char)) : ∃ pieces, splitOutside cs mark start done = some (done ++ pieces) ∧
      SplitsOutside mark (cs.drop start) pieces := by
  induction left : cs.length - start using Nat.strong_induction_on generalizing start done with
  | _ left ih =>
    obtain ⟨found, search, first⟩ := findOutside_first (cons_ne_nil mark [])
      (by simpa [eq_comm] using plain) cs start
    have same : placeOf cs start = start := by simp [placeOf]
    rw [same] at first
    rw [splitOutside, search]
    cases found with
    | none =>
      refine ⟨[cs.drop start], rfl, by simp, by simp, by simp, ?_⟩
      simp only [mem_singleton, forall_eq]
      intro k marked
      rw [getElem?_drop] at marked
      rw [← openAt_eq_level]
      exact first _ (Nat.le_add_right _ _) ((singleton_prefix_drop mark _).mpr marked)
    | some stop =>
      obtain ⟨⟨after, stands, closed⟩, least⟩ := first
      have below := lt_length_of_prefix (cons_ne_nil _ _) stands
      obtain ⟨rest, split, splits⟩ := ih _ (by omega) (stop + 1)
        (done ++ [(cs.drop start).take (stop - start)]) rfl
      obtain ⟨k, rfl⟩ := Nat.exists_eq_add_of_le after
      rw [Nat.add_sub_cancel_left] at split
      rw [openAt_eq_level] at closed
      refine ⟨(cs.drop start).take k :: rest, ?_, by simp, ?_, ?_, ?_⟩
      · simpa using split
      · have cut := (singleton_prefix_drop mark _).mp stands
        rw [intercalate_cons_of_ne_nil splits.present, splits.joined, Nat.add_assoc, ← drop_drop]
        rw [← getElem?_drop] at cut
        obtain ⟨inside, own⟩ := List.getElem?_eq_some_iff.mp cut
        rw [← own, append_assoc, singleton_append, cons_getElem_drop_succ, take_append_drop]
      · rw [dropLast_cons_of_ne_nil splits.present]
        exact forall_mem_cons.mpr ⟨closed, splits.closed⟩
      · refine forall_mem_cons.mpr ⟨fun i marked level => ?_, splits.whole⟩
        have shorter : i < k := by
          have inside := (List.getElem?_eq_some_iff.mp marked).1
          rw [length_take] at inside
          omega
        rw [getElem?_take_of_lt shorter, getElem?_drop] at marked
        rw [take_take, Nat.min_eq_left shorter.le, ← openAt_eq_level] at level
        have bound := least ⟨Nat.le_add_right _ _, (singleton_prefix_drop mark _).mpr marked, level⟩
        omega

end

/-- The search ends, at the first place from the start on at which the phrase stands with no bracket
open if there is one, and so the text is split exactly at the marks outside brackets. -/
theorem brackets_respected {phrase : List Char} (present : phrase ≠ [])
    (plain : '(' ∉ phrase ∧ ')' ∉ phrase) (cs : List Char) (start : Int) :
    (∃ found, findOutside cs phrase start = some found ∧ IsFirst cs phrase (placeOf cs start) found) ∧
    ∃ pieces, splitOutside cs ',' 0 [] = some pieces ∧ SplitsOutside ',' cs pieces :=
  ⟨findOutside_first present plain cs start, splitOutside_splits (by decide) cs 0 []⟩

theorem brackets_respected_nested : [','] ≠ [] ∧ ('(' ∉ [','] ∧ ')' ∉ [',']) ∧
    findOutside ['(', 'a', ',', 'b', ')', ',', 'c'] [','] 0 = some (some 5) := by
  have plain : '(' ∉ [','] ∧ ')' ∉ [','] := by decide
  refine ⟨by decide, plain, ?_⟩
  obtain ⟨⟨found, search, first⟩, -⟩ :=
    brackets_respected (by decide) plain ['(', 'a', ',', 'b', ')', ',', 'c'] 0
  rw [search]
  have marked : [','] <+: ['(', 'a', ',', 'b', ')', ',', 'c'].drop 5 := by decide
  cases found with
  | none => exact absurd rfl (first 5 (by decide) marked)
  | some place =>
    obtain ⟨⟨-, stands, closed⟩, least⟩ := first
    have bound : place ≤ 5 := least ⟨by decide, marked, rfl⟩
    interval_cases place <;> first | rfl | exact absurd stands (by decide) | exact absurd closed (by decide)

section

lemma outside_of_isNamePart (letters : ∀ c ∈ word, Angle.isNamePart c = true) : ∀ c ∈ word, c ∉ [' ', '(', ')'] := by
  intro c mem mark
  have marks : ∀ c ∈ [' ', '(', ')'], Angle.isNamePart c = false := fun c mem =>
    Bool.eq_false_of_not_eq_true (any_eq_false.mp (by decide) c mem)
  exact not_mem_of_kind (marks c mark) letters mem

lemma splitInstruction_append {front rest : List Char}
    (found : findOutside (front ++ ' ' :: rest) [' '] 0 = some (some front.length)) :
    splitInstruction (instruction front rest) = (front, items ',' rest) := by
  rw [splitInstruction, instruction, found]
  simp

variable {word : List Char}

lemma IsWord.splitInstruction (known : IsWord word) (operands : List Char) :
    Qasm.splitInstruction (instruction word operands) = (word, items ',' operands) := by
  refine splitInstruction_append ?_
  obtain ⟨found, search, first⟩ := findOutside_first (cons_ne_nil ' ' []) (by decide) (word ++ ' ' :: operands) 0
  have outside := outside_of_isNamePart known.letters
  have here : (word ++ ' ' :: operands)[word.length]? = Option.some ' ' := by simp
  have closed : openAt (word ++ ' ' :: operands) 0 word.length = 0 := by
    have none (c : Char) (mem : c ∈ ['(', ')']) : word.count c = 0 :=
      count_eq_zero_of_not_mem fun own => outside c own (mem_cons_of_mem _ mem)
    simp [openAt, level, none]
  rw [search]
  have same : placeOf (word ++ ' ' :: operands) 0 = 0 := by simp [placeOf]
  rw [same] at first
  cases found with
  | none => exact absurd closed (first _ (Nat.zero_le _) ((singleton_prefix_drop ' ' _).mpr here))
  | some place =>
    obtain ⟨⟨-, stands, -⟩, least⟩ := first
    have bound := least ⟨Nat.zero_le _, (singleton_prefix_drop ' ' _).mpr here, closed⟩
    rcases Nat.lt_or_eq_of_le bound with before | rfl
    · have own := (singleton_prefix_drop ' ' _).mp stands
      rw [getElem?_append_left before] at own
      exact absurd mem_cons_self (outside ' ' (mem_of_getElem? own))
    · rfl

lemma IsWord.readGuard (known : IsWord word) (s : Scope) (operands : List Char) :
    readGuard s (instruction word operands) = .ok (none, instruction word operands) := by
  have free : ['i', 'f'].isPrefixOf (instruction word operands) = false := by
    rw [← Bool.not_eq_true, isPrefixOf_iff_prefix]
    intro found
    have front : word ++ [' '] <+: instruction word operands := ⟨operands, by simp [instruction]⟩
    have long : 0 < word.length := length_pos_of_ne_nil known.some
    exact known.free (prefix_of_prefix_length_le found front (by simpa using Nat.succ_le_of_lt long))
  rw [Qasm.readGuard, free]
  rfl

lemma readGuard_guarded {name : String} (named : IsName name) (s : Scope) (value : Nat)
    {cs : List Char} (tidy : Tidy cs) : readGuard s (instruction (guardText name.toList value) cs) =
    (s.lookup name.toList).map fun bits => (some (bits, (value : Int)), cs) := by
  have opened : cut ['('] (instruction (guardText name.toList value) cs) = .ok (['i', 'f'],
      name.toList ++ (['=', '='] ++ Nat.toDigits 10 value) ++ ')' :: ' ' :: cs) := by
    have absent : '(' ∉ ['i', 'f'] := by decide
    have split := cut_append absent (name.toList ++ (['=', '='] ++ Nat.toDigits 10 value) ++ ')' :: ' ' :: cs)
    simpa [instruction, guardText] using split
  have closed : cut [')'] (name.toList ++ (['=', '='] ++ Nat.toDigits 10 value) ++ ')' :: ' ' :: cs) =
      .ok (name.toList ++ (['=', '='] ++ Nat.toDigits 10 value), ' ' :: cs) := by
    have absent : ')' ∉ name.toList ++ (['=', '='] ++ Nat.toDigits 10 value) := by
      have own := not_mem_of_kind (p := ')') (by decide) named.chars
      have number := not_mem_toDigits (p := ')') (by decide) value
      simp [own, number]
    exact cut_append absent (' ' :: cs)
  have equated : cut ['=', '='] (name.toList ++ (['=', '='] ++ Nat.toDigits 10 value)) =
      .ok (name.toList, Nat.toDigits 10 value) := by
    have absent : '=' ∉ name.toList := not_mem_of_kind (by decide) named.chars
    rw [cut, cut?_append _ absent]
    rfl
  have bare : strip name.toList = name.toList :=
    strip_of_solid fun c mem => isBlank_of_isNamePart (named.chars c mem)
  have rest : strip (' ' :: cs) = cs := by rw [strip_cons (by decide), tidy.strip_eq]
  have word : strip ['i', 'f'] = ['i', 'f'] := by decide
  have found : ['i', 'f'].isPrefixOf (instruction (guardText name.toList value) cs) = true := rfl
  rw [Qasm.readGuard, if_pos found, opened]
  simp only [bind, Except.bind, word, closed, equated, bare, integer, int?_toDigits, orMalformed, rest]
  cases s.lookup name.toList <;> rfl

end

section

variable {s : Scope} {guard : Guard} {op : Op} {args : List UnitId}

def Scope.withCommand (s : Scope) (op : Op) (args : List UnitId) : Scope :=
  { s with circuit := s.circuit.withCommand op args }

lemma addGuarded_none (accepted : s.circuit.Accepts op args) :
    addGuarded s (.ok op) none args = .ok (s.withCommand op args) := by
  rw [addGuarded]
  simp only [bind, Except.bind, accepted.addOp]
  rfl

lemma addGuarded_some {bits : List UnitId} {width value : Nat} (size : bits.length = width)
    (accepted : s.circuit.Accepts (.conditional width value op) (bits ++ args)) :
    addGuarded s (.ok op) (some (bits, (value : Int))) args =
    .ok (s.withCommand (.conditional width value op) (bits ++ args)) := by
  have condition : conditionOp op bits (some (value : Int)) = .ok (.conditional width value op) := by
    simp [conditionOp, size]
  rw [addGuarded]
  simp only [bind, Except.bind, addConditional, condition, accepted.addOp]
  rfl

lemma Sentence.run_declare {header : String} {definitions : List Definition} {kind : UnitKind}
    (added : s.circuit.addRegister kind r = .ok c) :
    run header definitions s (.declare kind r) = .ok ({ s with circuit := c }.define r.name r.bits) := by
  rw [run, added]
  rfl

lemma addRows_singletons {op : Except Error Op} (some : args ≠ []) :
    addRows s op guard (args.map ([·])) = addGuarded s op guard args := by
  rw [addRows, rows_singletons some, foldlM_cons]
  cases addGuarded s op guard args <;> rfl

lemma mapM_units (single : ∀ u ∈ args, u.index ≠ []) : args.mapM s.units = .ok (args.map ([·])) :=
  mapM_ok _ _ args fun u mem => if_neg (single u mem)

end

section

variable {header : String} {definitions : List Definition} {s : Scope} {guard : Guard} {cs : List Char}

lemma cut?_instruction {operands : List Char} (known : IsWord word) (plain : '-' ∉ operands) :
    cut? ['-', '>'] (instruction word operands) = none := by
  refine cut?_of_not_mem _ ?_
  have absent : '-' ∉ word := known.not_mem (by decide)
  simp [instruction, absent, plain]

lemma readInstruction_word (spelled : IsWord word)
    (front : readGuard s cs = .ok (guard, instruction word (operandText args)))
    (known : ∀ u ∈ args, IsOperand u) :
    readInstruction header definitions s cs =
    if word = "qreg".toList then readDeclaration s .qubit (args.map (·.text.toList))
    else if word = "creg".toList then readDeclaration s .bit (args.map (·.text.toList))
    else readGate header definitions s guard word (args.map (·.text.toList)) := by
  have noDash : '-' ∉ operandText args := not_mem_operandText (by decide) (by decide) known
  rw [readInstruction, front]
  simp only [bind, Except.bind, cut?_instruction spelled noDash, spelled.splitInstruction,
    items_operandText known]

lemma readDeclaration_operand (named : IsName r.name) (kind : UnitKind) :
    readDeclaration s kind [(UnitId.text ⟨r.name, [r.size]⟩).toList] = run header definitions s (.declare kind r) := by
  have bare : '[' ∉ r.name.toList := not_mem_of_kind (by decide) named.chars
  have natural : ¬(r.size : Int) < 0 := by omega
  rw [readDeclaration, toList_text]
  rw [cut_append bare]
  simp only [bind, Except.bind, dropLast_concat, integer, int?_toDigits, orMalformed, natural,
    if_false, Int.toNat_natCast, String.ofList_toList, run]

lemma readInstruction_declare (named : IsName r.name) (kind : UnitKind) :
    readInstruction header definitions s (text (.declare kind r)) = run header definitions s (.declare kind r) := by
  have operand : ∀ u ∈ [(⟨r.name, [r.size]⟩ : UnitId)], IsOperand u :=
    forall_mem_singleton.mpr ⟨named, by simp⟩
  have spelled : IsWord (declarationWord kind).toList := isWord_of_mem (by cases kind <;> decide)
  rw [text, readInstruction_word spelled (spelled.readGuard s _) operand, ← readDeclaration_operand named]
  cases kind <;> rfl

lemma readInstruction_gate {word : String} (plain : Action.IsPlain (.gate word args))
    (front : readGuard s cs = .ok (guard, Action.text (.gate word args))) :
    readInstruction header definitions s cs = Action.run header definitions s guard (.gate word args) := by
  obtain ⟨listed, some, known⟩ := plain
  have spelled := isWord_of_mem (mem_append_left _ listed)
  have noBracket : cut? ['('] word.toList = none := cut?_of_not_mem _ (spelled.not_mem (by decide))
  have others : ∀ w ∈ gateWords, w.toList ≠ "qreg".toList ∧ w.toList ≠ "creg".toList := by decide
  rw [readInstruction_word spelled front known, if_neg (others word listed).1,
    if_neg (others word listed).2, readGate, mapM_argument s known]
  simp only [noBracket, String.toList_inj, String.ofList_toList]
  rfl

lemma cut?_measure (source : IsOperand q) (b : UnitId) :
    cut? ['-', '>'] (instruction "measure".toList (arrowText q b)) =
    some ("measure".toList ++ (' ' :: (q.text.toList ++ [' '])), ' ' :: b.text.toList) := by
  have absent : '-' ∉ "measure".toList ++ (' ' :: (q.text.toList ++ [' '])) := by
    have inside : '-' ∉ q.text.toList := not_mem_of_kind (by decide) source.chars
    simp [inside]
  have spelled : instruction "measure".toList (arrowText q b) =
      "measure".toList ++ (' ' :: (q.text.toList ++ [' '])) ++ ('-' :: ['>'] ++ ' ' :: b.text.toList) := by
    simp [instruction, arrowText]
  rw [spelled, cut?_append ['>'] absent]

lemma remove_space (bare : ' ' ∉ cs) (before after : List Char) (front : ∀ c ∈ before, c = ' ')
    (back : ∀ c ∈ after, c = ' ') : remove [' '] (before ++ (cs ++ after)) = cs := by
  have dropped : ∀ {cs : List Char}, (∀ c ∈ cs, c = ' ') → cs.filter (· ≠ ' ') = [] := by
    simp [filter_eq_nil_iff]
  have kept : cs.filter (· ≠ ' ') = cs := by
    rw [filter_eq_self]
    intro c mem
    have other : c ≠ ' ' := fun same => bare (same ▸ mem)
    simpa using other
  rw [remove_singleton, filter_append, filter_append, dropped front, dropped back, kept]
  simp

lemma IsOperand.measured_remove (known : IsOperand q) (s : Scope) :
    measured s (remove "measure".toList q.text.toList) = s.units (unmeasured q) := by
  have bare : '[' ∉ remove "measure".toList q.register.toList := fun mem =>
    not_mem_of_kind (p := '[') (by decide) known.name.chars ((removeFrom_sublist ..).subset mem)
  rcases known.cases with ⟨whole, text⟩ | ⟨i, single, text⟩
  · rw [text, measured, if_neg bare, Scope.units, unmeasured, if_pos whole]
    simp only [String.toList_ofList]
  · have absent : ¬"measure".toList <:+: Nat.toDigits 10 i ++ [']'] := by
      intro found
      have letter : 'm' ∈ Nat.toDigits 10 i ++ [']'] := found.subset (by decide)
      simp [not_mem_toDigits (p := 'm') (by decide)] at letter
    rw [text, remove_append_cons (by decide), remove_of_not_infix absent, measured_single s bare, single]
    rfl

lemma readInstruction_measure (source : IsOperand q) (target : IsOperand b)
    (front : readGuard s cs = .ok (guard, Action.text (.measure q b))) : readInstruction header definitions s cs =
    Action.run header definitions s guard (.measure (unmeasured q) b) := by
  have word : ['m', 'e', 'a', 's', 'u', 'r', 'e'] = "measure".toList := by decide
  have present : Text.contains "measure".toList ("measure".toList ++ (' ' :: (q.text.toList ++ [' ']))) =
      true := by
    rfl
  have removed : remove "measure".toList ("measure".toList ++ (' ' :: (q.text.toList ++ [' ']))) =
      [' '] ++ (remove "measure".toList q.text.toList ++ [' ']) := by
    have none : remove "measure".toList "measure".toList = [] := by decide
    have absent : ' ' ∉ "measure".toList := by decide
    rw [remove_append_cons absent, remove_append_cons absent, none]
    rfl
  have bare : ∀ {u : UnitId}, IsOperand u → ' ' ∉ u.text.toList := fun known =>
    not_mem_of_kind (by decide) known.chars
  have left : ' ' ∉ remove "measure".toList q.text.toList := fun mem =>
    bare source ((removeFrom_sublist ..).subset mem)
  have first := remove_space left [' '] [' '] (by simp) (by simp)
  have second := remove_space (bare target) [' '] [] (by simp) (by simp)
  rw [append_nil, singleton_append] at second
  rw [readInstruction, front]
  simp only [bind, Except.bind, Action.text, cut?_measure source, readMeasure, word, present, removed,
    first, second, source.measured_remove, (target.read s).2, readMeasure_rows, Bool.not_true,
    Bool.false_eq_true, if_false]
  rfl

lemma Action.read {a : Action} (plain : a.IsPlain) (front : readGuard s cs = .ok (guard, a.text)) :
    readInstruction header definitions s cs = a.asRead.run header definitions s guard := by
  cases a with
  | gate word args => exact readInstruction_gate plain front
  | measure q b => exact readInstruction_measure plain.1 plain.2 front

lemma Action.readGuard {a : Action} (plain : a.IsPlain) (s : Scope) : readGuard s a.text = .ok (none, a.text) := by
  cases a with
  | gate word args => exact (isWord_of_mem (mem_append_left _ plain.1)).readGuard s _
  | measure q b => exact isWord_measure.readGuard s _

lemma Sentence.read {t : Sentence} (plain : t.IsPlain) :
    readInstruction header definitions s t.text = t.asRead.run header definitions s := by
  cases t with
  | declare kind r => exact readInstruction_declare plain kind
  | act test action =>
    cases test with
    | none => exact action.read plain.2 (Action.readGuard plain.2 s)
    | some test =>
      obtain ⟨name, value⟩ := test
      have front := readGuard_guarded (plain.1 _ rfl) s value (Action.tidy plain.2).1
      rw [text, asRead, run]
      cases found : s.lookup name.toList with
      | error e =>
        rw [found] at front
        rw [readInstruction, front]
        rfl
      | ok bits =>
        rw [found] at front
        exact action.read plain.2 front

end

section

def sentencesText (file : String) (program : List Sentence) : List Char :=
  programText file (program.map (·.text))

variable {file : String} (known : file ∈ headers) {program : List Sentence}
  (plain : ∀ t ∈ program, t.IsPlain)

include known plain

lemma parse_sentencesText (ungated : ∀ t ∈ program, ¬t.IsGated) : parse (sentencesText file program) =
    (program.map (·.asRead)).foldlM (run file []) ⟨empty, []⟩ >>= (pure ·.circuit) := by
  have tidy : ∀ cs ∈ program.map (·.text), Tidy cs ∧ ¬"gate ".toList <:+: cs := by
    intro cs mem
    obtain ⟨t, inside, rfl⟩ := mem_map.mp mem
    obtain ⟨tidy, gated⟩ := t.tidy (plain t inside)
    exact ⟨tidy, gated.not.mpr (ungated t inside)⟩
  rw [sentencesText, parse_programText known (fun cs mem => (tidy cs mem).1) fun cs mem =>
    (tidy cs mem).2, foldlM_map, foldlM_map, foldlM_congr fun t mem s => t.read (plain t mem)]

lemma parse_gated (mem : t ∈ program) (gated : t.IsGated) :
    parse (sentencesText file program) = .error .gateDefinition := by
  have tidy : ∀ cs ∈ program.map (·.text), Tidy cs := by
    intro cs mem
    obtain ⟨t, inside, rfl⟩ := mem_map.mp mem
    exact (t.tidy (plain t inside)).1
  exact parse_of_infix known tidy (((t.tidy (plain t mem)).2.mpr gated).trans
    (infix_body (mem_map_of_mem mem)))

end

end CircuitWorks.Qasm
