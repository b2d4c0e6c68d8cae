import Mathlib.Data.List.Basic
import Mathlib.Order.MinMax

/-!
Shared facts about computations that may fail and about lists: steps one after the other, steps along
a list when each succeeds, lists of one length one after the other, and the greatest element of a list.
-/

namespace CircuitWorks

open List Option

variable {ε α β : Type} {xs : List α} {f : α → Except ε β} {ys : List β} (p : α → Except ε Bool)
  {m : Type → Type} (q : α → Bool)

lemma bind_eq_ok : x >>= f = .ok b ↔ ∃ a, x = .ok a ∧ f a = .ok b := by
  cases x with
  | error e => exact ⟨nofun, nofun⟩
  | ok a => exact ⟨fun done => ⟨a, rfl, done⟩, fun ⟨_, same, done⟩ => Except.ok.inj same ▸ done⟩

lemma mapM_congr [Monad m] [LawfulMonad m] {f g : α → m β} (same : ∀ x ∈ xs, f x = g x) : xs.mapM f = xs.mapM g := by
  induction xs with
  | nil => rfl
  | cons x xs ih =>
    rw [mapM_cons, mapM_cons, same x (by simp), ih fun y mem => same y (.tail _ mem)]

lemma foldlM_congr [Monad m] {f g : β → α → m β} (same : ∀ x ∈ xs, ∀ b, f b x = g b x) (b : β) :
    xs.foldlM f b = xs.foldlM g b := by
  induction xs generalizing b with
  | nil => rfl
  | cons x xs ih =>
    rw [foldlM_cons, foldlM_cons, same x (by simp)]
    exact bind_congr fun c => ih (fun y mem => same y (.tail _ mem)) c

lemma mapM_ok (f : α → Except ε β) (value : α → β) (xs : List α)
    (each : ∀ x ∈ xs, f x = .ok (value x)) : xs.mapM f = .ok (xs.map value) :=
  (mapM_congr each).trans mapM_pure

lemma mapM_some (f : α → Option β) (value : α → β) (xs : List α)
    (each : ∀ x ∈ xs, f x = some (value x)) : xs.mapM f = some (xs.map value) :=
  (mapM_congr each).trans mapM_pure

lemma length_of_mapM_eq_some {f : α → Option β} (done : xs.mapM f = some ys) : ys.length = xs.length := by
  induction xs generalizing ys with
  | nil =>
    have none : [] = ys := some.inj done
    rw [← none]
    rfl
  | cons x xs ih =>
    rw [mapM_cons] at done
    rcases bind_eq_some_iff.mp done with ⟨y, _, others⟩
    rcases bind_eq_some_iff.mp others with ⟨rest, later, joined⟩
    have same : y :: rest = ys := some.inj joined
    rw [← same, length_cons, length_cons, ih later]

lemma mapM_cons_eq_ok (done : (x :: xs).mapM f = .ok ys) :
    ∃ y rest, f x = .ok y ∧ xs.mapM f = .ok rest ∧ ys = y :: rest := by
  rw [mapM_cons] at done
  obtain ⟨y, first, done⟩ := bind_eq_ok.mp done
  obtain ⟨rest, later, done⟩ := bind_eq_ok.mp done
  exact ⟨y, rest, first, later, (Except.ok.inj done).symm⟩

lemma forall₂_of_mapM (done : xs.mapM f = .ok ys) : Forall₂ (fun x y => f x = .ok y) xs ys := by
  induction xs generalizing ys with
  | nil =>
    obtain rfl := Except.ok.inj done
    exact .nil
  | cons x xs ih =>
    obtain ⟨y, rest, first, later, rfl⟩ := mapM_cons_eq_ok done
    exact .cons first (ih later)

lemma exists_of_mapM_eq_ok (done : xs.mapM f = .ok ys) : ∀ x ∈ xs, ∃ y ∈ ys, f x = .ok y := by
  induction xs generalizing ys with
  | nil => simp
  | cons x xs ih =>
    obtain ⟨y, rest, first, later, rfl⟩ := mapM_cons_eq_ok done
    intro z mem
    rcases mem_cons.mp mem with rfl | inside
    · exact ⟨y, by simp, first⟩
    · obtain ⟨w, found, same⟩ := ih later z inside
      exact ⟨w, .tail y found, same⟩

lemma foldlM_ok (f : β → α → Except ε β) (step : β → α → β) (xs : List α)
    (each : ∀ x ∈ xs, ∀ b, f b x = .ok (step b x)) (b : β) : xs.foldlM f b = .ok (xs.foldl step b) :=
  (foldlM_congr each b).trans foldlM_pure

lemma foldlM_flatMap (f : α → List β) (step : γ → β → Except ε γ) (xs : List α) (c : γ) :
    (xs.flatMap f).foldlM step c = xs.foldlM (fun c x => (f x).foldlM step c) c := by
  induction xs generalizing c with
  | nil => rfl
  | cons x xs ih =>
    rw [flatMap_cons, foldlM_append, foldlM_cons]
    exact bind_congr ih

lemma foldlM_error {f : β → α → Except ε β} (mem : x ∈ xs) (fails : ∀ b, ∃ e, f b x = .error e) (b : β) :
    ∃ e, xs.foldlM f b = .error e := by
  obtain ⟨before, after, rfl⟩ := append_of_mem mem
  rw [foldlM_append]
  cases before.foldlM f b with
  | error e => exact ⟨e, rfl⟩
  | ok c =>
    obtain ⟨e, failed⟩ := fails c
    exact ⟨e, by simp [failed, bind, Except.bind]⟩

private lemma filterAuxM_ok (xs kept : List α) (each : ∀ x ∈ xs, p x = .ok (q x)) :
    filterAuxM p xs kept = .ok ((xs.filter q).reverse ++ kept) := by
  induction xs generalizing kept with
  | nil => rfl
  | cons x xs ih =>
    cases keep : q x <;> simp_all [bind, Except.bind]

lemma filterM_ok (xs : List α) (each : ∀ x ∈ xs, p x = .ok (q x)) : xs.filterM p = .ok (xs.filter q) := by
  rw [filterM, filterAuxM_ok p q xs [] each]
  simp [bind, Except.bind, pure, Except.pure]

lemma lookup_filter_ne [BEq α] [LawfulBEq α] [DecidableEq α] (entries : List (α × β)) (target p : α) :
    (entries.filter (·.1 ≠ target)).lookup p = if p = target then none else entries.lookup p := by
  induction entries with
  | nil => simp
  | cons e rest ih =>
    obtain ⟨u, entry⟩ := e
    rw [filter_cons]
    by_cases same : u = target
    · subst same
      rw [if_neg (by simp), ih, lookup_cons]
      by_cases own : p = u
      · rw [if_pos own, if_pos own]
      · rw [if_neg own, if_neg own, beq_false_of_ne own]
    · rw [if_pos (by simpa using same), lookup_cons, lookup_cons, ih]
      by_cases own : p = u
      · subst own
        simp [same]
      · simp [beq_false_of_ne own]

lemma getElem?_flatMap {f : α → List β} {size : Nat} (lengths : ∀ x ∈ xs, (f x).length = size) (i : Nat)
    (below : j < size) : (xs.flatMap f)[i * size + j]? = xs[i]?.bind fun x => (f x)[j]? := by
  induction xs generalizing i with
  | nil => simp
  | cons x xs ih =>
    obtain ⟨own, others⟩ := forall_mem_cons.mp lengths
    rw [flatMap_cons]
    cases i with
    | zero =>
      rw [Nat.zero_mul, Nat.zero_add, getElem?_append_left (by omega)]
      rfl
    | succ i =>
      have past : (i + 1) * size + j - (f x).length = i * size + j := by
        rw [own, Nat.succ_mul]
        omega
      rw [getElem?_append_right (by rw [own, Nat.succ_mul]; omega), past, ih others]
      rfl

lemma take_drop_flatMap {f : α → List β} {size : Nat} (lengths : ∀ x ∈ xs, (f x).length = size)
    (found : xs[i]? = some x) : ((xs.flatMap f).drop (i * size)).take size = f x := by
  have own := lengths x (mem_of_getElem? found)
  apply ext_getElem?
  intro j
  by_cases below : j < size
  · rw [getElem?_take_of_lt below, getElem?_drop, getElem?_flatMap lengths i below, found, bind_some]
  · rw [getElem?_take_eq_none (by omega), getElem?_eq_none (by omega)]

lemma length_flatMap {f : α → List β} (size : Nat) (lengths : ∀ x ∈ xs, (f x).length = size) :
    (xs.flatMap f).length = xs.length * size := by
  rw [List.length_flatMap, map_congr_left lengths]
  simp

lemma eraseDups_sublist [BEq α] (xs : List α) : xs.eraseDups.Sublist xs := by
  induction h : xs.length using Nat.strongRecOn generalizing xs with
  | ind size ih =>
    cases xs with
    | nil => simp
    | cons x rest =>
      have shorter := length_filter_le (fun y => !y == x) rest
      rw [length_cons] at h
      rw [eraseDups_cons]
      exact ((ih _ (by omega) _ rfl).trans filter_sublist).cons_cons x

lemma foldl_max_le_iff [LinearOrder α] (xs : List α) (start bound : α) :
    xs.foldl max start ≤ bound ↔ start ≤ bound ∧ ∀ x ∈ xs, x ≤ bound := by
  induction xs generalizing start with
  | nil => simp
  | cons x xs ih =>
    rw [foldl_cons, ih, max_le_iff, forall_mem_cons, and_assoc]

end CircuitWorks
