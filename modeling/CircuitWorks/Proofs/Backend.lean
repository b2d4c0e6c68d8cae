import CircuitWorks.Backend.Json
import CircuitWorks.Proofs.Circuit.Execution
import CircuitWorks.Proofs.Lists
import Mathlib

namespace CircuitWorks

open List PauliString UnitId

namespace Circuit

/-- The gates that turn a factor of a string into one that is measured. -/
def turns : UnitId × Pauli → List Command
  | (u, .X) => [⟨.gate .h [], [u]⟩]
  | (u, .Y) => [⟨.gate .rx [Amount.ofFloat 0.5], [u]⟩]
  | _ => []

/-- A string is measured by a turn for each of its factors that are not the identity, and then by a
measurement of each of their qubits, to the first bits. -/
def measuring (s : PauliString) : List Command :=
  s.support.flatMap turns ++ s.support.zipIdx.map fun m => ⟨.gate .measure [], [m.1.1, bit m.2]⟩

lemma commands_addGate {c d : Circuit} {type : OpType} {params : List Amount} {args : List UnitId}
    (added : c.addGate type params args = .ok d) :
    d.commands = c.commands ++ [⟨.gate type params, args⟩] := by
  obtain ⟨op, made, added⟩ := bind_eq_ok.mp added
  obtain ⟨_, rfl⟩ := addOp_eq_ok added
  rw [gateOp_eq_ok made]
  rfl

lemma commands_ensureBit {c d : Circuit} {u : UnitId} (ensured : c.ensureBit u = .ok d) :
    d.commands = c.commands := by
  rw [ensureBit, ensureUnit, insertNew] at ensured
  grind [insertUnit]

lemma commands_foldlM {α : Type} {step : Circuit → α → Except Error Circuit}
    {added : α → List Command}
    (each : ∀ {x c d}, step c x = .ok d → d.commands = c.commands ++ added x)
    {xs : List α} {c d : Circuit} (done : xs.foldlM step c = .ok d) :
    d.commands = c.commands ++ xs.flatMap added := by
  induction xs generalizing c with
  | nil =>
    cases done
    exact (append_nil _).symm
  | cons x xs ih =>
    obtain ⟨_, one, rest⟩ := bind_eq_ok.mp done
    rw [ih rest, each one, flatMap_cons, append_assoc]

lemma commands_addMeasurement {c d : Circuit} {s : PauliString}
    (measured : c.addMeasurement s = .ok d) :
    d.commands = c.commands ++ measuring s := by
  obtain ⟨e, turned, done⟩ := bind_eq_ok.mp measured
  have first : e.commands = c.commands ++ s.support.flatMap turns := by
    refine commands_foldlM (fun {m _ _} one => ?_) turned
    obtain ⟨u, p⟩ := m
    cases p with
    | X | Y => exact commands_addGate one
    | I | Z =>
      cases one
      exact (append_nil _).symm
  have last := commands_foldlM (fun one => by
    obtain ⟨_, ensured, added⟩ := bind_eq_ok.mp one
    rw [commands_addGate added, commands_ensureBit ensured]) done
  rw [last, first, append_assoc, measuring, map_eq_flatMap]

end Circuit

namespace Backend

/-- The terms whose strings are not the identity, however this is written. -/
def others (a : PauliOperator Amount) : List (PauliString × Amount) :=
  a.terms.filter fun t => !t.1.same empty

lemma energy_eq {parity : Result → Except Error Float} {results : List Result} {xs : List Float}
    (read : results.mapM parity = .ok xs) (start : Option Amplitude) (values : List Amplitude) :
    energy parity start (results.zip values) =
      .ok ((xs.zip values).foldl
        (fun sum e => addEnergy sum (e.2 * Amplitude.ofReal e.1)) start) := by
  rw [energy]
  have each := forall₂_of_mapM read
  clear read
  induction each generalizing start values with
  | nil => rfl
  | cons own _ ih =>
    cases values with
    | nil => rfl
    | cons z values =>
      rw [zip_cons_cons, foldlM_cons]
      simp only [own]
      exact ih _ values

lemma run_bind {α β : Type} {x : Action α} {f : α → Action β} {a : α} {b b' : Backend}
    (done : x.run b = (.ok a, b')) : (x >>= f).run b = (f a).run b' := by
  rw [ExceptT.run_bind]
  change StateT.bind x.run _ b = _
  rw [StateT.bind, done]
  rfl

lemma run_lifted {α : Type} {x : Except Error α} {a : α} (done : x = .ok a) (b : Backend) :
    (lifted x).run b = (.ok a, b) := by
  rw [done]
  rfl

/-- The result is the coefficient of the identity and the sum of the other coefficients, each times
the parity of the result that stands at its place. There are as many circuits as coefficients just
if each identity is written without factors, and then the circuit at a place measures the factors of
the string of the coefficient there. -/
theorem measurements_paired_iff {b ran : Backend} {c : Circuit} {a : PauliOperator Amount}
    {circuits : List Circuit} {start : Option Amplitude} {values : List Amplitude} {shots : Json}
    {hs : List Handle} {results : List Result} {parity : Result → Except Error Float}
    {xs : List Float} (identity : identityPart a = .ok start)
    (valued : otherCoefficients a = .ok values)
    (measured : c.measurements a = .ok circuits)
    (processed : (process (circuits.map (b.compile 1)) shots true).run b = (.ok hs, ran))
    (fetched : (fetch hs).run ran = (.ok results, ran)) (known : b.parity? = some parity)
    (read : results.mapM parity = .ok xs) :
    (operatorFromShots c a shots).run b = (.ok (estimateOf ((xs.zip values).foldl
      (fun sum e => addEnergy sum (e.2 * Amplitude.ofReal e.1)) start)), hs.foldl drop ran) ∧
    Forall₂ (fun t z => valueOf t.2 = .ok z) (others a) values ∧
    (circuits.length = values.length ↔ ∀ t ∈ a.terms, t.1.same empty → t.1.factors = []) ∧
    (circuits.length = values.length → Forall₂
      (fun t d => d.commands = c.commands ++ Circuit.measuring t.1) (others a) circuits) := by
  have coefficients : Forall₂ _ (others a) values := forall₂_of_mapM valued
  have measurements := (forall₂_of_mapM measured).imp fun _ _ made =>
    Circuit.commands_addMeasurement made
  have part : others a =
      (a.terms.filter fun t => !t.1.factors.isEmpty).filter fun t => !t.1.same empty := by
    rw [filter_filter]
    refine filter_congr fun t _ => ?_
    cases factors : t.1.factors <;> simp [same, support, empty, factors]
  have equal : circuits.length = values.length ↔
      ∀ t ∈ a.terms.filter fun t => !t.1.factors.isEmpty, (!t.1.same empty) = true := by
    rw [← coefficients.length_eq, ← measurements.length_eq, part, eq_comm,
      length_filter_eq_length_iff]
  refine ⟨?_, coefficients, equal.trans ?_, fun same => ?_⟩
  · have circuited : building (c.measurements a) = .ok circuits := by
      rw [measured]
      rfl
    have begun : (get : Action Backend).run b = (.ok b, b) := rfl
    refine (run_bind begun).trans ((run_bind (run_lifted identity b)).trans ?_)
    refine (run_bind (run_lifted valued b)).trans ((run_bind (run_lifted circuited b)).trans ?_)
    refine (run_bind processed).trans ((run_bind fetched).trans ?_)
    rw [known]
    exact (run_bind (run_lifted (energy_eq read start values) ran)).trans rfl
  · refine forall_mem_filter.trans (forall₂_congr fun t _ => ?_)
    cases t.1.factors <;> simp
  · rw [part, filter_eq_self.mpr (equal.mp same)]
    exact measurements

/-- The identity in the middle is written with a factor: the coefficient of the last string meets the
parity of the second circuit, which measures nothing. -/
theorem measurements_paired_iff_written :
    let a : PauliOperator Amount := ⟨[(⟨[(qubit 0, .Z)]⟩, .ofFloat 1),
      (⟨[(qubit 0, .I)]⟩, .ofFloat 2), (⟨[(qubit 1, .X)]⟩, .ofFloat 4)], []⟩
    let r : Result := { shots := some ⟨1, 1, [[128]]⟩, bits := [(bit 0, 0)], qubits := [] }
    let b : Backend := { abilities := [.shots], compile := fun _ c => c, waiting := [r, r, r] }
    ∃ x circuits, parityOfShots r = .ok x ∧ (Circuit.blank 2 0).measurements a = .ok circuits ∧
      circuits.length = 3 ∧ ((operatorFromShots (Circuit.blank 2 0) a (.int 1)).run b).1 =
        .ok (estimateOf (some
          (⟨2, 0⟩ + ⟨1, 0⟩ * Amplitude.ofReal x + ⟨4, 0⟩ * Amplitude.ofReal x))) := by
  intro a r b
  have value (x : Float) : valueOf (.ofFloat x) = .ok ⟨x, 0⟩ := by
    have number : (Amount.ofFloat x).isNumber = true := by cbv
    rw [valueOf, Amount.value?, number]
    rfl
  have identity : identityPart a = .ok (some ⟨2, 0⟩) := by
    have found : a.get? PauliString.empty = some (.ofFloat 2) := rfl
    rw [identityPart, found, Option.mapM_some, value]
    rfl
  have valued : otherCoefficients a = .ok [⟨1, 0⟩, ⟨4, 0⟩] := by
    have kept : (a.terms.filter fun t => !t.1.same empty) =
        [(⟨[(qubit 0, .Z)]⟩, .ofFloat 1), (⟨[(qubit 1, .X)]⟩, .ofFloat 4)] := rfl
    rw [otherCoefficients]
    simp only [kept, mapM_cons, mapM_nil, value]
    rfl
  obtain ⟨x, odd⟩ : ∃ x, parityOfShots r = .ok x := by
    have rows : shotsOf r = .ok [[1]] := by cbv
    rw [parityOfShots, rows]
    exact ⟨_, rfl⟩
  obtain ⟨circuits, hs, ran, measured, three, processed, fetched⟩ : ∃ circuits hs ran,
      (Circuit.blank 2 0).measurements a = .ok circuits ∧ circuits.length = 3 ∧
      (process (circuits.map (b.compile 1)) (.int 1) true).run b = (.ok hs, ran) ∧
      (fetch hs).run ran = (.ok [r, r, r], ran) := by
    refine ⟨_, _, _, rfl, rfl, rfl, ?_⟩
    cbv
  have read : [r, r, r].mapM parityOfShots = .ok [x, x, x] := by
    simp only [mapM_cons, mapM_nil, odd]
    rfl
  have paired := measurements_paired_iff identity valued measured processed fetched rfl read
  exact ⟨x, circuits, odd, measured, three, congrArg Prod.fst paired.1⟩

end Backend

end CircuitWorks
