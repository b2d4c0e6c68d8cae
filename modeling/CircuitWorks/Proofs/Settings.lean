import CircuitWorks.Settings.Store
import Mathlib

/-!
What a change of settings leaves in their file, which is written anew from the three settings that are known.
-/

namespace CircuitWorks

lemma Json.lookup_insert (key name : String) (value : Json) (fields : List (String × Json)) :
    lookup key (insert name value fields) = if name = key then some value else lookup key fields := by
  induction fields with
  | nil => rfl
  | cons e fields ih =>
    rw [insert]
    split <;> grind [lookup]

lemma Files.write_write (path old new : String) (files : Files) :
    (files.write path old).write path new = files.write path new := by
  induction files with
  | nil => simp [write]
  | cons file files ih =>
    simp only [write]
    split
    · simp [write]
    · rename_i other
      rw [write, if_neg other, ih]

namespace Json.Draft

/-- A draft of a JSON value, which is written as that. -/
def Stands (d : Draft) (j : Json) : Prop := ∀ level, d level = (pretty level j, true)

def StandEach : List (String × Draft) → List (String × Json) → Prop :=
  List.Forall₂ fun e f => e.1 = f.1 ∧ Stands e.2 f.2

lemma stands_json (j : Json) : Stands (.json j) j := fun _ => rfl

variable {fields : List (String × Draft)} {js : List (String × Json)}

lemma entries_eq (each : StandEach fields js) (level : Nat) :
    entries level fields = (prettyFields level js, true) := by
  induction each with
  | nil => rfl
  | cons own _ ih =>
    obtain ⟨key, stands⟩ := own
    simp [entries, stands level, ih, prettyFields, key]

lemma stands_obj (each : StandEach fields js) : Stands (.obj fields) (.obj js) := by
  intro level
  rw [obj, entries_eq each, pretty]

/-- An object breaks off where one of its entries does. -/
lemma obj_broken {level : Nat} {e : String × Draft} (mem : e ∈ fields)
    (broken : (e.2 (level + 1)).2 = false) : (obj fields level).2 = false := by
  have stops : (entries (level + 1) fields).2 = false := by
    induction fields with
    | nil => cases mem
    | cons f fields ih =>
      rw [entries]
      rcases List.mem_cons.mp mem with rfl | later
      · simp [broken]
      · cases whole : (f.2 (level + 1)).2 <;> simp [whole, ih later]
  rw [obj]
  split <;> simp_all

lemma stands_insert (name : String) {value : Draft} {j : Json} (stands : Stands value j)
    (sections : List (String × Json)) :
    StandEach (insert name value (sections.map fun (n, j) => (n, .json j))) (insert name j sections) := by
  have plain (sections : List (String × Json)) :
      StandEach (sections.map fun (n, j) => (n, .json j)) sections := by
    rw [StandEach, List.forall₂_map_left_iff, List.forall₂_same]
    exact fun e _ => ⟨rfl, stands_json e.2⟩
  induction sections with
  | nil => exact .cons ⟨rfl, stands⟩ .nil
  | cons e sections ih =>
    simp only [List.map_cons, insert]
    split
    · exact .cons ⟨rfl, stands⟩ (plain sections)
    · exact .cons ⟨rfl, stands_json e.2⟩ ih

lemma mem_insert (name : String) (value : Draft) (fields : List (String × Draft)) :
    (name, value) ∈ insert name value fields := by
  induction fields with
  | nil => simp [insert]
  | cons e fields ih =>
    rw [insert]
    split <;> simp [ih]

end Json.Draft

namespace Settings

open Json

variable {before sections : List (String × Json)} {site site' : Site} {s : Settings} {content : String}

def fields (s : Settings) : List (String × Json) :=
  [("enable_telemetry", s.isReporting), ("telemetry_id", s.id), ("extensions", s.extensions)]

/-- Every value but the named one is as before; a setting that was absent has its default. -/
def KeepsOthers (name : String) (before after : List (String × Json)) : Prop :=
  ∀ key ≠ name, lookup key after = (lookup key before).or (lookup key (fields {}))

def OnlyKnown (before : List (String × Json)) : Prop :=
  ∀ key, lookup key (fields {}) = none → lookup key before = none

/-- The settings that an object stands for. -/
def read (before : List (String × Json)) : Settings where
  isReporting := (lookup "enable_telemetry" before).getD (.bool false)
  id := (lookup "telemetry_id" before).getD .null
  extensions := match lookup "extensions" before with
    | none | some .null => .obj []
    | some j => j

lemma ofJson_eq (before : List (String × Json)) : ofJson (.obj before) = .ok (read before) := by
  rw [ofJson, read]
  cases lookup "extensions" before with
  | none => rfl
  | some j => cases j <;> rfl

def Site.holding (site : Site) (text : String) : Site :=
  { site with files := site.files.write path text }

def Site.saving (site : Site) (after : List (String × Json)) : Site :=
  site.holding (pretty 0 (.obj after))

/-- What is read is what stands in the object or the default, but for sections that are null. -/
lemma lookup_read_iff (key : String) :
    lookup key (read before).fields = (lookup key before).or (lookup key (fields {})) ↔
    (lookup key (fields {}) = none → lookup key before = none) ∧
    (key = "extensions" → lookup key before ≠ some .null) := by
  by_cases first : key = "enable_telemetry"
  · subst first
    cases found : lookup "enable_telemetry" before <;> simp [fields, lookup, read, found]
  by_cases second : key = "telemetry_id"
  · subst second
    cases found : lookup "telemetry_id" before <;> simp [fields, lookup, read, found]
  by_cases third : key = "extensions"
  · subst third
    cases found : lookup "extensions" before with
    | none => simp [fields, lookup, read, found]
    | some j => cases j <;> simp [fields, lookup, read, found]
  · simp [fields, lookup, Ne.symm first, Ne.symm second, Ne.symm third, third, eq_comm]

lemma keepsOthers_iff {name : String} (known : lookup name (fields {}) ≠ none)
    (others : ∀ key ≠ name, lookup key s.fields = lookup key (read before).fields) :
    KeepsOthers name before s.fields ↔
    OnlyKnown before ∧ (name ≠ "extensions" → lookup "extensions" before ≠ some .null) := by
  have each : KeepsOthers name before s.fields ↔ ∀ key ≠ name,
      (lookup key (fields {}) = none → lookup key before = none) ∧
      (key = "extensions" → lookup key before ≠ some .null) :=
    forall₂_congr fun key other => by rw [others key other, lookup_read_iff]
  rw [each]
  refine ⟨fun kept => ⟨fun key unknown => ?_, fun other => ?_⟩, fun kept key other => ⟨kept.1 key, ?_⟩⟩
  · exact (kept key (by grind)).1 unknown
  · exact (kept _ other.symm).2 rfl
  · rintro rfl
    exact kept.2 other.symm

section

lemma run_bind_ok {α β : Type} {x : Action α} {a : α} (done : x.run.run site = (.ok a, site'))
    (f : α → Action β) : (x >>= f).run.run site = (f a).run.run site' := by
  rw [ExceptT.run_bind, StateT.run_bind, done]
  rfl

lemma get_run (site : Site) : (get : Action Site).run.run site = (.ok site, site) := rfl

lemma write_run (d : Draft) : (write d).run.run site =
    (if (d 0).2 then .ok () else .error .noForm, site.holding (d 0).1) := by
  have emptied : (store "").run.run site = (.ok (), site.holding "") := rfl
  have filled : (store (d 0).1).run.run (site.holding "") = (.ok (), site.holding (d 0).1) := by
    have twice := Files.write_write path "" (d 0).1 site.files
    rw [Site.holding, Site.holding, ← twice]
    rfl
  rw [write, run_bind_ok emptied, run_bind_ok filled]
  cases (d 0).2 <;> rfl

lemma write_draft (s : Settings) {extensions : Draft} {j : Json} (stands : extensions.Stands j) :
    (write (s.draft extensions)).run.run site = (.ok (), site.saving { s with extensions := j }.fields) := by
  have whole : (s.draft extensions).Stands (.obj { s with extensions := j }.fields) :=
    Draft.stands_obj (.cons ⟨rfl, Draft.stands_json _⟩ (.cons ⟨rfl, Draft.stands_json _⟩
      (.cons ⟨rfl, stands⟩ .nil)))
  rw [write_run, whole 0]
  rfl

variable (stored : site.files.read? path = some content) (object : parse? content = some (.obj before))
include stored object

lemma load_run : load.run.run site = (.ok (read before), site) := by
  have held : Settings.content.run.run site = (.ok content, site) := by
    rw [Settings.content, run_bind_ok (get_run site), stored]
    rfl
  rw [load, run_bind_ok held, parse, object]
  simp only [ofJson_eq]
  rfl

lemma setReporting_run (on : Bool) : (setReporting on).run.run site =
    (.ok (), site.saving { read before with isReporting := .bool on }.fields) := by
  have loaded : loadOrCreate.run.run site = (.ok (read before), site) := by
    rw [loadOrCreate, run_bind_ok (get_run site), stored]
    simp only [parse, object, ofJson_eq]
    rfl
  rw [setReporting, run_bind_ok loaded]
  exact write_draft _ (Draft.stands_json _)

/-- The draft of the settings with one section set anew. -/
def updated (s : Settings) (name : String) (value : Draft) (sections : List (String × Json)) : Draft :=
  s.draft (.obj (insert name value (sections.map fun (n, j) => (n, .json j))))

lemma saveExtension_run (name : String) (value : Draft) : (saveExtension name value).run.run site =
    match (read before).extensions with
    | .obj sections => (write ((read before).updated name value sections)).run.run site
    | _ => (.error .noFields, site) := by
  rw [saveExtension, run_bind_ok (load_run stored object), updateExtension]
  cases (read before).extensions <;> rfl

/-- A change of settings that is saved keeps the other settings; all of the file is kept just if
nothing else stands in it and, unless the sections are changed, they are not null. Sections that are
no object cannot be changed. A section with a value that has no form leaves the file with what was
written before that value: the file was emptied before it was filled. -/
theorem settings_frame :
    (∀ on, ∃ after, (setReporting on).run.run site = (.ok (), site.saving after) ∧
      lookup "enable_telemetry" after = some (.bool on) ∧ (KeepsOthers "enable_telemetry" before after ↔
        OnlyKnown before ∧ lookup "extensions" before ≠ some .null)) ∧
    (∀ name value j sections, (read before).extensions = .obj sections → Draft.Stands value j →
      ∃ after sections', (saveExtension name value).run.run site = (.ok (), site.saving after) ∧
      lookup "extensions" after = some (.obj sections') ∧ lookup name sections' = some j ∧
      (∀ other ≠ name, lookup other sections' = lookup other sections) ∧
      (KeepsOthers "extensions" before after ↔ OnlyKnown before)) ∧
    (∀ name value sections, (read before).extensions = .obj sections → (value 2).2 = false →
      (saveExtension name value).run.run site =
        (.error .noForm, site.holding ((read before).updated name value sections 0).1)) ∧
    ∀ name value, (∀ sections, (read before).extensions ≠ .obj sections) →
      (saveExtension name value).run.run site = (.error .noFields, site) := by
  refine ⟨fun on => ⟨_, setReporting_run stored object on, rfl, ?_⟩,
    fun name value j sections here stands => ?_,
    fun name value sections here broken => ?_, fun name value other => ?_⟩
  · rw [keepsOthers_iff (by simp [fields, lookup]) fun key other => ?_]
    · simp
    · simp [fields, lookup, other.symm]
  · refine ⟨{ read before with extensions := .obj (insert name j sections) }.fields,
      insert name j sections, ?_, rfl, ?_, fun other apart => ?_, ?_⟩
    · rw [saveExtension_run stored object, here]
      exact write_draft _ (Draft.stands_obj (Draft.stands_insert name stands sections))
    · rw [lookup_insert, if_pos rfl]
    · rw [lookup_insert, if_neg apart.symm]
    · rw [keepsOthers_iff (by simp [fields, lookup]) fun key other => ?_]
      · simp
      · simp [fields, lookup, other.symm]
  · have sectionBroken := Draft.obj_broken
      (Draft.mem_insert name value (sections.map fun (n, j) => (n, .json j))) broken
    have stops : ((read before).updated name value sections 0).2 = false :=
      Draft.obj_broken (.tail _ (.tail _ (.head _))) sectionBroken
    rw [saveExtension_run stored object, here]
    simp only [write_run, stops]
    rfl
  · rw [saveExtension_run stored object]
    split
    · exact absurd ‹_› (other _)
    · rfl

end

def strange : Site := { files := [(path, "\x7b\"unknown\": 1\x7d")] }

/-- A key that is not known is lost when reports are allowed, and all of the file when a section has
a value without a form. -/
theorem settings_frame_unknown :
    strange.files.read? path = some "\x7b\"unknown\": 1\x7d" ∧
    parse? "\x7b\"unknown\": 1\x7d" = some (.obj [("unknown", .int 1)]) ∧
    (∃ text, (saveExtension "e" fun _ => ("", false)).run.run strange = (.error .noForm, strange.holding text) ∧
      parse? text = none) ∧
    ∃ after, (setReporting true).run.run strange = (.ok (), strange.saving after) ∧
      lookup "enable_telemetry" after = some (.bool true) ∧
      ¬KeepsOthers "enable_telemetry" [("unknown", .int 1)] after := by
  have stored : strange.files.read? path = some "\x7b\"unknown\": 1\x7d" := by simp [strange, Files.read?]
  have object : parse? "\x7b\"unknown\": 1\x7d" = some (.obj [("unknown", .int 1)]) := by cbv
  obtain ⟨after, saved, set, kept⟩ := (settings_frame stored object).1 true
  have sections : (read [("unknown", .int 1)]).extensions = .obj [] := rfl
  have lost := (settings_frame stored object).2.2.1 "e" (fun _ => ("", false)) [] sections rfl
  refine ⟨stored, object, ⟨_, lost, by cbv⟩, after, saved, set, fun all => ?_⟩
  have absent := (kept.mp all).1 "unknown" (by simp [fields, lookup])
  simp [lookup] at absent

end Settings

end CircuitWorks
