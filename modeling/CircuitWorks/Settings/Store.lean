import CircuitWorks.Problem
import CircuitWorks.Json.Basic

/-!
The settings of an installation: whether reports of its use are allowed, the identifier under which
it is registered, and a section for each extension.
The file with the settings, and the registration of an installation with a server.
-/

namespace CircuitWorks

namespace Json

/-- A value as it is written at a level of nesting: the text, and whether that is all of it or the
value has no form as JSON from there on. -/
def Draft := Nat → String × Bool

namespace Draft

def json (j : Json) : Draft := fun level => (pretty level j, true)

/-- The entries are written one by one, up to the first that breaks off. -/
def entries (level : Nat) : List (String × Draft) → List String × Bool
  | [] => ([], true)
  | (key, value) :: rest =>
    let (text, isWhole) := value level
    let entry := quote key ++ ": " ++ text
    if isWhole then (entries level rest).map (entry :: ·) id else ([entry], false)

def obj (fields : List (String × Draft)) : Draft := fun level =>
  match entries (level + 1) fields with
  | (parts, true) => (block level "\x7b" "\x7d" parts, true)
  | (parts, false) =>
    ("\x7b" ++ newline (level + 1) ++ ("," ++ newline (level + 1)).intercalate parts, false)

end Draft

end Json

/-- Settings as they stand in a file, where any value may have been put. -/
structure Settings where
  isReporting : Json := .bool false
  id : Json := .null
  extensions : Json := .obj []
  deriving BEq, Inhabited

namespace Settings

inductive Error where
  | noFile | notJson
  /-- A value without fields in the place of an object. -/
  | noFields
  /-- A value in which no field can be looked up. -/
  | noLookup | noId | encoding
  /-- A value that has no form as JSON. -/
  | noForm
  deriving DecidableEq, Repr

instance Error.instHasProblem : HasProblem Error where
  problem e :=
    { fault := match e with
        | .noFile => .file
        | .notJson => .notJson
        | .noFields => .part
        | .noLookup | .noForm => .type
        | .noId => .key
        | .encoding => .encoding }

def withExtensions (s : Settings) : Json → Settings
  | .null => { s with extensions := .obj [] }
  | extensions => { s with extensions }

def ofJson : Json → Except Error Settings
  | .obj fields =>
    let s : Settings :=
      { isReporting := (Json.lookup "enable_telemetry" fields).getD (.bool false)
        id := (Json.lookup "telemetry_id" fields).getD .null }
    .ok (s.withExtensions ((Json.lookup "extensions" fields).getD .null))
  | _ => .error .noFields

def draft (s : Settings) (extensions : Json.Draft) : Json.Draft :=
  .obj [("enable_telemetry", .json s.isReporting), ("telemetry_id", .json s.id),
    ("extensions", extensions)]

def parse (text : String) : Except Error Settings :=
  match Json.parse? text with
  | some j => ofJson j
  | none => .error .notJson

def occursIn (part : List Char) : List Char → Bool
  | [] => part.isEmpty
  | c :: rest => part.isPrefixOf (c :: rest) || occursIn part rest

def extension (s : Settings) (name : String) : Except Error Json :=
  match s.extensions with
  | .obj fields => .ok ((Json.lookup name fields).getD (.obj []))
  | .arr items => if items.contains (.str name) then .error .noLookup else .ok (.obj [])
  | .str text => if occursIn name.toList text.toList then .error .noLookup else .ok (.obj [])
  | _ => .error .noLookup

def sectionFields (names : List String) : Json → Except Error Json
  | .obj fields => .ok (.obj (names.map fun n => (n, (Json.lookup n fields).getD .null)))
  | _ => .error .noFields

def updateExtension (s : Settings) (name : String) (value : Json.Draft) :
    Except Error Json.Draft :=
  match s.extensions with
  | .obj fields => .ok (.obj (Json.insert name value (fields.map fun (n, j) => (n, .json j))))
  | _ => .error .noFields

def answer (s : Settings) : Json :=
  .obj [("enable", s.isReporting.plain), ("id", s.id.plain), ("extensions", .str s.extensions.text)]

inductive Reply where
  | response (status : Int) (body : String)
  | unreachable (reason : String)
  | refused (code : Int) (reason : String)
  deriving DecidableEq, Repr

structure Site where
  files : Files := []
  reply : Option Reply := none
  requests : Nat := 0
  log : List String := []
  deriving DecidableEq, Repr

abbrev Action := ExceptT Error (StateM Site)

def path : String := "pytket/config.json"

def content : Action String := do
  match (← get).files.read? path with
  | some text => return text
  | none => throw .noFile

def store (text : String) : Action Unit := modify fun site => { site with files := site.files.write path text }

def load : Action Settings := do parse (← content)

/-- The file is emptied when it is opened, and then written as far as the draft goes. -/
def write (draft : Json.Draft) : Action Unit := do
  store ""
  let (text, isWhole) := draft 0
  store text
  if !isWhole then throw .noForm

def save (s : Settings) : Action Unit := write (s.draft (.json s.extensions))

def loadOrCreate : Action Settings := do
  match (← get).files.read? path with
  | some text => parse text
  | none =>
    save {}
    return {}

def saveExtension (name : String) (value : Json.Draft) : Action Unit := do
  let s ← load
  write (s.draft (← s.updateExtension name value))

def setReporting (isReporting : Bool) : Action Unit := do
  let s ← loadOrCreate
  save { s with isReporting := .bool isReporting }

def logMessage (message : String) : Action Unit := modify fun site => { site with log := site.log ++ [message] }

def answerLimit : Nat := 64

def received (body : String) : Except Error String :=
  match String.fromUTF8? (body.toUTF8.extract 0 answerLimit) with
  | some text => .ok text
  | none => .error .encoding

def newId (body : String) : Except Error Json := do
  match Json.parse? (← received body) with
  | some (.obj fields) =>
    match Json.lookup "telemetry_id" fields with
    | some id => return id
    | none => throw .noId
  | some _ => throw .noLookup
  | none => throw .notJson

def register : Action Unit := do
  modify fun site => { site with requests := site.requests + 1 }
  match (← get).reply with
  | some (.response status body) =>
    if status ≠ 200 then logMessage s!"failed to register pytket with http status code: {status}"
    else
      let id ← newId body
      let s ← load
      save { s with id }
  | some (.unreachable reason) =>
    logMessage s!"failed to register pytket with exception: <urlopen error {reason}>"
  | some (.refused code reason) =>
    logMessage s!"failed to register pytket with exception: HTTP Error {code}: {reason}"
  | none => throw .noId

def start : Action Unit := do
  let s ← loadOrCreate
  if s.isReporting.isTruthy && s.id.isNull then register

/-- A request as it is sent: its method, address, headers, the names of the facts in it, and the
seconds that it waits for an answer. -/
def requestJson : Json :=
  .arr [.str "POST", .str "https://telemetry.cambridgequantum.com/v3/register",
    .arr [.ofStrings ["Content-type", "application/json"]],
    .ofStrings ["c_api_version", "machine", "processor", "python_implementation", "python_version",
      "system", "system_release", "system_version", "version"], .int 10]

def requestsJson (site : Site) : Json := .arr (List.replicate site.requests requestJson)

def readReply (j : Json) : Option Reply :=
  if j.has "url_error" then some (.unreachable (j.field "url_error").string)
  else if j.has "http_error" then
    let e := j.field "http_error"
    some (.refused (e.item 0).integer (e.item 1).string)
  else if j.has "status" then some (.response (j.field "status").integer (j.field "body").string)
  else none

end Settings

end CircuitWorks
