import CircuitWorks.Qasm.Export

namespace CircuitWorks.Qasm

def fileName (path : List Char) : List Char := (path.reverse.takeWhile (· ≠ '/')).reverse

def fileExtension (path : List Char) : List Char :=
  let name := (fileName path).dropWhile (· = '.')
  if '.' ∈ name then '.' :: (name.reverse.takeWhile (· ≠ '.')).reverse else []

inductive FileError where
  | extension | missing
  deriving DecidableEq, Repr

def FileError.message? : FileError → Option String
  | extension => some "Can only convert .qasm files"
  | missing => none

instance : HasProblem FileError where
  problem
    | .extension => { fault := .type, message := FileError.message? .extension }
    | .missing => { fault := .file }

def checkFile (path : List Char) : Except FileError Unit :=
  if fileExtension path = ".qasm".toList then .ok () else .error .extension

structure Draft where
  text : String
  error : Option ExportError

namespace Draft

def after (text : String) (d : Draft) : Draft := { d with text := text ++ d.text }

def conditionText (ctx : Context) (cmd : Command) : String :=
  match cmd.op with
  | .conditional width value _ =>
    match conditionTest ctx width value (cmd.args.take width) with
    | .ok (test, _) => test.text
    | .error _ => ""
  | _ => ""

def ofCommands (ctx : Context) : List Command → Draft
  | [] => ⟨"", none⟩
  | cmd :: rest =>
    match commandLines ctx cmd with
    | .ok (lines, ctx) => (ofCommands ctx rest).after ("".intercalate (lines.map Line.text))
    | .error e => ⟨conditionText ctx cmd, some e⟩

def ofParts (header : String) (qubits bits : List UnitId) (commands : List Command) : Draft :=
  match registersOf qubits, registersOf bits with
  | .ok qregs, .ok cregs =>
    (ofCommands ⟨header, cregs, []⟩ commands).after (declarations qregs cregs)
  | .error e, _ => ⟨"", some e⟩
  | _, .error e => ⟨"", some e⟩

def ofCircuit (c : Circuit) (header : String) : Draft :=
  if needsExtension c header then ⟨"", some .classicalOps⟩
  else (ofParts header c.qubits c.bits c.commands).after (preamble (includedFile header))

end Draft

def save (c : Circuit) (header path : String) (files : Files) : Files × Except ExportError Unit :=
  let d := Draft.ofCircuit c header
  (files.write path d.text, match d.error with | some e => .error e | none => .ok ())

end CircuitWorks.Qasm
