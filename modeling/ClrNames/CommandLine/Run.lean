import ClrNames.CommandLine.Arguments
import ClrNames.CommandLine.Report
import ClrNames.Dump.Json

/-!
# Running a command

A run is a function of the arguments and of what is found under the paths they
name. It answers an exit code, the text to print, and an error with its cause.
How the program is used is not explained: the help answers no text.
-/

set_option autoImplicit false

namespace ClrNames.CommandLine

structure Result where
  exitCode : UInt8
  stdout : String
  error : Option String := none
  cause : Option ParseError := none
  deriving DecidableEq, Repr

def Result.success (stdout : String) : Result := { exitCode := 0, stdout }

def Result.failure (error : String) (cause : Option ParseError) : Result :=
  { exitCode := 1, stdout := "", error := some error, cause }

def printed (json : Bool) (asJson : Json) (asText : String) : String :=
  if json then asJson.pretty "" ++ "\n" else asText

def loadDump (files : String → FileContent) (path : String) : Except Result Dump :=
  match Dump.load (files path) with
  | .ok dump => .ok dump
  | .error _ => .error (.failure ("failed to load dump: " ++ path) none)

def runTypes (files : String → FileContent) (json : Bool) (path : String)
    (nspace : Option String) (includeSystem includeArrays : Bool) (style : String) :
    Except Result Result := do
  match Style.named? style with
  | none => throw (.failure s!"unknown style '{style}'; expected 'csharp' or 'plain'" none)
  | some style =>
    let dump ← loadDump files path
    let report := TypesReport.ofDump style nspace includeSystem includeArrays dump
    return .success (printed json report.toJson report.toText)

/-- The report is printed in any case; failures in it are an error on top. -/
def runFailures (files : String → FileContent) (json : Bool) (path : String)
    (includeSystem : Bool) : Except Result Result := do
  let dump ← loadDump files path
  let report := FailuresReport.ofDump includeSystem dump
  let stdout := printed json report.toJson report.toText
  if report.failures.isEmpty then return .success stdout
  else
    return { exitCode := 1, stdout
             error := some s!"{report.failures.length} type name(s) failed to parse" }

def readScope (known : String → Bool) (scope : Option String) :
    Except Result (Option TypeName) :=
  match scope with
  | none => .ok none
  | some name =>
    match readTypeName known none name with
    | .ok t => .ok (some t)
    | .error e => .error (.failure s!"failed to parse scope type '{name}'" (some e))

def runParse (files : String → FileContent) (json : Bool) (name : String)
    (dump scope : Option String) (definition : Bool) : Except Result Result := do
  let table ←
    match dump with
    | some path => (loadDump files path).map Dump.nameTable
    | none => pure .empty
  let containing ← readScope table.contains scope
  match readName { known := table.contains, containing, definitionsOnly := definition } name with
  | .ok tree =>
    let report : NameReport := { tree }
    return .success (printed json report.toJson report.toText)
  | .error e => throw (.failure s!"failed to parse '{name}'" (some e))

def runInvocation (files : String → FileContent) (i : Invocation) : Except Result Result :=
  match i.command with
  | .types path nspace includeSystem includeArrays style =>
    runTypes files i.json path nspace includeSystem includeArrays style
  | .parse name dump scope definition => runParse files i.json name dump scope definition
  | .failures path includeSystem => runFailures files i.json path includeSystem

def versionText : String := "refdump 0.3.2\n"

def run (files : String → FileContent) (args : List String) : Result :=
  match readArguments args {} with
  | .error .usage => { exitCode := 2, stdout := "" }
  | .error .help => .success ""
  | .error .version => .success versionText
  | .ok i =>
    match runInvocation files i with
    | .ok result => result
    | .error result => result

end ClrNames.CommandLine
