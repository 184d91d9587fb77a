/-!
# Command line arguments

Options may stand anywhere after their command, written `--option value`,
`--option=value`, `-o value` or `-ovalue`; short flags may share a dash. A flag
or option given twice, one that is not known, and a missing or surplus operand
are usage errors. Arguments are read from left to right and the first thing that
ends the reading decides.
-/

set_option autoImplicit false

namespace ClrNames.CommandLine

inductive Command where
  | types (path : String) (nspace : Option String) (includeSystem includeArrays : Bool)
      (style : String)
  | parse (name : String) (dump scope : Option String) (definition : Bool)
  | failures (path : String) (includeSystem : Bool)
  deriving DecidableEq, Repr

structure Invocation where
  json : Bool
  verbose : Bool
  command : Command
  deriving DecidableEq, Repr

inductive Stop where
  | usage
  | help
  | version
  deriving DecidableEq, Repr

inductive OptionKind where
  | flag
  | value (allowEmpty : Bool)
  | stop (reason : Stop)
  deriving DecidableEq, Repr

structure OptionSpec where
  long : String
  short : Option Char
  kind : OptionKind
  deriving DecidableEq, Repr

structure LevelSpec where
  options : List OptionSpec
  allowEmpty : Bool
  deriving DecidableEq, Repr

structure Given where
  flags : List String := []
  values : List (String × String) := []
  operand : Option String := none
  deriving DecidableEq, Repr

namespace Given

def hasFlag (g : Given) (long : String) : Bool := g.flags.contains long

def value? (g : Given) (long : String) : Option String := g.values.lookup long

def addFlag (g : Given) (long : String) : Except Stop Given :=
  if g.flags.contains long then .error .usage else .ok { g with flags := long :: g.flags }

def addValue (g : Given) (long : String) (allowEmpty : Bool) (value : String) :
    Except Stop Given :=
  if (g.value? long).isSome || (value.isEmpty && !allowEmpty) then .error .usage
  else .ok { g with values := (long, value) :: g.values }

def addOperand (g : Given) (allowEmpty : Bool) (value : String) : Except Stop Given :=
  if g.operand.isSome || (value.isEmpty && !allowEmpty) then .error .usage
  else .ok { g with operand := some value }

end Given

inductive Shape where
  | separator
  | long (name : String) (attached : Option String)
  | shorts (letters : List Char)
  | operand
  deriving DecidableEq, Repr

def Shape.of (arg : String) : Shape :=
  match arg.toList with
  | ['-', '-'] => .separator
  | '-' :: '-' :: rest =>
    .long (String.ofList (rest.takeWhile (· != '=')))
      (if rest.contains '=' then some (String.ofList ((rest.dropWhile (· != '=')).drop 1))
      else none)
  | '-' :: c :: rest => .shorts (c :: rest)
  | _ => .operand

abbrev Pending := Option (String × Bool)

def readShorts (spec : LevelSpec) : List Char → Given → Except Stop (Given × Pending)
  | [], g => .ok (g, none)
  | c :: rest, g =>
    match spec.options.find? fun o => o.short == some c with
    | none => .error .usage
    | some o =>
      match o.kind with
      | .stop reason => .error reason
      | .flag =>
        match g.addFlag o.long with
        | .ok g => readShorts spec rest g
        | .error e => .error e
      | .value allowEmpty =>
        match rest with
        | [] => .ok (g, some (o.long, allowEmpty))
        | '=' :: value =>
          (g.addValue o.long allowEmpty (String.ofList value)).map fun g => (g, none)
        | value => (g.addValue o.long allowEmpty (String.ofList value)).map fun g => (g, none)

def readLong (spec : LevelSpec) (name : String) (attached : Option String) (g : Given) :
    Except Stop (Given × Pending) :=
  match spec.options.find? fun o => o.long == name with
  | none => .error .usage
  | some o =>
    match o.kind, attached with
    | .stop reason, none => .error reason
    | .flag, none => (g.addFlag o.long).map fun g => (g, none)
    | .value allowEmpty, none => .ok (g, some (o.long, allowEmpty))
    | .value allowEmpty, some value =>
      (g.addValue o.long allowEmpty value).map fun g => (g, none)
    | _, some _ => .error .usage

def readLevel (spec : LevelSpec) : List String → Pending → Given → Except Stop Given
  | [], none, g => .ok g
  | [], some _, _ => .error .usage
  | arg :: args, some (long, allowEmpty), g =>
    match Shape.of arg with
    | .operand =>
      match g.addValue long allowEmpty arg with
      | .ok g => readLevel spec args none g
      | .error e => .error e
    | _ => .error .usage
  | arg :: args, none, g =>
    match Shape.of arg with
    | .separator => args.foldlM (fun g value => g.addOperand spec.allowEmpty value) g
    | .long name attached =>
      match readLong spec name attached g with
      | .ok (g, pending) => readLevel spec args pending g
      | .error e => .error e
    | .shorts letters =>
      match readShorts spec letters g with
      | .ok (g, pending) => readLevel spec args pending g
      | .error e => .error e
    | .operand =>
      match g.addOperand spec.allowEmpty arg with
      | .ok g => readLevel spec args none g
      | .error e => .error e

def globalOptions : List OptionSpec := [
  ⟨"json", none, .flag⟩, ⟨"verbose", some 'v', .flag⟩, ⟨"help", some 'h', .stop .help⟩]

def rootSpec : LevelSpec := ⟨globalOptions ++ [⟨"version", some 'V', .stop .version⟩], false⟩

def typesSpec : LevelSpec :=
  ⟨globalOptions ++ [⟨"namespace", some 'n', .value true⟩, ⟨"include-system", none, .flag⟩,
    ⟨"include-arrays", none, .flag⟩, ⟨"style", some 's', .value true⟩], false⟩

def parseSpec : LevelSpec :=
  ⟨globalOptions ++ [⟨"dump", some 'd', .value false⟩, ⟨"scope", some 's', .value true⟩,
    ⟨"definition", none, .flag⟩], true⟩

def failuresSpec : LevelSpec := ⟨globalOptions ++ [⟨"include-system", none, .flag⟩], false⟩

def Given.need (g : Given) : Except Stop String :=
  match g.operand with
  | some operand => .ok operand
  | none => .error .usage

def invocation (root g : Given) (command : Command) : Invocation :=
  { json := root.hasFlag "json" || g.hasFlag "json"
    verbose := root.hasFlag "verbose" || g.hasFlag "verbose"
    command }

def helpTopic : List String → Stop
  | [] => .help
  | [topic] => if ["types", "parse", "failures", "help"].contains topic then .help else .usage
  | _ => .usage

def readCommand (root : Given) (name : String) (args : List String) :
    Except Stop Invocation := do
  if name = "types" then
    let g ← readLevel typesSpec args none {}
    return invocation root g (.types (← g.need) (g.value? "namespace")
      (g.hasFlag "include-system") (g.hasFlag "include-arrays")
      ((g.value? "style").getD "csharp"))
  else if name = "parse" then
    let g ← readLevel parseSpec args none {}
    return invocation root g (.parse (← g.need) (g.value? "dump") (g.value? "scope")
      (g.hasFlag "definition"))
  else if name = "failures" then
    let g ← readLevel failuresSpec args none {}
    return invocation root g (.failures (← g.need) (g.hasFlag "include-system"))
  else if name = "help" then throw (helpTopic args)
  else throw .usage

def readArguments : List String → Given → Except Stop Invocation
  | [], _ => .error .usage
  | arg :: args, root =>
    match Shape.of arg with
    | .separator => .error .usage
    | .operand => readCommand root arg args
    | .long name attached =>
      match readLong rootSpec name attached root with
      | .ok (root, _) => readArguments args root
      | .error e => .error e
    | .shorts letters =>
      match readShorts rootSpec letters root with
      | .ok (root, _) => readArguments args root
      | .error e => .error e

end ClrNames.CommandLine
