import ClrNames.CommandLine.Table
import ClrNames.Json.Value
import ClrNames.Summary.Batch

/-!
# Reports of the commands

Each command computes a report, which has a form as JSON and one as text. The
failures of a dump do not depend on the style that its types are listed in.
-/

set_option autoImplicit false

namespace ClrNames.CommandLine

structure Style where
  options : SummaryOptions
  flags : RenderFlags
  globalPrefix : GlobalPrefix

namespace Style

def csharp : Style :=
  { options := .csharp
    flags := { nspace := true, enclosing := true, globalPrefix := true }
    globalPrefix := .csharp }

def plain : Style := { options := .lua, flags := .qualified, globalPrefix := {} }

def named? (name : String) : Option Style :=
  if name = "csharp" then some csharp else if name = "plain" then some plain else none

def renderer (s : Style) : Renderer :=
  { flags := s.flags, shortNames := s.options.shortNames, globalPrefix := s.globalPrefix }

end Style

def filtered (options : SummaryOptions) (includeSystem includeArrays : Bool) : SummaryOptions :=
  { options with
    filter := { skipSystemTypes := !includeSystem, skipArrays := !includeArrays } }

def unlines (lines : List String) : String := String.join (lines.map fun line => line ++ "\n")

structure TypeRow where
  key : String
  name : String
  parent : Option String
  fields : Nat
  deriving DecidableEq, Repr

structure TypesReport where
  rows : List TypeRow
  unsupported : Nat
  failed : Nat
  deriving DecidableEq, Repr

namespace TypesReport

def ofDump (style : Style) (nspace : Option String) (includeSystem includeArrays : Bool)
    (dump : Dump) : TypesReport :=
  let batch := SummaryBatch.build (filtered style.options includeSystem includeArrays) dump
  let shown := batch.summaries.toList.filter fun summary =>
    nspace.all (summary.name.rootNamespace == ·)
  { rows := shown.map fun summary =>
      { key := summary.key, name := style.renderer.render summary.name,
        parent := summary.parent.map MemberType.display, fields := summary.fields.length }
    unsupported := batch.unsupported
    failed := batch.failures.size }

def rowJson (row : TypeRow) : Json :=
  .object [("original", .string row.key), ("name", .string row.name),
    ("parent", .ofString? row.parent), ("fields", .number row.fields)]

def toJson (r : TypesReport) : Json :=
  .object [("types", .array (r.rows.map rowJson)), ("count", .number r.rows.length),
    ("unsupported", .number r.unsupported), ("failed", .number r.failed)]

def rowCells (row : TypeRow) : List String :=
  [row.name, row.parent.getD "-", toString row.fields]

def toText (r : TypesReport) : String :=
  let table := tableLines [.left, .left, .right]
    (["Name", "Base", "Fields"] :: r.rows.map rowCells)
  unlines <|
    (if r.rows.isEmpty then [] else table ++ [""]) ++
    [s!"{r.rows.length} type(s) listed, {r.unsupported} unsupported."] ++
    (if r.failed = 0 then []
    else [s!"{r.failed} type name(s) failed to parse, see `refdump failures`."])

end TypesReport

structure FailuresReport where
  failures : List String
  parsed : Nat
  unsupported : Nat
  deriving DecidableEq, Repr

namespace FailuresReport

def ofDump (includeSystem : Bool) (dump : Dump) : FailuresReport :=
  let batch := SummaryBatch.build (filtered .csharp includeSystem false) dump
  { failures := batch.failures.names
    parsed := batch.summaries.size
    unsupported := batch.unsupported }

def toJson (r : FailuresReport) : Json :=
  .object [("failures", .array (r.failures.map Json.string)),
    ("count", .number r.failures.length), ("parsed", .number r.parsed),
    ("unsupported", .number r.unsupported)]

def toText (r : FailuresReport) : String :=
  unlines <| r.failures ++ (if r.failures.isEmpty then [] else [""]) ++
    [s!"{r.parsed} parsed, {r.unsupported} unsupported, {r.failures.length} failed."]

end FailuresReport

structure NameReport where
  tree : TypeName
  deriving DecidableEq, Repr

namespace NameReport

mutual

def treeJson : TypeName → Json
  | ⟨nspace, name, enclosing, args, isArray, param⟩ =>
    .object <|
      [("rendered", .string (TypeName.display ⟨nspace, name, enclosing, args, isArray, param⟩)),
        ("namespace", .string nspace), ("name", .string name), ("is_array", .bool isArray)] ++
      (param.toList.map fun p => ("generic_param", Json.string p.text)) ++
      enclosingJson enclosing ++ [("generic_args", .array (argsJson args))]

def enclosingJson : Option TypeName → List (String × Json)
  | none => []
  | some outer => [("enclosing", treeJson outer)]

def argsJson : List TypeName → List Json
  | [] => []
  | t :: ts => treeJson t :: argsJson ts

end

def facts (t : TypeName) : List (List String) :=
  [["Type", t.display], ["Namespace", if t.nspace.isEmpty then "-" else t.nspace],
    ["Name", t.name], ["Array", if t.isArray then "yes" else "no"]] ++
  (t.param.toList.map fun p => ["Unresolved", p.text]) ++
  (t.enclosing.toList.map fun outer => ["Enclosing", outer.display])

mutual

def treeLines (indent : String) : TypeName → List String
  | ⟨nspace, name, enclosing, args, isArray, param⟩ =>
    (tableLines [.left, .left] (facts ⟨nspace, name, enclosing, args, isArray, param⟩)).map
      (indent ++ ·) ++ argsLines indent 0 args

def argsLines (indent : String) (index : Nat) : List TypeName → List String
  | [] => []
  | t :: ts =>
    (indent ++ s!"  Argument {index}:") :: treeLines (indent ++ "    ") t ++
      argsLines indent (index + 1) ts

end

def toJson (r : NameReport) : Json := treeJson r.tree

def toText (r : NameReport) : String := unlines (treeLines "" r.tree)

end NameReport

end ClrNames.CommandLine
