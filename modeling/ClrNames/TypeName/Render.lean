import ClrNames.Ordered.NameMap
import ClrNames.TypeName.Basic

/-!
# Type names as text

A renderer chooses which parts of a type name to show. Short names replace a
type by an alias, looked up by full name whatever parts are shown; the global
prefix is a token in front of namespaces that would otherwise be ambiguous.
-/

set_option autoImplicit false

namespace ClrNames

structure RenderFlags where
  nspace : Bool := false
  enclosing : Bool := false
  globalPrefix : Bool := false
  deriving DecidableEq, Repr

namespace RenderFlags

def qualified : RenderFlags := { nspace := true, enclosing := true }

def ofBits (bits : Nat) : RenderFlags := ⟨bits.testBit 0, bits.testBit 1, bits.testBit 2⟩

end RenderFlags

abbrev ShortNames := NameMap String

def ShortNames.csharp : ShortNames := .ofList [
  ("System.Boolean", "bool"), ("System.Single", "float"), ("System.Double", "double"),
  ("System.Int16", "short"), ("System.UInt16", "ushort"), ("System.Int32", "int"),
  ("System.UInt32", "uint"), ("System.Int64", "long"), ("System.UInt64", "ulong"),
  ("System.SByte", "sbyte"), ("System.Byte", "byte"), ("System.String", "string")]

structure GlobalPrefix where
  token : String := ""
  namespaces : NameSet := .empty
  deriving DecidableEq, Repr

namespace GlobalPrefix

def csharp : GlobalPrefix := { token := "global::", namespaces := .ofNames ["AISituation"] }

def tokenFor? (p : GlobalPrefix) (nspace : String) : Option String :=
  if p.namespaces.contains nspace then some p.token else none

end GlobalPrefix

structure Renderer where
  flags : RenderFlags
  shortNames : ShortNames := .empty
  globalPrefix : GlobalPrefix := {}

namespace Renderer

def shownNamespace (r : Renderer) (t : TypeName) : String :=
  if r.flags.enclosing then t.rootNamespace else t.nspace

def clashToken (r : Renderer) (t : TypeName) : String :=
  if r.flags.nspace && r.flags.enclosing && r.flags.globalPrefix then
    if (r.shownNamespace t).isEmpty then "" else (r.globalPrefix.tokenFor? (r.shownNamespace t)).getD ""
  else ""

def namespacePath (r : Renderer) (t : TypeName) : String :=
  if r.flags.nspace && !(r.shownNamespace t).isEmpty then r.shownNamespace t ++ "." else ""

def argumentSuffix (args : List String) : String :=
  if args.isEmpty then "" else "<" ++ ", ".intercalate args ++ ">"

def arrayMark (isArray : Bool) : String := if isArray then "[]" else ""

def head (r : Renderer) (t : TypeName) (enclosingPath : String) : String :=
  match r.shortNames.get? t.fullname with
  | some short => short
  | none => r.clashToken t ++ r.namespacePath t ++ enclosingPath ++ t.name

mutual

def render (r : Renderer) : TypeName → String
  | ⟨nspace, name, enclosing, args, isArray, param⟩ =>
    r.head ⟨nspace, name, enclosing, args, isArray, param⟩
        (if r.flags.enclosing then r.enclosingPath enclosing else "") ++
      argumentSuffix (r.renderArgs args) ++ arrayMark isArray

def enclosingPath (r : Renderer) : Option TypeName → String
  | none => ""
  | some ⟨_, name, enclosing, args, _, _⟩ =>
    r.enclosingPath enclosing ++ name ++ argumentSuffix (r.renderArgs args) ++ "."

def renderArgs (r : Renderer) : List TypeName → List String
  | [] => []
  | t :: ts => r.render t :: r.renderArgs ts

end

theorem renderArgs_eq_map (r : Renderer) (ts : List TypeName) :
    r.renderArgs ts = ts.map r.render := by
  induction ts with
  | nil => rfl
  | cons t ts ih => simp [renderArgs, ih]

end Renderer

namespace TypeName

def render (t : TypeName) (nspace enclosing : Bool) (shortNames : ShortNames) : String :=
  ({ flags := { nspace, enclosing }, shortNames } : Renderer).render t

def display (t : TypeName) : String := ({ flags := .qualified } : Renderer).render t

end TypeName

/-- A text without its arity marks, each taken to be a backtick and one digit. -/
def dropArityMarks : List Char → List Char
  | [] => []
  | '\x60' :: rest =>
    match rest with
    | [] => []
    | _ :: rest => dropArityMarks rest
  | c :: rest => c :: dropArityMarks rest

def displayFallback (typeText : Option String) (shortNames : ShortNames) : String :=
  match typeText with
  | none => "object?"
  | some text =>
    if text.isEmpty then "object?"
    else
      match shortNames.get? text with
      | some short => short
      | none =>
        if ['!'].isPrefixOf text.toList then "object /* Invalid type: " ++ text ++ " */"
        else String.ofList (dropArityMarks text.toList)

end ClrNames
