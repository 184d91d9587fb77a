import ClrNames.Grammar.Arguments

/-!
# Reading type names

`readName` turns the text of a type name into its tree. Compiler-generated
types are not modelled, and a name of exactly 1023 bytes counts as cut off by
the tool that wrote it: it is closed behind its last complete element.
-/

set_option autoImplicit false

namespace ClrNames

open Grammar (ScopeRule)

def truncatedLength : Nat := 1023

structure ReadOptions where
  known : String → Bool
  containing : Option TypeName := none
  definitionsOnly : Bool := false
  scopeRule : ScopeRule := .nearest

def isCompilerGenerated (text : List Char) : Bool :=
  Text.occurs "c__DisplayClass".toList text || Text.occurs ".<>c".toList text

def closeTruncated (text : List Char) : Except ParseError (List Char × Bool) :=
  if Text.byteLength text = truncatedLength ∧ '\x60' ∈ text then
    match Text.beforeLast? "],[".toList text with
    | some before => .ok (before ++ "]]".toList, true)
    | none => .error ⟨.truncatedEarly, text⟩
  else .ok (text, false)

/-- Reads a text that is already closed, to its end; `name` is quoted if
something is left over. -/
def readClosed (options : ReadOptions) (name text : List Char) (truncated : Bool) :
    Except ParseError TypeName :=
  let settings : Grammar.Settings :=
    { known := options.known, definitionsOnly := options.definitionsOnly, truncated,
      scopeRule := options.scopeRule }
  match Grammar.wholeName settings ⟨.start text options.containing, 0⟩ with
  | .ok t s => if s.cursor.hasMore then .error ⟨.trailingText s.cursor.rest, name⟩ else .ok t
  | .error e _ => .error e

def readText (options : ReadOptions) (text : List Char) : Except ParseError TypeName :=
  if text.isEmpty then .error ⟨.emptyName, text⟩
  else if isCompilerGenerated text then .error ⟨.compilerGenerated, text⟩
  else do
    let (closed, truncated) ← closeTruncated text
    readClosed options text closed truncated

def readName (options : ReadOptions) (name : String) : Except ParseError TypeName :=
  readText options name.toList

def readTypeName (known : String → Bool) (containing : Option TypeName) (name : String) :
    Except ParseError TypeName :=
  readName { known, containing } name

def readDefinition (known : String → Bool) (name : String) : Except ParseError TypeName :=
  readName { known, definitionsOnly := true } name

end ClrNames
