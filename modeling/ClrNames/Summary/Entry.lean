import ClrNames.Dump.Basic
import ClrNames.Parser
import ClrNames.TypeName.Render

/-!
# Summaries of entries

A summary holds the parsed name of an entry and its base type and fields, whose
types are read with the entry's own name as the declaration that references
point into. A member that cannot be read keeps a fallback text and never spoils
the summary.
-/

set_option autoImplicit false

namespace ClrNames

structure MemberType where
  text : Option String
  parsed : Option TypeName
  display : String
  deriving DecidableEq, Repr

namespace MemberType

def parse? (known : String → Bool) (containing : TypeName) (text : Option String) :
    Option TypeName :=
  match text with
  | none => none
  | some text =>
    if text.isEmpty then none else (readTypeName known (some containing) text).toOption

def resolve (known : String → Bool) (containing : TypeName) (shortNames : ShortNames)
    (text : Option String) : MemberType :=
  let parsed := parse? known containing text
  let display :=
    match parsed with
    | some t => t.render true true shortNames
    | none => displayFallback text shortNames
  { text, parsed, display }

end MemberType

structure FieldSummary where
  name : String
  flags : Option String
  member : MemberType
  deriving DecidableEq, Repr

structure TypeSummary where
  key : String
  name : TypeName
  parent : Option MemberType
  fields : List FieldSummary
  deriving DecidableEq, Repr

def isGeneratedKey (key : String) : Bool :=
  "<".toList.isPrefixOf key.toList || Text.occurs "DisplayClass".toList key.toList ||
    Text.occurs "<>".toList key.toList || Text.occurs ".<".toList key.toList ||
    Text.occurs "<!0>".toList key.toList

def isSkipped (key : String) (entry : TypeEntry) : Bool :=
  isGeneratedKey key || entry.isInstantiation || !entry.hasAddress

namespace TypeSummary

def ofParsed (known : String → Bool) (shortNames : ShortNames) (key : String)
    (entry : TypeEntry) (name : TypeName) : TypeSummary where
  key := key
  name := name
  parent := entry.parent.map fun parent => .resolve known name shortNames (some parent)
  fields := entry.sortedFields.map fun (fieldName, field) =>
    { name := fieldName, flags := field.flags,
      member := .resolve known name shortNames field.typeText }

def ofEntry (known : String → Bool) (shortNames : ShortNames) (key : String)
    (entry : TypeEntry) : Except ParseError (Option TypeSummary) :=
  if isSkipped key entry then .ok none
  else (readDefinition known key).map fun name =>
    some (ofParsed known shortNames key entry name)

end TypeSummary

/-- Whether a type of the namespace `via` differs from another one only in a
lower-case first letter. -/
def shadowsNativeType (known : String → Bool) (t : TypeName) : Bool :=
  if t.isNested || t.nspace != "via" then false
  else
    match t.name.toList with
    | first :: rest =>
      first.isLower && known ("via." ++ String.ofList (first.toUpper :: rest))
    | [] => false

end ClrNames
