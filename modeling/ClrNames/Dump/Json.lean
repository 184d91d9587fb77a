import ClrNames.Dump.Basic
import ClrNames.Json.Reader
import ClrNames.Json.Value

/-!
# Dumps as JSON documents

A dump is written as an object of entries with every key present. It is read
with more freedom: keys may be missing or unknown, and an entry or a field may
be an array of its values in order. A known key given twice is an error, while
of two entries or fields of one name the later one counts.
-/

set_option autoImplicit false

namespace ClrNames

open JsonReader

namespace FieldEntry

def toJson (f : FieldEntry) : Json :=
  .object [("type", .ofString? f.typeText), ("flags", .ofString? f.flags),
    ("id", (f.id.map fun id => Json.number id.toNat).getD .null)]

end FieldEntry

namespace TypeEntry

def fieldsJson (fields : NameMap FieldEntry) : Json :=
  .object (fields.toList.map fun (name, field) => (name, field.toJson))

def toJson (e : TypeEntry) : Json :=
  .object [("address", .ofString? e.address), ("parent", .ofString? e.parent),
    ("is_generic_type", .bool e.isGeneric),
    ("is_generic_type_definition", .bool e.isGenericDefinition),
    ("fields", (e.fields.map fieldsJson).getD .null)]

end TypeEntry

namespace Dump

def toJson (d : Dump) : Json := .object (d.toList.map fun (name, entry) => (name, entry.toJson))

def toText (d : Dump) : String := d.toJson.compact

end Dump

abbrev Once (α : Type) := Option α

namespace Once

variable {α : Type}

def read (given : Once α) (value : JsonReader α) : JsonReader (Once α) := do
  if given.isSome then throw .data
  else
    colon
    return some (← value)

end Once

def unknownMember : JsonReader Unit := do
  colon
  skipValue

structure FieldDraft where
  typeText : Once (Option String) := none
  flags : Once (Option String) := none
  id : Once (Option UInt32) := none

namespace FieldDraft

def finish (d : FieldDraft) : FieldEntry :=
  { typeText := d.typeText.getD none, flags := d.flags.getD none, id := d.id.getD none }

def member (key : String) (d : FieldDraft) : JsonReader FieldDraft := do
  if key = "type" then return { d with typeText := ← d.typeText.read (optional text) }
  else if key = "flags" then return { d with flags := ← d.flags.read (optional text) }
  else if key = "id" then return { d with id := ← d.id.read (optional word32) }
  else do
    unknownMember
    return d

def ofItems : JsonReader FieldDraft := do
  let typeText ← item? true (optional text)
  let flags ← item? false (optional text)
  let id ← item? false (optional word32)
  endArray
  return { typeText, flags, id }

end FieldDraft

def FieldEntry.reader : JsonReader FieldEntry := do
  if (← next?) = some '[' then
    skip
    return (← FieldDraft.ofItems).finish
  else return (← object FieldDraft.member {}).finish

def nameMapReader {α : Type} (value : JsonReader α) : JsonReader (NameMap α) := do
  let pairs ← object (fun name (pairs : List (String × α)) => do
    colon
    return (name, ← value) :: pairs) []
  return .ofList pairs.reverse

structure EntryDraft where
  address : Once (Option String) := none
  parent : Once (Option String) := none
  isGeneric : Once Bool := none
  isGenericDefinition : Once Bool := none
  fields : Once (Option (NameMap FieldEntry)) := none

namespace EntryDraft

def finish (d : EntryDraft) : TypeEntry :=
  { address := d.address.getD none
    parent := d.parent.getD none
    isGeneric := d.isGeneric.getD false
    isGenericDefinition := d.isGenericDefinition.getD false
    fields := d.fields.getD none }

def fieldsReader : JsonReader (Option (NameMap FieldEntry)) :=
  optional (nameMapReader FieldEntry.reader)

def member (key : String) (d : EntryDraft) : JsonReader EntryDraft := do
  if key = "address" then return { d with address := ← d.address.read (optional text) }
  else if key = "parent" then return { d with parent := ← d.parent.read (optional text) }
  else if key = "is_generic_type" then
    return { d with isGeneric := ← d.isGeneric.read bool }
  else if key = "is_generic_type_definition" then
    return { d with isGenericDefinition := ← d.isGenericDefinition.read bool }
  else if key = "fields" then return { d with fields := ← d.fields.read fieldsReader }
  else do
    unknownMember
    return d

def ofItems : JsonReader EntryDraft := do
  let address ← item? true (optional text)
  let parent ← item? false (optional text)
  let isGeneric ← item? false bool
  let isGenericDefinition ← item? false bool
  let fields ← item? false fieldsReader
  endArray
  return { address, parent, isGeneric, isGenericDefinition, fields }

end EntryDraft

def TypeEntry.reader : JsonReader TypeEntry := do
  if (← next?) = some '[' then
    skip
    return (← EntryDraft.ofItems).finish
  else return (← object EntryDraft.member {}).finish

inductive DumpError where
  | fileMissing
  | fileUnreadable
  | json (fault : JsonFault)
  deriving DecidableEq, Repr

inductive FileContent where
  | missing
  | directory
  | content (bytes : Bytes)
  deriving Repr

namespace Dump

def ofBytes (bytes : Bytes) : Except DumpError Dump :=
  match document (nameMapReader TypeEntry.reader) bytes with
  | .ok entries => .ok ⟨entries⟩
  | .error fault => .error (.json fault)

def ofText (text : String) : Except DumpError Dump := ofBytes text.toUTF8.toList

def load : FileContent → Except DumpError Dump
  | .missing => .error .fileMissing
  | .directory => .error .fileUnreadable
  | .content bytes => ofBytes bytes

end Dump

end ClrNames
