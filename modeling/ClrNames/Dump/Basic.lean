import ClrNames.Dump.Entry

/-!
# Dumps

A dump is a map from type names, as the dump tool writes them, to entries. A
filter selects the names worth reading, and the name table of a dump tells the
types among dotted names.
-/

set_option autoImplicit false

namespace ClrNames

structure DumpFilter where
  skipSystemTypes : Bool := false
  skipArrays : Bool := false
  deriving DecidableEq, Repr, Inhabited

namespace DumpFilter

def csharp : DumpFilter := { skipSystemTypes := true, skipArrays := true }

def lua : DumpFilter := { skipSystemTypes := false, skipArrays := true }

def isSystemName (name : String) : Bool :=
  "System.".toList.isPrefixOf name.toList || name == "Internal.Runtime.CompilerServices.Unsafe"

def isArrayName (name : String) : Bool := "[]".toList.isSuffixOf name.toList

def accepts (f : DumpFilter) (name : String) : Bool :=
  !name.isEmpty && !"!".toList.isPrefixOf name.toList &&
    !(f.skipSystemTypes && isSystemName name) && !(f.skipArrays && isArrayName name)

end DumpFilter

structure Dump where
  entries : NameMap TypeEntry
  deriving DecidableEq, Repr, Inhabited

namespace Dump

def ofList (entries : List (String × TypeEntry)) : Dump := ⟨.ofList entries⟩

def toList (d : Dump) : List (String × TypeEntry) := d.entries.toList

def size (d : Dump) : Nat := d.entries.size

def get? (d : Dump) (name : String) : Option TypeEntry := d.entries.get? name

def eligible (d : Dump) (filter : DumpFilter) : List (String × TypeEntry) :=
  d.toList.filter fun entry => filter.accepts entry.1

def implicitTypes : List String := ["System.Object", "System.ValueType"]

def nameTable (d : Dump) : NameSet := .ofNames (d.entries.names ++ implicitTypes)

end Dump

end ClrNames
