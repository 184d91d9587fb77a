import ClrNames.Ordered.NameMap

/-!
# Dump entries

An entry describes one runtime type: where it lives, what it derives from,
whether it is generic, and its fields by name.
-/

set_option autoImplicit false

namespace ClrNames

structure FieldEntry where
  typeText : Option String := none
  flags : Option String := none
  id : Option UInt32 := none
  deriving DecidableEq, Repr, Inhabited

structure TypeEntry where
  address : Option String := none
  parent : Option String := none
  isGeneric : Bool := false
  isGenericDefinition : Bool := false
  fields : Option (NameMap FieldEntry) := none
  deriving DecidableEq, Repr, Inhabited

namespace FieldEntry

def order (f : FieldEntry) : UInt32 := f.id.getD (4294967295)

end FieldEntry

namespace TypeEntry

def hasAddress (e : TypeEntry) : Bool := e.address.any fun address => !address.isEmpty

def isInstantiation (e : TypeEntry) : Bool := e.isGeneric && !e.isGenericDefinition

def fieldLe (a b : String × FieldEntry) : Bool :=
  decide (a.2.order < b.2.order) || (a.2.order == b.2.order && decide (a.1 ≤ b.1))

def sortedFields (e : TypeEntry) : List (String × FieldEntry) :=
  ((e.fields.map NameMap.toList).getD []).mergeSort fieldLe

end TypeEntry

end ClrNames
