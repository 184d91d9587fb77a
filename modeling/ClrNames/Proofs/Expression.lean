import Mathlib.Data.Nat.Find
import ClrNames.Parser

/-!
# Type expressions

The names that the grammar is meant for, as trees: dotted names, references, and
generic types with a plain, a bracketed or a skipped argument list, nested to
any depth. An expression has a text, a node that it denotes below a table of
known types, and limits that it may exceed.
-/

set_option autoImplicit false

namespace ClrNames

def grammarMarks : List Char := ['.', '\x60', '<', '>', '[', ']', ',', '!', '&', ' ']

structure Identifier where
  chars : List Char
  chars_ne : chars ≠ []
  unmarked : ∀ c ∈ chars, c ∉ grammarMarks

structure Path where
  qualifier : List Identifier
  name : Identifier

namespace Path

variable (known : String → Bool) (p : Path)

def qualifierChars : List (List Char) := p.qualifier.map Identifier.chars

def segments : List (List Char) := p.qualifierChars ++ [p.name.chars]

def print : List Char := Text.dotted p.segments

def namespaceSize : Nat :=
  Nat.findGreatest (fun k => known (String.ofList (Text.dotted (p.qualifierChars.take k))) = false)
    p.qualifierChars.length

def enclosingSize : Nat := p.qualifierChars.length - p.namespaceSize known

def node : TypeName :=
  .ofChain (String.ofList (Text.dotted (p.qualifierChars.take (p.namespaceSize known))))
    ((p.qualifierChars.drop (p.namespaceSize known)).map String.ofList)
    (String.ofList p.name.chars)

end Path

structure Decimal where
  digits : List Char
  digits_ne : digits ≠ []
  isDigit : ∀ c ∈ digits, c.isDigit = true

def Decimal.value (n : Decimal) : Nat := Nat.ofDigitChars 10 n.digits 0

structure Position extends Decimal where
  value_lt : toDecimal.value < 4294967296

inductive Assembly where
  | none
  | some (text : List Char) (h : ']' ∉ text)

def Assembly.print : Assembly → List Char
  | none => []
  | some text _ => ',' :: text

structure Skipped where
  chars : List Char
  unclosed : ']' ∉ chars
  unopened : chars.head? ≠ some '['

/-- Two opening brackets, the second of them behind the first. -/
theorem doubled_iff {cs : List Char} : ['[', '['] <+: '[' :: cs ↔ cs.head? = some '[' := by
  cases cs <;> simp [List.cons_prefix_cons, eq_comm]

/-- Behind the bracket that opens a single pair stands no other one. -/
theorem Skipped.head?_append (text : Skipped) (after : List Char) :
    (text.chars ++ ']' :: after).head? ≠ some '[' := by
  have hunopened := text.unopened
  cases hchars : text.chars with
  | nil => exact (by decide : some ']' ≠ some '[')
  | cons c cs =>
    rw [hchars] at hunopened
    exact hunopened

abbrev Markers := Fin 3

def Markers.print (m : Markers) : List Char := (List.replicate m.val ['[', ']']).flatten

inductive Lists where
  | any
  | plain

mutual

inductive Expr : Lists → Type
  | leaf {l : Lists} (path : Path) (markers : Markers) : Expr l
  | reference {l : Lists} (kind : ParamKind) (index : Position) (markers : Markers)
      (byRefs : Nat) : Expr l
  | generic {l : Lists} (base : Path) (arity : Decimal) (nested : Option Path) (args : Args l)
      (markers : Markers) : Expr l

inductive Args : Lists → Type
  | empty {l : Lists} : Args l
  | plain {l : Lists} (items : Items) : Args l
  | bracketed (elements : Elements) : Args .any
  | skipped (text : Skipped) : Args .any

inductive Items : Type
  | last (e : Expr .plain) : Items
  | more (e : Expr .plain) (spaces : Nat) (rest : Items) : Items

inductive Elements : Type
  | last (e : Expr .any) (assembly : Assembly) : Elements
  | more (e : Expr .any) (assembly : Assembly) (spaces : Nat) (rest : Elements) : Elements

end

def ParamKind.marks : ParamKind → List Char
  | .type => ['!']
  | .method => ['!', '!']

def nestedPrint : Option Path → List Char
  | none => []
  | some p => '.' :: p.print

def nestedSegments : Option Path → List (List Char)
  | none => []
  | some p => p.segments

def Expr.head {l : Lists} : Expr l → List Char
  | .leaf path markers => path.print ++ markers.print
  | .reference kind index markers byRefs =>
    kind.marks ++ index.digits ++ markers.print ++ List.replicate byRefs '&'
  | .generic base _ _ _ _ => base.print

mutual

def Expr.print {l : Lists} : Expr l → List Char
  | .leaf path markers => path.print ++ markers.print
  | .reference kind index markers byRefs =>
    kind.marks ++ index.digits ++ markers.print ++ List.replicate byRefs '&'
  | .generic base arity nested args markers =>
    base.print ++ '\x60' :: arity.digits ++ nestedPrint nested ++ args.print ++ markers.print

def Args.print {l : Lists} : Args l → List Char
  | .empty => ['<', '>']
  | .plain items => '<' :: items.print ++ ['>']
  | .bracketed elements => '[' :: elements.print ++ [']']
  | .skipped text => '[' :: text.chars ++ [']']

def Items.print : Items → List Char
  | .last e => e.print
  | .more e spaces rest => e.print ++ ',' :: List.replicate spaces ' ' ++ rest.print

def Elements.print : Elements → List Char
  | .last e assembly => '[' :: e.print ++ assembly.print ++ [']']
  | .more e assembly spaces rest =>
    '[' :: e.print ++ assembly.print ++ ']' :: ',' :: List.replicate spaces ' ' ++ rest.print

end

def Expr.text {l : Lists} (e : Expr l) : String := String.ofList e.print

section
variable (known : String → Bool)

mutual

/-- The node that an expression denotes. The arguments belong to the type in
front of the nested name, and a skipped list has none. -/
def Expr.node {l : Lists} : Expr l → TypeName
  | .leaf path markers => (path.node known).withArray (0 < markers.val)
  | .reference kind index markers _ =>
    (TypeName.placeholder ⟨UInt32.ofNat index.value, kind⟩).withArray (0 < markers.val)
  | .generic base _ nested args markers =>
    (((nestedSegments nested).map String.ofList).foldl TypeName.nested
      { base.node known with args := args.nodes }).withArray (0 < markers.val)

def Args.nodes {l : Lists} : Args l → List TypeName
  | .empty => []
  | .plain items => items.nodes
  | .bracketed elements => elements.nodes
  | .skipped _ => []

def Items.nodes : Items → List TypeName
  | .last e => [e.node]
  | .more e _ rest => e.node :: rest.nodes

def Elements.nodes : Elements → List TypeName
  | .last e _ => [e.node]
  | .more e _ _ rest => e.node :: rest.nodes

end

mutual

/-- The limits: at most 64 types enclose another, at most 64 lists stand inside
each other (`depth` of them around the expression already), an arity fits into
64 bits, and it is the number of the arguments that are written out. -/
def Expr.Fits {l : Lists} (depth : Nat) : Expr l → Prop
  | .leaf path _ => path.enclosingSize known ≤ 64
  | .reference _ _ _ _ => True
  | .generic base arity nested args _ =>
    base.enclosingSize known ≤ 64 ∧ arity.value < 18446744073709551616 ∧
      base.enclosingSize known + (nestedSegments nested).length ≤ 64 ∧
      args.Fits depth arity.value

def Args.Fits {l : Lists} (depth declared : Nat) : Args l → Prop
  | .empty => depth < 64
  | .plain items => depth < 64 ∧ items.Fits (depth + 1) ∧ (items.nodes known).length = declared
  | .bracketed elements =>
    depth < 64 ∧ elements.Fits (depth + 1) ∧ (elements.nodes known).length = declared
  | .skipped _ => depth < 64

def Items.Fits (depth : Nat) : Items → Prop
  | .last e => e.Fits depth
  | .more e _ rest => e.Fits depth ∧ rest.Fits depth

def Elements.Fits (depth : Nat) : Elements → Prop
  | .last e _ => e.Fits depth
  | .more e _ _ rest => e.Fits depth ∧ rest.Fits depth

end

mutual

def Expr.decFits {l : Lists} (depth : Nat) : (e : Expr l) → Decidable (e.Fits known depth)
  | .leaf path _ => inferInstanceAs (Decidable (path.enclosingSize known ≤ 64))
  | .reference _ _ _ _ => .isTrue trivial
  | .generic base arity nested args _ =>
    have := args.decFits depth arity.value
    inferInstanceAs (Decidable (base.enclosingSize known ≤ 64 ∧
      arity.value < 18446744073709551616 ∧
      base.enclosingSize known + (nestedSegments nested).length ≤ 64 ∧
      args.Fits known depth arity.value))

def Args.decFits {l : Lists} (depth declared : Nat) :
    (args : Args l) → Decidable (args.Fits known depth declared)
  | .empty => inferInstanceAs (Decidable (depth < 64))
  | .plain items =>
    have := items.decFits (depth + 1)
    inferInstanceAs (Decidable (depth < 64 ∧ items.Fits known (depth + 1) ∧
      (items.nodes known).length = declared))
  | .bracketed elements =>
    have := elements.decFits (depth + 1)
    inferInstanceAs (Decidable (depth < 64 ∧ elements.Fits known (depth + 1) ∧
      (elements.nodes known).length = declared))
  | .skipped _ => inferInstanceAs (Decidable (depth < 64))

def Items.decFits (depth : Nat) : (items : Items) → Decidable (items.Fits known depth)
  | .last e => e.decFits depth
  | .more e _ rest =>
    have := e.decFits depth
    have := rest.decFits depth
    inferInstanceAs (Decidable (e.Fits known depth ∧ rest.Fits known depth))

def Elements.decFits (depth : Nat) : (es : Elements) → Decidable (es.Fits known depth)
  | .last e _ => e.decFits depth
  | .more e _ _ rest =>
    have := e.decFits depth
    have := rest.decFits depth
    inferInstanceAs (Decidable (e.Fits known depth ∧ rest.Fits known depth))

end

instance {l : Lists} (e : Expr l) (depth : Nat) : Decidable (e.Fits known depth) :=
  e.decFits known depth

end

end ClrNames
