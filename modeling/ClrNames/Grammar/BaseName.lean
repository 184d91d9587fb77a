import ClrNames.Grammar.State
import ClrNames.Text.Segments

/-!
# Base names and arity markers

The part of a name before its arity marker: a dotted path whose known prefixes
are enclosing types, or a back-reference to a generic parameter.
-/

set_option autoImplicit false

namespace ClrNames.Grammar

def maxArrayMarkers : Nat := 2

def checkNesting (levels : Nat) : Reader Unit :=
  check (levels ≤ maxNesting) (.nestedTooDeep levels)

/-- How many of the first `count` segments form the namespace: longer prefixes
are tried first, and the first one that names no type ends the walk. -/
def namespaceLength (known : String → Bool) (parts : List (List Char)) : Nat → Nat
  | 0 => 0
  | count + 1 =>
    if known (String.ofList (Text.dotted (parts.take (count + 1)))) then
      namespaceLength known parts count
    else count + 1

/-- A decimal position below 2^32; one plus sign may stand in front. -/
def readIndex? (cs : List Char) : Option UInt32 :=
  let digits := if cs.head? = some '+' then cs.drop 1 else cs
  if digits.isEmpty || !digits.all Char.isDigit then none
  else if Nat.ofDigitChars 10 digits 0 < 4294967296 then
    some (UInt32.ofNat (Nat.ofDigitChars 10 digits 0))
  else none

def scope (rule : ScopeRule) (c : Cursor) : Option TypeName :=
  match rule with
  | .containing => c.containing
  | .nearest => c.containing.or c.inProgress
  | .nowhere => none

def resolve (rule : ScopeRule) (c : Cursor) (p : GenericParam) : TypeName :=
  match p.kind with
  | .method => .placeholder p
  | .type =>
    (((scope rule c).map TypeName.effectiveArgs).bind fun args => args[p.index.toNat]?).getD
      (.placeholder p)

def readParam? (reference : List Char) : Option GenericParam :=
  match reference with
  | '!' :: '!' :: digits => (readIndex? digits).map fun index => ⟨index, .method⟩
  | _ => (readIndex? (reference.drop 1)).map fun index => ⟨index, .type⟩

def backReference (settings : Settings) (token : List Char) : Reader TypeName := do
  let reference := Text.stripByRef token
  let markers := Text.arrayMarkers reference
  if maxArrayMarkers < markers then throw ⟨.arrayRank markers, reference⟩
  else
    match readParam? (Text.stripByRef (Text.withoutMarkers reference)) with
    | none => refuse (.invalidReference token)
    | some p => return (resolve settings.scopeRule (← cursor) p).withArray (0 < markers)

def simpleName (settings : Settings) (qualifier : List (List Char)) (simple : List Char) :
    Reader TypeName := do
  let markers := Text.arrayMarkers simple
  if maxArrayMarkers < markers then throw ⟨.arrayRank markers, simple⟩
  else
    let name := Text.withoutMarkers simple
    check (!name.isEmpty && !qualifier.any List.isEmpty) .emptySegment
    let split := namespaceLength settings.known qualifier qualifier.length
    checkNesting (qualifier.length - split)
    return (TypeName.ofChain (String.ofList (Text.dotted (qualifier.take split)))
      ((qualifier.drop split).map String.ofList) (String.ofList name)).withArray (0 < markers)

def baseName (settings : Settings) (stop : Nat) : Reader TypeName := do
  let text ← region stop
  seek stop
  check (!text.any fun c => c == '<' || c == '>') .argumentsWithoutArity
  let parts := Text.segments text
  let simple := parts.getLastD []
  if simple.head? = some '!' then backReference settings simple
  else simpleName settings parts.dropLast simple

def arity : Reader Nat := do
  check (← eat ['\x60']) (.arityMarkerExpected (← cursor).pos)
  let c ← cursor
  let digits := c.rest.takeWhile Char.isDigit
  check (!digits.isEmpty) .arityWithoutDigits
  seek (c.pos + digits.length)
  check (Nat.ofDigitChars 10 digits 0 < 18446744073709551616) (.arityTooLarge digits)
  return Nat.ofDigitChars 10 digits 0

end ClrNames.Grammar
