import ClrNames.Text.Quoted

/-!
# Why a type name is refused

A refusal has a cause and the text it is about. A cause is unsupported when the
construct is recognised and has no place in the tree, and malformed otherwise.
-/

set_option autoImplicit false

namespace ClrNames

inductive Outcome where
  | malformed
  | unsupported
  deriving DecidableEq, Repr

namespace ParseError

inductive Cause where
  | emptyName
  | truncatedEarly
  | trailingText (rest : List Char)
  | invalidRange (start stop : Nat)
  | emptySegment
  | emptyNestedSegment
  | nestedTooDeep (levels : Nat)
  | invalidReference (token : List Char)
  | arityMarkerExpected (offset : Nat)
  | arityWithoutDigits
  | arityTooLarge (digits : List Char)
  | arityMismatch (declared found : Nat)
  | missingArguments
  | unexpectedAfterArity (found : Char) (offset : Nat)
  | listsTooDeep
  | elementExpected (offset : Nat)
  | elementUnterminated (offset : Nat)
  | unexpectedAfterElement (found : Char) (offset : Nat)
  | listUnterminated
  | unexpectedInList (found : Char) (offset : Nat)
  | argumentWithoutName
  | delimiterExpected (candidates : List Char) (offset : Nat)
  | offsetOutside (offset : Nat)
  | endOfText
  | compilerGenerated
  | arrayRank (rank : Nat)
  | argumentsWithoutArity
  | bracketsInPlainList
  | instantiation
  | genericInGeneric
  deriving DecidableEq, Repr

end ParseError

def maxListDepth : Nat := 64

def maxNesting : Nat := 64

structure ParseError where
  cause : ParseError.Cause
  subject : List Char
  deriving DecidableEq, Repr

namespace ParseError

def Cause.outcome : Cause → Outcome
  | .compilerGenerated | .arrayRank _ | .argumentsWithoutArity | .bracketsInPlainList
  | .instantiation | .genericInGeneric => .unsupported
  | _ => .malformed

def outcome (e : ParseError) : Outcome := e.cause.outcome

def Cause.message (cause : Cause) (subject : String) : String :=
  match cause with
  | .emptyName => "Empty type name"
  | .truncatedEarly => s!"Truncated type name '{subject}' has no complete generic argument"
  | .trailingText rest => s!"Unexpected trailing text '{String.ofList rest}' in '{subject}'"
  | .invalidRange start stop => s!"Invalid name range {start}..{stop} in '{subject}'"
  | .emptySegment => s!"Empty name segment in '{subject}'"
  | .emptyNestedSegment => s!"Empty nested type name in '{subject}'"
  | .nestedTooDeep levels =>
    s!"Type nested {levels} levels deep, the limit is {maxNesting}, in '{subject}'"
  | .invalidReference token =>
    s!"Invalid generic parameter reference '{String.ofList token}' in '{subject}'"
  | .arityMarkerExpected offset => s!"Expected arity marker at offset {offset} in '{subject}'"
  | .arityWithoutDigits => s!"Arity marker without digits in '{subject}'"
  | .arityTooLarge digits => s!"Invalid arity '{String.ofList digits}' in '{subject}'"
  | .arityMismatch declared found =>
    s!"Declared arity {declared} but found {found} generic arguments in '{subject}'"
  | .missingArguments => s!"Missing generic argument list in '{subject}'"
  | .unexpectedAfterArity found offset =>
    s!"Unexpected '{found}' at offset {offset} after arity marker in '{subject}'"
  | .listsTooDeep =>
    s!"Generic arguments nested deeper than {maxListDepth} levels in '{subject}'"
  | .elementExpected offset => s!"Expected '[' at offset {offset} in '{subject}'"
  | .elementUnterminated offset =>
    s!"Unterminated generic argument after offset {offset} in '{subject}'"
  | .unexpectedAfterElement found offset =>
    s!"Unexpected '{found}' after generic argument at offset {offset} in '{subject}'"
  | .listUnterminated => s!"Unterminated generic argument list in '{subject}'"
  | .unexpectedInList found offset => s!"Unexpected '{found}' at offset {offset} in '{subject}'"
  | .argumentWithoutName => s!"Arity marker without a name in '{subject}'"
  | .delimiterExpected candidates offset =>
    s!"Expected one of {Text.quoteChars candidates} after offset {offset} in '{subject}'"
  | .offsetOutside offset => s!"Offset {offset} is outside of '{subject}'"
  | .endOfText => s!"Unexpected end of '{subject}'"
  | .compilerGenerated => s!"Compiler-generated type '{subject}'"
  | .arrayRank rank => s!"Array of rank {rank} in '{subject}'"
  | .argumentsWithoutArity => s!"Generic arguments without an arity marker in '{subject}'"
  | .bracketsInPlainList =>
    s!"Bracketed generic arguments inside a plain argument list in '{subject}'"
  | .instantiation => s!"'{subject}' is a generic instantiation"
  | .genericInGeneric => s!"Generic type nested inside a generic type in '{subject}'"

def message (e : ParseError) : String := e.cause.message (String.ofList e.subject)

end ParseError

end ClrNames
