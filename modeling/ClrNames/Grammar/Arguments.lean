import ClrNames.Grammar.BaseName

/-!
# Generic argument lists

After an arity marker comes a bracketed list `[[A, assembly],[B]]`, a plain list
`<A,B>`, or a single bracket pair whose content is skipped; a dotted name in
between is a nested type of the owner. The routines of one level take the list
reader of the next level as an argument, and `argumentLists` ties them together
for as many levels as may nest.
-/

set_option autoImplicit false

namespace ClrNames.Grammar

inductive ListContext where
  | root
  | bracketed
  | plain
  deriving DecidableEq, Repr

abbrev ListReader := TypeName → Nat → ListContext → Reader (List TypeName)

def checkArity (settings : Settings) (declared found : Nat) : Reader Unit :=
  check (found == declared || settings.truncated) (.arityMismatch declared found)

def arraySuffix (t : TypeName) : Reader TypeName := do
  let isArray ← eat ['[', ']']
  let _ ← eat ['[', ']']
  check (!(← cursor).startsWith ['[', ']']) (.arrayRank (maxArrayMarkers + 1))
  return t.withArray isArray

/-- Reads `.Nested` and a list; the list belongs to the type before the dot. -/
def nestedInGeneric (lists : ListReader) (outer : TypeName) (declared : Nat)
    (context : ListContext) : Reader TypeName := do
  advance
  let stop ← expectAny ['\x60', '[', '<']
  check ((← cursor).charAt stop != '\x60') .genericInGeneric
  let names := Text.segments (← region stop)
  check (!names.any List.isEmpty) .emptyNestedSegment
  checkNesting (outer.enclosingChain.length + names.length)
  seek stop
  let args ← lists outer declared context
  return (names.map String.ofList).foldl TypeName.nested { outer with args }

def genericTail (lists : ListReader) (base : TypeName) (declared : Nat)
    (context : ListContext) : Reader TypeName := do
  if (← peek) = '.' then nestedInGeneric lists base declared context
  else return { base with args := ← lists base declared context }

def genericSuffix (lists : ListReader) (base : TypeName) (context : ListContext) :
    Reader TypeName := do
  let declared ← arity
  let t ← genericTail lists base declared context
  arraySuffix t

/-- Where the name inside an element ends: at a backtick, a comma or a closing
bracket that does not close an array marker. `before` is the character in front. -/
def nameEnd? (before : Char) (offset : Nat) : List Char → Option Nat
  | [] => none
  | c :: cs =>
    if c = '\x60' || c = ',' || (c = ']' && before != '[') then some offset
    else nameEnd? c (offset + c.utf8Size) cs

def elementNameEnd : Reader Nat := do
  let c ← cursor
  match nameEnd? '[' c.pos c.rest with
  | some stop => pure stop
  | none => refuse (.elementUnterminated c.pos)

def element (settings : Settings) (lists : ListReader) : Reader TypeName := do
  advance
  let stop ← elementNameEnd
  let base ← baseName settings stop
  let t ← if (← peek) = '\x60' then genericSuffix lists base .bracketed else pure base
  let close ← expectAny [']']
  seek (close + 1)
  return t

/-- Reads the elements up to the closing bracket; every one takes up some of the
text, whose length is fuel enough. -/
def elements (settings : Settings) (lists : ListReader) : Nat → Reader (List TypeName)
  | 0 => refuse .endOfText
  | fuel + 1 => do
    check ((← peek) == '[') (.elementExpected (← cursor).pos)
    let first ← element settings lists
    match ← peek with
    | ',' =>
      advance
      skipSpaces
      return first :: (← elements settings lists fuel)
    | ']' =>
      advance
      return [first]
    | found => refuse (.unexpectedAfterElement found (← cursor).pos)

def bracketedList (settings : Settings) (lists : ListReader) (declared : Nat) :
    Reader (List TypeName) := do
  let c ← cursor
  if c.startsWith ['[', '['] then
    advance
    let args ← elements settings lists (c.rest.length + 1)
    checkArity settings declared args.length
    return args
  else
    let close ← expectAny [']']
    seek (close + 1)
    return []

def plainArgument (settings : Settings) (lists : ListReader) : Reader TypeName := do
  let c ← cursor
  let stop ← expectAny ['\x60', ',', '>']
  if stop = c.pos then
    check (c.charAt stop != '\x60') .argumentWithoutName
    return .topLevel "" "object"
  else
    let base ← baseName settings stop
    if (← peek) = '\x60' then genericSuffix lists base .plain else pure base

def plainArguments (settings : Settings) (lists : ListReader) : Nat → Reader (List TypeName)
  | 0 => refuse .endOfText
  | fuel + 1 => do
    skipSpaces
    let first ← plainArgument settings lists
    skipSpaces
    match ← peek with
    | ',' =>
      advance
      return first :: (← plainArguments settings lists fuel)
    | '>' =>
      advance
      return [first]
    | '\x00' => refuse .listUnterminated
    | found => refuse (.unexpectedInList found (← cursor).pos)

def plainList (settings : Settings) (lists : ListReader) (declared : Nat) :
    Reader (List TypeName) := do
  advance
  if ← eat ['>'] then return []
  else
    let args ← plainArguments settings lists ((← cursor).rest.length + 1)
    checkArity settings declared args.length
    return args

def listLevel (settings : Settings) (lists : ListReader) : ListReader :=
  fun owner declared context => do
    match ← peek with
    | '[' =>
      if context = .plain then refuse .bracketsInPlainList
      else deeper (bracketedList settings lists declared)
    | '<' =>
      if context = .root ∧ settings.definitionsOnly then refuse .instantiation
      else deeper (withOwner owner (plainList settings lists declared))
    | '\x00' => refuse .missingArguments
    | found => refuse (.unexpectedAfterArity found (← cursor).pos)

/-- List readers for a number of further levels; past the last one the depth
check has already refused. -/
def argumentLists (settings : Settings) : Nat → ListReader
  | 0 => listLevel settings fun _ _ _ => refuse .listsTooDeep
  | levels + 1 => listLevel settings (argumentLists settings levels)

def wholeName (settings : Settings) : Reader TypeName := do
  let c ← cursor
  match c.findAny? ['\x60'] with
  | none => baseName settings c.length
  | some tick =>
    let base ← baseName settings tick
    genericSuffix (argumentLists settings maxListDepth) base .root

end ClrNames.Grammar
