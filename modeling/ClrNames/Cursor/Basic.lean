import ClrNames.ParseError
import ClrNames.Text.Offset
import ClrNames.TypeName.Basic

/-!
# A cursor over the text of a type name

The cursor keeps its byte offset and what is left to read, and carries two
scopes: the declaration that back-references point into, and the generic type
whose argument list is being read. Operations that can fail leave no trace when
they do.
-/

set_option autoImplicit false

namespace ClrNames

structure Cursor where
  text : List Char
  pos : Nat
  rest : List Char
  containing : Option TypeName
  inProgress : Option TypeName
  deriving DecidableEq, Repr

namespace Cursor

/-- What a look past the end shows; a NUL in the text looks the same. -/
def endOfInput : Char := '\x00'

def start (text : List Char) (containing : Option TypeName) : Cursor :=
  { text, pos := 0, rest := text, containing, inProgress := none }

def length (c : Cursor) : Nat := Text.byteLength c.text

def hasMore (c : Cursor) : Bool := !c.rest.isEmpty

def peek (c : Cursor) : Char := c.rest.headD endOfInput

def tailAt? (c : Cursor) (offset : Nat) : Option (List Char) :=
  if c.pos ≤ offset then (Text.splitBytes? (offset - c.pos) c.rest).map Prod.snd
  else (Text.splitBytes? offset c.text).map Prod.snd

def charAt (c : Cursor) (offset : Nat) : Char :=
  ((c.tailAt? offset).bind List.head?).getD endOfInput

def refuse (c : Cursor) (cause : ParseError.Cause) : ParseError := ⟨cause, c.text⟩

def seek (c : Cursor) (offset : Nat) : Except ParseError Cursor :=
  match c.tailAt? offset with
  | some rest => .ok { c with pos := offset, rest }
  | none => .error (c.refuse (.offsetOutside offset))

def advance (c : Cursor) : Except ParseError Cursor :=
  match c.rest with
  | x :: _ => c.seek (c.pos + x.utf8Size)
  | [] => .error (c.refuse .endOfText)

def startsWith (c : Cursor) (token : List Char) : Bool := token.isPrefixOf c.rest

def eat (c : Cursor) (token : List Char) : Cursor × Bool :=
  if c.startsWith token then
    ({ c with pos := c.pos + Text.byteLength token, rest := c.rest.drop token.length }, true)
  else (c, false)

def skipSpaces (c : Cursor) : Cursor :=
  { c with
    pos := c.pos + (c.rest.takeWhile (· == ' ')).length
    rest := c.rest.dropWhile (· == ' ') }

def findAny? (c : Cursor) (candidates : List Char) : Option Nat :=
  (Text.findOffset? candidates.contains c.rest).map (c.pos + ·)

def expectAny (c : Cursor) (candidates : List Char) : Except ParseError Nat :=
  match c.findAny? candidates with
  | some offset => .ok offset
  | none => .error (c.refuse (.delimiterExpected candidates c.pos))

def sliceTo? (c : Cursor) (stop : Nat) : Option (List Char) :=
  if c.pos ≤ stop then (Text.splitBytes? (stop - c.pos) c.rest).map Prod.fst else none

def swapInProgress (c : Cursor) (scope : Option TypeName) : Cursor × Option TypeName :=
  ({ c with inProgress := scope }, c.inProgress)

end Cursor

end ClrNames
