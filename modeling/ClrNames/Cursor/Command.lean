import ClrNames.Cursor.Basic

/-!
# Cursor commands

The operations of a cursor as data, so that a run of them is a list. A command
answers a reply and leaves a cursor; one that fails leaves the cursor it found.
-/

set_option autoImplicit false

namespace ClrNames.Cursor

inductive Command where
  | seek (offset : Nat)
  | advance
  | eat (token : List Char)
  | skipSpaces
  | peek
  | charAt (offset : Nat)
  | findAny (candidates : List Char)
  | expectAny (candidates : List Char)
  | length
  | containing
  | inProgress
  | swapInProgress (scope : Option TypeName)
  deriving Repr

inductive Reply where
  | done
  | failed (error : ParseError)
  | flag (value : Bool)
  | char (value : Char)
  | offset (value : Option Nat)
  | length (bytes : Nat) (isEmpty : Bool)
  | scope (value : Option TypeName)
  deriving Repr

def afterMove (c : Cursor) : Except ParseError Cursor → Cursor × Reply
  | .ok moved => (moved, .done)
  | .error e => (c, .failed e)

def step (c : Cursor) : Command → Cursor × Reply
  | .seek offset => c.afterMove (c.seek offset)
  | .advance => c.afterMove c.advance
  | .eat token => ((c.eat token).1, .flag (c.eat token).2)
  | .skipSpaces => (c.skipSpaces, .done)
  | .peek => (c, .char c.peek)
  | .charAt offset => (c, .char (c.charAt offset))
  | .findAny candidates => (c, .offset (c.findAny? candidates))
  | .expectAny candidates =>
    match c.expectAny candidates with
    | .ok offset => (c, .offset (some offset))
    | .error e => (c, .failed e)
  | .length => (c, .length c.length c.text.isEmpty)
  | .containing => (c, .scope c.containing)
  | .inProgress => (c, .scope c.inProgress)
  | .swapInProgress scope => ((c.swapInProgress scope).1, .scope (c.swapInProgress scope).2)

def run (c : Cursor) : List Command → Cursor
  | [] => c
  | command :: commands => (c.step command).1.run commands

end ClrNames.Cursor
