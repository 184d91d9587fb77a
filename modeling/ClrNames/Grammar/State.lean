import ClrNames.Cursor.Basic

/-!
# Reading state of the type name grammar

A routine of the grammar moves a cursor, knows how many argument lists it is
inside of, and may refuse the text. The state survives a refusal, so that what
a routine restores on its way out can be stated for both ways out.
-/

set_option autoImplicit false

namespace ClrNames.Grammar

inductive ScopeRule where
  | containing
  /-- In the declaration that contains the name, or without one in the generic type whose
  arguments are being read. -/
  | nearest
  | nowhere
  deriving DecidableEq, Repr

structure Settings where
  known : String → Bool
  definitionsOnly : Bool
  /-- The text was cut off, so lists may be shorter than declared. -/
  truncated : Bool
  scopeRule : ScopeRule

structure State where
  cursor : Cursor
  depth : Nat
  deriving DecidableEq, Repr

abbrev Reader := EStateM ParseError State

variable {α : Type}

def cursor : Reader Cursor := do return (← get).cursor

def refuse (cause : ParseError.Cause) : Reader α := do throw ((← cursor).refuse cause)

def check (ok : Bool) (cause : ParseError.Cause) : Reader Unit :=
  if ok then pure () else refuse cause

def move (step : Cursor → Except ParseError Cursor) : Reader Unit := fun s =>
  match step s.cursor with
  | .ok c => .ok () { s with cursor := c }
  | .error e => .error e s

def peek : Reader Char := do return (← cursor).peek

def advance : Reader Unit := move Cursor.advance

def seek (offset : Nat) : Reader Unit := move fun c => c.seek offset

def skipSpaces : Reader Unit := modify fun s => { s with cursor := s.cursor.skipSpaces }

def eat (token : List Char) : Reader Bool :=
  modifyGet fun s => ((s.cursor.eat token).2, { s with cursor := (s.cursor.eat token).1 })

def expectAny (candidates : List Char) : Reader Nat := fun s =>
  match s.cursor.expectAny candidates with
  | .ok offset => .ok offset s
  | .error e => .error e s

def region (stop : Nat) : Reader (List Char) := do
  let c ← cursor
  match c.sliceTo? stop with
  | some text => pure text
  | none => refuse (.invalidRange c.pos stop)

def deeper (p : Reader α) : Reader α := fun s =>
  if maxListDepth ≤ s.depth then
    .error (s.cursor.refuse .listsTooDeep) { s with depth := s.depth + 1 }
  else
    match p { s with depth := s.depth + 1 } with
    | .ok a t => .ok a { t with depth := t.depth - 1 }
    | .error e t => .error e { t with depth := t.depth - 1 }

def withOwner (owner : TypeName) (p : Reader α) : Reader α := fun s =>
  match p { s with cursor := (s.cursor.swapInProgress (some owner)).1 } with
  | .ok a t => .ok a { t with cursor := (t.cursor.swapInProgress s.cursor.inProgress).1 }
  | .error e t => .error e { t with cursor := (t.cursor.swapInProgress s.cursor.inProgress).1 }

end ClrNames.Grammar
