/-!
# Parts of a name

Dotted segments, array markers at the end of a segment, trailing by-reference
marks, and the two searches for a fixed piece of text.
-/

set_option autoImplicit false

namespace ClrNames.Text

def segments (cs : List Char) : List (List Char) := cs.splitOn '.'

def dotted (parts : List (List Char)) : List Char := ['.'].intercalate parts

theorem dotted_segments (cs : List Char) : dotted (segments cs) = cs :=
  List.intercalate_splitOn '.'

theorem segments_ne_nil (cs : List Char) : segments cs ≠ [] := by
  simp [segments, List.splitOn]

def markerCount : List Char → Nat
  | ']' :: '[' :: cs => markerCount cs + 1
  | _ => 0

def arrayMarkers (segment : List Char) : Nat := markerCount segment.reverse

def withoutMarkers (segment : List Char) : List Char :=
  (segment.reverse.drop (2 * arrayMarkers segment)).reverse

def stripByRef (cs : List Char) : List Char :=
  (cs.reverse.dropWhile (· == '&')).reverse

def occurs (piece : List Char) : List Char → Bool
  | [] => piece.isEmpty
  | c :: cs => piece.isPrefixOf (c :: cs) || occurs piece cs

def beforeLast? (piece : List Char) : List Char → Option (List Char)
  | [] => if piece.isEmpty then some [] else none
  | c :: cs =>
    match beforeLast? piece cs with
    | some before => some (c :: before)
    | none => if piece.isPrefixOf (c :: cs) then some [] else none

theorem occurs_iff (piece cs : List Char) : occurs piece cs = true ↔ piece <:+: cs := by
  induction cs with
  | nil => simp [occurs]
  | cons c cs ih => simp [occurs, List.infix_cons_iff, ih]

end ClrNames.Text
