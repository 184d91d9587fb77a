import ClrNames.Json.Number

/-!
# Reading JSON from bytes

A reader consumes bytes and stops at the first problem. A problem is an early
end, a value that is well formed so far but not the one that belongs there, or
anything else that breaks the grammar. Loops take the bytes that are left as
fuel: each round consumes at least one, and without fuel there is no text left.
-/

set_option autoImplicit false

namespace ClrNames

inductive JsonFault where
  | eof
  | data
  | grammar
  deriving DecidableEq, Repr

abbrev Bytes := List UInt8

abbrev JsonReader := StateT Bytes (Except JsonFault)

namespace JsonReader

variable {α σ : Type}

def symbol (b : UInt8) : Char := Char.ofNat b.toNat

def isBlank (b : UInt8) : Bool := b == 0x20 || b == 0x0a || b == 0x0d || b == 0x09

def peek? : JsonReader (Option Char) := do return (← get).head?.map symbol

def skip : JsonReader Unit := modify (List.drop 1)

def next? : JsonReader (Option Char) := do
  modify (List.dropWhile isBlank)
  peek?

def word : List Char → JsonReader Unit
  | [] => pure ()
  | c :: cs => do
    match ← peek? with
    | none => throw .eof
    | some found =>
      skip
      if found = c then word cs else throw .grammar

def hexDigit? (b : UInt8) : Option Nat :=
  if 0x30 ≤ b ∧ b ≤ 0x39 then some (b.toNat - 0x30)
  else if 0x61 ≤ b ∧ b ≤ 0x66 then some (b.toNat - 0x61 + 10)
  else if 0x41 ≤ b ∧ b ≤ 0x46 then some (b.toNat - 0x41 + 10)
  else none

def hexUnit : Bytes → Except JsonFault (Nat × Bytes)
  | a :: b :: c :: d :: rest =>
    match hexDigit? a, hexDigit? b, hexDigit? c, hexDigit? d with
    | some a, some b, some c, some d => .ok (((a * 16 + b) * 16 + c) * 16 + d, rest)
    | _, _, _, _ => .error .grammar
  | _ => .error .eof

def isLowSurrogate (unit : Nat) : Bool := 0xdc00 ≤ unit && unit < 0xe000

def isHighSurrogate (unit : Nat) : Bool := 0xd800 ≤ unit && unit < 0xdc00

def lowSurrogate : Bytes → Except JsonFault (Nat × Bytes)
  | [] => .error .eof
  | [b] => if b = 0x5c then .error .eof else .error .grammar
  | b :: u :: rest =>
    if b = 0x5c ∧ u = 0x75 then do
      let (low, rest) ← hexUnit rest
      if isLowSurrogate low then .ok (low, rest) else .error .grammar
    else .error .grammar

def unicodeEscape (bytes : Bytes) : Except JsonFault (Nat × Bytes) := do
  let (unit, rest) ← hexUnit bytes
  if isLowSurrogate unit then .error .grammar
  else if isHighSurrogate unit then
    let (low, rest) ← lowSurrogate rest
    .ok (0x10000 + (unit - 0xd800) * 0x400 + (low - 0xdc00), rest)
  else .ok (unit, rest)

def simpleEscape? (b : UInt8) : Option UInt8 :=
  match symbol b with
  | '"' => some 0x22
  | '\\' => some 0x5c
  | '/' => some 0x2f
  | 'b' => some 0x08
  | 'f' => some 0x0c
  | 'n' => some 0x0a
  | 'r' => some 0x0d
  | 't' => some 0x09
  | _ => none

def escape : Bytes → Except JsonFault (Bytes × Bytes)
  | [] => .error .eof
  | b :: rest =>
    match simpleEscape? b with
    | some plain => .ok ([plain], rest)
    | none =>
      if b = 0x75 then do
        let (code, rest) ← unicodeEscape rest
        .ok (String.utf8EncodeChar (Char.ofNat code), rest)
      else .error .grammar

def skipEscape : Bytes → Except JsonFault (Bytes × Bytes)
  | [] => .error .eof
  | b :: rest =>
    if (simpleEscape? b).isSome then .ok ([], rest)
    else if b = 0x75 then do
      let (_, rest) ← hexUnit rest
      .ok ([], rest)
    else .error .grammar

def quoted (readEscape : Bytes → Except JsonFault (Bytes × Bytes)) :
    Bytes → Bytes → Bytes → Except JsonFault (Bytes × Bytes)
  | [], _, _ => .error .eof
  | _ :: _, _, [] => .error .eof
  | _ :: fuel, done, b :: rest =>
    if b = 0x22 then .ok (done.reverse, rest)
    else if b = 0x5c then do
      let (plain, rest) ← readEscape rest
      quoted readEscape fuel (plain.reverse ++ done) rest
    else if b < 0x20 then .error .grammar
    else quoted readEscape fuel (b :: done) rest

def string : JsonReader String := fun bytes => do
  let (content, rest) ← quoted escape bytes [] bytes
  match String.fromUTF8? content.toByteArray with
  | some s => .ok (s, rest)
  | none => .error .grammar

def skipString : JsonReader Unit := fun bytes => do
  let (_, rest) ← quoted skipEscape bytes [] bytes
  .ok ((), rest)

def isDigit (b : UInt8) : Bool := 0x30 ≤ b && b ≤ 0x39

def digits : JsonReader (List Nat) :=
  modifyGet fun bytes =>
    ((bytes.takeWhile isDigit).map fun b => b.toNat - 0x30, bytes.dropWhile isDigit)

def someDigits (atEnd : JsonFault) : JsonReader (List Nat) := do
  let found ← digits
  if found.isEmpty then
    if (← get).isEmpty then throw atEnd else throw .grammar
  else return found

def integerDigits (atEnd : JsonFault) : JsonReader (List Nat) := do
  let found ← someDigits atEnd
  if found.head? = some 0 ∧ 1 < found.length then throw .grammar else return found

def exponentDigits (atEnd : JsonFault) : JsonReader (Bool × List Nat) := do
  let sign ← peek?
  if sign = some '+' ∨ sign = some '-' then skip
  return (sign = some '-', ← someDigits atEnd)

def decimalValue (ds : List Nat) : Nat := ds.foldl (fun n d => n * 10 + d) 0

def maxExponent : Nat := 2147483647

def checkRange (significand : Nat) (exponent : Int) : JsonReader Unit :=
  if Json.overflows significand exponent then throw .grammar else pure ()

def scaled (significand : Nat) (exponent : Int) : JsonReader Unit := do
  let mark ← peek?
  if mark = some 'e' ∨ mark = some 'E' then
    skip
    let (negative, ds) ← exponentDigits .eof
    let shift := decimalValue ds
    if negative then checkRange significand (exponent - shift)
    else if maxExponent < shift then
      if significand = 0 then pure () else throw .grammar
    else checkRange significand (exponent + shift)
  else checkRange significand exponent

def number (negative : Bool) : JsonReader (Option Nat) := do
  let ds ← integerDigits .eof
  let (significand, used) := Json.appendDigits 0 ds
  let mark ← peek?
  if mark = some '.' then
    skip
    let fraction ← someDigits .eof
    let (significand, places) := Json.appendDigits significand fraction
    scaled significand ((ds.length - used : Nat) - (places : Int))
    return none
  else if mark = some 'e' ∨ mark = some 'E' ∨ used < ds.length then
    scaled significand (ds.length - used : Nat)
    return none
  else return if negative then none else some significand

def skipNumber : JsonReader Unit := do
  let _ ← integerDigits .grammar
  if (← peek?) = some '.' then
    skip
    let _ ← someDigits .grammar
  let mark ← peek?
  if mark = some 'e' ∨ mark = some 'E' then
    skip
    let _ ← exponentDigits .grammar

/-- The problem with a value of the wrong kind: its own first problem if it has
one, else that it is the wrong kind. -/
def mismatch : JsonReader α := do
  match ← next? with
  | none => throw .eof
  | some c =>
    if c = 'n' then do
      skip
      word "ull".toList
      throw .data
    else if c = 't' then do
      skip
      word "rue".toList
      throw .data
    else if c = 'f' then do
      skip
      word "alse".toList
      throw .data
    else if c = '-' then do
      skip
      let _ ← number true
      throw .data
    else if c.isDigit then do
      let _ ← number false
      throw .data
    else if c = '"' then do
      skip
      let _ ← string
      throw .data
    else if c = '[' ∨ c = '\x7b' then throw .data
    else throw .grammar

def optional (value : JsonReader α) : JsonReader (Option α) := do
  if (← next?) = some 'n' then
    skip
    word "ull".toList
    return none
  else return some (← value)

def text : JsonReader String := do
  if (← next?) = some '"' then
    skip
    string
  else mismatch

def bool : JsonReader Bool := do
  let first ← next?
  if first = some 't' then
    skip
    word "rue".toList
    return true
  else if first = some 'f' then
    skip
    word "alse".toList
    return false
  else mismatch

def word32 : JsonReader UInt32 := do
  if ((← next?).map Char.isDigit).getD false then
    match ← number false with
    | some n => if n < 4294967296 then return UInt32.ofNat n else throw .data
    | none => throw .data
  else mismatch

def colon : JsonReader Unit := do
  match ← next? with
  | none => throw .eof
  | some c => if c = ':' then skip else throw .grammar

inductive Frame where
  | array
  | object
  deriving DecidableEq, Repr

inductive Expected where
  | value
  | key
  | firstItem
  | firstKey
  | separator
  deriving DecidableEq, Repr

def skipStart (c : Char) (frames : List Frame) : JsonReader (Expected × List Frame) := do
  if c = 'n' then do
    skip
    word "ull".toList
    return (.separator, frames)
  else if c = 't' then do
    skip
    word "rue".toList
    return (.separator, frames)
  else if c = 'f' then do
    skip
    word "alse".toList
    return (.separator, frames)
  else if c = '-' then do
    skip
    skipNumber
    return (.separator, frames)
  else if c.isDigit then do
    skipNumber
    return (.separator, frames)
  else if c = '"' then do
    skip
    skipString
    return (.separator, frames)
  else if c = '[' then do
    skip
    return (.firstItem, .array :: frames)
  else if c = '\x7b' then do
    skip
    return (.firstKey, .object :: frames)
  else throw .grammar

def skipKey (c : Char) (frames : List Frame) : JsonReader (Expected × List Frame) := do
  if c = '"' then do
    skip
    skipString
    colon
    return (.value, frames)
  else throw .grammar

def skipToken (c : Char) (expected : Expected) (frames : List Frame) :
    JsonReader (Expected × List Frame) := do
  match expected, frames with
  | .value, _ => skipStart c frames
  | .key, _ => skipKey c frames
  | .firstItem, _ =>
    if c = ']' then do
      skip
      return (.separator, frames.drop 1)
    else skipStart c frames
  | .firstKey, _ =>
    if c = '\x7d' then do
      skip
      return (.separator, frames.drop 1)
    else skipKey c frames
  | .separator, .array :: outer =>
    if c = ',' then do
      skip
      return (.value, frames)
    else if c = ']' then do
      skip
      return (.separator, outer)
    else throw .grammar
  | .separator, .object :: outer =>
    if c = ',' then do
      skip
      return (.key, frames)
    else if c = '\x7d' then do
      skip
      return (.separator, outer)
    else throw .grammar
  | .separator, [] => return (.separator, [])

/-- Passes over a value with its frames on a list, so that nesting has no limit. -/
def skipTokens : Bytes → Expected → List Frame → JsonReader Unit
  | [], _, _ => throw .eof
  | _ :: fuel, expected, frames => do
    match ← next? with
    | none => throw .eof
    | some c =>
      let (expected, frames) ← skipToken c expected frames
      if expected = .separator ∧ frames = [] then pure ()
      else skipTokens fuel expected frames

def skipValue : JsonReader Unit := do skipTokens (← get) .value []

def members (member : String → σ → JsonReader σ) : Bytes → Bool → σ → JsonReader σ
  | [], _, _ => throw .eof
  | _ :: fuel, first, state => do
    match ← next? with
    | none => throw .eof
    | some c =>
      if c = '\x7d' then do
        skip
        return state
      else
        let mark ← if c = ',' ∧ !first then do skip; next? else pure (some c)
        match mark with
        | none => throw .eof
        | some q =>
          if q = '"' ∧ (c = ',' ∨ first) then do
            skip
            let key ← string
            let state ← member key state
            members member fuel false state
          else throw .grammar

def object (member : String → σ → JsonReader σ) (initial : σ) : JsonReader σ := do
  if (← next?) = some '\x7b' then
    skip
    members member (← get) true initial
  else mismatch

def item? (first : Bool) (value : JsonReader α) : JsonReader (Option α) := do
  match ← next? with
  | none => throw .eof
  | some c =>
    if c = ']' then return none
    else if first then return some (← value)
    else if c = ',' then do
      skip
      match ← next? with
      | none => throw .eof
      | some ']' => throw .grammar
      | some _ => return some (← value)
    else throw .grammar

def endArray : JsonReader Unit := do
  match ← next? with
  | none => throw .eof
  | some c => if c = ']' then skip else throw .grammar

def document (value : JsonReader α) (bytes : Bytes) : Except JsonFault α := do
  let (result, rest) ← value.run bytes
  if (rest.dropWhile isBlank).isEmpty then .ok result else .error .grammar

end JsonReader

end ClrNames
