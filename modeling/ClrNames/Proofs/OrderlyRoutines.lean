import ClrNames.Proofs.Orderly

/-!
# Routines that end in order

Every routine of the grammar ends in order where its callers call it. The two loops are
one: each round takes up some of the text, so that the rounds come to an end by themselves.
-/

set_option autoImplicit false

namespace ClrNames.Grammar
open Text

/-! ## Names -/

section
variable {σ : Settings} {s : State}

theorem backReference_orderly (token : List Char) :
    Orderly s (backReference σ token) fun _ t => t = s := by
  unfold backReference
  dsimp only
  split
  · exact orderly_throw rfl
  · split
    · exact orderly_refuse rfl
    · exact orderly_cursor (orderly_pure rfl)

theorem simpleName_orderly (qualifier : List (List Char)) (simple : List Char) :
    Orderly s (simpleName σ qualifier simple) fun _ t => t = s := by
  unfold simpleName checkNesting
  dsimp only
  split
  · exact orderly_throw rfl
  · exact orderly_check rfl fun _ => orderly_check rfl fun _ => orderly_pure rfl

theorem nameOf_orderly (text : List Char) : Orderly s (nameOf σ text) fun _ t => t = s := by
  unfold nameOf
  apply orderly_check rfl
  intro _
  split
  · exact backReference_orderly _
  · exact simpleName_orderly _ _

/-- Called with the end of a piece of the text. -/
theorem baseName_orderly {taken after : List Char} (split : s.cursor.rest = taken ++ after) :
    Orderly s (baseName σ (s.cursor.pos + byteLength taken)) fun _ t => t = s.pass taken after := by
  rw [Orderly, baseName_pass σ split]
  exact (nameOf_orderly taken).behind (passes_of split)

/-- Called where a backtick stands. -/
theorem arity_orderly {after : List Char} (hrest : s.cursor.rest = '\x60' :: after) :
    Orderly s arity (Further s) := by
  have hmark : s.cursor.rest = ['\x60'] ++ after := hrest
  have hdigits : byteLength (after.takeWhile Char.isDigit) =
      (after.takeWhile Char.isDigit).length :=
    byteLength_digits fun c hc => List.all_eq_true.mp List.all_takeWhile c hc
  unfold arity
  apply orderly_step (passes_of hmark) (eat_pass hmark)
  apply orderly_cursor
  apply orderly_stay (check_pass rfl _ _)
  apply orderly_cursor
  apply orderly_check rfl
  intro _
  rw [State.pass_rest, ← hdigits]
  apply orderly_seek (s := s.pass ['\x60'] after) List.takeWhile_append_dropWhile.symm
  apply orderly_check rfl
  intro _
  apply orderly_pure
  rw [State.pass_pass]
  exact pos_lt_pass _ _

theorem arraySuffix_orderly (t : TypeName) : Orderly s (arraySuffix t) Anywhere := by
  have hend (mark : Bool) (u : State) : Orderly u (do
      check (!(← cursor).startsWith ['[', ']']) (.arrayRank (maxArrayMarkers + 1))
      return t.withArray mark) Anywhere :=
    orderly_cursor (orderly_check rfl fun _ => orderly_pure trivial)
  unfold arraySuffix
  apply orderly_eat
  · intro u _
    exact orderly_eat _ (fun v _ => hend true v) (fun _ => hend true u)
  · intro _
    exact orderly_eat _ (fun v _ => hend false v) (fun _ => hend false s)

/-! ## What stands behind an arity marker -/

def nestedPath (outer : TypeName) : Reader (List (List Char)) := do
  advance
  let stop ← expectAny ['\x60', '[', '<']
  check ((← cursor).charAt stop != '\x60') .genericInGeneric
  let names := segments (← region stop)
  check (!names.any List.isEmpty) .emptyNestedSegment
  checkNesting (outer.enclosingChain.length + names.length)
  seek stop
  return names

theorem nestedInGeneric_eq (lists : ListReader) (outer : TypeName) (declared : Nat)
    (context : ListContext) : nestedInGeneric lists outer declared context = (do
      let names ← nestedPath outer
      let args ← lists outer declared context
      return (names.map String.ofList).foldl TypeName.nested { outer with args }) := by
  simp only [nestedInGeneric, nestedPath, bind_assoc, pure_bind]

theorem nestedPath_orderly (outer : TypeName) {c : Char} {after : List Char}
    (hrest : s.cursor.rest = c :: after) : Orderly s (nestedPath outer) (Further s) := by
  unfold nestedPath checkNesting
  apply orderly_advance hrest
  apply Orderly.further (pos_lt_pass [] after)
  apply orderly_expectAny
  intro taken d more split _ _
  apply orderly_cursor
  apply orderly_check rfl
  intro _
  apply orderly_region split
  apply orderly_check rfl
  intro _
  apply orderly_check rfl
  intro _
  exact orderly_seek split (orderly_pure trivial)

def OrderlyLists (L : ListReader) : Prop :=
  ∀ owner declared context s, Orderly s (L owner declared context) Anywhere

variable {L : ListReader} {base : TypeName} {declared : Nat} {context : ListContext}

theorem genericTail_orderly (hL : OrderlyLists L) :
    Orderly s (genericTail L base declared context) Anywhere := by
  unfold genericTail
  apply orderly_peek
  split
  next hdot =>
    obtain ⟨after, hrest⟩ := rest_of_peek (by decide) hdot
    rw [nestedInGeneric_eq]
    apply (nestedPath_orderly base hrest).bind
    intro names t _ _ _
    apply (hL base declared context t).bind
    intro args u _ _ _
    exact orderly_pure trivial
  next =>
    apply (hL base declared context s).bind
    intro args t _ _ _
    exact orderly_pure trivial

theorem genericSuffix_orderly (hL : OrderlyLists L) {after : List Char}
    (hrest : s.cursor.rest = '\x60' :: after) :
    Orderly s (genericSuffix L base context) (Further s) := by
  unfold genericSuffix
  apply (arity_orderly hrest).bind
  intro declared t _ _ hlt
  apply Orderly.further hlt
  apply (genericTail_orderly hL).bind
  intro node u _ _ _
  exact arraySuffix_orderly node

theorem fullName_orderly (hL : OrderlyLists L) {taken after : List Char}
    (split : s.cursor.rest = taken ++ after) :
    Orderly s (fullName σ L (s.cursor.pos + byteLength taken) context) Anywhere := by
  unfold fullName
  apply (baseName_orderly split).bind
  intro node t _ _ _
  apply orderly_peek
  split
  next htick =>
    obtain ⟨more, hrest⟩ := rest_of_peek (by decide) htick
    exact (genericSuffix_orderly hL hrest).anywhere
  next => exact orderly_pure trivial

/-! ## Loops -/

def rounds (round : Reader (TypeName × Bool)) : Nat → Reader (List TypeName)
  | 0 => refuse .endOfText
  | fuel + 1 => do
    let (found, more) ← round
    if more then return found :: (← rounds round fuel) else return [found]

variable {round : Reader (TypeName × Bool)}

/-- The length of the text is fuel enough where every round takes up some of it. -/
theorem rounds_orderly (hround : ∀ s, Orderly s round (Further s)) (fuel : Nat)
    (hfuel : s.cursor.rest.length < fuel) : Orderly s (rounds round fuel) Anywhere := by
  induction fuel generalizing s with
  | zero => exact absurd hfuel (Nat.not_lt_zero _)
  | succ fuel ih =>
    apply (hround s).bind
    rintro ⟨found, more⟩ t piece passes hlt
    have hlength := passes.length_lt hlt
    cases more with
    | true =>
      apply (ih (by omega)).bind
      intro args u _ _ _
      exact orderly_pure trivial
    | false => exact orderly_pure trivial

/-- The rounds come to their end before the fuel does. -/
theorem rounds_fuel (hround : ∀ s, Orderly s round (Further s)) {fuel fuel' : Nat}
    (hfuel : s.cursor.rest.length < fuel) (hfuel' : s.cursor.rest.length < fuel') :
    rounds round fuel s = rounds round fuel' s := by
  induction fuel generalizing s fuel' with
  | zero => exact absurd hfuel (Nat.not_lt_zero _)
  | succ fuel ih =>
    obtain ⟨fuel', rfl⟩ := Nat.exists_eq_succ_of_ne_zero (Nat.ne_zero_of_lt hfuel')
    have hended := hround s
    unfold Orderly at hended
    generalize hrun : round s = r at hended
    cases hended with
    | refused => rw [rounds, rounds, bind_error hrun, bind_error hrun]
    | @passed result t piece passes hlt =>
      obtain ⟨found, more⟩ := result
      have hlength := passes.length_lt hlt
      rw [rounds, rounds, bind_ok hrun, bind_ok hrun]
      cases more with
      | true =>
        have hrest : rounds round fuel t = rounds round fuel' t := ih (by omega) (by omega)
        show (rounds round fuel >>= fun args => pure (found :: args)) t =
          (rounds round fuel' >>= fun args => pure (found :: args)) t
        cases hargs : rounds round fuel t with
        | ok args u => rw [bind_ok hargs, bind_ok (hrest ▸ hargs)]
        | error e u => rw [bind_error hargs, bind_error (hrest ▸ hargs)]
      | false => rfl

/-! ## Elements in brackets -/

/-- Called where a bracket opens. -/
theorem element_orderly (hL : OrderlyLists L) {after : List Char}
    (hrest : s.cursor.rest = '[' :: after) : Orderly s (element σ L) (Further s) := by
  rw [element_eq]
  apply orderly_advance hrest
  apply Orderly.further (pos_lt_pass [] after)
  unfold elementNameEnd
  rw [bind_assoc]
  apply orderly_cursor
  split
  next stop hend =>
    obtain ⟨taken, d, more, split, -, -, rfl⟩ := nameEnd?_eq_some hend
    rw [pure_bind]
    apply (fullName_orderly hL split).bind
    intro node t _ _ _
    exact orderly_close fun _ _ => orderly_pure trivial
  next => exact ended_error rfl

def elementRound (settings : Settings) (lists : ListReader) : Reader (TypeName × Bool) := do
  check ((← peek) == '[') (.elementExpected (← cursor).pos)
  let found ← element settings lists
  match ← peek with
  | ',' =>
    advance
    skipSpaces
    return (found, true)
  | ']' =>
    advance
    return (found, false)
  | other => refuse (.unexpectedAfterElement other (← cursor).pos)

theorem elements_eq (settings : Settings) (lists : ListReader) (fuel : Nat) :
    elements settings lists fuel = rounds (elementRound settings lists) fuel := by
  induction fuel with
  | zero => rfl
  | succ fuel ih =>
    rw [elements, rounds, ih, elementRound]
    simp only [bind_assoc]
    refine bind_congr fun _ => bind_congr fun c => bind_congr fun _ => bind_congr fun found =>
      bind_congr fun next => ?_
    split
    · simp only [bind_assoc, pure_bind]
      rfl
    · simp only [bind_assoc, pure_bind]
      rfl
    · simp only [refuse, bind_assoc]
      rfl

theorem elementRound_orderly (hL : OrderlyLists L) :
    Orderly s (elementRound σ L) (Further s) := by
  unfold elementRound
  apply orderly_peek
  apply orderly_cursor
  apply orderly_check rfl
  intro hopen
  have hpeek : s.cursor.peek = '[' := by simpa using hopen
  obtain ⟨after, hrest⟩ := rest_of_peek (by decide) hpeek
  apply (element_orderly hL hrest).bind
  intro found t _ _ hlt
  apply Orderly.further hlt
  apply orderly_peek
  split
  next hnext =>
    obtain ⟨more, hrest⟩ := rest_of_peek (by decide) hnext
    exact orderly_advance hrest (orderly_skipSpaces fun _ _ _ => orderly_pure trivial)
  next hnext =>
    obtain ⟨more, hrest⟩ := rest_of_peek (by decide) hnext
    exact orderly_advance hrest (orderly_pure trivial)
  next => exact orderly_cursor (orderly_refuse rfl)

/-- Called where a bracket opens. -/
theorem bracketedList_orderly (hL : OrderlyLists L) {after : List Char}
    (hrest : s.cursor.rest = '[' :: after) :
    Orderly s (bracketedList σ L declared) (Further s) := by
  unfold bracketedList
  apply orderly_cursor
  split
  · apply orderly_advance hrest
    apply Orderly.further (pos_lt_pass [] after)
    have hfuel : after.length < s.cursor.rest.length + 1 := by
      rw [hrest, List.length_cons]
      omega
    rw [elements_eq]
    apply (rounds_orderly (fun _ => elementRound_orderly hL) _ hfuel).bind
    intro args t _ _ _
    exact orderly_check rfl fun _ => orderly_pure trivial
  · exact orderly_close fun t hlt => orderly_pure hlt

/-! ## Plain arguments -/

/-- An empty argument takes up no text. -/
theorem plainArgument_orderly (hL : OrderlyLists L) :
    Orderly s (plainArgument σ L) Anywhere := by
  rw [plainArgument_eq]
  apply orderly_cursor
  apply orderly_expectAny
  intro taken d after split _ _
  split
  · exact orderly_check rfl fun _ => orderly_pure trivial
  · exact fullName_orderly hL split

def argumentRound (settings : Settings) (lists : ListReader) : Reader (TypeName × Bool) := do
  skipSpaces
  let found ← plainArgument settings lists
  skipSpaces
  match ← peek with
  | ',' =>
    advance
    return (found, true)
  | '>' =>
    advance
    return (found, false)
  | '\x00' => refuse .listUnterminated
  | other => refuse (.unexpectedInList other (← cursor).pos)

theorem plainArguments_eq (settings : Settings) (lists : ListReader) (fuel : Nat) :
    plainArguments settings lists fuel = rounds (argumentRound settings lists) fuel := by
  induction fuel with
  | zero => rfl
  | succ fuel ih =>
    rw [plainArguments, rounds, ih, argumentRound]
    simp only [bind_assoc]
    refine bind_congr fun _ => bind_congr fun found => bind_congr fun _ => bind_congr fun next => ?_
    split
    · simp only [bind_assoc, pure_bind]
      rfl
    · simp only [bind_assoc, pure_bind]
      rfl
    · simp only [refuse, bind_assoc]
      rfl
    · simp only [refuse, bind_assoc]
      rfl

/-- Whatever the argument, the round takes up the mark behind it. -/
theorem argumentRound_orderly (hL : OrderlyLists L) :
    Orderly s (argumentRound σ L) (Further s) := by
  have hmark {c : Char} {found : TypeName} {more : Bool} {u : State} (hc : c ≠ '\x00')
      (hle : s.cursor.pos ≤ u.cursor.pos) (hpeek : u.cursor.peek = c) :
      Orderly u (do
        advance
        return (found, more)) (Further s) := by
    obtain ⟨after, hrest⟩ := rest_of_peek hc hpeek
    exact orderly_advance hrest (orderly_pure (Nat.lt_of_le_of_lt hle (pos_lt_pass [] after)))
  unfold argumentRound
  apply orderly_skipSpaces
  intro t spaces hspaces
  apply (plainArgument_orderly hL).bind
  intro found u piece hpiece _
  apply orderly_skipSpaces
  intro v spaces' hspaces'
  have hle := (hspaces.trans (hpiece.trans hspaces')).pos_le
  apply orderly_peek
  split
  next hpeek => exact hmark (by decide) hle hpeek
  next hpeek => exact hmark (by decide) hle hpeek
  next => exact orderly_refuse rfl
  next => exact orderly_cursor (orderly_refuse rfl)

/-- Called where an angle bracket opens. -/
theorem plainList_orderly (hL : OrderlyLists L) {after : List Char}
    (hrest : s.cursor.rest = '<' :: after) :
    Orderly s (plainList σ L declared) (Further s) := by
  unfold plainList
  apply orderly_advance hrest
  apply Orderly.further (pos_lt_pass [] after)
  apply orderly_eat
  · intro t _
    exact orderly_pure trivial
  · intro _
    apply orderly_cursor
    rw [plainArguments_eq]
    apply (rounds_orderly (fun _ => argumentRound_orderly hL) _ (Nat.lt_succ_self _)).bind
    intro args t _ _ _
    exact orderly_check rfl fun _ => orderly_pure trivial

/-! ## Levels of lists -/

theorem bracketedLevel_orderly (hL : OrderlyLists L) {after : List Char}
    (hrest : s.cursor.rest = '[' :: after) :
    Orderly s (deeper (bracketedList σ L declared)) (Further s) :=
  orderly_deeper fun _ => bracketedList_orderly (s := { s with depth := s.depth + 1 }) hL hrest

theorem plainLevel_orderly (hL : OrderlyLists L) (owner : TypeName) {after : List Char}
    (hrest : s.cursor.rest = '<' :: after) :
    Orderly s (deeper (withOwner owner (plainList σ L declared))) (Further s) :=
  orderly_deeper fun _ => orderly_withOwner owner
    (plainList_orderly (s := State.owned { s with depth := s.depth + 1 } owner) hL hrest)

theorem listLevel_orderly (hL : OrderlyLists L) : OrderlyLists (listLevel σ L) := by
  intro owner declared context s
  unfold listLevel
  apply orderly_peek
  split
  next hpeek =>
    obtain ⟨after, hrest⟩ := rest_of_peek (by decide) hpeek
    split
    · exact orderly_refuse rfl
    · exact (bracketedLevel_orderly hL hrest).anywhere
  next hpeek =>
    obtain ⟨after, hrest⟩ := rest_of_peek (by decide) hpeek
    split
    · exact orderly_refuse rfl
    · exact (plainLevel_orderly hL owner hrest).anywhere
  next => exact orderly_refuse rfl
  next => exact orderly_cursor (orderly_refuse rfl)

theorem argumentLists_orderly (levels : Nat) : OrderlyLists (argumentLists σ levels) := by
  induction levels with
  | zero => exact listLevel_orderly fun _ _ _ _ => orderly_refuse rfl
  | succ levels ih => exact listLevel_orderly ih

/-- Called at the start of a text. -/
theorem wholeName_orderly {text : List Char} (hstart : s.cursor.pos = 0)
    (htext : s.cursor.text = text) (hrest : s.cursor.rest = text) :
    Orderly s (wholeName σ) Anywhere := by
  by_cases htick : '\x60' ∈ text
  · obtain ⟨base, more, rfl, hbase⟩ := List.eq_append_cons_of_mem htick
    rw [Orderly, wholeName_of_marked hrest hbase]
    apply (baseName_orderly hrest).bind
    rintro node t _ _ rfl
    exact (genericSuffix_orderly (argumentLists_orderly 64) rfl).anywhere
  · rw [Orderly, wholeName_of_unmarked hstart htext hrest htick]
    exact (baseName_orderly (hrest.trans (List.append_nil text).symm)).anywhere

end

end ClrNames.Grammar
