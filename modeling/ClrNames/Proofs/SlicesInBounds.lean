import ClrNames.Proofs.Calls
import ClrNames.Proofs.Utf8

/-!
# Slices in bounds

A slice of a text is asked for by byte offsets, and there is none if one of them lies
outside of the text or inside a character. Every slice that is asked for while a name is
read exists: what a reached call knows of the text in front of it says where to cut. For
the same reason no refusal tells of a misplaced cursor.
-/

set_option autoImplicit false

namespace ClrNames.Text

def slice? (cs : List Char) (start stop : Nat) : Option (List Char) :=
  if start ≤ stop then
    (splitBytes? start cs).bind fun cut => (splitBytes? (stop - start) cut.2).map Prod.fst
  else none

theorem slice?_append (before piece after : List Char) :
    slice? (before ++ (piece ++ after)) (byteLength before)
      (byteLength before + byteLength piece) = some piece := by
  rw [slice?, if_pos (Nat.le_add_right _ _), splitBytes?_append, Option.bind_some,
    Nat.add_sub_cancel_left, splitBytes?_append]
  rfl

theorem slice?_behind (before after : List Char) :
    slice? (before ++ after) (byteLength before) (byteLength (before ++ after)) = some after := by
  have hslice := slice?_append before after []
  rwa [List.append_nil, ← byteLength_append] at hslice

theorem slice?_front (before after : List Char) :
    slice? (before ++ after) 0 (byteLength before) = some before := by
  have hslice := slice?_append [] before after
  rwa [List.nil_append, byteLength_nil, Nat.zero_add] at hslice

/-! ## Digits -/

def isDigitByte (b : UInt8) : Bool := 48 ≤ b && b ≤ 57

theorem isDigitByte_iff (b : UInt8) : isDigitByte b = true ↔ 48 ≤ b.toNat ∧ b.toNat ≤ 57 := by
  simp [isDigitByte, UInt8.le_iff_toNat_le]

theorem isDigit_iff (c : Char) : c.isDigit = true ↔ 48 ≤ c.val.toNat ∧ c.val.toNat ≤ 57 := by
  simp [Char.isDigit, UInt32.le_iff_toNat_le]

/-- The first byte of a character tells whether it is a digit, which has no other byte. -/
theorem utf8EncodeChar_digit (c : Char) :
    ∃ b bs, String.utf8EncodeChar c = b :: bs ∧ (isDigitByte b = true ↔ c.isDigit = true) ∧
      (c.isDigit = true → bs = []) := by
  unfold String.utf8EncodeChar
  dsimp only
  repeat' split
  all_goals
    refine ⟨_, _, rfl, ?_, ?_⟩
    · rw [isDigitByte_iff, isDigit_iff, UInt8.toNat_ofNat']
      omega
    · rw [isDigit_iff]
      first
        | exact fun _ => rfl
        | omega

/-- Counting the digits in bytes is counting them in characters. -/
theorem length_digitBytes (cs : List Char) :
    ((encode cs).takeWhile isDigitByte).length = (cs.takeWhile Char.isDigit).length := by
  induction cs with
  | nil => rfl
  | cons c cs ih =>
    obtain ⟨b, bs, hbytes, hdigit, hsingle⟩ := utf8EncodeChar_digit c
    rw [encode_cons, hbytes, List.cons_append]
    by_cases hc : c.isDigit = true
    · rw [hsingle hc, List.nil_append, List.takeWhile_cons_of_pos (hdigit.mpr hc),
        List.takeWhile_cons_of_pos hc, List.length_cons, List.length_cons, ih]
    · rw [List.takeWhile_cons_of_neg (mt hdigit.mp hc), List.takeWhile_cons_of_neg hc]
      rfl

/-! ## References -/

theorem head?_of_append {kept marks : List Char} {x : Char} (hmarks : ∀ c ∈ marks, c ≠ x)
    (h : (kept ++ marks).head? = some x) : kept.head? = some x := by
  cases kept with
  | nil => exact absurd rfl (hmarks x (List.mem_of_head? h))
  | cons c kept => exact h

/-- The mark in front of a reference is none of those that are taken off behind it. -/
theorem head?_reference {token : List Char} (h : token.head? = some '!') :
    (stripByRef (withoutMarkers (stripByRef token))).head? = some '!' := by
  have hstrip {cs : List Char} (h : cs.head? = some '!') : (stripByRef cs).head? = some '!' := by
    obtain ⟨marks, hcs, hmarks⟩ := stripByRef_append cs
    rw [hcs] at h
    exact head?_of_append (fun c hc => by rw [hmarks c hc]; decide) h
  obtain ⟨marks, hcs, hmarks⟩ := withoutMarkers_append (stripByRef token)
  have hstem := hstrip h
  rw [hcs] at hstem
  refine hstrip (head?_of_append (fun c hc => ?_) hstem)
  rcases hmarks c hc with rfl | rfl <;> decide

/-- A reference has at least the byte of its mark. -/
theorem slice?_reference {reference : List Char} (h : reference.head? = some '!') :
    slice? reference 1 (byteLength reference) = some (reference.drop 1) := by
  obtain ⟨digits, rfl⟩ := List.head?_eq_some_iff.mp h
  exact slice?_behind ['!'] digits

/-! ## The cut of a text that is too long -/

def lastOffset? (piece cs : List Char) : Option Nat := (beforeLast? piece cs).map byteLength

end ClrNames.Text

namespace ClrNames
open Text

theorem closeTruncated_slice {text : List Char} {cut : Nat}
    (h : lastOffset? "],[".toList text = some cut) :
    ∃ front, slice? text 0 (cut + 1) = some front ∧
      (byteLength text = truncatedLength → '\x60' ∈ text →
        closeTruncated text = .ok (front ++ [']'], true)) := by
  obtain ⟨before, hbefore, rfl⟩ := Option.map_eq_some_iff.mp h
  obtain ⟨after, hafter⟩ := beforeLast?_eq_some hbefore
  have hsplit : text = (before ++ [']']) ++ (",[".toList ++ after) := by simpa using hafter
  have hcut : byteLength before + 1 = byteLength (before ++ [']']) := by
    rw [byteLength_append]
    rfl
  refine ⟨before ++ [']'], ?_, fun hlength htick => ?_⟩
  · rw [hcut, hsplit]
    exact slice?_front _ _
  · rw [closeTruncated, if_pos ⟨hlength, htick⟩, hbefore]
    simp

namespace Grammar

/-! ## The scan for the end of a name -/

/-- The scan for the end of a name as it goes from slice to slice; it answers nothing
where one of them does not exist, or the fuel is used up. -/
def scanNameEnd (text : List Char) : Nat → Nat → Option (Option Nat)
  | 0, _ => none
  | fuel + 1, start => do
    let rest ← slice? text start (byteLength text)
    match findOffset? ['\x60', ',', ']'].contains rest with
    | none => return none
    | some found =>
      let tail ← slice? text (start + found) (byteLength text)
      let front ← slice? text 0 (start + found)
      if [']'].isPrefixOf tail && ['['].isSuffixOf front then
        scanNameEnd text fuel (start + found + 1)
      else return some (start + found)

/-- Passing over the characters that end no name leaves the last one to look back at. -/
theorem nameEnd?_append {before last : Char} (offset : Nat) {taken front : List Char}
    (htaken : ∀ c ∈ taken, c ∉ ['\x60', ',', ']']) (hlast : before :: taken = front ++ [last])
    (more : List Char) :
    nameEnd? before offset (taken ++ more) = nameEnd? last (offset + byteLength taken) more := by
  induction taken generalizing before offset front with
  | nil =>
    obtain ⟨-, rfl⟩ := List.append_singleton_inj.mp (show [] ++ [before] = front ++ [last] from hlast)
    rfl
  | cons c taken ih =>
    obtain _ | ⟨x, front⟩ := front
    · cases hlast
    obtain ⟨-, hlast⟩ := List.cons.inj hlast
    have hc : (decide (c = '\x60') || decide (c = ',') || decide (c = ']') && before != '[') =
        false := by
      have hmem := htaken c (by simp)
      simp only [List.mem_cons, List.not_mem_nil, or_false, not_or] at hmem
      simp [hmem.1, hmem.2.1, hmem.2.2]
    rw [List.cons_append, nameEnd?, hc, if_neg Bool.false_ne_true,
      ih _ (fun d hd => htaken d (by simp [hd])) hlast, byteLength_cons, Nat.add_assoc]

theorem exists_last (before : Char) (taken : List Char) :
    ∃ front last, before :: taken = front ++ [last] :=
  ⟨_, _, (List.dropLast_append_getLast (List.cons_ne_nil before taken)).symm⟩

theorem nameEnd?_endless {before : Char} (offset : Nat) {cs : List Char}
    (h : ∀ c ∈ cs, c ∉ ['\x60', ',', ']']) : nameEnd? before offset cs = none := by
  obtain ⟨front, last, hlast⟩ := exists_last before cs
  have hend := nameEnd?_append offset h hlast []
  rwa [List.append_nil] at hend

theorem nameEnd?_ends {last d : Char} {offset : Nat} {after : List Char}
    (hd : d ∈ ['\x60', ',', ']']) (hpair : ¬ (d = ']' ∧ last = '[')) :
    nameEnd? last offset (d :: after) = some offset := by
  have hends : (decide (d = '\x60') || decide (d = ',') || decide (d = ']') && last != '[') =
      true := by
    rw [not_and] at hpair
    simp only [List.mem_cons, List.not_mem_nil, or_false] at hd
    rcases hd with rfl | rfl | rfl
    · rfl
    · rfl
    · simpa using hpair rfl
  rw [nameEnd?, if_pos hends]

/-- The two slices tell whether a bracket closes an array marker. -/
theorem closesMarker_iff {last d : Char} {front after : List Char} :
    ([']'].isPrefixOf (d :: after) && ['['].isSuffixOf (front ++ [last])) = true ↔
      d = ']' ∧ last = '[' := by
  rw [Bool.and_eq_true, List.isSuffixOf, List.reverse_append]
  simp [@eq_comm _ ']', @eq_comm _ '[']

/-- Every slice of the scan exists, and the scan ends where the name does. -/
theorem scanNameEnd_eq (before : Char) (passed : List Char) {rest : List Char} {fuel : Nat}
    (hfuel : rest.length < fuel) :
    scanNameEnd (passed ++ [before] ++ rest) fuel (byteLength (passed ++ [before])) =
      some (nameEnd? before (byteLength (passed ++ [before])) rest) := by
  induction fuel generalizing before passed rest with
  | zero => exact absurd hfuel (Nat.not_lt_zero _)
  | succ fuel ih =>
    rw [scanNameEnd, slice?_behind]
    cases hfind : findOffset? ['\x60', ',', ']'].contains rest with
    | none =>
      have hclean : ∀ c ∈ rest, c ∉ ['\x60', ',', ']'] := by simpa [findOffset?] using hfind
      rw [nameEnd?_endless _ hclean]
      simp [hfind]
    | some found =>
      obtain ⟨taken, d, after, rfl, htaken, hd, rfl⟩ := findOffset?_eq_some _ _ _ hfind
      have hclean : ∀ c ∈ taken, c ∉ ['\x60', ',', ']'] := by simpa using htaken
      obtain ⟨front, last, hlast⟩ := exists_last before taken
      -- the scan and the name look at the same character in front of `d`
      have hfront : passed ++ [before] ++ taken = passed ++ front ++ [last] := by
        rw [List.append_assoc, List.append_assoc, ← hlast]
        rfl
      have hoffset : byteLength (passed ++ [before]) + byteLength taken =
          byteLength (passed ++ front ++ [last]) := by
        rw [← hfront, byteLength_append _ taken]
      have htext : passed ++ [before] ++ (taken ++ d :: after) =
          passed ++ front ++ [last] ++ (d :: after) := by
        rw [← List.append_assoc, hfront]
      rw [nameEnd?_append _ hclean hlast, htext, hoffset]
      simp only [Option.bind_eq_bind, Option.bind_some, hfind, hoffset, slice?_behind, slice?_front]
      by_cases hpair : d = ']' ∧ last = '['
      · rw [if_pos (closesMarker_iff.mpr hpair)]
        obtain ⟨rfl, rfl⟩ := hpair
        have hlength : after.length < fuel := by
          rw [List.length_append, List.length_cons] at hfuel
          omega
        have hnext := ih ']' (passed ++ front ++ ['[']) hlength
        rw [byteLength_append _ [']'], List.append_assoc _ [']']] at hnext
        exact hnext
      · rw [if_neg (mt closesMarker_iff.mp hpair), nameEnd?_ends (by simpa using hd) hpair]
        rfl

/-! ## Slices of a call -/

theorem slice?_ahead {c : Cursor} (h : c.OnBoundary) (skipped : List Char)
    {piece after : List Char} (hrest : c.rest = skipped ++ (piece ++ after)) :
    slice? c.text (c.pos + byteLength skipped) (c.pos + byteLength skipped + byteLength piece) =
      some piece := by
  obtain ⟨passed, htext, hpos⟩ := h
  have hslice := slice?_append (passed ++ skipped) piece after
  rwa [byteLength_append, hpos, List.append_assoc, ← hrest, ← htext] at hslice

/-- The slices that a call takes, each at the offsets at which it is taken. Wherever the
cursor moves to, the rest of the text is one of them. -/
structure Call.InBounds (text : List Char) (c : Call) (s : State) : Prop where
  rest : ∀ commands, slice? text (s.cursor.run commands).pos (byteLength text) =
    some (s.cursor.run commands).rest
  name : ∀ stop, c = .name stop → ∃ region, slice? text s.cursor.pos stop = some region ∧
    ∀ token, token = (segments region).getLastD [] → token.head? = some '!' →
      let reference := stripByRef (withoutMarkers (stripByRef token))
      slice? reference 1 (byteLength reference) = some (reference.drop 1)
  arity : c = .arity →
    let count := ((encode (s.cursor.rest.drop 1)).takeWhile isDigitByte).length
    slice? text (s.cursor.pos + 1) (s.cursor.pos + 1 + count) =
      some ((s.cursor.rest.drop 1).takeWhile Char.isDigit)
  nested : ∀ base declared context t stop u, c = .tail base declared context →
    s.cursor.peek = '.' → advance s = .ok () t → expectAny ['\x60', '[', '<'] t = .ok stop u →
      ∃ names, slice? text t.cursor.pos stop = some names
  element : c = .element → ∀ fuel, s.cursor.rest.length ≤ fuel →
    scanNameEnd text fuel (s.cursor.pos + 1) =
      some (nameEnd? '[' (s.cursor.pos + 1) (s.cursor.rest.drop 1))

theorem Ready.inBounds {text : List Char} {c : Call} {s : State} (h : Ready text c s) :
    c.InBounds text s := by
  obtain ⟨⟨rfl, hboundary, -⟩, hplaced⟩ := h
  obtain ⟨passed, htext, hpos⟩ := id hboundary
  constructor
  · intro commands
    obtain ⟨moved, hmoved, hoffset⟩ := s.cursor.run_onBoundary commands hboundary
    rw [← s.cursor.run_text commands, hmoved, ← hoffset]
    exact slice?_behind moved _
  · rintro stop rfl
    obtain ⟨taken, after, hrest, rfl⟩ := hplaced
    refine ⟨taken, slice?_ahead hboundary [] hrest, fun token _ hmark => ?_⟩
    exact slice?_reference (head?_reference hmark)
  · rintro rfl
    obtain ⟨after, hrest⟩ := hplaced
    have hdigits : byteLength (after.takeWhile Char.isDigit) =
        (after.takeWhile Char.isDigit).length :=
      byteLength_digits fun c hc => List.all_eq_true.mp List.all_takeWhile c hc
    have hsplit : s.cursor.rest =
        ['\x60'] ++ (after.takeWhile Char.isDigit ++ after.dropWhile Char.isDigit) := by
      rw [hrest, List.takeWhile_append_dropWhile]
      rfl
    have hslice := slice?_ahead hboundary _ hsplit
    rw [hdigits] at hslice
    rw [hrest, length_digitBytes]
    exact hslice
  · rintro base declared context t stop u rfl - hdot hstop
    obtain ⟨x, hpass⟩ := advance_ok_iff.mp hdot
    obtain ⟨-, taken, d, after, hrest, -, -, rfl⟩ := expectAny_eq_ok hstop
    have htext : t.cursor.text = s.cursor.text := by rw [hpass.state]; rfl
    have hslice := slice?_ahead (hpass.onBoundary hboundary) [] hrest
    exact ⟨taken, htext ▸ hslice⟩
  · rintro rfl fuel hfuel
    obtain ⟨after, hrest⟩ := hplaced
    rw [hrest, List.length_cons] at hfuel
    have hscan := scanNameEnd_eq '[' passed hfuel
    rw [hrest] at htext
    rw [byteLength_append, hpos, List.append_assoc] at hscan
    rw [htext, hrest]
    exact hscan

end Grammar

open Grammar

theorem readClosed_not_defensive {o : ReadOptions} {name closed : List Char} {truncated : Bool}
    {e : ParseError} (h : readClosed o name closed truncated = .error e) :
    e.cause.isDefensive = false := by
  have hwhole := wholeName_orderly (σ := o.settings truncated)
    (s := .atStart closed o.containing) rfl rfl rfl
  rw [readClosed_eq] at h
  cases hrun : wholeName (o.settings truncated) (.atStart closed o.containing) with
  | ok t s =>
    rw [hrun] at h
    dsimp only at h
    split at h
    · cases h
      rfl
    · cases h
  | error refusal s =>
    rw [hrun] at h
    cases h
    exact (hwhole.of_error hrun).cause

theorem readName_not_defensive {o : ReadOptions} {name : String} {e : ParseError}
    (h : readName o name = .error e) : e.cause.isDefensive = false := by
  rw [readName, readText] at h
  split at h
  · cases h
    rfl
  · split at h
    · cases h
      rfl
    · cases hclose : closeTruncated name.toList with
      | error refusal =>
        rw [hclose] at h
        cases h
        rw [closeTruncated_eq_error hclose]
        rfl
      | ok closing =>
        rw [hclose] at h
        exact readClosed_not_defensive h

/-- No reading of a name, in any scope or mode, is refused for a misplaced cursor, and
every slice that is taken lies in bounds: the one at which a text that is too long is cut,
and those of each call that the text leads to. -/
theorem readName_in_bounds (o : ReadOptions) (name : String) :
    (∀ e, readName o name = .error e → e.cause.isDefensive = false) ∧
    (∀ cut, lastOffset? "],[".toList name.toList = some cut →
      ∃ front, slice? name.toList 0 (cut + 1) = some front ∧
        (byteLength name.toList = truncatedLength → '\x60' ∈ name.toList →
          closeTruncated name.toList = .ok (front ++ [']'], true))) ∧
    ∀ closed truncated c s, closeTruncated name.toList = .ok (closed, truncated) →
      Reached (o.settings truncated) closed o.containing c s →
        c.InBounds closed s ∧
          ∀ e t, c.run (o.settings truncated) s = .error e t → e.cause.isDefensive = false := by
  refine ⟨fun e => readName_not_defensive, fun cut => closeTruncated_slice, ?_⟩
  intro closed truncated c s _ hreached
  have hready := hreached.ready
  have horderly : Orderly s (c.run (o.settings truncated)) _ := Call.orderly hready.placed
  exact ⟨hready.inBounds, fun e t hrun => (horderly.of_error hrun).cause⟩

theorem readName_in_bounds_reference :
    let o : ReadOptions := { known := fun _ => false }
    let text := "é.!0&".toList
    closeTruncated text = .ok (text, false) ∧
      Reached (o.settings false) text none (.name 6) (.atStart text none) ∧
      (Call.name 6).InBounds text (.atStart text none) := by
  intro o text
  have hclosed : closeTruncated "é.!0&".toList = .ok (text, false) := rfl
  have hreached : Reached (o.settings false) text none (.name 6) (.atStart text none) :=
    .unmarked rfl
  exact ⟨hclosed, hreached,
    ((readName_in_bounds o "é.!0&").2.2 text false (.name 6) _ hclosed hreached).1⟩

end ClrNames
