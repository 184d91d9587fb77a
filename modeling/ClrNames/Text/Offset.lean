/-!
# Byte offsets into text

Text is a list of characters, positions in it are counted in UTF-8 bytes.
`splitBytes?` cuts at an offset and answers nothing past the end or inside
a character; `splitBytes?_eq_some_iff` is all that later modules use of it.
-/

set_option autoImplicit false

namespace ClrNames.Text

def byteLength (cs : List Char) : Nat := cs.foldr (fun c n => c.utf8Size + n) 0

@[simp] theorem byteLength_nil : byteLength [] = 0 := rfl

@[simp] theorem byteLength_cons (c : Char) (cs : List Char) :
    byteLength (c :: cs) = c.utf8Size + byteLength cs := rfl

@[simp] theorem byteLength_append (xs ys : List Char) :
    byteLength (xs ++ ys) = byteLength xs + byteLength ys := by
  induction xs with
  | nil => simp
  | cons c xs ih => simp [ih, Nat.add_assoc]

theorem length_le_byteLength (cs : List Char) : cs.length ≤ byteLength cs := by
  induction cs with
  | nil => simp
  | cons c cs ih =>
    have hc := c.utf8Size_pos
    simp only [List.length_cons, byteLength_cons]
    omega

/-- The cut after `n` more bytes, with what is already passed kept reversed. -/
def splitBytesFrom? : Nat → List Char → List Char → Option (List Char × List Char)
  | 0, passed, cs => some (passed.reverse, cs)
  | _ + 1, _, [] => none
  | n + 1, passed, c :: cs =>
    if c.utf8Size ≤ n + 1 then splitBytesFrom? (n + 1 - c.utf8Size) (c :: passed) cs else none
termination_by structural _ _ cs => cs

def splitBytes? (n : Nat) (cs : List Char) : Option (List Char × List Char) :=
  splitBytesFrom? n [] cs

theorem splitBytesFrom?_eq_some_iff (n : Nat) (passed cs before after : List Char) :
    splitBytesFrom? n passed cs = some (before, after) ↔
      ∃ taken, before = passed.reverse ++ taken ∧ cs = taken ++ after ∧ byteLength taken = n := by
  induction cs generalizing n passed with
  | nil =>
    cases n with
    | zero =>
      simp only [splitBytesFrom?, Option.some.injEq, Prod.mk.injEq]
      constructor
      · rintro ⟨rfl, rfl⟩; exact ⟨[], by simp⟩
      · rintro ⟨taken, rfl, h, _⟩
        obtain ⟨rfl, rfl⟩ := List.append_eq_nil_iff.mp h.symm
        simp
    | succ n =>
      simp only [splitBytesFrom?, reduceCtorEq, false_iff]
      rintro ⟨taken, -, h, hlen⟩
      obtain ⟨rfl, rfl⟩ := List.append_eq_nil_iff.mp h.symm
      simp at hlen
  | cons c cs ih =>
    have hc := c.utf8Size_pos
    cases n with
    | zero =>
      simp only [splitBytesFrom?, Option.some.injEq, Prod.mk.injEq]
      constructor
      · rintro ⟨rfl, rfl⟩; exact ⟨[], by simp⟩
      · rintro ⟨taken, rfl, h, hlen⟩
        cases taken with
        | nil => simpa using h
        | cons d taken =>
          have hd := d.utf8Size_pos
          rw [byteLength_cons] at hlen
          omega
    | succ n =>
      simp only [splitBytesFrom?]
      split
      next hle =>
        rw [ih]
        constructor
        · rintro ⟨taken, rfl, rfl, hlen⟩
          exact ⟨c :: taken, by simp, by simp, by rw [byteLength_cons]; omega⟩
        · rintro ⟨taken, rfl, h, hlen⟩
          cases taken with
          | nil => simp at hlen
          | cons d taken =>
            simp only [List.cons_append, List.cons.injEq] at h
            obtain ⟨rfl, rfl⟩ := h
            rw [byteLength_cons] at hlen
            exact ⟨taken, by simp, rfl, by omega⟩
      next hgt =>
        simp only [reduceCtorEq, false_iff]
        rintro ⟨taken, -, h, hlen⟩
        cases taken with
        | nil => simp at hlen
        | cons d taken =>
          simp only [List.cons_append, List.cons.injEq] at h
          obtain ⟨rfl, rfl⟩ := h
          rw [byteLength_cons] at hlen
          omega

theorem splitBytes?_eq_some_iff (n : Nat) (cs before after : List Char) :
    splitBytes? n cs = some (before, after) ↔ cs = before ++ after ∧ byteLength before = n := by
  rw [splitBytes?, splitBytesFrom?_eq_some_iff]
  simp

def findOffset? (wanted : Char → Bool) (cs : List Char) : Option Nat :=
  if cs.any wanted then some (byteLength (cs.takeWhile fun c => !wanted c)) else none

end ClrNames.Text
