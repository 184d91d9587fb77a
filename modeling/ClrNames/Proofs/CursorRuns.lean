import ClrNames.Cursor.Command
import ClrNames.Proofs.Passage

/-!
# Runs of a cursor

Whatever commands a cursor is given, it stands behind a piece of its text, and
what it has left to read is the rest of that text. Commands that fail leave no
trace, and a search finds the first candidate there is.
-/

set_option autoImplicit false

namespace ClrNames.Text

theorem eq_nil_of_byteLength {cs : List Char} (h : byteLength cs = 0) : cs = [] := by
  have hlength := length_le_byteLength cs
  exact List.length_eq_zero_iff.mp (by omega)

/-- Of two beginnings of a text the one with fewer bytes begins the other. -/
theorem append_eq_append_of_le {xs ys before after : List Char} (h : xs ++ ys = before ++ after)
    (hle : byteLength xs ≤ byteLength before) :
    ∃ mid, before = xs ++ mid ∧ ys = mid ++ after := by
  rcases List.append_eq_append_iff.mp h with ⟨mid, hbefore, hys⟩ | ⟨mid, hxs, hafter⟩
  · exact ⟨mid, hbefore, hys⟩
  · rw [hxs, byteLength_append] at hle
    obtain rfl : mid = [] := eq_nil_of_byteLength (by omega)
    exact ⟨[], by simp [hxs], by simp [hafter]⟩

end ClrNames.Text

namespace ClrNames.Cursor
open Text

structure Behind (c : Cursor) (passed : List Char) : Prop where
  text : c.text = passed ++ c.rest
  pos : byteLength passed = c.pos

def OnBoundary (c : Cursor) : Prop := ∃ passed, c.Behind passed

variable {c : Cursor} {passed : List Char}

theorem Behind.tailAt?_eq_some_iff (h : c.Behind passed) (offset : Nat) (tail : List Char) :
    c.tailAt? offset = some tail ↔
      ∃ before, c.text = before ++ tail ∧ byteLength before = offset := by
  unfold tailAt?
  split
  next hle =>
    simp only [Option.map_eq_some_iff, Prod.exists, splitBytes?_eq_some_iff]
    constructor
    · rintro ⟨mid, _, ⟨hrest, hmid⟩, rfl⟩
      refine ⟨passed ++ mid, by rw [h.text, hrest, List.append_assoc], ?_⟩
      rw [byteLength_append, h.pos, hmid]
      omega
    · rintro ⟨before, htext, rfl⟩
      rw [h.text] at htext
      obtain ⟨mid, rfl, hrest⟩ := append_eq_append_of_le htext (h.pos ▸ hle)
      refine ⟨mid, tail, ⟨hrest, ?_⟩, rfl⟩
      rw [byteLength_append, h.pos, Nat.add_sub_cancel_left]
  next =>
    simp only [Option.map_eq_some_iff, Prod.exists, splitBytes?_eq_some_iff]
    exact ⟨fun ⟨before, _, hsplit, htail⟩ => ⟨before, htail ▸ hsplit⟩,
      fun ⟨before, hsplit⟩ => ⟨before, tail, hsplit, rfl⟩⟩

theorem Behind.charAt_eq (h : c.Behind passed) {before after : List Char} {x : Char}
    (htext : c.text = before ++ x :: after) : c.charAt (byteLength before) = x := by
  have htail := (h.tailAt?_eq_some_iff (byteLength before) (x :: after)).mpr ⟨before, htext, rfl⟩
  rw [charAt, htail]
  rfl

/-! ## What one command keeps -/

/-- A move to an absolute offset succeeds on the boundaries of characters. -/
theorem Behind.seek_eq_ok_iff (h : c.Behind passed) (offset : Nat) (moved : Cursor) :
    c.seek offset = .ok moved ↔ ∃ before tail, c.text = before ++ tail ∧
      byteLength before = offset ∧ moved = { c with pos := offset, rest := tail } := by
  unfold seek
  cases htail : c.tailAt? offset with
  | some tail =>
    obtain ⟨before, htext, hlength⟩ := (h.tailAt?_eq_some_iff offset tail).mp htail
    constructor
    · rintro ⟨⟩
      exact ⟨before, tail, htext, hlength, rfl⟩
    · rintro ⟨before', tail', htext', hlength', rfl⟩
      rw [(h.tailAt?_eq_some_iff offset tail').mpr ⟨before', htext', hlength'⟩] at htail
      cases htail
      rfl
  | none =>
    refine iff_of_false nofun ?_
    rintro ⟨before, tail, htext, hlength, -⟩
    rw [(h.tailAt?_eq_some_iff offset tail).mpr ⟨before, htext, hlength⟩] at htail
    cases htail

theorem seek_onBoundary (h : c.OnBoundary) {offset : Nat} {moved : Cursor}
    (hmove : c.seek offset = .ok moved) : moved.OnBoundary := by
  obtain ⟨passed, hpassed⟩ := h
  obtain ⟨before, tail, htext, hlength, rfl⟩ := (hpassed.seek_eq_ok_iff offset moved).mp hmove
  exact ⟨before, htext, hlength⟩

theorem advance_eq_ok {moved : Cursor} (h : c.advance = .ok moved) :
    ∃ offset, c.seek offset = .ok moved := by
  unfold advance at h
  split at h
  · exact ⟨_, h⟩
  · cases h

theorem advance_onBoundary (h : c.OnBoundary) {moved : Cursor} (hmove : c.advance = .ok moved) :
    moved.OnBoundary :=
  (advance_eq_ok hmove).elim fun _ hseek => seek_onBoundary h hseek

theorem eat_onBoundary (h : c.OnBoundary) (token : List Char) : (c.eat token).1.OnBoundary := by
  obtain ⟨passed, htext, hpos⟩ := h
  unfold eat
  split
  next hprefix =>
    obtain ⟨after, hafter⟩ := List.isPrefixOf_iff_prefix.mp hprefix
    refine ⟨passed ++ token, ?_, by simp [hpos]⟩
    simp [htext, ← hafter]
  next => exact ⟨passed, htext, hpos⟩

theorem skipSpaces_onBoundary (h : c.OnBoundary) : c.skipSpaces.OnBoundary := by
  obtain ⟨passed, htext, hpos⟩ := h
  refine ⟨passed ++ c.rest.takeWhile (· == ' '), ?_, ?_⟩
  · rw [skipSpaces, List.append_assoc, List.takeWhile_append_dropWhile]
    exact htext
  · rw [byteLength_append, hpos, byteLength_spaces]
    rfl

theorem step_onBoundary (h : c.OnBoundary) (command : Command) :
    (c.step command).1.OnBoundary := by
  have hmove {move : Except ParseError Cursor}
      (hok : ∀ moved, move = .ok moved → moved.OnBoundary) :
      (c.afterMove move).1.OnBoundary := by
    cases move with
    | ok moved => exact hok moved rfl
    | error e => exact h
  cases command with
  | seek offset => exact hmove fun _ hok => seek_onBoundary h hok
  | advance => exact hmove fun _ hok => advance_onBoundary h hok
  | eat token => exact eat_onBoundary h token
  | skipSpaces => exact skipSpaces_onBoundary h
  | expectAny candidates =>
    simp only [step]
    split <;> exact h
  | swapInProgress scope =>
    obtain ⟨passed, htext, hpos⟩ := h
    exact ⟨passed, htext, hpos⟩
  | peek | charAt | findAny | length | containing | inProgress => exact h

def Moved (c d : Cursor) : Prop := ∃ pos rest, d = { c with pos, rest }

theorem moved_refl (c : Cursor) : Moved c c := ⟨c.pos, c.rest, rfl⟩

theorem seek_moved {offset : Nat} {moved : Cursor} (h : c.seek offset = .ok moved) :
    Moved c moved := by
  unfold seek at h
  split at h
  · cases h
    exact ⟨_, _, rfl⟩
  · cases h

theorem advance_moved {moved : Cursor} (h : c.advance = .ok moved) : Moved c moved :=
  (advance_eq_ok h).elim fun _ hseek => seek_moved hseek

theorem eat_moved (c : Cursor) (token : List Char) : Moved c (c.eat token).1 := by
  unfold eat
  split
  · exact ⟨_, _, rfl⟩
  · exact moved_refl c

theorem step_moved (c : Cursor) (command : Command)
    (hswap : ∀ scope, command ≠ .swapInProgress scope) : Moved c (c.step command).1 := by
  have hmove {move : Except ParseError Cursor} (hok : ∀ moved, move = .ok moved → Moved c moved) :
      Moved c (c.afterMove move).1 := by
    cases move with
    | ok moved => exact hok moved rfl
    | error e => exact moved_refl c
  cases command with
  | seek offset => exact hmove fun _ hok => seek_moved hok
  | advance => exact hmove fun _ hok => advance_moved hok
  | eat token => exact eat_moved c token
  | skipSpaces => exact ⟨_, _, rfl⟩
  | expectAny candidates =>
    simp only [step]
    split <;> exact moved_refl c
  | swapInProgress scope => exact absurd rfl (hswap scope)
  | peek | charAt | findAny | length | containing | inProgress => exact moved_refl c

/-- A command that fails leaves the cursor it found. -/
theorem step_failed (c : Cursor) (command : Command) {e : ParseError}
    (h : (c.step command).2 = .failed e) : (c.step command).1 = c := by
  have hmove {move : Except ParseError Cursor} (hfailed : (c.afterMove move).2 = .failed e) :
      (c.afterMove move).1 = c := by
    cases move with
    | ok moved => cases hfailed
    | error e => rfl
  cases command with
  | seek offset => exact hmove h
  | advance => exact hmove h
  | expectAny candidates =>
    simp only [step] at h ⊢
    split <;> rfl
  | eat | skipSpaces | swapInProgress => cases h
  | peek | charAt | findAny | length | containing | inProgress => rfl

theorem eat_unmatched (c : Cursor) {token : List Char} (h : ¬ token <+: c.rest) :
    c.eat token = (c, false) := by
  rw [eat, startsWith, if_neg (by simpa using h)]

structure Keeps (c : Cursor) (command : Command) : Prop where
  text : (c.step command).1.text = c.text
  containing : (c.step command).1.containing = c.containing
  inProgress : (∀ scope, command ≠ .swapInProgress scope) →
    (c.step command).1.inProgress = c.inProgress
  failed : ∀ e, (c.step command).2 = .failed e → (c.step command).1 = c
  unmatched : ∀ token, command = .eat token → ¬ token <+: c.rest →
    c.step command = (c, .flag false)

theorem step_keeps (c : Cursor) (command : Command) : Keeps c command := by
  have hfailed (e : ParseError) := step_failed c command (e := e)
  by_cases hswap : ∃ scope, command = .swapInProgress scope
  · obtain ⟨scope, rfl⟩ := hswap
    exact ⟨rfl, rfl, fun h => absurd rfl (h scope), hfailed, nofun⟩
  · rw [not_exists] at hswap
    obtain ⟨pos, rest, hmoved⟩ := step_moved c command hswap
    refine ⟨by rw [hmoved], by rw [hmoved], fun _ => by rw [hmoved], hfailed, ?_⟩
    rintro token rfl hother
    rw [step, eat_unmatched c hother]

/-- The scope that was there is answered, and nothing but the scope is another. -/
theorem step_swapInProgress (c : Cursor) (scope : Option TypeName) :
    c.step (.swapInProgress scope) = ({ c with inProgress := scope }, .scope c.inProgress) := rfl

/-! ## Searches -/

structure Finds (c : Cursor) (candidates : List Char) : Prop where
  found : ∀ offset, c.findAny? candidates = some offset →
    c.pos ≤ offset ∧ c.charAt offset ∈ candidates ∧
      ∀ before x after, c.text = before ++ x :: after → c.pos ≤ byteLength before →
        byteLength before < offset → x ∉ candidates
  missing : c.findAny? candidates = none ↔ ∀ x ∈ c.rest, x ∉ candidates

theorem Behind.finds (h : c.Behind passed) (candidates : List Char) : Finds c candidates where
  found offset hfound := by
    obtain ⟨n, hn, rfl⟩ := Option.map_eq_some_iff.mp hfound
    obtain ⟨taken, d, tail, hrest, htaken, hd, rfl⟩ := findOffset?_eq_some _ _ _ hn
    have htext : c.text = (passed ++ taken) ++ d :: tail := by
      rw [h.text, hrest, List.append_assoc]
    have hchar : c.charAt (c.pos + byteLength taken) = d := by
      rw [← h.charAt_eq htext, byteLength_append, h.pos]
    refine ⟨Nat.le_add_right _ _, by rw [hchar]; simpa using hd, ?_⟩
    intro before x after hx hle hlt
    rw [h.text] at hx
    obtain ⟨mid, rfl, hmid⟩ := append_eq_append_of_le hx (h.pos ▸ hle)
    rw [byteLength_append, h.pos] at hlt
    rw [hrest] at hmid
    -- the search stopped behind `mid`, so `x` is one of the characters it passed over
    obtain ⟨more, rfl, hmore⟩ := append_eq_append_of_le hmid.symm (by omega)
    cases more with
    | nil => simp at hlt
    | cons y more =>
      obtain ⟨rfl, -⟩ := List.cons.inj hmore
      simpa using htaken x (by simp)
  missing := by
    simp [findAny?, findOffset?]

/-! ## Runs -/

theorem run_onBoundary (commands : List Command) {c : Cursor} (h : c.OnBoundary) :
    (c.run commands).OnBoundary := by
  induction commands generalizing c with
  | nil => exact h
  | cons command commands ih => exact ih (step_onBoundary h command)

theorem run_text (commands : List Command) (c : Cursor) : (c.run commands).text = c.text := by
  induction commands generalizing c with
  | nil => rfl
  | cons command commands ih => exact (ih _).trans (step_keeps c command).text

theorem run_containing (commands : List Command) (c : Cursor) :
    (c.run commands).containing = c.containing := by
  induction commands generalizing c with
  | nil => rfl
  | cons command commands ih => exact (ih _).trans (step_keeps c command).containing

/-- After any commands a cursor has passed over a piece of its text, so that its offset
lies within the text, on the boundary of a character, with the rest of the text behind.
Text and containing scope are the ones it started with, and whatever command comes next
keeps what it has to keep and finds what there is to find. A scope in progress is set by
its own command alone, which answers the one that was there. -/
theorem run_start (text : List Char) (containing : Option TypeName) (commands : List Command) :
    let c := (start text containing).run commands
    c.text = text ∧ c.containing = containing ∧
      (∃ passed, text = passed ++ c.rest ∧ byteLength passed = c.pos ∧
        splitBytes? c.pos text = some (passed, c.rest)) ∧
      c.pos ≤ c.length ∧ (∀ command, Keeps c command) ∧
      (∀ scope, c.step (.swapInProgress scope) =
        ({ c with inProgress := scope }, .scope c.inProgress)) ∧
      ∀ candidates, Finds c candidates := by
  intro c
  have hstart : (start text containing).OnBoundary := ⟨[], rfl, rfl⟩
  obtain ⟨passed, hpassed⟩ := run_onBoundary commands hstart
  have htext : c.text = text := run_text commands _
  have hsplit : text = passed ++ c.rest := htext ▸ hpassed.text
  have hcut := (splitBytes?_eq_some_iff _ _ _ _).mpr ⟨hsplit, hpassed.pos⟩
  have hle : c.pos ≤ c.length := by
    rw [← hpassed.pos, length, hpassed.text, byteLength_append]
    exact Nat.le_add_right _ _
  exact ⟨htext, run_containing commands _, ⟨passed, hsplit, hpassed.pos, hcut⟩, hle,
    step_keeps c, step_swapInProgress c, hpassed.finds⟩

end ClrNames.Cursor
