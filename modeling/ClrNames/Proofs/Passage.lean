import Mathlib.Data.List.TakeWhile
import ClrNames.Parser

/-!
# Passing over text

Whatever a routine of the grammar does, on success it has passed over a piece
of the text and left the rest, the depth and both scopes as they were. `pass` is
that one effect; each primitive is restated here as a passage, or as a refusal.
-/

set_option autoImplicit false

namespace ClrNames.Text

theorem findOffset?_append (wanted : Char → Bool) (taken after : List Char) (d : Char)
    (ht : ∀ c ∈ taken, wanted c = false) (hd : wanted d = true) :
    findOffset? wanted (taken ++ d :: after) = some (byteLength taken) := by
  have htake : (taken ++ d :: after).takeWhile (fun c => !wanted c) = taken := by
    rw [List.takeWhile_append_of_pos (by simpa using ht)]
    simp [hd]
  rw [findOffset?, htake, if_pos (by simp [hd])]

/-- A search that succeeds splits the text at the first accepted character. -/
theorem findOffset?_eq_some (wanted : Char → Bool) (cs : List Char) (n : Nat)
    (h : findOffset? wanted cs = some n) :
    ∃ taken d after, cs = taken ++ d :: after ∧ (∀ c ∈ taken, wanted c = false) ∧
      wanted d = true ∧ n = byteLength taken := by
  unfold findOffset? at h
  split at h
  next hany =>
    have hsplit := List.takeWhile_append_dropWhile (p := fun c => !wanted c) (l := cs)
    cases hdrop : cs.dropWhile (fun c => !wanted c) with
    | nil =>
      rw [List.dropWhile_eq_nil_iff] at hdrop
      obtain ⟨c, hc, hw⟩ := List.any_eq_true.mp hany
      simpa [hw] using hdrop c hc
    | cons d after =>
      have hd : wanted d = true := by
        have hhead := List.head?_dropWhile_not (fun c => !wanted c) cs
        simpa [hdrop] using hhead
      refine ⟨_, d, after, by rw [← hdrop, hsplit], ?_, hd, by simpa using h.symm⟩
      intro c hc
      simpa using List.all_eq_true.mp (List.all_takeWhile) c hc
  next => simp at h

theorem splitBytes?_append (taken after : List Char) :
    splitBytes? (byteLength taken) (taken ++ after) = some (taken, after) :=
  (splitBytes?_eq_some_iff _ _ _ _).mpr ⟨rfl, rfl⟩

theorem byteLength_replicate_space (n : Nat) : byteLength (List.replicate n ' ') = n := by
  induction n with
  | zero => rfl
  | succ n ih =>
    rw [List.replicate_succ, byteLength_cons, ih]
    have : ' '.utf8Size = 1 := rfl
    omega

theorem byteLength_spaces (cs : List Char) :
    byteLength (cs.takeWhile (· == ' ')) = (cs.takeWhile (· == ' ')).length := by
  have hspaces : cs.takeWhile (· == ' ') =
      List.replicate (cs.takeWhile (· == ' ')).length ' ' :=
    List.eq_replicate_of_mem fun c hc => by
      simpa using List.all_eq_true.mp List.all_takeWhile c hc
  rw [hspaces, byteLength_replicate_space, List.length_replicate]

end ClrNames.Text

namespace ClrNames.Grammar
open Text

namespace State

def pass (s : State) (taken after : List Char) : State :=
  { s with cursor :=
    { s.cursor with pos := s.cursor.pos + byteLength taken, rest := after } }

variable (s : State) (taken after : List Char)

@[simp] theorem pass_rest : (s.pass taken after).cursor.rest = after := rfl

@[simp] theorem pass_pos : (s.pass taken after).cursor.pos = s.cursor.pos + byteLength taken := rfl

@[simp] theorem pass_text : (s.pass taken after).cursor.text = s.cursor.text := rfl

@[simp] theorem pass_depth : (s.pass taken after).depth = s.depth := rfl

@[simp] theorem pass_containing :
    (s.pass taken after).cursor.containing = s.cursor.containing := rfl

@[simp] theorem pass_inProgress :
    (s.pass taken after).cursor.inProgress = s.cursor.inProgress := rfl

@[simp] theorem pass_nil : s.pass [] s.cursor.rest = s := rfl

@[simp] theorem pass_pass (more last : List Char) :
    (s.pass taken after).pass more last = s.pass (taken ++ more) last := by
  simp [pass, Nat.add_assoc]

end State

variable {s : State} {taken after : List Char}

theorem bind_ok {α β : Type} {p : Reader α} {s t : State} {a : α} (h : p s = .ok a t)
    (k : α → Reader β) : (p >>= k) s = k a t := by
  show EStateM.bind p k s = _
  rw [EStateM.bind, h]

theorem bind_error {α β : Type} {p : Reader α} {s t : State} {e : ParseError}
    (h : p s = .error e t) (k : α → Reader β) : (p >>= k) s = .error e t := by
  show EStateM.bind p k s = _
  rw [EStateM.bind, h]

theorem bind_eq_ok {α β : Type} {p : Reader α} {k : α → Reader β} {s u : State} {b : β}
    (h : (p >>= k) s = .ok b u) : ∃ a t, p s = .ok a t ∧ k a t = .ok b u := by
  cases hp : p s with
  | ok a t =>
    rw [bind_ok hp] at h
    exact ⟨a, t, rfl, h⟩
  | error e t =>
    rw [bind_error hp] at h
    cases h

theorem check_pass {ok : Bool} (h : ok = true) (cause : ParseError.Cause) (s : State) :
    check ok cause s = .ok () s := by
  rw [check, if_pos h]
  rfl

theorem check_refused {ok : Bool} (h : ok = false) (cause : ParseError.Cause) (s : State) :
    check ok cause s = .error (s.cursor.refuse cause) s := by
  rw [check, h]
  rfl

theorem cursor_pass (s : State) : cursor s = .ok s.cursor s := rfl

theorem tailAt?_pass (h : s.cursor.rest = taken ++ after) :
    s.cursor.tailAt? (s.cursor.pos + byteLength taken) = some after := by
  rw [Cursor.tailAt?, if_pos (Nat.le_add_right _ _), Nat.add_sub_cancel_left, h,
    splitBytes?_append]
  rfl

theorem charAt_pass {d : Char} (h : s.cursor.rest = taken ++ d :: after) :
    s.cursor.charAt (s.cursor.pos + byteLength taken) = d := by
  rw [Cursor.charAt, tailAt?_pass h]
  rfl

theorem seek_pass (h : s.cursor.rest = taken ++ after) :
    seek (s.cursor.pos + byteLength taken) s = .ok () (s.pass taken after) := by
  simp only [seek, move, Cursor.seek, tailAt?_pass h]
  rfl

theorem seek_behind {d : Char} (h : s.cursor.rest = taken ++ d :: after) (hd : d.utf8Size = 1) :
    seek (s.cursor.pos + byteLength taken + 1) s = .ok () (s.pass (taken ++ [d]) after) := by
  have hlen : s.cursor.pos + byteLength taken + 1 = s.cursor.pos + byteLength (taken ++ [d]) := by
    rw [byteLength_append, byteLength_cons, hd, byteLength_nil]
    omega
  rw [hlen]
  exact seek_pass (by simpa using h)

theorem region_pass (h : s.cursor.rest = taken ++ after) :
    region (s.cursor.pos + byteLength taken) s = .ok taken s := by
  have hslice : s.cursor.sliceTo? (s.cursor.pos + byteLength taken) = some taken := by
    rw [Cursor.sliceTo?, if_pos (Nat.le_add_right _ _), Nat.add_sub_cancel_left, h,
      splitBytes?_append]
    rfl
  rw [region, bind_ok (cursor_pass s), hslice]
  rfl

theorem advance_pass {c : Char} (h : s.cursor.rest = c :: after) :
    advance s = .ok () (s.pass [c] after) := by
  have hseek : advance s = seek (s.cursor.pos + byteLength [c]) s := by
    simp only [advance, move, Cursor.advance, h]
    rfl
  exact hseek.trans (seek_pass h)

theorem advance_end (h : s.cursor.rest = []) :
    advance s = .error (s.cursor.refuse .endOfText) s := by
  simp only [advance, move, Cursor.advance, h]

theorem eat_pass {token : List Char} (h : s.cursor.rest = token ++ after) :
    eat token s = .ok true (s.pass token after) := by
  have hp : token.isPrefixOf s.cursor.rest = true := by simp [h]
  show EStateM.Result.ok (s.cursor.eat token).2 { s with cursor := (s.cursor.eat token).1 } = _
  rw [Cursor.eat, Cursor.startsWith, if_pos hp, h, List.drop_left]
  rfl

theorem eat_other {token : List Char} (h : ¬ token <+: s.cursor.rest) :
    eat token s = .ok false s := by
  have hp : ¬ token.isPrefixOf s.cursor.rest = true := by simpa using h
  show EStateM.Result.ok (s.cursor.eat token).2 { s with cursor := (s.cursor.eat token).1 } = _
  rw [Cursor.eat, Cursor.startsWith, if_neg hp]

theorem skipSpaces_pass (s : State) :
    skipSpaces s = .ok () (s.pass (s.cursor.rest.takeWhile (· == ' '))
      (s.cursor.rest.dropWhile (· == ' '))) := by
  show EStateM.Result.ok () { s with cursor := s.cursor.skipSpaces } = _
  rw [State.pass, byteLength_spaces]
  rfl

theorem expectAny_pass {candidates : List Char} {d : Char}
    (h : s.cursor.rest = taken ++ d :: after) (ht : ∀ c ∈ taken, c ∉ candidates)
    (hd : d ∈ candidates) :
    expectAny candidates s = .ok (s.cursor.pos + byteLength taken) s := by
  have hfind : s.cursor.findAny? candidates = some (s.cursor.pos + byteLength taken) := by
    rw [Cursor.findAny?, h, findOffset?_append _ _ _ _ (by simpa using ht) (by simpa using hd)]
    rfl
  simp only [expectAny, Cursor.expectAny, hfind]

/-- A search ends at the first candidate, or is refused. -/
theorem expectAny_cases (candidates : List Char) (s : State) :
    (∃ taken d after, s.cursor.rest = taken ++ d :: after ∧ (∀ c ∈ taken, c ∉ candidates) ∧
      d ∈ candidates ∧
      expectAny candidates s = .ok (s.cursor.pos + byteLength taken) s) ∨
    expectAny candidates s =
      .error (s.cursor.refuse (.delimiterExpected candidates s.cursor.pos)) s := by
  cases hf : findOffset? candidates.contains s.cursor.rest with
  | none =>
    right
    simp only [expectAny, Cursor.expectAny, Cursor.findAny?, hf, Option.map_none]
  | some n =>
    obtain ⟨taken, d, after, hrest, htaken, hd, rfl⟩ := findOffset?_eq_some _ _ _ hf
    have htaken' : ∀ c ∈ taken, c ∉ candidates := by simpa using htaken
    exact .inl ⟨taken, d, after, hrest, htaken', by simpa using hd,
      expectAny_pass hrest htaken' (by simpa using hd)⟩

theorem deeper_refused {α : Type} (p : Reader α) (hd : maxListDepth ≤ s.depth) :
    deeper p s = .error (s.cursor.refuse .listsTooDeep) { s with depth := s.depth + 1 } := by
  rw [deeper, if_pos hd]

theorem deeper_ok {α : Type} {p : Reader α} {a : α} {t : State} (hd : s.depth < maxListDepth)
    (h : p { s with depth := s.depth + 1 } = .ok a t) :
    deeper p s = .ok a { t with depth := t.depth - 1 } := by
  rw [deeper, if_neg (by omega), h]

theorem deeper_error {α : Type} {p : Reader α} {e : ParseError} {t : State}
    (hd : s.depth < maxListDepth) (h : p { s with depth := s.depth + 1 } = .error e t) :
    deeper p s = .error e { t with depth := t.depth - 1 } := by
  rw [deeper, if_neg (by omega), h]

def State.owned (s : State) (owner : TypeName) : State :=
  { s with cursor := { s.cursor with inProgress := some owner } }

theorem withOwner_ok {α : Type} {p : Reader α} {a : α} {t : State} {owner : TypeName}
    (h : p (s.owned owner) = .ok a t) :
    withOwner owner p s =
      .ok a { t with cursor := { t.cursor with inProgress := s.cursor.inProgress } } := by
  rw [State.owned] at h
  rw [withOwner, Cursor.swapInProgress, h]
  rfl

theorem withOwner_error {α : Type} {p : Reader α} {e : ParseError} {t : State}
    {owner : TypeName} (h : p (s.owned owner) = .error e t) :
    withOwner owner p s =
      .error e { t with cursor := { t.cursor with inProgress := s.cursor.inProgress } } := by
  rw [State.owned] at h
  rw [withOwner, Cursor.swapInProgress, h]
  rfl

end ClrNames.Grammar
