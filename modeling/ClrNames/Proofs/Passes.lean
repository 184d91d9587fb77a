import ClrNames.Proofs.DefinitionMode

/-!
# Successful steps

When a primitive of the grammar succeeds, and where that leaves the reading: each is
an equivalence over what stands at the cursor, so that a routine that is built from
them is inverted and run by the same lemmas.
-/

set_option autoImplicit false

namespace ClrNames.Grammar
open Text

structure Passes (s : State) (piece : List Char) (t : State) : Prop where
  rest : s.cursor.rest = piece ++ t.cursor.rest
  state : t = s.pass piece t.cursor.rest

section
variable {s t u : State} {piece more after : List Char}

theorem passes_of (h : s.cursor.rest = piece ++ after) : Passes s piece (s.pass piece after) :=
  ⟨h, rfl⟩

theorem Passes.trans (h : Passes s piece t) (h' : Passes t more u) :
    Passes s (piece ++ more) u where
  rest := by rw [h.rest, h'.rest, List.append_assoc]
  state := by
    have hstate := h'.state
    rw [h.state, State.pass_pass] at hstate
    exact hstate

theorem passes_append :
    Passes s (piece ++ more) u ↔ ∃ t, Passes s piece t ∧ Passes t more u := by
  constructor
  · intro h
    have hrest : s.cursor.rest = piece ++ (more ++ u.cursor.rest) := by
      rw [h.rest, List.append_assoc]
    refine ⟨_, passes_of hrest, rfl, ?_⟩
    rw [State.pass_pass]
    exact h.state
  · rintro ⟨t, h, h'⟩
    exact h.trans h'

theorem Passes.depth (h : Passes s piece t) : t.depth = s.depth := by
  rw [h.state]
  rfl

theorem passes_nil : Passes s [] t ↔ t = s := by
  constructor
  · intro h
    have hstate := h.state
    rw [← List.nil_append t.cursor.rest, ← h.rest, State.pass_nil] at hstate
    exact hstate
  · rintro rfl
    exact ⟨rfl, rfl⟩

theorem Passes.unique (h : Passes s piece t) (h' : Passes s piece u) : t = u := by
  have hrest : t.cursor.rest = u.cursor.rest := List.append_cancel_left (h.rest.symm.trans h'.rest)
  rw [h.state, h'.state, hrest]

theorem Passes.peek {c : Char} (h : Passes s (c :: more) t) : s.cursor.peek = c := by
  rw [Cursor.peek, h.rest]
  rfl

/-- What is passed over behind the first piece. -/
theorem Passes.behind (h : Passes s piece t) (h' : Passes s (piece ++ more) u) :
    Passes t more u := by
  obtain ⟨v, hpiece, hmore⟩ := passes_append.mp h'
  rwa [hpiece.unique h] at hmore

end

section
variable {α β : Type} {p : Reader α} {k : α → Reader β} {s t u : State} {a : α} {b : β}

theorem bind_ok_iff : (p >>= k) s = .ok b u ↔ ∃ a t, p s = .ok a t ∧ k a t = .ok b u := by
  constructor
  · exact bind_eq_ok
  · rintro ⟨a, t, hp, hk⟩
    rw [bind_ok hp, hk]

/-- A step that leads to one state only. -/
theorem step_ok_iff (hp : p s = .ok a t) : (p >>= k) s = .ok b u ↔ k a t = .ok b u := by
  rw [bind_ok hp]

theorem then_pure_iff {f : α → β} :
    (do return f (← p) : Reader β) s = .ok b u ↔ ∃ a, p s = .ok a u ∧ b = f a := by
  rw [bind_ok_iff]
  constructor
  · rintro ⟨a, t, hp, ⟨⟩⟩
    exact ⟨a, hp, rfl⟩
  · rintro ⟨a, hp, rfl⟩
    exact ⟨a, u, hp, rfl⟩

theorem check_ok_iff {ok : Bool} {cause : ParseError.Cause} :
    (check ok cause >>= fun _ => p) s = .ok a t ↔ ok = true ∧ p s = .ok a t := by
  constructor
  · exact check_eq_ok
  · rintro ⟨rfl, h⟩
    exact h

theorem peek_ok (s : State) : peek s = .ok s.cursor.peek s := rfl

theorem advance_ok_iff : advance s = .ok () t ↔ ∃ c, Passes s [c] t := by
  constructor
  · intro h
    cases hrest : s.cursor.rest with
    | nil => cases (advance_end hrest).symm.trans h
    | cons c after =>
      cases (advance_pass hrest).symm.trans h
      exact ⟨c, passes_of hrest⟩
  · rintro ⟨c, h⟩
    rw [h.state]
    exact advance_pass h.rest

theorem eat_ok_iff {token : List Char} {found : Bool} :
    eat token s = .ok found t ↔
      (found = true ∧ Passes s token t) ∨ (found = false ∧ ¬ token <+: s.cursor.rest ∧ t = s) := by
  by_cases htoken : token <+: s.cursor.rest
  · obtain ⟨after, hrest⟩ := htoken
    have hpass := passes_of hrest.symm
    rw [eat_pass hrest.symm]
    constructor
    · rintro ⟨⟩
      exact .inl ⟨rfl, hpass⟩
    · rintro (⟨rfl, h⟩ | ⟨-, hno, -⟩)
      · rw [h.unique hpass]
      · exact absurd ⟨after, hrest⟩ hno
  · rw [eat_other htoken]
    constructor
    · rintro ⟨⟩
      exact .inr ⟨rfl, htoken, rfl⟩
    · rintro (⟨-, h⟩ | ⟨rfl, -, rfl⟩)
      · exact absurd ⟨_, h.rest.symm⟩ htoken
      · rfl

theorem skipSpaces_ok_iff : skipSpaces s = .ok () t ↔
    ∃ count, Passes s (List.replicate count ' ') t ∧ t.cursor.rest.head? ≠ some ' ' := by
  constructor
  · intro h
    cases (skipSpaces_pass s).symm.trans h
    have hsplit := (List.takeWhile_append_dropWhile (p := (· == ' ')) (l := s.cursor.rest)).symm
    have hspaces : s.cursor.rest.takeWhile (· == ' ') =
        List.replicate (s.cursor.rest.takeWhile (· == ' ')).length ' ' :=
      List.eq_replicate_of_mem fun c hc => by
        simpa using List.all_eq_true.mp List.all_takeWhile c hc
    have hpass := passes_of hsplit
    refine ⟨(s.cursor.rest.takeWhile (· == ' ')).length, by rwa [← hspaces], ?_⟩
    intro hhead
    have hnot := List.head?_dropWhile_not (· == ' ') s.cursor.rest
    rw [State.pass_rest] at hhead
    rw [hhead] at hnot
    simp at hnot
  · rintro ⟨count, h, hhead⟩
    rw [skipSpaces_replicate count h.rest hhead, ← h.state]

theorem expectAny_eq_ok {candidates : List Char} {stop : Nat}
    (h : expectAny candidates s = .ok stop t) :
    t = s ∧ ∃ taken d after, s.cursor.rest = taken ++ d :: after ∧
      (∀ c ∈ taken, c ∉ candidates) ∧ d ∈ candidates ∧
      stop = s.cursor.pos + byteLength taken := by
  rcases expectAny_cases candidates s with ⟨taken, d, after, hrest, htaken, hd, hrun⟩ | hrun
  · cases hrun.symm.trans h
    exact ⟨rfl, taken, d, after, hrest, htaken, hd, rfl⟩
  · cases hrun.symm.trans h

/-- A single pair of brackets, or an element, is left behind the next closing one. -/
theorem close_ok_iff {p : Reader α} : (do
      let close ← expectAny [']']
      seek (close + 1)
      p : Reader α) s = .ok a u ↔
    ∃ noise t, ']' ∉ noise ∧ Passes s (noise ++ [']']) t ∧ p t = .ok a u := by
  constructor
  · intro h
    obtain ⟨stop, t, hstop, h⟩ := bind_eq_ok h
    obtain ⟨rfl, noise, d, after, hrest, hnoise, hd, rfl⟩ := expectAny_eq_ok hstop
    obtain rfl : d = ']' := by simpa using hd
    rw [bind_ok (seek_behind hrest rfl)] at h
    exact ⟨noise, _, fun hmem => hnoise _ hmem (by simp), passes_of (by simp [hrest]), h⟩
  · rintro ⟨noise, t, hnoise, hpass, h⟩
    have hrest : s.cursor.rest = noise ++ ']' :: t.cursor.rest := by simp [hpass.rest]
    have hword : ∀ c ∈ noise, c ∉ [']'] := by
      intro c hc
      rw [List.mem_singleton]
      rintro rfl
      exact hnoise hc
    rw [bind_ok (expectAny_pass hrest hword (by simp)), bind_ok (seek_behind hrest rfl),
      ← hpass.state, h]

theorem deeper_ok_iff {α : Type} {p : Reader α} {a : α} : deeper p s = .ok a t ↔
    s.depth < 64 ∧ ∃ u, p { s with depth := s.depth + 1 } = .ok a u ∧
      t = { u with depth := u.depth - 1 } := by
  constructor
  · intro h
    by_cases hdepth : s.depth < maxListDepth
    · cases hrun : p { s with depth := s.depth + 1 } with
      | ok b u =>
        cases (deeper_ok hdepth hrun).symm.trans h
        exact ⟨hdepth, u, rfl, rfl⟩
      | error e u => cases (deeper_error hdepth hrun).symm.trans h
    · cases (deeper_refused p (Nat.le_of_not_lt hdepth)).symm.trans h
  · rintro ⟨hdepth, u, hrun, rfl⟩
    exact deeper_ok hdepth hrun

theorem withOwner_ok_iff {α : Type} {p : Reader α} {a : α} {owner : TypeName} :
    withOwner owner p s = .ok a t ↔ ∃ u, p (s.owned owner) = .ok a u ∧
      t = { u with cursor := { u.cursor with inProgress := s.cursor.inProgress } } := by
  constructor
  · intro h
    cases hrun : p (s.owned owner) with
    | ok b u =>
      cases (withOwner_ok hrun).symm.trans h
      exact ⟨u, rfl, rfl⟩
    | error e u => cases (withOwner_error hrun).symm.trans h
  · rintro ⟨u, hrun, rfl⟩
    exact withOwner_ok hrun

end

end ClrNames.Grammar
