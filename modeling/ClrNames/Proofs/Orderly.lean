import ClrNames.Proofs.Passes

/-!
# Orderly ends

However a routine of the grammar ends, it has passed over a piece of the text, the scopes
are the ones it found, and so is the depth unless the lists nest too deep. `Orderly` says
this of a routine and is kept by sequencing. A refusal that tells of a misplaced cursor is
none of its ends: each routine is called where that cannot happen.
-/

set_option autoImplicit false

namespace ClrNames

/-- The causes that tell of a misplaced cursor, not of the text. -/
def ParseError.Cause.isDefensive : ParseError.Cause → Bool
  | .invalidRange _ _ | .arityMarkerExpected _ | .offsetOutside _ | .endOfText => true
  | _ => false

namespace Grammar
open Text

section
variable {s t : State} {piece : List Char}

theorem Passes.pos_le (h : Passes s piece t) : s.cursor.pos ≤ t.cursor.pos := by
  rw [h.state]
  exact Nat.le_add_right _ _

theorem Passes.length_le (h : Passes s piece t) :
    t.cursor.rest.length ≤ s.cursor.rest.length := by
  rw [h.rest, List.length_append]
  exact Nat.le_add_left _ _

theorem Passes.length_lt (h : Passes s piece t) (hlt : s.cursor.pos < t.cursor.pos) :
    t.cursor.rest.length < s.cursor.rest.length := by
  have hpiece : piece ≠ [] := by
    rintro rfl
    exact absurd (passes_nil.mp h ▸ hlt) (Nat.lt_irrefl _)
  have hlength := List.length_pos_of_ne_nil hpiece
  rw [h.rest, List.length_append]
  omega

theorem Passes.length_advance {x : Char} (h : Passes s [x] t) :
    t.cursor.rest.length < s.cursor.rest.length := by
  rw [h.rest]
  exact Nat.lt_succ_self _

theorem rest_of_peek {c : Char} (hc : c ≠ '\x00') (h : s.cursor.peek = c) :
    ∃ after, s.cursor.rest = c :: after :=
  List.head?_eq_some_iff.mp ((peek_eq_iff hc).mp h)

theorem pos_lt_pass {c : Char} (more after : List Char) :
    s.cursor.pos < (s.pass (c :: more) after).cursor.pos := by
  have hc := c.utf8Size_pos
  rw [State.pass_pos, byteLength_cons]
  omega

end

inductive Ended {α : Type} (s : State) (post : α → State → Prop) :
    EStateM.Result ParseError State α → Prop
  | passed {a : α} {t : State} {piece : List Char} (passes : Passes s piece t)
      (holds : post a t) : Ended s post (.ok a t)
  | refused {e : ParseError} {piece after : List Char} {depth : Nat}
      (split : s.cursor.rest = piece ++ after)
      (kept : depth = s.depth ∨ e.cause = .listsTooDeep ∧ depth = s.depth + 1)
      (cause : e.cause.isDefensive = false) :
      Ended s post (.error e { s.pass piece after with depth })

def Orderly {α : Type} (s : State) (p : Reader α) (post : α → State → Prop) : Prop :=
  Ended s post (p s)

abbrev Anywhere {α : Type} : α → State → Prop := fun _ _ => True

abbrev Further {α : Type} (s : State) : α → State → Prop :=
  fun _ t => s.cursor.pos < t.cursor.pos

section
variable {α β : Type} {p : Reader α} {k : α → Reader β} {q : Reader β} {s t : State} {a : α}
  {piece : List Char} {post : β → State → Prop}

/-! ## Sequencing -/

theorem Ended.behind {r : EStateM.Result ParseError State β} (passes : Passes s piece t)
    (h : Ended t post r) : Ended s post r := by
  cases h with
  | passed more holds => exact .passed (passes.trans more) holds
  | @refused e more after depth split kept cause =>
    have hpass : t.pass more after = s.pass (piece ++ more) after := by
      rw [passes.state, State.pass_pass]
    rw [hpass]
    refine .refused ?_ (passes.depth ▸ kept) cause
    rw [passes.rest, split, List.append_assoc]

theorem Ended.mono {weak : β → State → Prop} {r : EStateM.Result ParseError State β}
    (h : Ended s weak r) (himp : ∀ b t piece, Passes s piece t → weak b t → post b t) :
    Ended s post r := by
  cases h with
  | passed passes holds => exact .passed passes (himp _ _ _ passes holds)
  | refused split kept cause => exact .refused split kept cause

theorem Orderly.mono {weak : β → State → Prop} (h : Orderly s q weak)
    (himp : ∀ b t piece, Passes s piece t → weak b t → post b t) : Orderly s q post :=
  Ended.mono h himp

theorem Orderly.bind {mid : α → State → Prop} (hp : Orderly s p mid)
    (hk : ∀ a t piece, Passes s piece t → mid a t → Orderly t (k a) post) :
    Orderly s (p >>= k) post := by
  unfold Orderly at hp ⊢
  generalize hrun : p s = r at hp
  cases hp with
  | passed passes holds =>
    rw [bind_ok hrun]
    exact (hk _ _ _ passes holds).behind passes
  | refused split kept cause =>
    rw [bind_error hrun]
    exact .refused split kept cause

theorem Orderly.anywhere (h : Orderly s q post) : Orderly s q Anywhere :=
  h.mono fun _ _ _ _ _ => trivial

/-- What has been left behind stays behind. -/
theorem Orderly.further (hlt : s.cursor.pos < t.cursor.pos) (h : Orderly t q Anywhere) :
    Orderly t q (Further s) :=
  h.mono fun _ _ _ passes _ => Nat.lt_of_lt_of_le hlt passes.pos_le

theorem Orderly.of_ok {b : β} (h : Orderly s q post) (hrun : q s = .ok b t) :
    (∃ piece, Passes s piece t) ∧ post b t := by
  unfold Orderly at h
  rw [hrun] at h
  cases h with
  | passed passes holds => exact ⟨⟨_, passes⟩, holds⟩

structure Left (s : State) (e : ParseError) (t : State) : Prop where
  pos_le : s.cursor.pos ≤ t.cursor.pos
  inProgress : t.cursor.inProgress = s.cursor.inProgress
  depth : t.depth = s.depth ∨ e.cause = .listsTooDeep ∧ t.depth = s.depth + 1
  cause : e.cause.isDefensive = false

theorem Orderly.of_error {e : ParseError} (h : Orderly s q post) (hrun : q s = .error e t) :
    Left s e t := by
  unfold Orderly at h
  rw [hrun] at h
  cases h with
  | refused split kept cause => exact ⟨Nat.le_add_right _ _, rfl, kept, cause⟩

/-- A first step whose effect is known. -/
theorem orderly_step (passes : Passes s piece t) (hp : p s = .ok a t)
    (h : Orderly t (k a) post) : Orderly s (p >>= k) post := by
  rw [Orderly, bind_ok hp]
  exact h.behind passes

/-- A first step that does not move. -/
theorem orderly_stay (hp : p s = .ok a s) (h : Orderly s (k a) post) :
    Orderly s (p >>= k) post :=
  orderly_step (passes_nil.mpr rfl) hp h

/-! ## Primitives -/

theorem orderly_pure {b : β} (h : post b s) : Orderly s (pure b) post :=
  .passed (passes_nil.mpr rfl) h

theorem ended_error {e : ParseError} (h : e.cause.isDefensive = false) :
    Ended s post (.error e s) :=
  .refused (List.nil_append s.cursor.rest).symm (.inl rfl) h

theorem orderly_throw {e : ParseError} (h : e.cause.isDefensive = false) :
    Orderly s (throw e) post :=
  ended_error h

theorem orderly_refuse {cause : ParseError.Cause} (h : cause.isDefensive = false) :
    Orderly s (refuse cause) post :=
  ended_error h

theorem orderly_check {ok : Bool} {cause : ParseError.Cause}
    (hcause : cause.isDefensive = false) (h : ok = true → Orderly s q post) :
    Orderly s (check ok cause >>= fun _ => q) post := by
  cases ok with
  | true => exact h rfl
  | false => exact ended_error hcause

theorem orderly_cursor {k : Cursor → Reader β} (h : Orderly s (k s.cursor) post) :
    Orderly s (cursor >>= k) post :=
  orderly_stay (cursor_pass s) h

theorem orderly_peek {k : Char → Reader β} (h : Orderly s (k s.cursor.peek) post) :
    Orderly s (peek >>= k) post :=
  orderly_stay (peek_ok s) h

theorem orderly_advance {c : Char} {after : List Char} (hrest : s.cursor.rest = c :: after)
    (h : Orderly (s.pass [c] after) q post) : Orderly s (advance >>= fun _ => q) post :=
  have split : s.cursor.rest = [c] ++ after := hrest
  orderly_step (passes_of split) (advance_pass hrest) h

theorem orderly_skipSpaces (h : ∀ t piece, Passes s piece t → Orderly t q post) :
    Orderly s (skipSpaces >>= fun _ => q) post := by
  have hsplit := List.takeWhile_append_dropWhile (p := (· == ' ')) (l := s.cursor.rest)
  have hpasses := passes_of hsplit.symm
  exact orderly_step hpasses (skipSpaces_pass s) (h _ _ hpasses)

theorem orderly_eat (token : List Char) {k : Bool → Reader β}
    (hate : ∀ t, Passes s token t → Orderly t (k true) post)
    (hother : ¬ token <+: s.cursor.rest → Orderly s (k false) post) :
    Orderly s (eat token >>= k) post := by
  by_cases htoken : token <+: s.cursor.rest
  · obtain ⟨after, hrest⟩ := htoken
    have hpasses := passes_of hrest.symm
    exact orderly_step hpasses (eat_pass hrest.symm) (hate _ hpasses)
  · exact orderly_stay (eat_other htoken) (hother htoken)

theorem orderly_expectAny (candidates : List Char) {k : Nat → Reader β}
    (h : ∀ taken d after, s.cursor.rest = taken ++ d :: after → (∀ c ∈ taken, c ∉ candidates) →
      d ∈ candidates → Orderly s (k (s.cursor.pos + byteLength taken)) post) :
    Orderly s (expectAny candidates >>= k) post := by
  rcases expectAny_cases candidates s with ⟨taken, d, after, hrest, htaken, hd, hrun⟩ | hrun
  · exact orderly_stay hrun (h taken d after hrest htaken hd)
  · rw [Orderly, bind_error hrun]
    exact ended_error rfl

theorem orderly_seek {taken after : List Char} (split : s.cursor.rest = taken ++ after)
    (h : Orderly (s.pass taken after) q post) :
    Orderly s (seek (s.cursor.pos + byteLength taken) >>= fun _ => q) post :=
  orderly_step (passes_of split) (seek_pass split) h

theorem orderly_region {taken after : List Char} {k : List Char → Reader β}
    (split : s.cursor.rest = taken ++ after) (h : Orderly s (k taken) post) :
    Orderly s (region (s.cursor.pos + byteLength taken) >>= k) post :=
  orderly_stay (region_pass split) h

/-- A move behind the next closing bracket. -/
theorem orderly_close (h : ∀ t, s.cursor.pos < t.cursor.pos → Orderly t q post) :
    Orderly s (do
      let close ← expectAny [']']
      seek (close + 1)
      q) post := by
  apply orderly_expectAny
  intro noise d after hrest _ hd
  obtain rfl : d = ']' := by simpa using hd
  have hpasses : Passes s (noise ++ [']']) (s.pass (noise ++ [']']) after) :=
    passes_of (by simp [hrest])
  refine orderly_step hpasses (seek_behind hrest rfl) (h _ ?_)
  rw [State.pass_pos, byteLength_append, byteLength_cons]
  have hd : ']'.utf8Size = 1 := rfl
  omega

/-- The level that was entered is left again, however the reading of it ends. -/
theorem orderly_deeper
    (h : s.depth < maxListDepth → Orderly { s with depth := s.depth + 1 } q
      fun b t => post b { t with depth := s.depth }) :
    Orderly s (deeper q) post := by
  unfold Orderly at h ⊢
  by_cases hdepth : s.depth < maxListDepth
  · have hrun := h hdepth
    generalize hq : q { s with depth := s.depth + 1 } = r at hrun
    cases hrun with
    | @passed b t piece passes holds =>
      have hlevel : t.depth - 1 = s.depth := by rw [passes.depth, Nat.add_sub_cancel]
      rw [deeper_ok hdepth hq, hlevel]
      refine .passed ⟨passes.rest, ?_⟩ holds
      rw [passes.state]
      rfl
    | @refused e piece after depth split kept cause =>
      rw [deeper_error hdepth hq]
      have hlevel : depth - 1 = s.depth ∨ e.cause = .listsTooDeep ∧ depth - 1 = s.depth + 1 := by
        rcases kept with rfl | ⟨hcause, rfl⟩
        · exact .inl rfl
        · exact .inr ⟨hcause, rfl⟩
      exact .refused split hlevel cause
  · rw [deeper_refused q (Nat.le_of_not_lt hdepth)]
    exact .refused (List.nil_append _).symm (.inr ⟨rfl, rfl⟩) rfl

/-- The type in progress is put back, however the reading of its arguments ends. -/
theorem orderly_withOwner (owner : TypeName)
    (h : Orderly (s.owned owner) q fun b t =>
      post b { t with cursor := { t.cursor with inProgress := s.cursor.inProgress } }) :
    Orderly s (withOwner owner q) post := by
  unfold Orderly at h ⊢
  generalize hq : q (s.owned owner) = r at h
  cases h with
  | @passed b t piece passes holds =>
    rw [withOwner_ok hq]
    refine .passed ⟨passes.rest, ?_⟩ holds
    rw [passes.state]
    rfl
  | refused split kept cause =>
    rw [withOwner_error hq]
    exact .refused split kept cause

end

end Grammar

end ClrNames
