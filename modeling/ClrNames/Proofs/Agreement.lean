import ClrNames.Proofs.Passage

/-!
# Two readings of one text

Two runs over the same text may differ in their scopes. `Agree` says that they
pass over the same piece of it and end with related results, or stop with the
same refusal; a refusal that escapes may also stop one of them alone. Agreement
is kept by sequencing, and no primitive of the grammar can tell the runs apart.
-/

set_option autoImplicit false

namespace ClrNames.Grammar
open Text

structure Scopes where
  containing : Option TypeName
  inProgress : Option TypeName

def State.under (s : State) (f : Scopes) : State :=
  { s with cursor := { s.cursor with containing := f.containing, inProgress := f.inProgress } }

inductive Agrees {α β : Type} (escapes : ParseError → Prop) (f g : Scopes) (s : State)
    (post : α → β → State → Prop) :
    EStateM.Result ParseError State α → EStateM.Result ParseError State β → Prop
  | passed {a : α} {b : β} {taken after : List Char} (split : s.cursor.rest = taken ++ after)
      (holds : post a b (s.pass taken after)) :
      Agrees escapes f g s post (.ok a ((s.pass taken after).under f))
        (.ok b ((s.pass taken after).under g))
  | refused {e : ParseError} {u v : State} :
      Agrees escapes f g s post (.error e u) (.error e v)
  | escapedLeft {e : ParseError} {u : State} {r : EStateM.Result ParseError State β}
      (h : escapes e) : Agrees escapes f g s post (.error e u) r
  | escapedRight {e : ParseError} {u : State} {r : EStateM.Result ParseError State α}
      (h : escapes e) : Agrees escapes f g s post r (.error e u)

def Agree {α β : Type} (escapes : ParseError → Prop) (f g : Scopes) (s : State)
    (p : Reader α) (q : Reader β) (post : α → β → State → Prop) : Prop :=
  Agrees escapes f g s post (p (s.under f)) (q (s.under g))

section
variable {α β γ δ : Type} {escapes : ParseError → Prop} {f g : Scopes} {s : State}

theorem Agree.bind {p : Reader α} {q : Reader β} {k : α → Reader γ} {l : β → Reader δ}
    {mid : α → β → State → Prop} {post : γ → δ → State → Prop}
    (hp : Agree escapes f g s p q mid)
    (hk : ∀ a b taken after, s.cursor.rest = taken ++ after → mid a b (s.pass taken after) →
      Agree escapes f g (s.pass taken after) (k a) (l b) post) :
    Agree escapes f g s (p >>= k) (q >>= l) post := by
  unfold Agree at hp ⊢
  generalize hr : p (s.under f) = r at hp
  generalize hr' : q (s.under g) = r' at hp
  cases hp with
  | @passed a b taken after split holds =>
    rw [bind_ok hr, bind_ok hr']
    have hrun := hk a b taken after split holds
    unfold Agree at hrun
    generalize k a ((s.pass taken after).under f) = t at hrun
    generalize l b ((s.pass taken after).under g) = t' at hrun
    cases hrun with
    | @passed c d more last split' holds' =>
      rw [State.pass_rest] at split'
      rw [State.pass_pass] at holds' ⊢
      exact .passed (by rw [split, split', List.append_assoc]) holds'
    | refused => exact .refused
    | escapedLeft h => exact .escapedLeft h
    | escapedRight h => exact .escapedRight h
  | refused =>
    rw [bind_error hr, bind_error hr']
    exact .refused
  | escapedLeft h =>
    rw [bind_error hr]
    exact .escapedLeft h
  | escapedRight h =>
    rw [bind_error hr']
    exact .escapedRight h

/-- A first step whose effect is known on both sides. -/
theorem Agree.step {p : Reader α} {q : Reader β} {k : α → Reader γ} {l : β → Reader δ}
    {post : γ → δ → State → Prop} {a : α} {b : β} {taken after : List Char}
    (split : s.cursor.rest = taken ++ after)
    (hp : p (s.under f) = .ok a ((s.pass taken after).under f))
    (hq : q (s.under g) = .ok b ((s.pass taken after).under g))
    (h : Agree escapes f g (s.pass taken after) (k a) (l b) post) :
    Agree escapes f g s (p >>= k) (q >>= l) post := by
  have hfirst : Agree escapes f g s p q fun a' b' t =>
      a' = a ∧ b' = b ∧ t = s.pass taken after := by
    rw [Agree, hp, hq]
    exact .passed split ⟨rfl, rfl, rfl⟩
  apply hfirst.bind
  rintro a' b' taken' after' - ⟨rfl, rfl, ht⟩
  rw [ht]
  exact h

/-- A first step that moves neither run. -/
theorem Agree.stay {p : Reader α} {q : Reader β} {k : α → Reader γ} {l : β → Reader δ}
    {post : γ → δ → State → Prop} {a : α} {b : β} (hp : p (s.under f) = .ok a (s.under f))
    (hq : q (s.under g) = .ok b (s.under g)) (h : Agree escapes f g s (k a) (l b) post) :
    Agree escapes f g s (p >>= k) (q >>= l) post :=
  Agree.step (List.nil_append _).symm hp hq h

theorem Agree.mono {p : Reader α} {q : Reader β} {weak post : α → β → State → Prop}
    (hp : Agree escapes f g s p q weak)
    (h : ∀ a b taken after, s.cursor.rest = taken ++ after → weak a b (s.pass taken after) →
      post a b (s.pass taken after)) :
    Agree escapes f g s p q post := by
  unfold Agree at hp ⊢
  generalize p (s.under f) = r at hp
  generalize q (s.under g) = r' at hp
  cases hp with
  | passed split holds => exact .passed split (h _ _ _ _ split holds)
  | refused => exact .refused
  | escapedLeft h => exact .escapedLeft h
  | escapedRight h => exact .escapedRight h

theorem agree_pure {a : α} {b : β} {post : α → β → State → Prop} (h : post a b s) :
    Agree escapes f g s (pure a) (pure b) post :=
  Agrees.passed (List.nil_append s.cursor.rest).symm h

theorem agree_refuse {post : α → β → State → Prop} (cause : ParseError.Cause) :
    Agree escapes f g s (refuse cause) (refuse cause) post :=
  .refused

theorem agree_throw {post : α → β → State → Prop} (e : ParseError) :
    Agree escapes f g s (throw e) (throw e) post :=
  .refused

theorem agree_check (ok : Bool) (cause : ParseError.Cause) {p : Reader α} {q : Reader β}
    {post : α → β → State → Prop} (h : ok = true → Agree escapes f g s p q post) :
    Agree escapes f g s (check ok cause >>= fun _ => p) (check ok cause >>= fun _ => q) post := by
  cases ok with
  | true => exact h rfl
  | false => exact .refused

theorem agree_expectAny (candidates : List Char) {k : Nat → Reader α} {l : Nat → Reader β}
    {post : α → β → State → Prop}
    (h : ∀ taken d after, s.cursor.rest = taken ++ d :: after → (∀ c ∈ taken, c ∉ candidates) →
      d ∈ candidates → Agree escapes f g s (k (s.cursor.pos + byteLength taken))
        (l (s.cursor.pos + byteLength taken)) post) :
    Agree escapes f g s (expectAny candidates >>= k) (expectAny candidates >>= l) post := by
  rcases expectAny_cases candidates (s.under f) with ⟨taken, d, after, hrest, ht, hd, hf⟩ | hf
  · have hg : expectAny candidates (s.under g) = .ok (s.cursor.pos + byteLength taken) (s.under g) :=
      expectAny_pass hrest ht hd
    exact Agree.stay hf hg (h taken d after hrest ht hd)
  · rcases expectAny_cases candidates (s.under g) with ⟨taken, d, after, hrest, ht, hd, -⟩ | hg
    · have hok := expectAny_pass (s := s.under f) hrest ht hd
      rw [hf] at hok
      cases hok
    · rw [Agree, bind_error hf, bind_error hg]
      exact .refused

theorem agree_seek {taken after : List Char} (split : s.cursor.rest = taken ++ after)
    {p : Reader α} {q : Reader β} {post : α → β → State → Prop}
    (h : Agree escapes f g (s.pass taken after) p q post) :
    Agree escapes f g s (seek (s.cursor.pos + byteLength taken) >>= fun _ => p)
      (seek (s.cursor.pos + byteLength taken) >>= fun _ => q) post :=
  Agree.step split (seek_pass (s := s.under f) split) (seek_pass (s := s.under g) split) h

theorem agree_seek_behind {taken after : List Char} {d : Char}
    (split : s.cursor.rest = taken ++ d :: after) (hd : d.utf8Size = 1)
    {p : Reader α} {q : Reader β} {post : α → β → State → Prop}
    (h : Agree escapes f g (s.pass (taken ++ [d]) after) p q post) :
    Agree escapes f g s (seek (s.cursor.pos + byteLength taken + 1) >>= fun _ => p)
      (seek (s.cursor.pos + byteLength taken + 1) >>= fun _ => q) post :=
  Agree.step (by simpa using split) (seek_behind (s := s.under f) split hd)
    (seek_behind (s := s.under g) split hd) h

theorem agree_region {taken after : List Char} (split : s.cursor.rest = taken ++ after)
    {k : List Char → Reader α} {l : List Char → Reader β} {post : α → β → State → Prop}
    (h : Agree escapes f g s (k taken) (l taken) post) :
    Agree escapes f g s (region (s.cursor.pos + byteLength taken) >>= k)
      (region (s.cursor.pos + byteLength taken) >>= l) post :=
  Agree.stay (region_pass (s := s.under f) split)
    (region_pass (s := s.under g) split) h

theorem agree_advance {p : Reader α} {q : Reader β} {post : α → β → State → Prop}
    (h : ∀ c after, s.cursor.rest = c :: after →
      Agree escapes f g (s.pass [c] after) p q post) :
    Agree escapes f g s (advance >>= fun _ => p) (advance >>= fun _ => q) post := by
  cases hrest : s.cursor.rest with
  | nil =>
    rw [Agree, bind_error (advance_end (s := s.under f) hrest),
      bind_error (advance_end (s := s.under g) hrest)]
    exact .refused
  | cons c after =>
    have split : s.cursor.rest = [c] ++ after := hrest
    exact Agree.step split (advance_pass (s := s.under f) hrest)
      (advance_pass (s := s.under g) hrest) (h c after hrest)

theorem agree_eat (token : List Char) {k : Bool → Reader α} {l : Bool → Reader β}
    {post : α → β → State → Prop}
    (hate : ∀ after, s.cursor.rest = token ++ after →
      Agree escapes f g (s.pass token after) (k true) (l true) post)
    (hother : ¬ token <+: s.cursor.rest → Agree escapes f g s (k false) (l false) post) :
    Agree escapes f g s (eat token >>= k) (eat token >>= l) post := by
  by_cases hp : token <+: s.cursor.rest
  · obtain ⟨after, hrest⟩ := hp
    exact Agree.step hrest.symm (eat_pass (s := s.under f) hrest.symm)
      (eat_pass (s := s.under g) hrest.symm) (hate after hrest.symm)
  · exact Agree.stay (eat_other (s := s.under f) hp)
      (eat_other (s := s.under g) hp) (hother hp)

theorem agree_skipSpaces {p : Reader α} {q : Reader β} {post : α → β → State → Prop}
    (h : ∀ spaces after, s.cursor.rest = spaces ++ after →
      Agree escapes f g (s.pass spaces after) p q post) :
    Agree escapes f g s (skipSpaces >>= fun _ => p) (skipSpaces >>= fun _ => q) post :=
  have split := (List.takeWhile_append_dropWhile (p := (· == ' ')) (l := s.cursor.rest)).symm
  Agree.step split (skipSpaces_pass (s.under f)) (skipSpaces_pass (s.under g)) (h _ _ split)

theorem agree_peek {k : Char → Reader α} {l : Char → Reader β} {post : α → β → State → Prop}
    (h : Agree escapes f g s (k s.cursor.peek) (l s.cursor.peek) post) :
    Agree escapes f g s (peek >>= k) (peek >>= l) post :=
  Agree.stay rfl rfl h

theorem agree_cursor {k : Cursor → Reader α} {l : Cursor → Reader β}
    {post : α → β → State → Prop}
    (h : Agree escapes f g s (k (s.under f).cursor) (l (s.under g).cursor) post) :
    Agree escapes f g s (cursor >>= k) (cursor >>= l) post :=
  Agree.stay rfl rfl h

theorem agree_deeper {p : Reader α} {q : Reader β} {post : α → β → State → Prop}
    (h : s.depth < maxListDepth → Agree escapes f g { s with depth := s.depth + 1 } p q
      fun a b t => post a b { t with depth := s.depth }) :
    Agree escapes f g s (deeper p) (deeper q) post := by
  unfold Agree at h ⊢
  by_cases hd : s.depth < maxListDepth
  · have hrun := h hd
    generalize hr : p (State.under { s with depth := s.depth + 1 } f) = r at hrun
    generalize hr' : q (State.under { s with depth := s.depth + 1 } g) = r' at hrun
    cases hrun with
    | passed split holds =>
      rw [deeper_ok (s := s.under f) hd hr, deeper_ok (s := s.under g) hd hr']
      exact .passed split holds
    | refused =>
      rw [deeper_error (s := s.under f) hd hr, deeper_error (s := s.under g) hd hr']
      exact .refused
    | escapedLeft h =>
      rw [deeper_error (s := s.under f) hd hr]
      exact .escapedLeft h
    | escapedRight h =>
      rw [deeper_error (s := s.under g) hd hr']
      exact .escapedRight h
  · rw [deeper_refused (s := s.under f) p (Nat.le_of_not_lt hd),
      deeper_refused (s := s.under g) q (Nat.le_of_not_lt hd)]
    exact .refused

theorem agree_withOwner (a b : TypeName) {p : Reader α} {q : Reader β}
    {post : α → β → State → Prop}
    (h : Agree escapes { f with inProgress := some a } { g with inProgress := some b } s p q
      post) :
    Agree escapes f g s (withOwner a p) (withOwner b q) post := by
  unfold Agree at h ⊢
  generalize hr : p (s.under { f with inProgress := some a }) = r at h
  generalize hr' : q (s.under { g with inProgress := some b }) = r' at h
  cases h with
  | passed split holds =>
    rw [withOwner_ok (s := s.under f) hr, withOwner_ok (s := s.under g) hr']
    exact .passed split holds
  | refused =>
    rw [withOwner_error (s := s.under f) hr, withOwner_error (s := s.under g) hr']
    exact .refused
  | escapedLeft h =>
    rw [withOwner_error (s := s.under f) hr]
    exact .escapedLeft h
  | escapedRight h =>
    rw [withOwner_error (s := s.under g) hr']
    exact .escapedRight h

end

end ClrNames.Grammar
