import ClrNames.Proofs.Passage

/-!
# Readings with a limit

`Reads p s fits a t` says all there is to say about `p` at a text that is built
as it should be: where the limits are kept it ends at `t` with `a`, and where
they are not it refuses the text as malformed. Sequencing joins the limits.
-/

set_option autoImplicit false

namespace ClrNames.Grammar

def Reads {α : Type} (p : Reader α) (s : State) (fits : Prop) (a : α) (t : State) : Prop :=
  (fits → p s = .ok a t) ∧ (¬ fits → ∃ e u, p s = .error e u ∧ e.outcome = .malformed)

section
variable {α β : Type} {p : Reader α} {k : α → Reader β} {s t u : State} {a : α} {b : β}
  {F G : Prop}

theorem Reads.of_ok (h : p s = .ok a t) : Reads p s True a t :=
  ⟨fun _ => h, fun hfalse => absurd trivial hfalse⟩

theorem Reads.congr (h : Reads p s F a t) (hiff : F ↔ G) : Reads p s G a t := by
  rwa [propext hiff] at h

theorem Reads.step (hp : p s = .ok a t) (hk : Reads (k a) t F b u) :
    Reads (p >>= k) s F b u := by
  unfold Reads
  rw [bind_ok hp]
  exact hk

theorem Reads.bind (hp : Reads p s F a t) (hk : Reads (k a) t G b u) :
    Reads (p >>= k) s (F ∧ G) b u := by
  by_cases hF : F
  · exact (Reads.step (hp.1 hF) hk).congr (by simp [hF])
  · obtain ⟨e, v, herror, hmalformed⟩ := hp.2 hF
    constructor
    · intro h
      exact absurd h.1 hF
    · intro _
      exact ⟨e, v, bind_error herror k, hmalformed⟩

/-- What follows matters only behind the end of the first step. -/
theorem Reads.bind_eq (hp : Reads p s F a t) {l : α → Reader β} (hk : k a t = l a t) :
    (p >>= k) s = (p >>= l) s := by
  by_cases hF : F
  · rw [bind_ok (hp.1 hF), bind_ok (hp.1 hF), hk]
  · obtain ⟨e, v, herror, -⟩ := hp.2 hF
    rw [bind_error herror, bind_error herror]

theorem Reads.then_ok (hp : Reads p s F a t) (hk : k a t = .ok b u) :
    Reads (p >>= k) s F b u :=
  (hp.bind (Reads.of_ok hk)).congr (by rw [and_true])

theorem Reads.cursor {k : Cursor → Reader β} (hk : Reads (k s.cursor) s F b u) :
    Reads (cursor >>= k) s F b u :=
  Reads.step rfl hk

theorem peek_pass {c : Char} {rest : List Char} (h : s.cursor.rest = c :: rest) :
    Grammar.peek s = .ok c s := by
  have hpeek : s.cursor.peek = c := by rw [Cursor.peek, h, List.headD_cons]
  exact congrArg (EStateM.Result.ok · s) hpeek

theorem Reads.peek {k : Char → Reader β} {c : Char} {rest : List Char}
    (h : s.cursor.rest = c :: rest) (hk : Reads (k c) s F b u) : Reads (peek >>= k) s F b u :=
  Reads.step (peek_pass h) hk

theorem Reads.advance {k : Unit → Reader β} {c : Char} {rest : List Char}
    (h : s.cursor.rest = c :: rest) (hk : Reads (k ()) (s.pass [c] rest) F b u) :
    Reads (advance >>= k) s F b u :=
  Reads.step (advance_pass h) hk

theorem Reads.eat {k : Bool → Reader β} {token rest : List Char}
    (h : s.cursor.rest = token ++ rest) (hk : Reads (k true) (s.pass token rest) F b u) :
    Reads (eat token >>= k) s F b u :=
  Reads.step (eat_pass h) hk

theorem reads_check {ok : Bool} {cause : ParseError.Cause} (s : State) (hiff : ok = true ↔ F)
    (hcause : cause.outcome = .malformed) : Reads (check ok cause) s F () s := by
  constructor
  · intro h
    exact check_pass (hiff.mpr h) cause s
  · intro h
    exact ⟨_, s, check_refused (by simpa using mt hiff.mp h) cause s, hcause⟩

theorem Reads.deeper
    (h : s.depth < 64 → Reads p { s with depth := s.depth + 1 } F a
      { t with depth := t.depth + 1 }) :
    Reads (deeper p) s (s.depth < 64 ∧ F) a t := by
  by_cases hd : s.depth < maxListDepth
  · constructor
    · intro hF
      exact deeper_ok hd ((h hd).1 hF.2)
    · intro hF
      obtain ⟨e, v, herror, hmalformed⟩ := (h hd).2 fun hF' => hF ⟨hd, hF'⟩
      exact ⟨e, _, deeper_error hd herror, hmalformed⟩
  · constructor
    · intro hF
      exact absurd hF.1 hd
    · intro _
      exact ⟨_, _, deeper_refused p (Nat.le_of_not_lt hd), rfl⟩

theorem Reads.withOwner {owner : TypeName} {taken after : List Char}
    (h : Reads p (s.owned owner) F a ((s.owned owner).pass taken after)) :
    Reads (withOwner owner p) s F a (s.pass taken after) := by
  constructor
  · intro hF
    exact withOwner_ok (h.1 hF)
  · intro hF
    obtain ⟨e, v, herror, hmalformed⟩ := h.2 hF
    exact ⟨e, _, withOwner_error herror, hmalformed⟩

end

end ClrNames.Grammar
