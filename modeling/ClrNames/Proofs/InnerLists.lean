import ClrNames.Proofs.Simulation

/-!
# Lists inside of lists

The mode that refuses instantiations is looked at only at the root of a name.
`Alike` and `Tolerant` carry this through one level of either list syntax: the
lists inside an argument read the same in both modes, and none of them refuses
its text for being an instantiation.
-/

set_option autoImplicit false

namespace ClrNames.Grammar

def Settings.inMode (σ : Settings) (definitionsOnly : Bool) : Settings := { σ with definitionsOnly }

def Alike (L M : ListReader) : Prop :=
  ∀ owner declared context, context ≠ .root → L owner declared context = M owner declared context

section
variable {L M : ListReader} {context : ListContext} (h : Alike L M) (σ : Settings) (mode : Bool)
include h

theorem Alike.genericSuffix (hcontext : context ≠ .root) (base : TypeName) :
    genericSuffix L base context = genericSuffix M base context := by
  unfold Grammar.genericSuffix genericTail nestedInGeneric
  simp only [h _ _ _ hcontext]

theorem Alike.element : element (σ.inMode mode) L = element σ M := by
  unfold Grammar.element
  have hsuffix := h.genericSuffix (show ListContext.bracketed ≠ .root by decide)
  simp only [hsuffix]
  rfl

theorem Alike.elements (fuel : Nat) : elements (σ.inMode mode) L fuel = elements σ M fuel := by
  induction fuel with
  | zero => rfl
  | succ fuel ih => rw [Grammar.elements, Grammar.elements, h.element, ih]

theorem Alike.plainArgument : plainArgument (σ.inMode mode) L = plainArgument σ M := by
  unfold Grammar.plainArgument
  have hsuffix := h.genericSuffix (show ListContext.plain ≠ .root by decide)
  simp only [hsuffix]
  rfl

theorem Alike.plainArguments (fuel : Nat) :
    plainArguments (σ.inMode mode) L fuel = plainArguments σ M fuel := by
  induction fuel with
  | zero => rfl
  | succ fuel ih => rw [Grammar.plainArguments, Grammar.plainArguments, h.plainArgument, ih]

theorem Alike.listLevel : Alike (listLevel (σ.inMode mode) L) (listLevel σ M) := by
  intro owner declared context hcontext
  have hroot (b : Prop) : ¬ (context = .root ∧ b) := fun hr => hcontext hr.1
  unfold Grammar.listLevel bracketedList plainList
  simp only [h.elements, h.plainArguments, hroot, if_false]
  rfl

end

theorem argumentLists_alike (σ : Settings) (mode : Bool) (levels : Nat) :
    Alike (argumentLists (σ.inMode mode) levels) (argumentLists σ levels) := by
  induction levels with
  | zero => exact Alike.listLevel (fun _ _ _ _ => rfl) σ mode
  | succ levels ih => exact ih.listLevel σ mode

def Tolerant {α : Type} (p : Reader α) : Prop :=
  ∀ s e t, p s = .error e t → e.cause ≠ .instantiation

section
variable {α β : Type} {p : Reader α} {k : α → Reader β}

theorem bind_eq_error {s t : State} {e : ParseError} (h : (p >>= k) s = .error e t) :
    p s = .error e t ∨ ∃ a u, p s = .ok a u ∧ k a u = .error e t := by
  cases hp : p s with
  | ok a u =>
    rw [bind_ok hp] at h
    exact .inr ⟨a, u, rfl, h⟩
  | error e' u =>
    rw [bind_error hp] at h
    cases h
    exact .inl rfl

theorem Tolerant.bind (hp : Tolerant p) (hk : ∀ a, Tolerant (k a)) : Tolerant (p >>= k) := by
  intro s e t h
  rcases bind_eq_error h with h | ⟨a, u, -, h⟩
  · exact hp s e t h
  · exact hk a u e t h

theorem tolerant_pure (a : α) : Tolerant (pure a : Reader α) := by
  rintro s e t ⟨⟩

theorem tolerant_cursor : Tolerant cursor := by
  rintro s e t ⟨⟩

theorem tolerant_peek : Tolerant peek := by
  rintro s e t ⟨⟩

theorem tolerant_eat (token : List Char) : Tolerant (eat token) := by
  rintro s e t ⟨⟩

theorem tolerant_skipSpaces : Tolerant skipSpaces := by
  rintro s e t ⟨⟩

theorem tolerant_throw {e : ParseError} (h : e.cause ≠ .instantiation) :
    Tolerant (throw e : Reader α) := by
  rintro s _ t ⟨⟩
  exact h

theorem tolerant_refuse {cause : ParseError.Cause} (h : cause ≠ .instantiation) :
    Tolerant (refuse cause : Reader α) := by
  rintro s _ t ⟨⟩
  exact h

theorem tolerant_check (ok : Bool) {cause : ParseError.Cause} (h : cause ≠ .instantiation) :
    Tolerant (check ok cause) := by
  cases ok with
  | true => exact tolerant_pure ()
  | false => exact tolerant_refuse h

theorem tolerant_advance : Tolerant advance := by
  intro s e t h
  cases hrest : s.cursor.rest with
  | nil =>
    rw [advance_end hrest] at h
    cases h
    nofun
  | cons c after =>
    rw [advance_pass hrest] at h
    cases h

theorem tolerant_seek (offset : Nat) : Tolerant (seek offset) := by
  intro s e t h
  simp only [seek, move, Cursor.seek] at h
  split at h
  · cases h
  next heq =>
    split at heq
    · cases heq
    · cases heq
      cases h
      simp [Cursor.refuse]

theorem tolerant_region (stop : Nat) : Tolerant (region stop) := by
  apply tolerant_cursor.bind
  intro c
  split
  · exact tolerant_pure _
  · exact tolerant_refuse nofun

theorem tolerant_expectAny (candidates : List Char) : Tolerant (expectAny candidates) := by
  intro s e t h
  rcases expectAny_cases candidates s with ⟨taken, d, after, -, -, -, hok⟩ | herror
  · rw [hok] at h
    cases h
  · rw [herror] at h
    cases h
    nofun

theorem Tolerant.deeper (hp : Tolerant p) : Tolerant (deeper p) := by
  intro s e t h
  by_cases hd : s.depth < maxListDepth
  · cases hrun : p { s with depth := s.depth + 1 } with
    | ok a u =>
      rw [deeper_ok hd hrun] at h
      cases h
    | error e' u =>
      rw [deeper_error hd hrun] at h
      cases h
      exact hp _ _ _ hrun
  · rw [deeper_refused p (Nat.le_of_not_lt hd)] at h
    cases h
    nofun

theorem Tolerant.withOwner (hp : Tolerant p) (owner : TypeName) : Tolerant (withOwner owner p) := by
  intro s e t h
  cases hrun : p (s.owned owner) with
  | ok a u =>
    rw [withOwner_ok hrun] at h
    cases h
  | error e' u =>
    rw [withOwner_error hrun] at h
    cases h
    exact hp _ _ _ hrun

theorem tolerant_ite {c : Prop} [Decidable c] {q : Reader α} (hp : c → Tolerant p)
    (hq : ¬ c → Tolerant q) : Tolerant (if c then p else q) := by
  split
  next hc => exact hp hc
  next hc => exact hq hc

end

section
variable (σ : Settings)

theorem tolerant_elementNameEnd : Tolerant elementNameEnd := by
  apply tolerant_cursor.bind
  intro c
  split
  · exact tolerant_pure _
  · exact tolerant_refuse nofun

theorem tolerant_backReference (token : List Char) : Tolerant (backReference σ token) := by
  unfold backReference
  dsimp only
  split
  · exact tolerant_throw nofun
  · split
    · exact tolerant_refuse nofun
    · exact tolerant_cursor.bind fun _ => tolerant_pure _

theorem tolerant_simpleName (qualifier : List (List Char)) (simple : List Char) :
    Tolerant (simpleName σ qualifier simple) := by
  unfold simpleName checkNesting
  dsimp only
  split
  · exact tolerant_throw nofun
  · refine (tolerant_check _ (by nofun)).bind ?_
    intro _
    exact (tolerant_check _ (by nofun)).bind fun _ => tolerant_pure _

theorem tolerant_nameOf (text : List Char) : Tolerant (nameOf σ text) := by
  refine (tolerant_check _ (by nofun)).bind ?_
  intro _
  split
  · exact tolerant_backReference σ _
  · exact tolerant_simpleName σ _ _

theorem tolerant_baseName (stop : Nat) : Tolerant (baseName σ stop) := by
  apply (tolerant_region stop).bind
  intro text
  exact (tolerant_seek stop).bind fun _ => tolerant_nameOf σ text

theorem tolerant_arity : Tolerant arity := by
  apply (tolerant_eat _).bind
  intro found
  apply tolerant_cursor.bind
  intro c
  refine (tolerant_check _ (by nofun)).bind ?_
  intro _
  apply tolerant_cursor.bind
  intro c
  refine (tolerant_check _ (by nofun)).bind ?_
  intro _
  apply (tolerant_seek _).bind
  intro _
  exact (tolerant_check _ (by nofun)).bind fun _ => tolerant_pure _

theorem tolerant_arraySuffix (t : TypeName) : Tolerant (arraySuffix t) := by
  apply (tolerant_eat _).bind
  intro isArray
  apply (tolerant_eat _).bind
  intro _
  apply tolerant_cursor.bind
  intro c
  exact (tolerant_check _ (by nofun)).bind fun _ => tolerant_pure _

variable {σ} {L : ListReader} {context : ListContext}

def TolerantIn (context : ListContext) (L : ListReader) : Prop :=
  ∀ owner declared, Tolerant (L owner declared context)

theorem TolerantIn.nestedInGeneric (h : TolerantIn context L) (outer : TypeName) (declared : Nat) :
    Tolerant (nestedInGeneric L outer declared context) := by
  apply tolerant_advance.bind
  intro _
  apply (tolerant_expectAny _).bind
  intro stop
  apply tolerant_cursor.bind
  intro c
  refine (tolerant_check _ (by nofun)).bind ?_
  intro _
  apply (tolerant_region stop).bind
  intro text
  refine (tolerant_check _ (by nofun)).bind ?_
  intro _
  refine (tolerant_check _ (by nofun)).bind ?_
  intro _
  apply (tolerant_seek stop).bind
  intro _
  exact (h outer declared).bind fun args => tolerant_pure _

theorem TolerantIn.genericSuffix (h : TolerantIn context L) (base : TypeName) :
    Tolerant (genericSuffix L base context) := by
  apply tolerant_arity.bind
  intro declared
  apply Tolerant.bind
  · apply tolerant_peek.bind
    intro c
    apply tolerant_ite
    · intro _
      exact h.nestedInGeneric base declared
    · intro _
      exact (h base declared).bind fun args => tolerant_pure _
  · exact tolerant_arraySuffix

theorem TolerantIn.fullName (h : TolerantIn context L) (stop : Nat) :
    Tolerant (fullName σ L stop context) := by
  apply (tolerant_baseName σ stop).bind
  intro base
  apply tolerant_peek.bind
  intro c
  exact tolerant_ite (fun _ => h.genericSuffix base) (fun _ => tolerant_pure _)

theorem TolerantIn.element (h : TolerantIn .bracketed L) : Tolerant (element σ L) := by
  rw [element_eq]
  apply tolerant_advance.bind
  intro _
  apply tolerant_elementNameEnd.bind
  intro stop
  apply (h.fullName stop).bind
  intro t
  apply (tolerant_expectAny _).bind
  intro close
  exact (tolerant_seek _).bind fun _ => tolerant_pure _

theorem TolerantIn.elements (h : TolerantIn .bracketed L) (fuel : Nat) :
    Tolerant (elements σ L fuel) := by
  induction fuel with
  | zero => exact tolerant_refuse nofun
  | succ fuel ih =>
    apply tolerant_peek.bind
    intro c
    apply tolerant_cursor.bind
    intro cur
    refine (tolerant_check _ (by nofun)).bind ?_
    intro _
    apply h.element.bind
    intro first
    apply tolerant_peek.bind
    intro d
    split
    · apply tolerant_advance.bind
      intro _
      apply tolerant_skipSpaces.bind
      intro _
      exact ih.bind fun others => tolerant_pure _
    · exact tolerant_advance.bind fun _ => tolerant_pure _
    · exact tolerant_cursor.bind fun _ => tolerant_refuse nofun

theorem TolerantIn.bracketedList (h : TolerantIn .bracketed L) (declared : Nat) :
    Tolerant (bracketedList σ L declared) := by
  apply tolerant_cursor.bind
  intro c
  apply tolerant_ite
  · intro _
    apply tolerant_advance.bind
    intro _
    apply (h.elements _).bind
    intro args
    exact (tolerant_check _ (by nofun)).bind fun _ => tolerant_pure _
  · intro _
    apply (tolerant_expectAny _).bind
    intro close
    exact (tolerant_seek _).bind fun _ => tolerant_pure _

theorem TolerantIn.plainArgument (h : TolerantIn .plain L) : Tolerant (plainArgument σ L) := by
  rw [plainArgument_eq]
  apply tolerant_cursor.bind
  intro c
  apply (tolerant_expectAny _).bind
  intro stop
  apply tolerant_ite
  · intro _
    exact (tolerant_check _ (by nofun)).bind fun _ => tolerant_pure _
  · intro _
    exact h.fullName stop

theorem TolerantIn.plainArguments (h : TolerantIn .plain L) (fuel : Nat) :
    Tolerant (plainArguments σ L fuel) := by
  induction fuel with
  | zero => exact tolerant_refuse nofun
  | succ fuel ih =>
    apply tolerant_skipSpaces.bind
    intro _
    apply h.plainArgument.bind
    intro first
    apply tolerant_skipSpaces.bind
    intro _
    apply tolerant_peek.bind
    intro c
    split
    · apply tolerant_advance.bind
      intro _
      exact ih.bind fun others => tolerant_pure _
    · exact tolerant_advance.bind fun _ => tolerant_pure _
    · exact tolerant_refuse nofun
    · exact tolerant_cursor.bind fun _ => tolerant_refuse nofun

theorem TolerantIn.plainList (h : TolerantIn .plain L) (declared : Nat) :
    Tolerant (plainList σ L declared) := by
  apply tolerant_advance.bind
  intro _
  apply (tolerant_eat _).bind
  intro closed
  apply tolerant_ite
  · intro _
    exact tolerant_pure _
  · intro _
    apply tolerant_cursor.bind
    intro c
    apply (h.plainArguments _).bind
    intro args
    exact (tolerant_check _ (by nofun)).bind fun _ => tolerant_pure _

/-- Only the root of a name is refused for the mode, and only in one mode. -/
theorem tolerantIn_listLevel (hbracketed : TolerantIn .bracketed L) (hplain : TolerantIn .plain L)
    (hroot : ¬ (context = .root ∧ σ.definitionsOnly = true)) :
    TolerantIn context (listLevel σ L) := by
  intro owner declared
  apply tolerant_peek.bind
  intro c
  split
  · apply tolerant_ite
    · intro _
      exact tolerant_refuse nofun
    · intro _
      exact (hbracketed.bracketedList declared).deeper
  · rw [if_neg hroot]
    exact ((hplain.plainList declared).withOwner owner).deeper
  · exact tolerant_refuse nofun
  · exact tolerant_cursor.bind fun _ => tolerant_refuse nofun

theorem tolerantIn_tooDeep (context : ListContext) :
    TolerantIn context fun _ _ _ => (refuse .listsTooDeep : Reader (List TypeName)) :=
  fun _ _ => tolerant_refuse nofun

theorem tolerantIn_argumentLists (levels : Nat)
    (hroot : ¬ (context = .root ∧ σ.definitionsOnly = true)) :
    TolerantIn context (argumentLists σ levels) := by
  induction levels generalizing context with
  | zero => exact tolerantIn_listLevel (tolerantIn_tooDeep _) (tolerantIn_tooDeep _) hroot
  | succ levels ih => exact tolerantIn_listLevel (ih nofun) (ih nofun) hroot

end

end ClrNames.Grammar
