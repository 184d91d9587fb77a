import ClrNames.Proofs.Simulation

/-!
# What a base name can be

An accepted base name is a resolved reference, or a chain of segments cut out
of the text. Two readings agree on a base name as soon as they agree on the references
and on the chains, which differ only in where the namespace ends: `agree_nameOf_split`.
-/

set_option autoImplicit false

namespace ClrNames.Text

def Segment (text part : List Char) : Prop :=
  part ≠ [] ∧ ∀ c ∈ part, c ≠ '.' ∧ c ≠ '<' ∧ c ≠ '>' ∧ c ∈ text

end ClrNames.Text

namespace ClrNames.Grammar
open Text

def tokenParam? (token : List Char) : Option GenericParam :=
  readParam? (stripByRef (withoutMarkers (stripByRef token)))

def chainOf (qualifier : List (List Char)) (split : Nat) (name : List Char) (mark : Bool) :
    TypeName :=
  (TypeName.ofChain (String.ofList (dotted (qualifier.take split)))
    ((qualifier.drop split).map String.ofList) (String.ofList name)).withArray mark

/-- A reference is refused for its array markers or for what else it is written with, or is
what its parameter stands for. -/
theorem backReference_eq (σ : Settings) (token : List Char) (s : State) :
    backReference σ token s =
      if maxArrayMarkers < arrayMarkers (stripByRef token) then
        .error ⟨.arrayRank (arrayMarkers (stripByRef token)), stripByRef token⟩ s
      else match tokenParam? token with
        | none => .error (s.cursor.refuse (.invalidReference token)) s
        | some p => .ok ((resolve σ.scopeRule s.cursor p).withArray
            (0 < arrayMarkers (stripByRef token))) s := by
  unfold backReference
  by_cases hrank : maxArrayMarkers < arrayMarkers (stripByRef token)
  · rw [if_pos hrank, if_pos hrank]
    rfl
  · rw [if_neg hrank, if_neg hrank, tokenParam?]
    cases readParam? (stripByRef (withoutMarkers (stripByRef token))) <;> rfl

theorem backReference_ok_iff {σ : Settings} {token : List Char} {s u : State} {t : TypeName} :
    backReference σ token s = .ok t u ↔
      arrayMarkers (stripByRef token) ≤ maxArrayMarkers ∧
        (∃ p, tokenParam? token = some p ∧ t = (resolve σ.scopeRule s.cursor p).withArray
          (0 < arrayMarkers (stripByRef token))) ∧ u = s := by
  rw [backReference_eq]
  split
  next hrank => exact ⟨nofun, fun h => absurd hrank (Nat.not_lt.mpr h.1)⟩
  next hrank =>
    cases tokenParam? token with
    | none => exact ⟨nofun, fun ⟨_, ⟨_, hp, _⟩, _⟩ => by cases hp⟩
    | some p =>
      constructor
      · rintro ⟨⟩
        exact ⟨Nat.not_lt.mp hrank, ⟨p, rfl, rfl⟩, rfl⟩
      · rintro ⟨-, ⟨_, ⟨⟩, rfl⟩, rfl⟩
        rfl

section
variable {α β : Type} {escapes : ParseError → Prop} {f g : Scopes} {s : State}
  {σ τ : Settings} {post : TypeName → TypeName → State → Prop}

theorem agree_backReference {token : List Char}
    (h : ∀ p mark, tokenParam? token = some p →
      post ((resolve σ.scopeRule (s.under f).cursor p).withArray mark)
        ((resolve τ.scopeRule (s.under g).cursor p).withArray mark) s) :
    Agree escapes f g s (backReference σ token) (backReference τ token) post := by
  unfold backReference
  dsimp only
  split
  · exact agree_throw _
  · cases hp : readParam? (stripByRef (withoutMarkers (stripByRef token))) with
    | none => exact agree_refuse _
    | some p => exact agree_cursor (agree_pure (h p _ hp))

/-- The tables of two readings decide only where the namespace ends. -/
theorem agree_simpleName
    (hknown : σ.known = τ.known ∨
      ∀ (e : ParseError) (levels : Nat), e.cause = .nestedTooDeep levels → escapes e)
    {qualifier : List (List Char)} {simple : List Char}
    (h : ∀ split split' mark, (σ.known = τ.known → split = split') →
      withoutMarkers simple ≠ [] → (∀ part ∈ qualifier, part ≠ []) →
      qualifier.length - split ≤ maxNesting → qualifier.length - split' ≤ maxNesting →
      post (chainOf qualifier split (withoutMarkers simple) mark)
        (chainOf qualifier split' (withoutMarkers simple) mark) s) :
    Agree escapes f g s (simpleName σ qualifier simple) (simpleName τ qualifier simple) post := by
  unfold simpleName
  dsimp only
  split
  · exact agree_throw _
  · apply agree_check
    intro hne
    rw [Bool.and_eq_true, Bool.not_eq_true', Bool.not_eq_true', List.any_eq_false] at hne
    apply agree_checkNesting (hknown.imp_left fun heq => by rw [heq])
    intro hle hle'
    apply agree_pure
    apply h _ _ _ _ _ _ hle hle'
    · intro heq
      rw [heq]
    · simpa using hne.1
    · intro part hpart
      simpa using hne.2 part hpart

/-- Two readings agree on a base name if they agree on what each reference and each
chain of segments of it becomes, wherever their tables end the namespace. -/
theorem agree_nameOf_split
    (hknown : σ.known = τ.known ∨
      ∀ (e : ParseError) (levels : Nat), e.cause = .nestedTooDeep levels → escapes e)
    {text : List Char}
    (hreference : ∀ token p mark, token <:+ text → token.head? = some '!' →
      tokenParam? token = some p →
      post ((resolve σ.scopeRule (s.under f).cursor p).withArray mark)
        ((resolve τ.scopeRule (s.under g).cursor p).withArray mark) s)
    (hchain : ∀ (qualifier : List (List Char)) (split split' : Nat) (name : List Char)
      (mark : Bool), (σ.known = τ.known → split = split') →
      (∀ part ∈ qualifier, Segment text part) → Segment text name →
      qualifier.length - split ≤ maxNesting → qualifier.length - split' ≤ maxNesting →
      post (chainOf qualifier split name mark) (chainOf qualifier split' name mark) s) :
    Agree escapes f g s (nameOf σ text) (nameOf τ text) post := by
  unfold nameOf
  apply agree_check
  intro hangle
  have hclean : ∀ c ∈ text, c ≠ '<' ∧ c ≠ '>' := by
    intro c hc
    simp only [Bool.not_eq_true', List.any_eq_false] at hangle
    simpa using hangle c hc
  have hpart : ∀ part ∈ segments text, ∀ c ∈ part, c ≠ '.' ∧ c ≠ '<' ∧ c ≠ '>' ∧ c ∈ text := by
    intro part hpart c hc
    have hmem := mem_segments hpart c hc
    exact ⟨hmem.1, (hclean c hmem.2).1, (hclean c hmem.2).2, hmem.2⟩
  have hlast : (segments text).getLastD [] ∈ segments text := by
    rw [List.getLastD_eq_getLast?, List.getLast?_eq_some_getLast (segments_ne_nil text)]
    exact List.getLast_mem _
  split
  next hhead =>
    exact agree_backReference fun p mark hp =>
      hreference _ p mark (getLastD_segments_suffix text) hhead hp
  next =>
    apply agree_simpleName hknown
    intro split split' mark hsplit hname hqualifier hle hle'
    apply hchain _ split split' _ mark hsplit _ _ hle hle'
    · intro part hmem
      exact ⟨hqualifier part hmem, hpart part (List.dropLast_subset _ hmem)⟩
    · exact ⟨hname, fun c hc => hpart _ hlast c (mem_of_mem_withoutMarkers hc)⟩

/-- Readings that know the same names end the namespace at the same segment. -/
theorem agree_nameOf (hknown : σ.known = τ.known) {text : List Char}
    (hreference : ∀ token p mark, token <:+ text → token.head? = some '!' →
      tokenParam? token = some p →
      post ((resolve σ.scopeRule (s.under f).cursor p).withArray mark)
        ((resolve τ.scopeRule (s.under g).cursor p).withArray mark) s)
    (hchain : ∀ (qualifier : List (List Char)) (split : Nat) (name : List Char) (mark : Bool),
      (∀ part ∈ qualifier, Segment text part) → Segment text name →
      qualifier.length - split ≤ maxNesting →
      post (chainOf qualifier split name mark) (chainOf qualifier split name mark) s) :
    Agree escapes f g s (nameOf σ text) (nameOf τ text) post := by
  apply agree_nameOf_split (.inl hknown) hreference
  intro qualifier split split' name mark hsplit hqualifier hname hle _
  obtain rfl := hsplit hknown
  exact hchain qualifier split name mark hqualifier hname hle

end

end ClrNames.Grammar
