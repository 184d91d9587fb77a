import ClrNames.Proofs.BaseNames

/-!
# Where references look

A reader keeps the generic type whose arguments it reads as a second scope, and
without a containing declaration references fall back to it. That scope never
answers: its arguments are not read yet, and a type that is in progress while
nothing contains the name sees no other arguments either. The mode for
definitions has no say in where a reference looks, so that both modes build the
same nodes.
-/

set_option autoImplicit false

namespace ClrNames.Grammar

def Argless (containing : Option TypeName) (f : Scopes) : Prop :=
  f.containing = containing ∧
    (containing = none → ∀ owner, f.inProgress = some owner → owner.effectiveArgs = [])

def SameRule (containing : Option TypeName) (r r' : ScopeRule) : Prop :=
  containing = none ∨ r ≠ .nowhere ∧ r' ≠ .nowhere

theorem effectiveArgs_placeholder (p : GenericParam) :
    (TypeName.placeholder p).effectiveArgs = [] := rfl

theorem resolve_nowhere (c : Cursor) (p : GenericParam) : resolve .nowhere c p = .placeholder p := by
  unfold resolve
  split <;> rfl

theorem resolve_argless {f : Scopes} (h : Argless none f) (rule : ScopeRule) (s : State)
    (p : GenericParam) : resolve rule (s.under f).cursor p = .placeholder p := by
  obtain ⟨hcontaining, hargs⟩ := h
  have hseen : ∀ t, scope rule (s.under f).cursor = some t → t.effectiveArgs = [] := by
    intro t ht
    cases rule with
    | containing => simp [scope, State.under, hcontaining] at ht
    | nearest => exact hargs rfl t (by simpa [scope, State.under, hcontaining] using ht)
    | nowhere => simp [scope] at ht
  unfold resolve
  split
  · rfl
  · cases hscope : scope rule (s.under f).cursor with
    | none => rfl
    | some t => simp [hseen t hscope]

theorem resolve_containing {f : Scopes} {t : TypeName} (h : f.containing = some t)
    {rule : ScopeRule} (hrule : rule ≠ .nowhere) (s : State) (p : GenericParam) :
    resolve rule (s.under f).cursor p = resolve .containing (s.under f).cursor p := by
  cases rule with
  | containing => rfl
  | nearest => simp [resolve, scope, State.under, h]
  | nowhere => exact absurd rfl hrule

theorem resolve_sameRule {containing : Option TypeName} {f : Scopes} (h : Argless containing f)
    {r r' : ScopeRule} (hrule : SameRule containing r r') (s : State) (p : GenericParam) :
    resolve r (s.under f).cursor p = resolve r' (s.under f).cursor p := by
  cases containing with
  | none => rw [resolve_argless h, resolve_argless h]
  | some t =>
    obtain ⟨hr, hr'⟩ : r ≠ .nowhere ∧ r' ≠ .nowhere := by simpa [SameRule] using hrule
    rw [resolve_containing h.1 hr, resolve_containing h.1 hr']

/-- What keeps the type in progress free of arguments is that a base name has none
unless it comes out of a declaration. -/
def ruleSimulation (settings : Settings) (r r' : ScopeRule) (containing : Option TypeName)
    (hrule : SameRule containing r r') (text : List Char) :
    Simulation { settings with scopeRule := r } { settings with scopeRule := r' } text where
  scopes f g := f = g ∧ Argless containing f
  base _ a b := a = b ∧ (containing = none → a.effectiveArgs = [])
  node _ a b := a = b
  escapes _ := False
  truncated := rfl
  definitions := .inl rfl
  named := by
    intro f g s taken hscopes _ _ _ _
    obtain ⟨rfl, hf⟩ := hscopes
    have hknown : ({ settings with scopeRule := r } : Settings).known =
        ({ settings with scopeRule := r' } : Settings).known := rfl
    apply agree_nameOf hknown
    · intro token p mark _ _ _
      have hnode : (resolve r (s.under f).cursor p).withArray mark =
          (resolve r' (s.under f).cursor p).withArray mark := by rw [resolve_sameRule hf hrule]
      have hargs : containing = none →
          ((resolve r (s.under f).cursor p).withArray mark).effectiveArgs = [] := by
        intro hnone
        subst hnone
        rw [TypeName.effectiveArgs_withArray, resolve_argless hf, effectiveArgs_placeholder]
      exact ⟨rfl, hnode, fun _ => ⟨hnode, hargs⟩⟩
    · intro qualifier split name mark _ _ _
      have hargs : (chainOf qualifier split name mark).effectiveArgs = [] := by
        rw [chainOf, TypeName.effectiveArgs_withArray, TypeName.effectiveArgs_ofChain]
      exact ⟨rfl, rfl, fun _ => ⟨rfl, fun _ => hargs⟩⟩
  owners := by
    intro f g d a b hscopes hbase
    obtain ⟨rfl, hf⟩ := hscopes
    obtain ⟨rfl, ha⟩ := hbase
    exact ⟨rfl, hf.1, fun hnone owner howner => by cases howner; exact ha hnone⟩
  levels h := .inl (by rw [h.1])
  object _ := rfl
  array mark h := by rw [h]
  args := by
    intro d a b as bs hbase hargs
    rw [List.forall₂_eq_eq_eq] at hargs
    rw [hbase.1, hargs]
  nested := by
    intro d a b as bs names hbase hargs _ _ _ _
    rw [List.forall₂_eq_eq_eq] at hargs
    rw [hbase.1, hargs]

def modeSimulation (σ : Settings) (text : List Char) :
    Simulation { σ with definitionsOnly := true } { σ with definitionsOnly := false } text where
  scopes f g := f = g
  base _ a b := a = b
  node _ a b := a = b
  escapes e := e.cause = .instantiation
  truncated := rfl
  definitions := .inr fun _ he => he
  named := by
    intro f g s taken hscopes _ _ _ _
    cases hscopes
    have hknown : ({ σ with definitionsOnly := true } : Settings).known =
        ({ σ with definitionsOnly := false } : Settings).known := rfl
    apply agree_nameOf hknown
    · intro token p mark _ _ _
      exact ⟨rfl, rfl, fun _ => rfl⟩
    · intro qualifier split name mark _ _ _
      exact ⟨rfl, rfl, fun _ => rfl⟩
  owners := by
    rintro f g d a b rfl rfl
    rfl
  levels h := .inl (by rw [h])
  object _ := rfl
  array mark h := by rw [h]
  args := by
    intro d a b as bs hbase hargs
    rw [List.forall₂_eq_eq_eq] at hargs
    rw [hbase, hargs]
  nested := by
    intro d a b as bs names hbase hargs _ _ _ _
    rw [List.forall₂_eq_eq_eq] at hargs
    rw [hbase, hargs]

end ClrNames.Grammar

namespace ClrNames
open Grammar

theorem readClosed_sameRule (o : ReadOptions) (r r' : ScopeRule)
    (hrule : SameRule o.containing r r') (name closed : List Char) (truncated : Bool) :
    readClosed { o with scopeRule := r } name closed truncated =
      readClosed { o with scopeRule := r' } name closed truncated := by
  let S := ruleSimulation (o.settings truncated) r r' o.containing hrule closed
  have hscopes : S.scopes ⟨o.containing, none⟩ ⟨o.containing, none⟩ := ⟨rfl, rfl, nofun⟩
  exact (readClosed_matching { o with scopeRule := r } { o with scopeRule := r' } S hscopes name).eq

theorem readText_sameRule (o : ReadOptions) (r r' : ScopeRule)
    (hrule : SameRule o.containing r r') (text : List Char) :
    readText { o with scopeRule := r } text = readText { o with scopeRule := r' } text := by
  have hclosed := readClosed_sameRule o r r' hrule text
  simp only [readText, hclosed]

/-- Where it does not refuse an instantiation, the mode for definitions reads what
the other mode reads. -/
theorem readText_modes (o : ReadOptions) (text : List Char) :
    Matching (fun e => e.cause = .instantiation) (fun a b => a = b)
      (readText { o with definitionsOnly := true } text)
      (readText { o with definitionsOnly := false } text) := by
  apply readText_matching
  intro closed truncated _
  exact readClosed_matching { o with definitionsOnly := true } { o with definitionsOnly := false }
    (modeSimulation (o.settings truncated) closed) rfl text

/-- The type in progress never answers a reference: looking only into the
containing declaration gives the same node or the same refusal. With no such
declaration every reference, in whatever list it stands, becomes the placeholder
of its parameter, as under the rule that looks nowhere. -/
theorem inProgress_never_answers (o : ReadOptions) (name : String) :
    readName { o with scopeRule := .nearest } name =
      readName { o with scopeRule := .containing } name ∧
    readName { o with containing := none, scopeRule := .nearest } name =
      readName { o with containing := none, scopeRule := .nowhere } name ∧
    ∀ (c : Cursor) (p : GenericParam), resolve .nowhere c p = .placeholder p := by
  have hboth : SameRule o.containing .nearest .containing := .inr ⟨by decide, by decide⟩
  exact ⟨readText_sameRule o _ _ hboth _,
    readText_sameRule { o with containing := none } _ _ (.inl rfl) _, resolve_nowhere⟩

end ClrNames
