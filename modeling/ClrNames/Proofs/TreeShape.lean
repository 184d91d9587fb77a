import ClrNames.Proofs.NodeInvariant

/-!
# The shape of the trees that are read

Whatever names are read one after another, each below none or below a node of a
tree that was read before, their trees stay well shaped. Below none, besides, a
chain of enclosing types holds at most one argument list, and arguments nest as
deep as lists may.
-/

set_option autoImplicit false

namespace ClrNames

open Grammar

namespace TypeName

structure WellShaped (n : TypeName) : Prop where
  name_ne : n.name ≠ ""
  name_marks : '.' ∉ n.name.toList ∧ '\x60' ∉ n.name.toList ∧ '<' ∉ n.name.toList
  nspace_nested : n.enclosing ≠ none → n.nspace = ""
  nspace_segments : ∃ parts, n.nspace = String.ofList (Text.dotted parts) ∧
    ∀ part ∈ parts, part ≠ [] ∧ '.' ∉ part ∧ '\x60' ∉ part ∧ '<' ∉ part ∧ '>' ∉ part
  chain_le : n.enclosingChain.length ≤ 64
  placeholder_name : ∀ p, n.param = some p →
    n.name = "T" ++ toString p.index.toNat ∧ n.nspace = "" ∧ n.enclosing = none

def SoleOwner (n : TypeName) : Prop :=
  (n.enclosingChain ++ [n]).countP (fun owner => !owner.args.isEmpty) ≤ 1

variable {t n : TypeName}

theorem wellShaped_placeholder (p : GenericParam) : WellShaped (placeholder p) := by
  have hname : (placeholder p).name.toList = 'T' :: Nat.toDigits 10 p.index.toNat := by
    simp [placeholder]
  have hdigit : ∀ c ∈ Nat.toDigits 10 p.index.toNat, c.isDigit = true :=
    fun c hc => Nat.isDigit_of_mem_toDigits (by decide) (by decide) hc
  have hmark : ∀ c : Char, c ≠ 'T' → c.isDigit = false → c ∉ (placeholder p).name.toList := by
    intro c hT hc hmem
    rw [hname] at hmem
    rcases List.mem_cons.mp hmem with h | h
    · exact hT h
    · rw [hdigit c h] at hc
      cases hc
  constructor
  · intro hempty
    rw [hempty] at hname
    cases hname
  · exact ⟨hmark _ (by decide) (by decide), hmark _ (by decide) (by decide),
      hmark _ (by decide) (by decide)⟩
  · intro h
    exact absurd rfl h
  · exact ⟨[], rfl, fun _ h => nomatch h⟩
  · exact Nat.zero_le 64
  · intro q hq
    cases hq
    exact ⟨rfl, rfl, rfl⟩

theorem WellShaped.withArgs (h : WellShaped t) (as : List TypeName) :
    WellShaped { t with args := as } where
  name_ne := h.name_ne
  name_marks := h.name_marks
  nspace_nested := h.nspace_nested
  nspace_segments := h.nspace_segments
  chain_le := by rw [enclosingChain_withArgs]; exact h.chain_le
  placeholder_name := h.placeholder_name

theorem stable_wellShaped : Stable fun _ n => WellShaped n where
  array mark h :=
    { name_ne := h.name_ne
      name_marks := h.name_marks
      nspace_nested := h.nspace_nested
      nspace_segments := h.nspace_segments
      chain_le := by rw [enclosingChain_withArray]; exact h.chain_le
      placeholder_name := h.placeholder_name }
  nested := by
    intro d t name h hname hlt
    constructor
    · exact mt String.ofList_eq_empty_iff.mp hname.1
    · simpa [TypeName.nested] using hname.2
    · intro _
      rfl
    · exact ⟨[], rfl, fun _ h => nomatch h⟩
    · rw [enclosingChain_nested, List.length_append, List.length_singleton]
      exact hlt
    · intro p hp
      cases hp

theorem stable_soleOwner : Stable fun d n => d ≤ 64 ∧ SoleOwner n where
  array := by
    intro d t mark h
    have hsole := h.2
    rw [SoleOwner, List.countP_append] at hsole
    constructor
    · exact h.1
    · rw [SoleOwner, enclosingChain_withArray, List.countP_append]
      exact hsole
  nested := by
    intro d t name h _ _
    constructor
    · exact h.1
    · rw [SoleOwner, enclosingChain_nested, List.countP_append]
      exact h.2

theorem soleOwner_of_chain (h : ∀ outer ∈ n.enclosingChain, outer.args = []) : SoleOwner n := by
  have hchain : n.enclosingChain.countP (fun owner => !owner.args.isEmpty) = 0 := by
    rw [List.countP_eq_zero]
    intro outer houter
    simp [h outer houter]
  rw [SoleOwner, List.countP_append, hchain, Nat.zero_add]
  exact List.countP_le_length

end TypeName

open ClrNames.TypeName

def shapeInvariant (containing : Option TypeName)
    (h : ∀ t, containing = some t → ∀ lists n, Reaches t lists n → WellShaped n) :
    NodeInvariant containing where
  base _ := WellShaped
  node _ := WellShaped
  base_stable := stable_wellShaped
  node_stable := stable_wellShaped
  weaken := id
  resolved := by
    intro d c p _ hcontaining
    rcases resolve_containing_cases c p with heq | ⟨t, ht, hmem⟩
    · rw [heq]
      exact everywhere_placeholder (wellShaped_placeholder p)
    · intro lists n hn
      exact h t (hcontaining ▸ ht) _ n ((reaches_of_mem_effectiveArgs t hmem).trans hn)
  topLevel := by
    intro d path name _ hpath hname
    constructor
    · exact mt String.ofList_eq_empty_iff.mp hname.1
    · simpa [topLevel] using hname.2
    · intro h
      exact absurd rfl h
    · have hparts : ∀ part ∈ path,
          part ≠ [] ∧ '.' ∉ part ∧ '\x60' ∉ part ∧ '<' ∉ part ∧ '>' ∉ part := by
        intro part hpart
        obtain ⟨⟨hne, hdot, htick, hless⟩, hgreater⟩ := hpath part hpart
        exact ⟨hne, hdot, htick, hless, hgreater⟩
      exact ⟨path, rfl, hparts⟩
    · exact Nat.zero_le 64
    · intro p hp
      cases hp
  args as h := h.self.withArgs as

/-- Below none a base name has no arguments anywhere, so the list behind it is
the only one of its chain. -/
def ownerInvariant : NodeInvariant none where
  base d n := d ≤ 64 ∧ n.args = []
  node d n := d ≤ 64 ∧ SoleOwner n
  base_stable := ⟨fun _ h => h, fun h _ _ => ⟨h.1, rfl⟩⟩
  node_stable := stable_soleOwner
  weaken := by
    intro d t h lists n hn
    constructor
    · exact (h lists n hn).1
    · apply soleOwner_of_chain
      intro outer houter
      exact (h _ outer (hn.trans (reaches_of_mem_chain n houter))).2
  resolved := by
    intro d c p hd hcontaining
    rcases resolve_containing_cases c p with heq | ⟨t, ht, -⟩
    · rw [heq]
      exact everywhere_placeholder ⟨hd, rfl⟩
    · rw [hcontaining] at ht
      cases ht
  topLevel hd _ _ := ⟨hd, rfl⟩
  args := by
    intro d t as h
    constructor
    · exact h.self.1
    · apply soleOwner_of_chain
      intro outer houter
      rw [enclosingChain_withArgs] at houter
      exact (h _ outer (reaches_of_mem_chain t houter)).2

structure Reading where
  containing : Option TypeName
  tree : TypeName

inductive Readings : List Reading → Prop
  | nil : Readings []
  | read {earlier : List Reading} {known : String → Bool} {containing : Option TypeName}
      {definitionsOnly : Bool} {name : String} {tree : TypeName} (h : Readings earlier)
      (hscope : ∀ t, containing = some t → ∃ r ∈ earlier, ∃ lists, Reaches r.tree lists t)
      (htree : readName { known, containing, definitionsOnly } name = .ok tree) :
      Readings (⟨containing, tree⟩ :: earlier)

/-- Every node of every tree of a sequence of readings is well shaped. The
trees read below none have one argument list in a chain at most, and at most 64
lists inside each other. -/
theorem readings_wellShaped {readings : List Reading} (h : Readings readings) :
    ∀ r ∈ readings, ∀ lists n, Reaches r.tree lists n →
      WellShaped n ∧ (r.containing = none → lists ≤ 64 ∧ SoleOwner n) := by
  induction h with
  | nil => exact fun r hr => nomatch hr
  | @read earlier known containing definitionsOnly name tree _ hscope htree ih =>
    intro r hr lists n hn
    rcases List.mem_cons.mp hr with rfl | hr
    · have hearlier : ∀ t, containing = some t → ∀ lists n, Reaches t lists n →
          WellShaped n := by
        intro t ht lists n hn
        obtain ⟨r, hr, depth, hreach⟩ := hscope t ht
        exact (ih r hr _ n (hreach.trans hn)).1
      constructor
      · exact node_of_readName (shapeInvariant containing hearlier) htree lists n hn
      · intro hnone
        subst hnone
        have howner := node_of_readName ownerInvariant htree lists n hn
        rwa [Nat.zero_add] at howner
    · exact ih r hr lists n hn

theorem readings_wellShaped_tailed :
    let item := TypeName.topLevel "" "Item"
    let holder : TypeName := { nspace := "", name := "Holder", args := [item] }
    let tail : TypeName := { item with args := [topLevel "" "X"] }
    let readings := [⟨some holder, tail.nested "Nested"⟩, ⟨none, holder⟩]
    Readings readings ∧ ∀ r ∈ readings, ∀ lists n, Reaches r.tree lists n →
      WellShaped n ∧ (r.containing = none → lists ≤ 64 ∧ SoleOwner n) := by
  intro item holder tail readings
  have hholder : readName { known := fun _ => false } "Holder\x601<Item>" = .ok holder := by
    decide +kernel
  have htail : readName { known := fun _ => false, containing := some holder }
      "!0\x601.Nested<X>" = .ok (tail.nested "Nested") := by decide +kernel
  have hreadings : Readings readings := by
    apply Readings.read _ _ htail
    · exact .read .nil (by simp) hholder
    · intro t ht
      cases ht
      exact ⟨⟨none, holder⟩, by simp, 0, .self holder⟩
  exact ⟨hreadings, readings_wellShaped hreadings⟩

end ClrNames
