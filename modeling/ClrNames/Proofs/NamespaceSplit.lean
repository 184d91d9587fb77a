import Mathlib.Data.List.Induction
import Mathlib.Order.Bounds.Basic
import ClrNames.Proofs.PlainForm

/-!
# Where a namespace ends

The segments in front of a name are its namespace and the types around it, and the
namespace is as short as the table allows: behind it every further prefix of the
segments is a known type. A larger table can only shorten it.
-/

set_option autoImplicit false

namespace ClrNames.TypeName
open Text

variable (nspace name : String) (enclosing : List String)

/-- One more enclosing type is one more step of nesting. -/
theorem ofChain_concat (last : String) :
    ofChain nspace (enclosing ++ [last]) name = (ofChain nspace enclosing last).nested name := by
  cases enclosing with
  | nil => rfl
  | cons outermost inner => simp [ofChain]

theorem rootNamespace_ofChain : (ofChain nspace enclosing name).rootNamespace = nspace := by
  induction enclosing using List.reverseRecOn generalizing name with
  | nil => rfl
  | append_singleton enclosing last ih =>
    rw [ofChain_concat]
    exact ih last

theorem names_ofChain :
    (ofChain nspace enclosing name).enclosingChain.map TypeName.name = enclosing := by
  induction enclosing using List.reverseRecOn generalizing name with
  | nil => rfl
  | append_singleton enclosing last ih =>
    rw [ofChain_concat, enclosingChain_nested, List.map_append, ih, List.map_singleton,
      name_ofChain]

/-- What encloses a type is enclosed by the types in front of it. -/
theorem mem_enclosingChain_ofChain {nspace name : String} {parts : List (List Char)}
    {outer : TypeName}
    (h : outer ∈ (ofChain nspace (parts.map String.ofList) name).enclosingChain) :
    ∃ front last, front ++ [last] <+: parts ∧
      outer = ofChain nspace (front.map String.ofList) (String.ofList last) := by
  induction parts using List.reverseRecOn generalizing name with
  | nil => simp [ofChain, topLevel, enclosingChain] at h
  | append_singleton parts last ih =>
    rw [List.map_append, List.map_singleton, ofChain_concat, enclosingChain_nested,
      List.mem_append, List.mem_singleton] at h
    rcases h with h | rfl
    · obtain ⟨front, inner, hprefix, houter⟩ := ih h
      exact ⟨front, inner, hprefix.trans (List.prefix_append _ _), houter⟩
    · exact ⟨parts, last, List.prefix_refl _, rfl⟩

theorem fullname_ofChain {path front : List (List Char)} (last : List Char)
    (hpath : ∀ part ∈ path, part ≠ []) (hfront : ∀ part ∈ front, part ≠ []) :
    (ofChain (String.ofList (dotted path)) (front.map String.ofList) (String.ofList last)).fullname =
      String.ofList (dotted (path ++ front ++ [last])) := by
  have hparts : ∀ part ∈ path ++ front, part ≠ [] :=
    fun part hpart => (List.mem_append.mp hpart).elim (hpath part) (hfront part)
  rw [(sameText_ofChain hpath hfront _).fullname, fullname_topLevel, nspacePrefix_append hparts]

end ClrNames.TypeName

namespace ClrNames.Grammar
open Text ClrNames.TypeName

def KnownBeyond (known : String → Bool) (qualifier : List (List Char)) (k : Nat) : Prop :=
  ∀ j, k < j → j ≤ qualifier.length →
    known (String.ofList (dotted (qualifier.take j))) = true

section
variable (known : String → Bool) (qualifier : List (List Char))

theorem isLeast_namespaceCount :
    IsLeast {k | KnownBeyond known qualifier k} (namespaceCount known qualifier) := by
  constructor
  · intro j hj hle
    simpa using Nat.findGreatest_is_greatest hj hle
  · intro k hk
    by_contra hlt
    rw [Nat.not_le] at hlt
    have hknown := hk _ hlt (Nat.findGreatest_le _)
    have hunknown := Nat.findGreatest_of_ne_zero (m := namespaceCount known qualifier) rfl
      (Nat.ne_zero_of_lt hlt)
    rw [hknown] at hunknown
    cases hunknown

theorem namespaceCount_unknown (h : namespaceCount known qualifier ≠ 0) :
    known (String.ofList (dotted (qualifier.take (namespaceCount known qualifier)))) = false :=
  Nat.findGreatest_of_ne_zero rfl h

/-- A larger table has no longer namespaces. -/
theorem namespaceCount_le {wider : String → Bool}
    (h : ∀ path, known path = true → wider path = true) :
    namespaceCount wider qualifier ≤ namespaceCount known qualifier := by
  apply (isLeast_namespaceCount wider qualifier).2
  intro j hj hle
  exact h _ ((isLeast_namespaceCount known qualifier).1 j hj hle)

end

section
variable {qualifier : List (List Char)} (split : Nat) (last : List Char) (mark : Bool)

theorem names_chainOf : (chainOf qualifier split last mark).enclosingChain.map TypeName.name =
    (qualifier.drop split).map String.ofList := by
  rw [chainOf, enclosingChain_withArray, names_ofChain]

theorem rootNamespace_chainOf : (chainOf qualifier split last mark).rootNamespace =
    String.ofList (dotted (qualifier.take split)) := by
  rw [chainOf, rootNamespace_withArray, rootNamespace_ofChain]

/-- The full names around a type are the prefixes that go beyond its namespace. -/
theorem fullname_of_mem_chainOf {split : Nat} {last : List Char} {mark : Bool}
    (h : ∀ part ∈ qualifier, part ≠ []) {outer : TypeName}
    (houter : outer ∈ (chainOf qualifier split last mark).enclosingChain) :
    ∃ j, split < j ∧ j ≤ qualifier.length ∧
      outer.fullname = String.ofList (dotted (qualifier.take j)) := by
  rw [chainOf, enclosingChain_withArray] at houter
  obtain ⟨front, inner, ⟨behind, hbehind⟩, rfl⟩ := mem_enclosingChain_ofChain houter
  have hwhole : qualifier.take split ++ front ++ [inner] <+: qualifier :=
    ⟨behind, by rw [List.append_assoc _ front, List.append_assoc, hbehind, List.take_append_drop]⟩
  have hpath : ∀ part ∈ qualifier.take split, part ≠ [] :=
    fun part hpart => h part (List.mem_of_mem_take hpart)
  have hfront : ∀ part ∈ front, part ≠ [] :=
    fun part hpart => h part (hwhole.subset (by simp [hpart]))
  have hle := hwhole.length_le
  refine ⟨_, ?_, hle, ?_⟩
  · simp only [List.length_append, List.length_take, List.length_singleton] at hle ⊢
    omega
  · rw [fullname_ofChain inner hpath hfront, ← List.prefix_iff_eq_take.mp hwhole]

end

end ClrNames.Grammar

namespace ClrNames
open Text Grammar

/-- A name without an arity marker is read as a base name. -/
theorem nameOf_of_readName {o : ReadOptions} {name : String} {t : TypeName}
    (h : readName o name = .ok t) (htick : '\x60' ∉ name.toList) :
    ∃ s, nameOf (o.settings false) name.toList
      ((State.mk (.start name.toList o.containing) 0).pass name.toList []) = .ok t s := by
  obtain ⟨closed, truncated, s, hclose, hrun, -⟩ := readText_eq_ok h
  have hclosed : closeTruncated name.toList = .ok (name.toList, false) :=
    if_neg fun hcut => htick hcut.2
  cases hclosed.symm.trans hclose
  have hall : (State.mk (.start name.toList o.containing) 0).cursor.rest = name.toList ++ [] :=
    (List.append_nil _).symm
  have hname : wholeName (o.settings false) ⟨.start name.toList o.containing, 0⟩ =
      nameOf (o.settings false) name.toList
        ((State.mk (.start name.toList o.containing) 0).pass name.toList []) :=
    (wholeName_of_unmarked rfl rfl rfl htick).trans (baseName_pass _ hall)
  exact ⟨s, hname ▸ hrun⟩

/-- An accepted name that has neither arguments nor refers to a parameter is a dotted name. -/
theorem dotted_of_readName {o : ReadOptions} {name : String} {t : TypeName}
    (h : readName o name = .ok t) (htick : '\x60' ∉ name.toList)
    (hplain : ((segments name.toList).getLastD []).head? ≠ some '!') :
    ∃ qualifier last markers, Dotted name.toList qualifier last markers ∧
      (∀ part ∈ qualifier ++ [last], part ≠ []) ∧
      t = chainOf qualifier (namespaceCount o.known qualifier) last (0 < markers) := by
  obtain ⟨s, hrun⟩ := nameOf_of_readName h htick
  obtain ⟨-, qualifier, last, markers, -, -, -, hdotted⟩ := exists_dotted hplain
  obtain ⟨-, -, hsegment, -, rfl, -⟩ := (nameOf_dotted_ok_iff hdotted).mp hrun
  exact ⟨qualifier, last, markers, hdotted, fun part hpart heq => hsegment (heq ▸ hpart), rfl⟩

/-- It is the chain of its segments, split by the table. -/
theorem chainOf_of_readName {o : ReadOptions} {name : String} {t : TypeName}
    (h : readName o name = .ok t) (htick : '\x60' ∉ name.toList)
    (hplain : ((segments name.toList).getLastD []).head? ≠ some '!') :
    (∀ part ∈ (segments name.toList).dropLast, part ≠ []) ∧
    ∃ last mark, t = chainOf (segments name.toList).dropLast
      (namespaceCount o.known (segments name.toList).dropLast) last mark := by
  obtain ⟨qualifier, last, markers, hdotted, hparts, rfl⟩ := dotted_of_readName h htick hplain
  rw [hdotted.split, List.dropLast_concat]
  exact ⟨fun part hpart => hparts part (List.mem_append_left _ hpart), last, _, rfl⟩

/-- The segments in front of a name are split where the table puts the namespace: behind
the shortest one such that all longer prefixes are known types. The types around the
name are therefore known and its namespace is not, and a wider table only adds to the
types around it, on the outside. -/
theorem readName_split (o : ReadOptions) (name : String) (t : TypeName)
    (h : readName o name = .ok t) (htick : '\x60' ∉ name.toList)
    (hplain : ((segments name.toList).getLastD []).head? ≠ some '!') :
    (∃ k, IsLeast {k | KnownBeyond o.known (segments name.toList).dropLast k} k ∧
      t.enclosingChain.map TypeName.name =
        ((segments name.toList).dropLast.drop k).map String.ofList ∧
      t.rootNamespace = String.ofList (dotted ((segments name.toList).dropLast.take k))) ∧
    (∀ outer ∈ t.enclosingChain, o.known outer.fullname = true) ∧
    (t.rootNamespace ≠ "" → o.known t.rootNamespace = false) ∧
    ∀ (wider : String → Bool) (u : TypeName), (∀ path, o.known path = true → wider path = true) →
      readName { o with known := wider } name = .ok u →
      t.enclosingChain.map TypeName.name <:+ u.enclosingChain.map TypeName.name := by
  obtain ⟨hparts, last, mark, rfl⟩ := chainOf_of_readName h htick hplain
  refine ⟨⟨_, isLeast_namespaceCount _ _, names_chainOf _ _ _, rootNamespace_chainOf _ _ _⟩,
    ?_, ?_, ?_⟩
  · intro outer houter
    obtain ⟨j, hj, hle, hfull⟩ := fullname_of_mem_chainOf hparts houter
    rw [hfull]
    exact (isLeast_namespaceCount _ _).1 j hj hle
  · rw [rootNamespace_chainOf]
    intro hne
    apply namespaceCount_unknown
    intro hzero
    rw [hzero] at hne
    exact hne rfl
  · intro wider u hwider hu
    obtain ⟨-, last', mark', rfl⟩ := chainOf_of_readName hu htick hplain
    rw [names_chainOf, names_chainOf]
    exact (List.drop_suffix_drop_left _ (namespaceCount_le _ _ hwider)).map _

theorem readName_split_gap :
    let known : String → Bool := fun path => path == "a" || path == "a.b.c"
    let wider : String → Bool := fun path => path == "a" || path == "a.b" || path == "a.b.c"
    let item : TypeName := (TypeName.topLevel "a.b" "c").nested "Item"
    let inner : TypeName := (((TypeName.topLevel "" "a").nested "b").nested "c").nested "Item"
    readName { known } "a.b.c.Item" = .ok item ∧ readName { known := wider } "a.b.c.Item" = .ok inner ∧
      known "a.b" = false ∧ ["c"] <:+ ["a", "b", "c"] := by
  intro known wider item inner
  have hitem : readName { known } "a.b.c.Item" = .ok item := by decide +kernel
  have hinner : readName { known := wider } "a.b.c.Item" = .ok inner := by decide +kernel
  obtain ⟨-, -, hunknown, hwider⟩ :=
    readName_split { known } "a.b.c.Item" item hitem (by decide) (by decide +kernel)
  refine ⟨hitem, hinner, hunknown (by decide), ?_⟩
  apply hwider wider inner _ hinner
  intro path hpath
  simp only [known, Bool.or_eq_true] at hpath
  simp only [wider, Bool.or_eq_true]
  tauto

end ClrNames
