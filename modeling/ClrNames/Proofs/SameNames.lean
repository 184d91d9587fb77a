import ClrNames.Proofs.DottedNames
import ClrNames.Proofs.WrittenReading

/-!
# Types of the same names

Types that differ in their arguments and array marks alone have one full name. That of a
base name is its text without array markers, unless it is a reference, and a text that is
cut short within its array markers still names the same type.
-/

set_option autoImplicit false

namespace ClrNames

structure SameNames (a b : TypeName) : Prop where
  name : a.name = b.name
  nspace : a.rootNamespace = b.rootNamespace
  chain : a.enclosingChain.map TypeName.name = b.enclosingChain.map TypeName.name

namespace SameNames

variable {a b : TypeName}

theorem refl (t : TypeName) : SameNames t t := ⟨rfl, rfl, rfl⟩

theorem symm (h : SameNames a b) : SameNames b a := ⟨h.name.symm, h.nspace.symm, h.chain.symm⟩

theorem trans {c : TypeName} (h : SameNames a b) (h' : SameNames b c) : SameNames a c :=
  ⟨h.name.trans h'.name, h.nspace.trans h'.nspace, h.chain.trans h'.chain⟩

theorem withArgs (t : TypeName) (args : List TypeName) : SameNames t { t with args } where
  name := rfl
  nspace := by rw [TypeName.rootNamespace_withArgs]
  chain := by rw [TypeName.enclosingChain_withArgs]

theorem withArray (h : SameNames a b) (mark mark' : Bool) :
    SameNames (a.withArray mark) (b.withArray mark') where
  name := h.name
  nspace := by
    rw [TypeName.rootNamespace_withArray, TypeName.rootNamespace_withArray, h.nspace]
  chain := by rw [TypeName.enclosingChain_withArray, TypeName.enclosingChain_withArray, h.chain]

theorem nested (h : SameNames a b) (name : String) : SameNames (a.nested name) (b.nested name) where
  name := rfl
  nspace := h.nspace
  chain := by simp [TypeName.enclosingChain_nested, h.chain, h.name]

theorem foldl_nested (h : SameNames a b) (names : List String) :
    SameNames (names.foldl TypeName.nested a) (names.foldl TypeName.nested b) := by
  induction names generalizing a b with
  | nil => exact h
  | cons name names ih => exact ih (h.nested name)

theorem fullname (h : SameNames a b) : a.fullname = b.fullname := by
  have hchain (t : TypeName) : (t.enclosingChain.map fun outer => outer.name ++ ".") =
      (t.enclosingChain.map TypeName.name).map (· ++ ".") := by
    rw [List.map_map]
    rfl
  rw [TypeName.fullname, TypeName.fullname, hchain, hchain, h.nspace, h.chain, h.name]

end SameNames

namespace TypeName

theorem fullname_foldl_nested (t : TypeName) (names : List String) :
    (names.foldl nested t).fullname.toList =
      t.fullname.toList ++ names.flatMap fun name => '.' :: name.toList := by
  induction names generalizing t with
  | nil => simp
  | cons name names ih =>
    rw [List.foldl_cons, ih, fullname_nested]
    simp

theorem comma_not_mem_placeholder (p : GenericParam) : ',' ∉ (placeholder p).fullname.toList := by
  have hname : (placeholder p).fullname.toList = 'T' :: Nat.toDigits 10 p.index.toNat := by
    simp [fullname, placeholder, rootNamespace, enclosingChain]
  rw [hname]
  intro hcomma
  rcases List.mem_cons.mp hcomma with h | h
  · cases h
  · exact absurd (Nat.isDigit_of_mem_toDigits (by decide) (by decide) h) (by decide)

end TypeName

namespace Grammar
open Text

variable {known : String → Bool} {text : List Char} {t : TypeName}

theorem Named.fullname_of_plain (h : Named known text t)
    (hplain : ((segments text).getLastD []).head? ≠ some '!') :
    t.fullname = String.ofList (withoutMarkers text) := by
  obtain ⟨stem, qualifier, last, markers, rfl, hunmarked, hparts, hdotted⟩ := exists_dotted hplain
  obtain ⟨-, -, hsegment, -, rfl, -⟩ :=
    (nameOf_dotted_ok_iff hdotted).mp (h ⟨.start [] none, 0⟩)
  rw [TypeName.fullname_chainOf, withoutMarkers_append_brackets hunmarked, ← hparts,
    dotted_segments]
  exact fun part hpart hnil => hsegment (hnil ▸ List.mem_append_left _ hpart)

/-- No reference has a comma in its full name, so that this one spells the text. -/
theorem Named.fullname_of_comma (h : Named known text t) (hcomma : ',' ∈ t.fullname.toList) :
    t.fullname = String.ofList (withoutMarkers text) := by
  by_cases hhead : ((segments text).getLastD []).head? = some '!'
  · obtain ⟨-, hrun⟩ := check_eq_ok (h ⟨.start [] none, 0⟩)
    rw [if_pos hhead] at hrun
    generalize (segments text).getLastD [] = token at hrun
    obtain ⟨-, ⟨p, -, rfl⟩, -⟩ := backReference_ok_iff.mp hrun
    have hnowhere : (scopeless known).scopeRule = .nowhere := rfl
    rw [TypeName.fullname_withArray, hnowhere, resolve_nowhere] at hcomma
    exact absurd hcomma (TypeName.comma_not_mem_placeholder p)
  · exact h.fullname_of_plain hhead

/-- What is cut off a base name does not matter if it is array markers. -/
theorem Named.cut {cut : List Char} (h : Named known text t)
    (hplain : ((segments text).getLastD []).head? ≠ some '!') (hcut : cut <+: text)
    (hstem : withoutMarkers cut = withoutMarkers text) :
    ∃ u, Named known cut u ∧ SameNames u t := by
  obtain ⟨stem, qualifier, last, markers, rfl, hunmarked, hparts, hdotted⟩ := exists_dotted hplain
  obtain ⟨stem', fewer, rfl, hunmarked'⟩ := exists_stem cut
  rw [withoutMarkers_append_brackets hunmarked', withoutMarkers_append_brackets hunmarked] at hstem
  subst hstem
  have hle : fewer ≤ markers := by
    have hlength := hcut.length_le
    simp [brackets] at hlength
    omega
  have hfewer : Dotted (stem' ++ brackets fewer) qualifier last fewer := by
    have hremark := hdotted.remark fewer
    rwa [← hparts, dotted_segments] at hremark
  obtain ⟨hangle, hrank, hsegment, hlevels, rfl, -⟩ :=
    (nameOf_dotted_ok_iff hdotted).mp (h ⟨.start [] none, 0⟩)
  refine ⟨chainOf qualifier (namespaceCount known qualifier) last (0 < fewer), fun s => ?_,
    (SameNames.refl _).withArray _ _⟩
  have hangle' : ¬ ('<' ∈ stem' ++ brackets fewer ∨ '>' ∈ stem' ++ brackets fewer) :=
    fun hc => hangle (hc.imp (hcut.subset ·) (hcut.subset ·))
  exact (nameOf_dotted_ok_iff hfewer).mpr
    ⟨hangle', hle.trans hrank, hsegment, hlevels, rfl, rfl⟩

end Grammar

namespace Written
open Grammar

/-- A name has the names of its head, with the nested names behind them. -/
theorem Name.Denotes.sameNames_head {known : String → Bool} {context : ListContext} {depth : Nat}
    {name : Name} {t : TypeName} (h : name.Denotes known context depth t) :
    ∃ (base : TypeName) (names : List String), Named known name.head base ∧
      SameNames (names.foldl TypeName.nested base) t := by
  obtain head | ⟨head, ⟨arity, nested, list, markers⟩⟩ := name
  · exact ⟨t, [], h, .refl t⟩
  · obtain ⟨base, hbase, -, -, -, args, -, rfl⟩ := h
    refine ⟨base, nestedNames nested, hbase, ?_⟩
    have hnested := ((SameNames.withArgs base args).foldl_nested (nestedNames nested)).withArray
      false (0 < markers.val)
    rwa [TypeName.withArray_false] at hnested

end Written

end ClrNames
