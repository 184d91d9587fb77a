import ClrNames.Proofs.BaseNames
import ClrNames.Proofs.ReferenceScope
import ClrNames.TypeName.Render

/-!
# What a name table decides

A table only tells where a dotted name is split into namespace and enclosing
types. The text of a type does not show the split: types that differ in it alone
have one full name and one rendering, whole or without any path. Only the limit
on enclosing types can tell two tables apart.
-/

set_option autoImplicit false

namespace ClrNames

def nspacePrefix (nspace : String) : String := if nspace.isEmpty then "" else nspace ++ "."

namespace Renderer

def path (r : Renderer) (t : TypeName) : String :=
  r.namespacePath t ++ if r.flags.enclosing then r.enclosingPath t.enclosing else ""

structure Even (r : Renderer) : Prop where
  parts : r.flags.nspace = r.flags.enclosing
  token : r.flags.globalPrefix = false

variable {r : Renderer} (t : TypeName) (name : String)

theorem render_of_even (hr : r.Even) :
    r.render t = ((r.shortNames.get? t.fullname).getD (r.path t ++ t.name)) ++
      argumentSuffix (r.renderArgs t.args) ++ arrayMark t.isArray := by
  cases t with
  | mk nspace name enclosing args isArray param =>
    have hclash (u : TypeName) : r.clashToken u = "" := by simp [clashToken, hr.token]
    rw [render, head, hclash]
    cases r.shortNames.get? _ with
    | none => simp [path]
    | some short => rfl

theorem path_withArray (mark : Bool) : r.path (t.withArray mark) = r.path t := by
  cases t with
  | mk nspace name enclosing args isArray param => cases enclosing <;> rfl

theorem path_withArgs (args : List TypeName) : r.path { t with args } = r.path t := by
  cases t with
  | mk nspace name enclosing args isArray param => cases enclosing <;> rfl

theorem path_topLevel (hr : r.Even) (nspace : String) :
    r.path (.topLevel nspace name) = if r.flags.enclosing then nspacePrefix nspace else "" := by
  have hparts := hr.parts
  cases hflag : r.flags.enclosing with
  | true =>
    rw [hflag] at hparts
    simp [path, namespacePath, shownNamespace, TypeName.topLevel, TypeName.rootNamespace,
      enclosingPath, nspacePrefix, hparts, hflag]
  | false => simp [path, namespacePath, hparts, hflag]

/-- A whole path goes on behind the type that is nested in. -/
theorem path_nested (hr : r.Even) :
    r.path (t.nested name) =
      if r.flags.enclosing then r.path t ++ t.name ++ argumentSuffix (r.renderArgs t.args) ++ "."
      else "" := by
  have hparts := hr.parts
  cases t with
  | mk nspace simple enclosing args isArray param =>
    cases hflag : r.flags.enclosing with
    | true =>
      simp [path, namespacePath, shownNamespace, TypeName.nested, TypeName.rootNamespace,
        enclosingPath, hflag, String.append_assoc]
    | false => simp [path, namespacePath, hparts, hflag]

end Renderer

namespace TypeName

variable (t : TypeName) (name : String)

theorem fullname_withArray (mark : Bool) : (t.withArray mark).fullname = t.fullname := by
  cases t with
  | mk nspace simple enclosing args isArray param => cases enclosing <;> rfl

theorem fullname_withArgs (args : List TypeName) :
    ({ t with args } : TypeName).fullname = t.fullname := by
  cases t with
  | mk nspace simple enclosing args isArray param => cases enclosing <;> rfl

theorem fullname_topLevel (nspace : String) :
    (topLevel nspace name).fullname = nspacePrefix nspace ++ name := by
  simp [fullname, topLevel, rootNamespace, enclosingChain, nspacePrefix]

theorem fullname_nested : (t.nested name).fullname = t.fullname ++ "." ++ name := by
  cases t with
  | mk nspace simple enclosing args isArray param =>
    simp [fullname, nested, rootNamespace, enclosingChain, String.append_assoc]

/-- Two types with one full name that renderers of whole paths show alike, also
in front of further nested names. -/
structure SameText (a b : TypeName) : Prop where
  name : a.name = b.name
  isArray : a.isArray = b.isArray
  fullname : a.fullname = b.fullname
  path : ∀ r : Renderer, r.Even → r.path a = r.path b
  args : ∀ r : Renderer, r.Even → r.renderArgs a.args = r.renderArgs b.args

namespace SameText

variable {a b c : TypeName}

theorem refl (a : TypeName) : SameText a a :=
  ⟨rfl, rfl, rfl, fun _ _ => rfl, fun _ _ => rfl⟩

theorem trans (h : SameText a b) (h' : SameText b c) : SameText a c :=
  ⟨h.name.trans h'.name, h.isArray.trans h'.isArray, h.fullname.trans h'.fullname,
    fun r hr => (h.path r hr).trans (h'.path r hr), fun r hr => (h.args r hr).trans (h'.args r hr)⟩

theorem symm (h : SameText a b) : SameText b a :=
  ⟨h.name.symm, h.isArray.symm, h.fullname.symm, fun r hr => (h.path r hr).symm,
    fun r hr => (h.args r hr).symm⟩

theorem render (h : SameText a b) {r : Renderer} (hr : r.Even) : r.render a = r.render b := by
  rw [Renderer.render_of_even a hr, Renderer.render_of_even b hr, h.fullname, h.path r hr, h.name,
    h.args r hr, h.isArray]

theorem withArray (h : SameText a b) (mark : Bool) :
    SameText (a.withArray mark) (b.withArray mark) where
  name := h.name
  isArray := by rw [withArray_isArray, withArray_isArray, h.isArray]
  fullname := by rw [fullname_withArray, fullname_withArray, h.fullname]
  path r hr := by rw [Renderer.path_withArray, Renderer.path_withArray, h.path r hr]
  args := h.args

theorem withArgs (h : SameText a b) {as bs : List TypeName} (hargs : List.Forall₂ SameText as bs) :
    SameText { a with args := as } { b with args := bs } where
  name := h.name
  isArray := h.isArray
  fullname := by rw [fullname_withArgs, fullname_withArgs, h.fullname]
  path r hr := by rw [Renderer.path_withArgs, Renderer.path_withArgs, h.path r hr]
  args r hr := by
    induction hargs with
    | nil => rfl
    | cons hfirst _ ih => exact congrArg₂ List.cons (hfirst.render hr) ih

theorem nested (h : SameText a b) (name : String) : SameText (a.nested name) (b.nested name) where
  name := rfl
  isArray := rfl
  fullname := by rw [fullname_nested, fullname_nested, h.fullname]
  path r hr := by
    rw [Renderer.path_nested a name hr, Renderer.path_nested b name hr, h.path r hr, h.name,
      h.args r hr]
  args _ _ := rfl

theorem foldl_nested (h : SameText a b) (names : List String) :
    SameText (names.foldl TypeName.nested a) (names.foldl TypeName.nested b) := by
  induction names generalizing a b with
  | nil => exact h
  | cons name names ih => exact ih (h.nested name)

end SameText

section
open Text

variable {path : List (List Char)} {part : List Char}

theorem nspacePrefix_append (h : ∀ part ∈ path, part ≠ []) (last : List Char) :
    nspacePrefix (String.ofList (dotted path)) ++ String.ofList last =
      String.ofList (dotted (path ++ [last])) := by
  by_cases hempty : path = []
  · subst hempty
    simp [nspacePrefix, dotted]
  · have hne := dotted_ne_nil h hempty
    simp [nspacePrefix, hne, dotted_concat hempty, String.append_assoc]

/-- A segment more in a namespace is a segment more in what is shown of it. -/
theorem nspacePrefix_concat (h : ∀ part ∈ path, part ≠ []) (hpart : part ≠ []) :
    nspacePrefix (String.ofList (dotted (path ++ [part]))) =
      nspacePrefix (String.ofList (dotted path)) ++ String.ofList part ++ "." := by
  have hparts : ∀ p ∈ path ++ [part], p ≠ [] :=
    fun p hp => (List.mem_append.mp hp).elim (h p) fun hp => List.mem_singleton.mp hp ▸ hpart
  have hne := dotted_ne_nil hparts (by simp)
  rw [nspacePrefix_append h, nspacePrefix, if_neg (by simpa using hne)]

/-- A type at the end of a namespace reads like a last segment of it. -/
theorem sameText_shift (h : ∀ part ∈ path, part ≠ []) (hpart : part ≠ []) (name : String) :
    SameText ((topLevel (String.ofList (dotted path)) (String.ofList part)).nested name)
      (topLevel (String.ofList (dotted (path ++ [part]))) name) where
  name := rfl
  isArray := rfl
  fullname := by
    rw [fullname_nested, fullname_topLevel, fullname_topLevel, nspacePrefix_concat h hpart]
  path r hr := by
    rw [Renderer.path_nested _ name hr, Renderer.path_topLevel _ hr, Renderer.path_topLevel _ hr,
      nspacePrefix_concat h hpart]
    cases r.flags.enclosing with
    | true => simp [topLevel, Renderer.argumentSuffix, Renderer.renderArgs, String.append_assoc]
    | false => rfl
  args _ _ := rfl

/-- Where a namespace ends in a dotted name does not show. -/
theorem sameText_ofChain (h : ∀ part ∈ path, part ≠ []) {parts : List (List Char)}
    (hparts : ∀ part ∈ parts, part ≠ []) (name : String) :
    SameText (ofChain (String.ofList (dotted path)) (parts.map String.ofList) name)
      (topLevel (String.ofList (dotted (path ++ parts))) name) := by
  induction parts generalizing path with
  | nil =>
    rw [List.append_nil]
    exact .refl _
  | cons part parts ih =>
    have hpart : part ≠ [] := hparts part (by simp)
    have hlonger : ∀ p ∈ path ++ [part], p ≠ [] :=
      fun p hp => (List.mem_append.mp hp).elim (h p) fun hp => List.mem_singleton.mp hp ▸ hpart
    have hrest := ih hlonger fun p hp => hparts p (by simp [hp])
    rw [List.append_assoc, List.singleton_append] at hrest
    refine SameText.trans ?_ hrest
    cases parts with
    | nil => exact sameText_shift h hpart name
    | cons second parts =>
      exact ((sameText_shift h hpart (String.ofList second)).foldl_nested _).nested name

theorem sameText_topLevel {qualifier : List (List Char)} (h : ∀ part ∈ qualifier, part ≠ [])
    (split : Nat) (name : List Char) (mark : Bool) :
    SameText (Grammar.chainOf qualifier split name mark)
      ((topLevel (String.ofList (dotted qualifier)) (String.ofList name)).withArray mark) := by
  have hpath : ∀ part ∈ qualifier.take split, part ≠ [] :=
    fun part hpart => h part (List.mem_of_mem_take hpart)
  have hparts : ∀ part ∈ qualifier.drop split, part ≠ [] :=
    fun part hpart => h part (List.mem_of_mem_drop hpart)
  have hchain := sameText_ofChain hpath hparts (String.ofList name)
  rw [List.take_append_drop] at hchain
  exact hchain.withArray mark

theorem sameText_chainOf {qualifier : List (List Char)} (h : ∀ part ∈ qualifier, part ≠ [])
    (split split' : Nat) (name : List Char) (mark : Bool) :
    SameText (Grammar.chainOf qualifier split name mark)
      (Grammar.chainOf qualifier split' name mark) :=
  (sameText_topLevel h split name mark).trans (sameText_topLevel h split' name mark).symm

end

end TypeName

namespace Grammar

def tableSimulation (settings : Settings) (known known' : String → Bool)
    (containing : Option TypeName) (hrule : settings.scopeRule = .containing) (text : List Char) :
    Simulation { settings with known := known } { settings with known := known' } text where
  scopes f g := f.containing = containing ∧ g.containing = containing
  base _ := TypeName.SameText
  node _ := TypeName.SameText
  escapes e := ∃ levels, e.cause = .nestedTooDeep levels
  truncated := rfl
  definitions := .inl rfl
  named := by
    intro f g s taken hscopes _ _ _ _
    apply agree_nameOf_split (.inr fun e levels h => ⟨levels, h⟩)
    · intro token p mark _ _ _
      have hsame : resolve .containing (s.under f).cursor p =
          resolve .containing (s.under g).cursor p := by
        simp only [resolve, scope, State.under, hscopes.1, hscopes.2]
      rw [hrule, hsame]
      exact ⟨rfl, .refl _, fun _ => .refl _⟩
    · intro qualifier split split' name mark _ hqualifier _ _ _
      have hsame := TypeName.sameText_chainOf (fun part hpart => (hqualifier part hpart).1)
        split split' name mark
      exact ⟨rfl, hsame, fun _ => hsame⟩
  owners h _ := h
  levels _ := .inr fun e levels h => ⟨levels, h⟩
  object _ := .refl _
  array mark h := h.withArray mark
  args h hargs := h.withArgs hargs
  nested h hargs _ _ _ _ := (h.withArgs hargs).foldl_nested _

end Grammar

open Grammar

/-- The table of a reading does not show in the text of the type: under two tables a
name is read as types with one full name and one text, whole or without paths, or it
is refused for the same reason, unless one of them finds too many enclosing types. -/
theorem readName_tables (known known' : String → Bool) (containing : Option TypeName)
    (definitionsOnly : Bool) (shortNames : ShortNames) (name : String) :
    (∃ a b, readName { known, containing, definitionsOnly } name = .ok a ∧
      readName { known := known', containing, definitionsOnly } name = .ok b ∧
      a.fullname = b.fullname ∧ a.render true true shortNames = b.render true true shortNames ∧
      a.render false false shortNames = b.render false false shortNames ∧
      a.display = b.display) ∨
    (∃ e, readName { known, containing, definitionsOnly } name = .error e ∧
      readName { known := known', containing, definitionsOnly } name = .error e) ∨
    ∃ e levels, (readName { known, containing, definitionsOnly } name = .error e ∨
      readName { known := known', containing, definitionsOnly } name = .error e) ∧
      e.cause = .nestedTooDeep levels ∧ e.outcome = .malformed := by
  have hrule (o : ReadOptions) : readText { o with scopeRule := .nearest } name.toList =
      readText { o with scopeRule := .containing } name.toList :=
    readText_sameRule o _ _ (.inr ⟨by decide, by decide⟩) _
  have hmatch : Matching (fun e => ∃ levels, e.cause = .nestedTooDeep levels) TypeName.SameText
      (readText { known, containing, definitionsOnly, scopeRule := .containing } name.toList)
      (readText { known := known', containing, definitionsOnly, scopeRule := .containing }
        name.toList) := by
    apply readText_matching
    intro closed truncated _
    exact readClosed_matching { known, containing, definitionsOnly, scopeRule := .containing }
      { known := known', containing, definitionsOnly, scopeRule := .containing }
      (tableSimulation ⟨known, definitionsOnly, truncated, .containing⟩ known known' containing
        rfl closed) ⟨rfl, rfl⟩ name.toList
  rw [← hrule { known, containing, definitionsOnly },
    ← hrule { known := known', containing, definitionsOnly }] at hmatch
  change Matching _ _ (readName { known, containing, definitionsOnly } name)
    (readName { known := known', containing, definitionsOnly } name) at hmatch
  generalize readName { known, containing, definitionsOnly } name = r at hmatch
  generalize readName { known := known', containing, definitionsOnly } name = r' at hmatch
  have hmalformed (e : ParseError) (levels : Nat) (h : e.cause = .nestedTooDeep levels) :
      e.outcome = .malformed := by
    rw [ParseError.outcome, h]
    rfl
  cases hmatch with
  | @accepted a b h =>
    exact .inl ⟨a, b, rfl, rfl, h.fullname, h.render ⟨rfl, rfl⟩, h.render ⟨rfl, rfl⟩,
      h.render ⟨rfl, rfl⟩⟩
  | @refused e => exact .inr (.inl ⟨e, rfl, rfl⟩)
  | @escapedLeft e _ h =>
    obtain ⟨levels, h⟩ := h
    exact .inr (.inr ⟨e, levels, .inl rfl, h, hmalformed e levels h⟩)
  | @escapedRight e _ h =>
    obtain ⟨levels, h⟩ := h
    exact .inr (.inr ⟨e, levels, .inr rfl, h, hmalformed e levels h⟩)

end ClrNames
