import ClrNames.TypeName.Render

/-!
# Aliases as a rewriting of trees

Short names do not have to be known while a type is rendered. They can be put into its
tree beforehand: a type with an alias becomes a type without namespace and enclosing
types, whose name is the alias. Which types have one is a matter of their full names
alone. Enclosing types keep their names, only their arguments are rewritten.
-/

set_option autoImplicit false

namespace ClrNames

namespace ShortNames

variable (s : ShortNames)

mutual

def rewrite : TypeName → TypeName
  | ⟨nspace, name, enclosing, args, isArray, param⟩ =>
    match s.get? (TypeName.fullname ⟨nspace, name, enclosing, args, isArray, param⟩) with
    | some short => { TypeName.topLevel "" short with args := rewriteArgs args, isArray }
    | none => ⟨nspace, name, rewriteEnclosing enclosing, rewriteArgs args, isArray, param⟩

def rewriteEnclosing : Option TypeName → Option TypeName
  | none => none
  | some ⟨nspace, name, enclosing, args, isArray, param⟩ =>
    some ⟨nspace, name, rewriteEnclosing enclosing, rewriteArgs args, isArray, param⟩

def rewriteArgs : List TypeName → List TypeName
  | [] => []
  | t :: ts => rewrite t :: rewriteArgs ts

end

def rewriteParts (t : TypeName) : TypeName :=
  { t with enclosing := s.rewriteEnclosing t.enclosing, args := s.rewriteArgs t.args }

variable {s} {t : TypeName}

theorem rewrite_of_alias {short : String} (h : s.get? t.fullname = some short) :
    s.rewrite t =
      { TypeName.topLevel "" short with args := s.rewriteArgs t.args, isArray := t.isArray } := by
  cases t
  rw [rewrite, h]

theorem rewrite_of_no_alias (h : s.get? t.fullname = none) : s.rewrite t = s.rewriteParts t := by
  cases t
  rw [rewrite, h]
  rfl

theorem rewriteEnclosing_some (t : TypeName) :
    s.rewriteEnclosing (some t) = some (s.rewriteParts t) := by
  cases t
  rfl

/-- Enclosing types stay where they are, so the namespace in front of them does. -/
theorem rootNamespace_rewriteParts (t : TypeName) :
    (s.rewriteParts t).rootNamespace = t.rootNamespace := by
  fun_induction TypeName.rootNamespace t with
  | case1 => rfl
  | case2 nspace name args isArray param outer ih =>
    rw [rewriteParts, rewriteEnclosing_some]
    exact ih

end ShortNames

namespace Renderer

def unaliased (r : Renderer) : Renderer := { r with shortNames := .empty }

def shownEnclosing (r : Renderer) (t : TypeName) : String :=
  if r.flags.enclosing then r.enclosingPath t.enclosing else ""

variable (r : Renderer) (path : String) (t : TypeName)

theorem render_eq : r.render t =
    r.head t (r.shownEnclosing t) ++ argumentSuffix (r.renderArgs t.args) ++
      arrayMark t.isArray := by
  cases t
  rfl

theorem enclosingPath_some (outer : TypeName) : r.enclosingPath (some outer) =
    r.enclosingPath outer.enclosing ++ outer.name ++
      argumentSuffix (r.renderArgs outer.args) ++ "." := by
  cases outer
  rfl

theorem head_unaliased :
    r.unaliased.head t path = r.clashToken t ++ r.namespacePath t ++ path ++ t.name := rfl

theorem head_of_no_alias (h : r.shortNames.get? t.fullname = none) :
    r.head t path = r.unaliased.head t path := by
  rw [head, h, head_unaliased]

/-- In front of a name without namespace nothing is shown. -/
theorem head_topLevel (args : List TypeName) (isArray : Bool) (short : String) :
    r.unaliased.head { TypeName.topLevel "" short with args, isArray } "" = short := by
  have hshown : r.shownNamespace { TypeName.topLevel "" short with args, isArray } = "" := by
    simp [shownNamespace, TypeName.topLevel, TypeName.rootNamespace]
  rw [head_unaliased, clashToken, namespacePath, hshown]
  simp [TypeName.topLevel]

theorem shownEnclosing_topLevel (args : List TypeName) (isArray : Bool) (short : String) :
    r.shownEnclosing { TypeName.topLevel "" short with args, isArray } = "" :=
  ite_self ""

theorem head_rewriteParts (s : ShortNames) :
    r.unaliased.head (s.rewriteParts t) path = r.unaliased.head t path := by
  have hshown : r.shownNamespace (s.rewriteParts t) = r.shownNamespace t := by
    rw [shownNamespace, ShortNames.rootNamespace_rewriteParts]
    rfl
  rw [head_unaliased, head_unaliased, clashToken, namespacePath, hshown]
  rfl

mutual

/-- One case for a type with an alias, one for a type that keeps its name. -/
theorem render_rewrite : (t : TypeName) →
    r.unaliased.render (r.shortNames.rewrite t) = r.render t
  | ⟨nspace, name, enclosing, args, isArray, param⟩ => by
    have hargs := renderArgs_rewrite args
    have hpath := enclosingPath_rewrite enclosing
    rw [render_eq, render_eq]
    cases halias : r.shortNames.get?
        (TypeName.fullname ⟨nspace, name, enclosing, args, isArray, param⟩) with
    | some short =>
      rw [ShortNames.rewrite_of_alias halias, shownEnclosing_topLevel, head_topLevel, hargs, head,
        halias]
    | none =>
      rw [ShortNames.rewrite_of_no_alias halias, head_rewriteParts, head_of_no_alias _ _ _ halias]
      simp only [ShortNames.rewriteParts, shownEnclosing, hargs, hpath]
      rfl

theorem enclosingPath_rewrite : (enclosing : Option TypeName) →
    r.unaliased.enclosingPath (r.shortNames.rewriteEnclosing enclosing) =
      r.enclosingPath enclosing
  | none => rfl
  | some ⟨nspace, name, enclosing, args, isArray, param⟩ => by
    rw [ShortNames.rewriteEnclosing_some, enclosingPath_some, enclosingPath_some]
    simp only [ShortNames.rewriteParts, renderArgs_rewrite args, enclosingPath_rewrite enclosing]

theorem renderArgs_rewrite : (args : List TypeName) →
    r.unaliased.renderArgs (r.shortNames.rewriteArgs args) = r.renderArgs args
  | [] => rfl
  | t :: ts => by
    rw [ShortNames.rewriteArgs, renderArgs, renderArgs, render_rewrite t, renderArgs_rewrite ts]

end

theorem enclosingPath_eq_join : r.enclosingPath t.enclosing =
    String.join (t.enclosingChain.map fun outer =>
      outer.name ++ argumentSuffix (outer.args.map r.render) ++ ".") := by
  fun_induction TypeName.enclosingChain t with
  | case1 => rfl
  | case2 nspace name args isArray param outer ih =>
    rw [List.map_append, String.join_append, ← ih]
    simp [enclosingPath_some, renderArgs_eq_map, String.append_assoc]

end Renderer

open Renderer in
/-- Rendering with aliases is rendering the rewritten tree without any, whatever parts are
shown and whichever namespaces need the token. The alias of a type stands alone in front
of its arguments, and the types that enclose it are shown under their own names. -/
theorem render_with_aliases (flags : RenderFlags) (shortNames : ShortNames)
    (globalPrefix : GlobalPrefix) (t : TypeName) :
    let r : Renderer := { flags, shortNames, globalPrefix }
    r.render t = ({ flags, globalPrefix } : Renderer).render (shortNames.rewrite t) ∧
      r.render t =
        (match shortNames.get? t.fullname with
          | some short => short
          | none => r.clashToken t ++ r.namespacePath t ++
              (if flags.enclosing then
                String.join (t.enclosingChain.map fun outer =>
                  outer.name ++ argumentSuffix (outer.args.map r.render) ++ ".")
              else "") ++ t.name) ++
          argumentSuffix (t.args.map r.render) ++ arrayMark t.isArray := by
  intro r
  refine ⟨(render_rewrite r t).symm, ?_⟩
  rw [render_eq, head, renderArgs_eq_map, ← enclosingPath_eq_join]
  rfl

/-- A type has its alias as an argument, but not around a nested one. -/
example :
    let shortNames : ShortNames := ⟨#[("app.Item", "I")], List.pairwise_singleton ..⟩
    let item := TypeName.topLevel "app" "Item"
    let bag : TypeName := { TypeName.topLevel "app" "Bag" with args := [item, item.nested "Part"] }
    shortNames.rewrite bag =
      { TypeName.topLevel "app" "Bag" with args := [.topLevel "" "I", item.nested "Part"] } := by
  decide +kernel

end ClrNames
