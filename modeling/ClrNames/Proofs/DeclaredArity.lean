import ClrNames.Proofs.BaseNames
import ClrNames.Proofs.WrittenReading

/-!
# Declared arities

Wherever an arity marker is read, the type in front of it has as many arguments as the
marker declares, unless its list is written without arguments. `Honoured` says so of a
written name and the type that was read for it, side by side and down to every argument.
-/

set_option autoImplicit false

namespace ClrNames

theorem TypeName.effectiveArgs_withArgs {t : TypeName} (h : t.effectiveArgs = [])
    (args : List TypeName) : ({ t with args } : TypeName).effectiveArgs = args := by
  obtain ⟨ns, name, enclosing, own, array, param⟩ := t
  cases args with
  | cons a as => cases enclosing <;> rfl
  | nil =>
    cases own with
    | nil => exact h
    | cons a as => cases enclosing <;> cases h

namespace Grammar

/-- What holds of two readings that agree holds once one of them has succeeded. -/
theorem Agree.of_ok {α β : Type} {f g : Scopes} {s u : State} {p : Reader α} {q : Reader β}
    {post : α → β → State → Prop} {a : α} (h : Agree (fun _ => False) f g s p q post)
    (hrun : p (s.under f) = .ok a u) : ∃ b taken after, post a b (s.pass taken after) := by
  unfold Agree at h
  rw [hrun] at h
  generalize q (s.under g) = r at h
  cases h with
  | passed _ holds => exact ⟨_, _, _, holds⟩
  | escapedRight h => exact h.elim

/-- A base name stands for a type without arguments. -/
theorem Named.effectiveArgs {known : String → Bool} {text : List Char} {t : TypeName}
    (h : Named known text t) : t.effectiveArgs = [] := by
  have hagree : Agree (fun _ => False) ⟨none, none⟩ ⟨none, none⟩ ⟨.start text none, 0⟩
      (nameOf (scopeless known) text) (nameOf (scopeless known) text)
      fun a _ _ => a.effectiveArgs = [] := by
    apply agree_nameOf rfl
    · intro token p mark _ _ _
      rw [TypeName.effectiveArgs_withArray]
      show (resolve .nowhere _ p).effectiveArgs = []
      rw [resolve_nowhere, effectiveArgs_placeholder]
    · intro qualifier split name mark _ _ _
      rw [chainOf, TypeName.effectiveArgs_withArray, TypeName.effectiveArgs_ofChain]
  obtain ⟨_, _, _, hargs⟩ := hagree.of_ok (h _)
  exact hargs

end Grammar

namespace Written
open Grammar

mutual

def Name.Honoured : Name → TypeName → Prop
  | .simple _, _ => True
  | .generic _ suffix, t => suffix.Honoured t

def Suffix.Honoured : Suffix → TypeName → Prop
  | .mk arity _ list _, t =>
    (t.effectiveArgs.length = arity.value ∨ t.effectiveArgs = [] ∧ Open list.print) ∧
      list.Honoured t.effectiveArgs

def ArgList.Honoured : ArgList → List TypeName → Prop
  | .unbound, args => args = []
  | .skipped _, args => args = []
  | .plain items, args => items.Honoured args
  | .bracketed elements, args => elements.Honoured args

def Items.Honoured : Items → List TypeName → Prop
  | .last _ name _, args => ∃ t, args = [t] ∧ name.Honoured t
  | .more _ name _ rest, args => ∃ t others, args = t :: others ∧ name.Honoured t ∧
    rest.Honoured others

def Elements.Honoured : Elements → List TypeName → Prop
  | .last name _, args => ∃ t, args = [t] ∧ name.Honoured t
  | .more name _ _ rest, args => ∃ t others, args = t :: others ∧ name.Honoured t ∧
    rest.Honoured others

end

section
variable {known : String → Bool} {context : ListContext} {depth : Nat}

/-- The types in between that are nested see the arguments too. -/
theorem effectiveArgs_suffix {base : TypeName} (hbase : base.effectiveArgs = [])
    (nested : Option (List Char)) (args : List TypeName) (mark : Bool) :
    (((nestedNames nested).foldl TypeName.nested { base with args }).withArray mark).effectiveArgs =
      args := by
  rw [TypeName.effectiveArgs_withArray, TypeName.effectiveArgs_foldl_nested,
    TypeName.effectiveArgs_withArgs hbase]

mutual

/-- What a name denotes honours its arities, once every list of it is counted. -/
theorem Name.honoured (name : Name) {context : ListContext} {depth : Nat} {t : TypeName}
    (h : name.Denotes known context depth t) (hcounted : ∀ suffix ∈ name.suffixes, suffix.Counted) :
    name.Honoured t := by
  match name, h with
  | .simple head, _ => trivial
  | .generic head suffix, ⟨base, hbase, hsuffix⟩ =>
    exact suffix.honoured hbase.effectiveArgs hsuffix hcounted

theorem Suffix.honoured (suffix : Suffix) {context : ListContext} {depth : Nat}
    {base t : TypeName} (hbase : base.effectiveArgs = [])
    (h : suffix.Denotes known context depth base t)
    (hcounted : ∀ inner ∈ suffix.suffixes, inner.Counted) : suffix.Honoured t := by
  match suffix, h with
  | .mk arity nested list markers, ⟨_, _, _, args, hargs, ht⟩ =>
    obtain ⟨hself, hinner⟩ := List.forall_mem_cons.mp hcounted
    have hlength := ArgList.length_of_denotes hargs
    rw [ht, Suffix.Honoured, effectiveArgs_suffix hbase]
    constructor
    · rcases hself with hsize | ⟨hsize, hopen⟩
      · exact .inl (hlength.trans hsize)
      · exact .inr ⟨List.length_eq_zero_iff.mp (hlength.trans hsize), hopen⟩
    · exact list.honoured hargs hinner

theorem ArgList.honoured (list : ArgList) {depth : Nat} {args : List TypeName}
    (h : list.Denotes known depth args) (hcounted : ∀ suffix ∈ list.suffixes, suffix.Counted) :
    list.Honoured args := by
  match list, h with
  | .unbound, h => exact h
  | .skipped _, h => exact h
  | .plain items, ⟨_, h⟩ => exact items.honoured h hcounted
  | .bracketed elements, h => exact elements.honoured h hcounted

theorem Items.honoured (items : Items) {depth : Nat} {args : List TypeName}
    (h : items.Denotes known depth args) (hcounted : ∀ suffix ∈ items.suffixes, suffix.Counted) :
    items.Honoured args := by
  match items, h with
  | .last _ name _, ⟨_, t, hargs, hname⟩ =>
    refine ⟨t, hargs, ?_⟩
    rcases hname with ⟨rfl, -⟩ | hname
    · trivial
    · exact name.honoured hname hcounted
  | .more _ name _ rest, ⟨_, t, others, hargs, hname, hrest⟩ =>
    obtain ⟨hself, hinner⟩ := List.forall_mem_append.mp hcounted
    refine ⟨t, others, hargs, ?_, rest.honoured hrest hinner⟩
    rcases hname with ⟨rfl, -⟩ | hname
    · trivial
    · exact name.honoured hname hself

theorem Elements.honoured (elements : Elements) {depth : Nat} {args : List TypeName}
    (h : elements.Denotes known depth args)
    (hcounted : ∀ suffix ∈ elements.suffixes, suffix.Counted) : elements.Honoured args := by
  match elements, h with
  | .last name _, ⟨_, t, hargs, hname⟩ => exact ⟨t, hargs, name.honoured hname hcounted⟩
  | .more name _ _ rest, ⟨_, t, others, hargs, hname, hrest⟩ =>
    obtain ⟨hself, hinner⟩ := List.forall_mem_append.mp hcounted
    exact ⟨t, others, hargs, name.honoured hname hself, rest.honoured hrest hinner⟩

end

end

end Written

open Written

/-- An accepted text is a written name in which every arity marker is honoured: the type
in front of it sees as many arguments as it declares, or none where its list is `<>` or
a single pair of brackets. Left out are the texts that count as cut off. -/
theorem readTypeName_honours_arity (known : String → Bool) (name : String) (t : TypeName)
    (hmarked : '\x60' ∈ name.toList) (hlength : Text.byteLength name.toList ≠ 1023)
    (h : readTypeName known none name = .ok t) :
    ∃ (head : List Char) (arity : Decimal) (nested : Option (List Char)) (list : ArgList)
      (markers : Markers),
      name.toList = head ++ '\x60' :: arity.digits ++
        (nestedText nested ++ (list.print ++ markers.print)) ∧ '\x60' ∉ head ∧
      (Name.generic head (.mk arity nested list markers)).Denotes known .root 0 t ∧
      (t.effectiveArgs.length = arity.value ∨ t.effectiveArgs = [] ∧ Open list.print) ∧
      list.Honoured t.effectiveArgs := by
  have hclosed : closeTruncated name.toList = .ok (name.toList, false) :=
    if_neg fun hcut => hlength hcut.1
  rw [← String.ofList_toList (s := name), readTypeName_ok_iff, hclosed] at h
  obtain ⟨-, -, _, _, ⟨⟩, written, hprint, hhead, hdenotes, hcounted⟩ := h
  cases written with
  | simple head =>
    rw [show head = name.toList from hprint] at hhead
    exact absurd hmarked hhead
  | generic head suffix =>
    obtain ⟨arity, nested, list, markers⟩ := suffix
    obtain ⟨hself, hinner⟩ := Name.honoured _ hdenotes (hcounted rfl)
    refine ⟨head, arity, nested, list, markers, ?_, hhead, hdenotes, hself, hinner⟩
    simp [← hprint, Name.print, Suffix.print]

theorem readTypeName_honours_arity_nested :
    let name := "M\x602.In[[K\x601[V], lib],[L\x603<>]][]"
    let inner : TypeName := ({ TypeName.topLevel "" "M" with
      args := [.topLevel "" "K", .topLevel "" "L"] }).nested "In"
    readTypeName (fun _ => false) none name = .ok (inner.withArray true) ∧
      '\x60' ∈ name.toList ∧ Text.byteLength name.toList ≠ 1023 ∧
      ∃ (head : List Char) (arity : Decimal) (nested : Option (List Char)) (list : ArgList)
        (markers : Markers),
        name.toList = head ++ '\x60' :: arity.digits ++
          (nestedText nested ++ (list.print ++ markers.print)) ∧ '\x60' ∉ head ∧
        (Name.generic head (.mk arity nested list markers)).Denotes (fun _ => false) .root 0
          (inner.withArray true) ∧
        ((inner.withArray true).effectiveArgs.length = arity.value ∨
          (inner.withArray true).effectiveArgs = [] ∧ Open list.print) ∧
        list.Honoured (inner.withArray true).effectiveArgs := by
  intro name inner
  have hread : readTypeName (fun _ => false) none name = .ok (inner.withArray true) := by
    decide +kernel
  have hmarked : '\x60' ∈ name.toList := by decide +kernel
  have hlength : Text.byteLength name.toList ≠ 1023 := by decide +kernel
  exact ⟨hread, hmarked, hlength,
    readTypeName_honours_arity (fun _ => false) name _ hmarked hlength hread⟩

end ClrNames
