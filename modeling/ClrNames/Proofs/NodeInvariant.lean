import ClrNames.Proofs.ReferenceScope

/-!
# Invariants of the nodes that a reading builds

A node is built in few ways: out of the segments of a base name, by resolving
a reference, by giving it arguments, and by nesting further names in it. What
each of them keeps holds of every node of a tree that is read. Nodes are reached
through enclosing links and arguments, and counted by the argument lists that
they stand inside of.
-/

set_option autoImplicit false

namespace ClrNames

namespace TypeName

inductive Reaches : TypeName → Nat → TypeName → Prop
  | self (t : TypeName) : Reaches t 0 t
  | enclosing {t outer n : TypeName} {lists : Nat} (h : t.enclosing = some outer)
      (hn : Reaches outer lists n) : Reaches t lists n
  | argument {t a n : TypeName} {lists : Nat} (h : a ∈ t.args)
      (hn : Reaches a lists n) : Reaches t (lists + 1) n

variable {t a n m : TypeName} {P : Nat → TypeName → Prop} {d lists more : Nat}

theorem Reaches.trans (h : Reaches t lists n) (hm : Reaches n more m) :
    Reaches t (lists + more) m := by
  induction h with
  | self t => rwa [Nat.zero_add]
  | enclosing h _ ih => exact .enclosing h (ih hm)
  | argument h _ ih =>
    rw [Nat.add_right_comm]
    exact .argument h (ih hm)

theorem reaches_of_mem_chain (t : TypeName) (h : n ∈ t.enclosingChain) : Reaches t 0 n := by
  fun_induction enclosingChain t with
  | case1 => simp at h
  | case2 ns name args arr p outer ih =>
    rcases List.mem_append.mp h with h | h
    · exact .enclosing rfl (ih h)
    · obtain rfl := List.mem_singleton.mp h
      exact .enclosing rfl (.self _)

theorem reaches_of_mem_effectiveArgs (t : TypeName) (h : a ∈ t.effectiveArgs) :
    Reaches t 1 a := by
  fun_induction effectiveArgs t with
  | case1 ns name outer arr p ih => exact .enclosing rfl (ih h)
  | case2 => exact .argument h (.self a)

def Everywhere (P : Nat → TypeName → Prop) (d : Nat) (t : TypeName) : Prop :=
  ∀ lists n, Reaches t lists n → P (d + lists) n

theorem everywhere_iff : Everywhere P d t ↔
    P d t ∧ (∀ outer, t.enclosing = some outer → Everywhere P d outer) ∧
      ∀ a ∈ t.args, Everywhere P (d + 1) a := by
  constructor
  · intro h
    have hargs : ∀ a ∈ t.args, Everywhere P (d + 1) a := by
      intro a ha lists n hn
      rw [Nat.add_assoc, Nat.add_comm 1]
      exact h (lists + 1) n (.argument ha hn)
    exact ⟨h 0 t (.self t), fun outer houter lists n hn => h lists n (.enclosing houter hn), hargs⟩
  · intro h lists n hn
    obtain ⟨hself, houter, hargs⟩ := h
    cases hn with
    | self => exact hself
    | enclosing h hn => exact houter _ h lists n hn
    | @argument _ a _ lists h hn =>
      rw [← Nat.add_assoc, Nat.add_right_comm]
      exact hargs a h lists n hn

theorem Everywhere.self (h : Everywhere P d t) : P d t := (everywhere_iff.mp h).1

theorem Everywhere.withArray (h : Everywhere P d t) (mark : Bool)
    (hself : P d (t.withArray mark)) : Everywhere P d (t.withArray mark) :=
  everywhere_iff.mpr ⟨hself, (everywhere_iff.mp h).2⟩

theorem Everywhere.withArgs (h : Everywhere P d t) {as : List TypeName}
    (hself : P d { t with args := as }) (hargs : ∀ a ∈ as, Everywhere P (d + 1) a) :
    Everywhere P d { t with args := as } :=
  everywhere_iff.mpr ⟨hself, (everywhere_iff.mp h).2.1, hargs⟩

theorem Everywhere.nested (h : Everywhere P d t) {name : String}
    (hself : P d (t.nested name)) : Everywhere P d (t.nested name) := by
  have houter : ∀ outer, (t.nested name).enclosing = some outer → Everywhere P d outer := by
    intro outer houter
    cases houter
    exact h
  exact everywhere_iff.mpr ⟨hself, houter, fun _ ha => nomatch ha⟩

theorem everywhere_topLevel {nspace name : String} (h : P d (topLevel nspace name)) :
    Everywhere P d (topLevel nspace name) :=
  everywhere_iff.mpr ⟨h, fun _ houter => (nomatch houter), fun _ ha => nomatch ha⟩

theorem everywhere_placeholder {p : GenericParam} (h : P d (placeholder p)) :
    Everywhere P d (placeholder p) :=
  everywhere_iff.mpr ⟨h, fun _ houter => (nomatch houter), fun _ ha => nomatch ha⟩

end TypeName

namespace Grammar
open Text

/-- A reference becomes its placeholder or an argument of the containing declaration. -/
theorem resolve_containing_cases (c : Cursor) (p : GenericParam) :
    resolve .containing c p = .placeholder p ∨
      ∃ t, c.containing = some t ∧ resolve .containing c p ∈ t.effectiveArgs := by
  unfold resolve
  split
  · exact .inl rfl
  · cases hscope : c.containing with
    | none => exact .inl (by simp [scope, hscope])
    | some t =>
      cases harg : t.effectiveArgs[p.index.toNat]? with
      | none => exact .inl (by simp [scope, hscope, harg])
      | some a =>
        refine .inr ⟨t, rfl, ?_⟩
        simpa [scope, hscope, harg] using List.mem_of_getElem? harg

structure Stable (P : Nat → TypeName → Prop) : Prop where
  array : ∀ {d : Nat} {t : TypeName} (mark : Bool), P d t → P d (t.withArray mark)
  nested : ∀ {d : Nat} {t : TypeName} {name : List Char}, P d t → CleanSegment name →
    t.enclosingChain.length < maxNesting → P d (t.nested (String.ofList name))

section
variable {P : Nat → TypeName → Prop} {d : Nat} {t : TypeName}

theorem Stable.everywhere (h : Stable P) : Stable (TypeName.Everywhere P) where
  array mark ht := ht.withArray mark (h.array mark ht.self)
  nested ht hname hlt := ht.nested (h.nested ht.self hname hlt)

theorem Stable.foldl_nested (h : Stable P) {names : List (List Char)} (ht : P d t)
    (hnames : ∀ name ∈ names, CleanSegment name)
    (hle : t.enclosingChain.length + names.length ≤ maxNesting) :
    P d ((names.map String.ofList).foldl TypeName.nested t) := by
  induction names generalizing t with
  | nil => exact ht
  | cons name names ih =>
    rw [List.length_cons] at hle
    apply ih
    · exact h.nested ht (hnames name (by simp)) (by omega)
    · exact fun name hname => hnames name (by simp [hname])
    · rw [TypeName.enclosingChain_nested, List.length_append, List.length_singleton]
      omega

end

/-- Properties of single nodes, at each depth of nested lists, that hold of every
node built below `containing`. The nodes of a base name may satisfy more. -/
structure NodeInvariant (containing : Option TypeName) where
  base : Nat → TypeName → Prop
  node : Nat → TypeName → Prop
  base_stable : Stable base
  node_stable : Stable node
  weaken : ∀ {d : Nat} {t : TypeName}, t.Everywhere base d → t.Everywhere node d
  resolved : ∀ {d : Nat} (c : Cursor) (p : GenericParam), d ≤ maxListDepth →
    c.containing = containing → (resolve .containing c p).Everywhere base d
  topLevel : ∀ {d : Nat} {path : List (List Char)} {name : List Char}, d ≤ maxListDepth →
    (∀ part ∈ path, CleanSegment part ∧ '>' ∉ part) → CleanSegment name →
    base d (.topLevel (String.ofList (dotted path)) (String.ofList name))
  args : ∀ {d : Nat} {t : TypeName} (as : List TypeName), t.Everywhere base d →
    node d { t with args := as }

namespace NodeInvariant

variable {containing : Option TypeName} (I : NodeInvariant containing) {d : Nat}

theorem base_topLevel {path : List (List Char)} {name : List Char} (hd : d ≤ maxListDepth)
    (hpath : ∀ part ∈ path, CleanSegment part ∧ '>' ∉ part) (hname : CleanSegment name) :
    (TypeName.topLevel (String.ofList (dotted path)) (String.ofList name)).Everywhere I.base d :=
  TypeName.everywhere_topLevel (I.topLevel hd hpath hname)

theorem base_chainOf {qualifier : List (List Char)} {name : List Char} (split : Nat) (mark : Bool)
    (hd : d ≤ maxListDepth) (hqualifier : ∀ part ∈ qualifier, CleanSegment part ∧ '>' ∉ part)
    (hname : CleanSegment name) (hle : qualifier.length - split ≤ maxNesting) :
    (chainOf qualifier split name mark).Everywhere I.base d := by
  have hpath : ∀ part ∈ qualifier.take split, CleanSegment part ∧ '>' ∉ part :=
    fun part hpart => hqualifier part (List.mem_of_mem_take hpart)
  have hchain : ∀ part ∈ qualifier.drop split, CleanSegment part :=
    fun part hpart => (hqualifier part (List.mem_of_mem_drop hpart)).1
  have hlength := List.length_drop (i := split) (l := qualifier)
  unfold chainOf
  apply I.base_stable.everywhere.array
  cases hdrop : qualifier.drop split with
  | nil => exact I.base_topLevel hd hpath hname
  | cons outermost inner =>
    rw [hdrop] at hchain hlength
    rw [List.length_cons] at hlength
    have houtermost := I.base_topLevel hd hpath (hchain outermost (by simp))
    have hinner : ∀ part ∈ inner, CleanSegment part := fun part h => hchain part (by simp [h])
    rw [List.map_cons, TypeName.ofChain]
    apply I.base_stable.everywhere.nested
    · apply I.base_stable.everywhere.foldl_nested houtermost hinner
      simp only [TypeName.topLevel, TypeName.enclosingChain, List.length_nil]
      omega
    · exact hname
    · rw [TypeName.length_enclosingChain_foldl_nested, List.length_map]
      simp only [TypeName.topLevel, TypeName.enclosingChain, List.length_nil]
      omega

theorem node_object (hd : d ≤ maxListDepth) :
    (TypeName.topLevel "" "object").Everywhere I.node d := by
  have hname : CleanSegment "object".toList := by simp [CleanSegment]
  have hobject : (TypeName.topLevel (String.ofList (dotted []))
      (String.ofList "object".toList)).Everywhere I.base d :=
    I.base_topLevel hd (fun _ h => nomatch h) hname
  rw [String.ofList_toList] at hobject
  exact I.weaken hobject

theorem node_withArgs {t : TypeName} {as : List TypeName} (ht : t.Everywhere I.base d)
    (has : ∀ a ∈ as, a.Everywhere I.node (d + 1)) :
    ({ t with args := as } : TypeName).Everywhere I.node d :=
  (I.weaken ht).withArgs (I.args as ht) has

def simulation (settings : Settings) (hrule : settings.scopeRule = .containing)
    (text : List Char) : Simulation settings settings text where
  scopes f g := f = g ∧ f.containing = containing
  base d a b := a.Everywhere I.base d ∧ a = b
  node d a b := a.Everywhere I.node d ∧ a = b
  escapes _ := False
  truncated := rfl
  definitions := .inl rfl
  named := by
    intro f g s taken hscopes _ _ hdepth htick
    obtain ⟨rfl, hcontaining⟩ := hscopes
    have hclean (part : List Char) (h : Segment taken part) : CleanSegment part ∧ '>' ∉ part :=
      ⟨⟨h.1, fun hc => (h.2 _ hc).1 rfl, fun hc => htick (h.2 _ hc).2.2.2,
        fun hc => (h.2 _ hc).2.1 rfl⟩, fun hc => (h.2 _ hc).2.2.1 rfl⟩
    apply agree_nameOf rfl
    · intro token p mark _ _ _
      rw [hrule]
      have hbase := I.base_stable.everywhere.array mark
        (I.resolved (s.under f).cursor p hdepth hcontaining)
      exact ⟨rfl, ⟨I.weaken hbase, rfl⟩, fun _ => ⟨hbase, rfl⟩⟩
    · intro qualifier split name mark hqualifier hname hle
      have hbase := I.base_chainOf split mark hdepth
        (fun part hpart => hclean part (hqualifier part hpart)) (hclean name hname).1 hle
      exact ⟨rfl, ⟨I.weaken hbase, rfl⟩, fun _ => ⟨hbase, rfl⟩⟩
  owners := by
    intro f g d a b hscopes hbase
    exact ⟨by rw [hscopes.1, hbase.2], hscopes.2⟩
  levels h := .inl (by rw [h.2])
  object h := ⟨I.node_object h, rfl⟩
  array mark h := ⟨I.node_stable.everywhere.array mark h.1, by rw [h.2]⟩
  args := by
    intro d a b as bs hab hargs
    obtain ⟨hbase, rfl⟩ := hab
    rw [List.forall₂_and_left, List.forall₂_eq_eq_eq] at hargs
    obtain ⟨hargs, rfl⟩ := hargs
    exact ⟨I.node_withArgs hbase hargs, rfl⟩
  nested := by
    intro d a b as bs names hab hargs _ hnames hle _
    obtain ⟨hbase, rfl⟩ := hab
    rw [List.forall₂_and_left, List.forall₂_eq_eq_eq] at hargs
    obtain ⟨hargs, rfl⟩ := hargs
    rw [← TypeName.enclosingChain_withArgs a as] at hle
    exact ⟨I.node_stable.everywhere.foldl_nested (I.node_withArgs hbase hargs) hnames hle, rfl⟩

end NodeInvariant

end Grammar

open Grammar

/-- What the ways of building a node keep holds of the tree that is read. -/
theorem node_of_readName {containing : Option TypeName} (I : NodeInvariant containing)
    {known : String → Bool} {definitionsOnly : Bool} {name : String} {t : TypeName}
    (h : readName { known, containing, definitionsOnly } name = .ok t) : t.Everywhere I.node 0 := by
  have hmatch : Matching (fun _ => False) (fun a b => a.Everywhere I.node 0 ∧ a = b)
      (readText { known, containing, definitionsOnly, scopeRule := .containing } name.toList)
      (readText { known, containing, definitionsOnly, scopeRule := .containing }
        name.toList) := by
    apply readText_matching
    intro closed truncated _
    exact readClosed_matching _ _ (I.simulation _ rfl closed) ⟨rfl, rfl⟩ _
  have hrule := readText_sameRule { known, containing, definitionsOnly } .nearest .containing
    (.inr ⟨by decide, by decide⟩) name.toList
  change readText { known, containing, definitionsOnly } name.toList = .ok t at h
  rw [← hrule, h] at hmatch
  cases hmatch with
  | accepted h => exact h.1

end ClrNames
