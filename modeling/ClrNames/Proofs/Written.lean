import ClrNames.Proofs.DefinitionMode

/-!
# Names as they are written

Whatever text is accepted, it is made up of heads, arity markers, names of nested
types, lists and array markers. A written name keeps these apart, so that it can be
asked which arity markers a reading passes, and how many arguments stand behind each
of them. A written name has a text and denotes a type below a table.
-/

set_option autoImplicit false

namespace ClrNames.Grammar
open Text

def Named (known : String → Bool) (text : List Char) (t : TypeName) : Prop :=
  ∀ s, nameOf (scopeless known) text s = .ok t s

def contained (known : String → Bool) (truncated : Bool) : Settings :=
  { known, definitionsOnly := false, truncated, scopeRule := .containing }

def NamedIn (known : String → Bool) (containing : Option TypeName) (text : List Char)
    (t : TypeName) : Prop :=
  ∀ s : State, s.cursor.containing = containing → nameOf (contained known false) text s = .ok t s

structure Place where
  containing : Option TypeName
  depth : Nat

def Place.deeper (place : Place) : Place := { place with depth := place.depth + 1 }

@[simp] theorem Place.deeper_depth (place : Place) : place.deeper.depth = place.depth + 1 := rfl

def State.place (s : State) : Place := ⟨s.cursor.containing, s.depth⟩

theorem resolve_of_containing {c c' : Cursor} (h : c.containing = c'.containing) :
    resolve .containing c = resolve .containing c' := by
  funext p
  simp only [resolve, scope, h]

theorem not_namedIn_nil {known : String → Bool} {containing : Option TypeName} {t : TypeName} :
    ¬ NamedIn known containing [] t := by
  intro h
  cases h ⟨.start [] containing, 0⟩ rfl

theorem NamedIn.unique {known : String → Bool} {containing : Option TypeName} {text : List Char}
    {a b : TypeName} (ha : NamedIn known containing text a) (hb : NamedIn known containing text b) :
    a = b := by
  cases (ha ⟨.start text containing, 0⟩ rfl).symm.trans (hb ⟨.start text containing, 0⟩ rfl)
  rfl

/-- Below no declaration references stay placeholders. -/
theorem namedIn_none {known : String → Bool} {text : List Char} {t : TypeName} :
    NamedIn known none text t ↔ Named known text t := by
  have hresolve (s u : State) (h : u.cursor.containing = none) :
      resolve .containing u.cursor = resolve .nowhere s.cursor := by
    funext p
    rw [resolve_nowhere, resolve]
    split
    · rfl
    · simp [scope, h]
  let start : State := ⟨.start text none, 0⟩
  constructor
  · intro h s
    exact (nameOf_ok (σ := contained known false) (τ := scopeless known) rfl
      (hresolve s start rfl) (h start rfl)).2
  · intro h u hu
    exact (nameOf_ok (σ := scopeless known) (τ := contained known false) rfl
      (hresolve start u hu).symm (h start)).2

/-- What a text names does not depend on where it stands. -/
theorem Named.unique {known : String → Bool} {text : List Char} {a b : TypeName}
    (ha : Named known text a) (hb : Named known text b) : a = b := by
  cases (ha ⟨.start text none, 0⟩).symm.trans (hb ⟨.start text none, 0⟩)
  rfl

/-- A name inside an element, scanned up to `d`: a closing bracket belongs to it where
an opening one stands in front, even that of the element. -/
def Scans (before : Char) : List Char → Char → Prop
  | [], d => d = '\x60' ∨ d = ',' ∨ d = ']' ∧ before ≠ '['
  | c :: cs, d => c ≠ '\x60' ∧ c ≠ ',' ∧ (c = ']' → before = '[') ∧ Scans c cs d

end ClrNames.Grammar

namespace ClrNames.Written
open Text Grammar

mutual

inductive Name : Type
  | simple (head : List Char)
  | generic (head : List Char) (suffix : Suffix)

inductive Suffix : Type
  | mk (arity : Decimal) (nested : Option (List Char)) (list : ArgList) (markers : Markers)

inductive ArgList : Type
  | unbound
  | skipped (text : Skipped)
  | plain (items : Items)
  | bracketed (elements : Elements)

inductive Items : Type
  | last (before : Nat) (name : Name) (behind : Nat)
  | more (before : Nat) (name : Name) (behind : Nat) (rest : Items)

inductive Elements : Type
  | last (name : Name) (noise : List Char)
  | more (name : Name) (noise : List Char) (spaces : Nat) (rest : Elements)

end

def spaces (count : Nat) : List Char := List.replicate count ' '

def nestedText : Option (List Char) → List Char
  | none => []
  | some names => '.' :: names

def nestedNames : Option (List Char) → List String
  | none => []
  | some names => (segments names).map String.ofList

def Name.head : Name → List Char
  | .simple head => head
  | .generic head _ => head

mutual

def Name.print : Name → List Char
  | .simple head => head
  | .generic head suffix => head ++ suffix.print

def Suffix.print : Suffix → List Char
  | .mk arity nested list markers =>
    '\x60' :: arity.digits ++ (nestedText nested ++ (list.print ++ markers.print))

def ArgList.print : ArgList → List Char
  | .unbound => ['<', '>']
  | .skipped text => '[' :: text.chars ++ [']']
  | .plain items => '<' :: items.print ++ ['>']
  | .bracketed elements => '[' :: elements.print ++ [']']

def Items.print : Items → List Char
  | .last before name behind => spaces before ++ name.print ++ spaces behind
  | .more before name behind rest =>
    spaces before ++ name.print ++ spaces behind ++ ',' :: rest.print

def Elements.print : Elements → List Char
  | .last name noise => '[' :: name.print ++ noise ++ [']']
  | .more name noise gap rest => '[' :: name.print ++ noise ++ ']' :: ',' :: spaces gap ++ rest.print

end

def Name.tail : Name → List Char
  | .simple _ => []
  | .generic _ suffix => suffix.print

theorem Name.print_eq (name : Name) : name.print = name.head ++ name.tail := by
  cases name with
  | simple head => exact (List.append_nil head).symm
  | generic head suffix => rfl

def Items.length : Items → Nat
  | .last _ _ _ => 1
  | .more _ _ _ rest => rest.length + 1

def Elements.length : Elements → Nat
  | .last _ _ => 1
  | .more _ _ _ rest => rest.length + 1

theorem Items.length_ne_zero (items : Items) : items.length ≠ 0 := by
  cases items <;> exact Nat.succ_ne_zero _

theorem Elements.length_ne_zero (elements : Elements) : elements.length ≠ 0 := by
  cases elements <;> exact Nat.succ_ne_zero _

theorem Items.length_le : (items : Items) → items.length ≤ items.print.length + 1
  | .last before name behind => by simp [Items.length]
  | .more before name behind rest => by
    have hrest := rest.length_le
    simp only [Items.length, Items.print, List.length_append, List.length_cons]
    omega

theorem Elements.length_le : (elements : Elements) → elements.length ≤ elements.print.length
  | .last name noise => by simp [Elements.length, Elements.print]
  | .more name noise gap rest => by
    have hrest := rest.length_le
    simp only [Elements.length, Elements.print, List.length_append, List.length_cons]
    omega

theorem Elements.print_eq_cons (elements : Elements) : ∃ more, elements.print = '[' :: more := by
  cases elements with
  | last name noise => exact ⟨_, rfl⟩
  | more name noise gap rest => exact ⟨_, rfl⟩

theorem ArgList.print_eq_cons (list : ArgList) :
    ∃ c more, list.print = c :: more ∧ (c = '[' ∨ c = '<') := by
  cases list with
  | unbound => exact ⟨'<', _, rfl, .inr rfl⟩
  | skipped text => exact ⟨'[', _, rfl, .inl rfl⟩
  | plain items => exact ⟨'<', _, rfl, .inr rfl⟩
  | bracketed elements => exact ⟨'[', _, rfl, .inl rfl⟩

/-- No digit follows the arity in front of a list. -/
theorem exists_nestedText_append (nested : Option (List Char)) {c : Char} (hc : c = '[' ∨ c = '<')
    (more : List Char) :
    ∃ d rest, nestedText nested ++ c :: more = d :: rest ∧ d.isDigit = false := by
  cases nested with
  | none => exact ⟨c, more, rfl, by rcases hc with rfl | rfl <;> rfl⟩
  | some names => exact ⟨'.', _, rfl, rfl⟩

def ArgList.size : ArgList → Nat
  | .unbound => 0
  | .skipped _ => 0
  | .plain items => items.length
  | .bracketed elements => elements.length

mutual

def Name.suffixes : Name → List Suffix
  | .simple _ => []
  | .generic _ suffix => suffix.suffixes

def Suffix.suffixes : Suffix → List Suffix
  | .mk arity nested list markers => .mk arity nested list markers :: list.suffixes

def ArgList.suffixes : ArgList → List Suffix
  | .unbound => []
  | .skipped _ => []
  | .plain items => items.suffixes
  | .bracketed elements => elements.suffixes

def Items.suffixes : Items → List Suffix
  | .last _ name _ => name.suffixes
  | .more _ name _ rest => name.suffixes ++ rest.suffixes

def Elements.suffixes : Elements → List Suffix
  | .last name _ => name.suffixes
  | .more name _ _ rest => name.suffixes ++ rest.suffixes

end

def Open (list : List Char) : Prop :=
  ['<', '>'] <+: list ∨ ∃ more, list = '[' :: more ∧ more.head? ≠ some '['

def ArgList.Counted (declared : Nat) (list : ArgList) : Prop :=
  list.size = declared ∨ list.size = 0 ∧ Open list.print

theorem ArgList.Counted.size_eq {declared : Nat} {list : ArgList} (h : list.Counted declared)
    (hlisted : list.size ≠ 0) : list.size = declared :=
  h.resolve_right fun h => hlisted h.1

def Suffix.Counted : Suffix → Prop
  | .mk arity _ list _ => list.Counted arity.value

def AllCounted (truncated : Bool) (suffixes : List Suffix) : Prop :=
  truncated = false → ∀ suffix ∈ suffixes, suffix.Counted

section
variable {truncated : Bool} {suffix : Suffix} {suffixes more : List Suffix}

theorem allCounted_nil (truncated : Bool) : AllCounted truncated [] := nofun

theorem allCounted_cons : AllCounted truncated (suffix :: more) ↔
    (truncated = false → suffix.Counted) ∧ AllCounted truncated more := by
  simp only [AllCounted, List.forall_mem_cons, imp_and]

theorem allCounted_append : AllCounted truncated (suffixes ++ more) ↔
    AllCounted truncated suffixes ∧ AllCounted truncated more := by
  simp only [AllCounted, List.forall_mem_append, imp_and]

end

def Name.Ends : Name → List Char → Prop
  | .simple _, after => after.head? ≠ some '\x60'
  | .generic _ _, after => ¬ ['[', ']'] <+: after

structure Name.IsItem (name : Name) (behind : Nat) : Prop where
  unspaced : name.head.head? ≠ some ' '
  undelimited : ∀ c ∈ name.head, c ∉ ['\x60', ',', '>']
  tight : ∀ head, name = .simple head → behind = 0

structure Name.IsElement (name : Name) (noise : List Char) : Prop where
  unclosed : ']' ∉ noise
  ends : name.Ends (noise ++ [']'])
  scanned : Scans '[' name.head ((name.tail ++ noise).headD ']')

mutual

def Name.Delimited : Name → Prop
  | .simple _ => True
  | .generic _ suffix => suffix.Delimited

def Suffix.Delimited : Suffix → Prop
  | .mk _ nested list _ =>
    (∀ names, nested = some names → ∀ c ∈ names, c ∉ ['\x60', '[', '<']) ∧ list.Delimited

def ArgList.Delimited : ArgList → Prop
  | .unbound => True
  | .skipped _ => True
  | .plain items => items.print ≠ [] ∧ items.Delimited
  | .bracketed elements => elements.Delimited

def Items.Delimited : Items → Prop
  | .last _ name behind => name.IsItem behind ∧ name.Delimited
  | .more _ name behind rest => name.IsItem behind ∧ name.Delimited ∧ rest.Delimited

def Elements.Delimited : Elements → Prop
  | .last name noise => name.IsElement noise ∧ name.Delimited
  | .more name noise _ rest => name.IsElement noise ∧ name.Delimited ∧ rest.Delimited

end

/-- No argument starts with the bracket that closes the list. -/
theorem Name.IsItem.not_close {name : Name} {behind : Nat} (h : name.IsItem behind) (before : Nat)
    {after : List Char} (hafter : after.head? ≠ some '>') :
    (spaces before ++ name.print ++ spaces behind ++ after).head? ≠ some '>' := by
  cases before with
  | succ before => exact (by decide : some ' ' ≠ some '>')
  | zero =>
    cases hhead : name.head with
    | cons c cs =>
      have hc := h.undelimited c (by simp [hhead])
      rw [name.print_eq, hhead]
      rintro ⟨⟩
      exact hc (by decide)
    | nil =>
      obtain head | ⟨head, ⟨arity, nested, list, markers⟩⟩ := name
      · obtain rfl : head = [] := hhead
        rw [h.tight [] rfl]
        exact hafter
      · rw [Name.print_eq, hhead]
        exact (by decide : some '\x60' ≠ some '>')

theorem Items.Delimited.not_close {items : Items} (h : items.Delimited) :
    items.print.head? ≠ some '>' := by
  cases items with
  | last before name behind =>
    show (spaces before ++ name.print ++ spaces behind).head? ≠ some '>'
    rw [← List.append_nil (spaces before ++ name.print ++ spaces behind)]
    exact h.1.not_close before nofun
  | more before name behind rest => exact h.1.not_close before (by simp)

section
variable (known : String → Bool)

structure ArgList.Allowed (list : ArgList) (context : ListContext) (depth : Nat) : Prop where
  depth_lt : depth < 64
  angled : context = .plain → list.print.head? = some '<'

mutual

/-- The types that a written name denotes inside of as many lists as `depth` says. -/
def Name.Denotes (context : ListContext) (depth : Nat) : Name → TypeName → Prop
  | .simple head, t => Named known head t
  | .generic head suffix, t =>
    ∃ base, Named known head base ∧ suffix.Denotes context depth base t

def Suffix.Denotes (context : ListContext) (depth : Nat) (base : TypeName) :
    Suffix → TypeName → Prop
  | .mk arity nested list markers, t =>
    arity.value < 18446744073709551616 ∧
    (∀ names, nested = some names → NestedNames base names) ∧
    list.Allowed context depth ∧
    ∃ args, list.Denotes (depth + 1) args ∧
      t = ((nestedNames nested).foldl TypeName.nested { base with args }).withArray
        (0 < markers.val)

def ArgList.Denotes (depth : Nat) : ArgList → List TypeName → Prop
  | .unbound, args => args = []
  | .skipped _, args => args = []
  | .plain items, args => items.print ≠ [] ∧ items.Denotes depth args
  | .bracketed elements, args => elements.Denotes depth args

def Items.Denotes (depth : Nat) : Items → List TypeName → Prop
  | .last _ name behind, args => name.IsItem behind ∧ ∃ t, args = [t] ∧
    (name = .simple [] ∧ t = .topLevel "" "object" ∨ name.Denotes .plain depth t)
  | .more _ name behind rest, args => name.IsItem behind ∧ ∃ t others, args = t :: others ∧
    (name = .simple [] ∧ t = .topLevel "" "object" ∨ name.Denotes .plain depth t) ∧
    rest.Denotes depth others

def Elements.Denotes (depth : Nat) : Elements → List TypeName → Prop
  | .last name noise, args => name.IsElement noise ∧
    ∃ t, args = [t] ∧ name.Denotes .bracketed depth t
  | .more name noise _ rest, args => name.IsElement noise ∧
    ∃ t others, args = t :: others ∧ name.Denotes .bracketed depth t ∧ rest.Denotes depth others

end

mutual

def Name.DenotesIn (context : ListContext) (place : Place) : Name → TypeName → Prop
  | .simple head, t => NamedIn known place.containing head t
  | .generic head suffix, t =>
    ∃ base, NamedIn known place.containing head base ∧ suffix.DenotesIn context place base t

def Suffix.DenotesIn (context : ListContext) (place : Place) (base : TypeName) :
    Suffix → TypeName → Prop
  | .mk arity nested list markers, t =>
    arity.value < 18446744073709551616 ∧
    (∀ names, nested = some names → NestedNames base names) ∧
    list.Allowed context place.depth ∧
    ∃ args, list.DenotesIn place.deeper args ∧
      t = ((nestedNames nested).foldl TypeName.nested { base with args }).withArray
        (0 < markers.val)

def ArgList.DenotesIn (place : Place) : ArgList → List TypeName → Prop
  | .unbound, args => args = []
  | .skipped _, args => args = []
  | .plain items, args => items.print ≠ [] ∧ items.DenotesIn place args
  | .bracketed elements, args => elements.DenotesIn place args

def Items.DenotesIn (place : Place) : Items → List TypeName → Prop
  | .last _ name behind, args => name.IsItem behind ∧ ∃ t, args = [t] ∧
    (name = .simple [] ∧ t = .topLevel "" "object" ∨ name.DenotesIn .plain place t)
  | .more _ name behind rest, args => name.IsItem behind ∧ ∃ t others, args = t :: others ∧
    (name = .simple [] ∧ t = .topLevel "" "object" ∨ name.DenotesIn .plain place t) ∧
    rest.DenotesIn place others

def Elements.DenotesIn (place : Place) : Elements → List TypeName → Prop
  | .last name noise, args => name.IsElement noise ∧
    ∃ t, args = [t] ∧ name.DenotesIn .bracketed place t
  | .more name noise _ rest, args => name.IsElement noise ∧
    ∃ t others, args = t :: others ∧ name.DenotesIn .bracketed place t ∧
    rest.DenotesIn place others

end

mutual

/-- Below no declaration a written name denotes what it denotes wherever it stands. -/
theorem Name.denotesIn_none : (name : Name) → {context : ListContext} → {depth : Nat} →
    {t : TypeName} →
    (name.DenotesIn known context ⟨none, depth⟩ t ↔ name.Denotes known context depth t)
  | .simple _, _, _, _ => namedIn_none
  | .generic _ suffix, _, _, _ =>
    exists_congr fun _ => and_congr namedIn_none suffix.denotesIn_none

theorem Suffix.denotesIn_none : (suffix : Suffix) → {context : ListContext} → {depth : Nat} →
    {base t : TypeName} →
    (suffix.DenotesIn known context ⟨none, depth⟩ base t ↔ suffix.Denotes known context depth base t)
  | .mk _ _ list _, _, _, _, _ =>
    and_congr_right fun _ => and_congr_right fun _ => and_congr_right fun _ =>
      exists_congr fun _ => and_congr_left fun _ => list.denotesIn_none

theorem ArgList.denotesIn_none : (list : ArgList) → {depth : Nat} → {args : List TypeName} →
    (list.DenotesIn known ⟨none, depth⟩ args ↔ list.Denotes known depth args)
  | .unbound, _, _ => Iff.rfl
  | .skipped _, _, _ => Iff.rfl
  | .plain items, _, _ => and_congr_right fun _ => items.denotesIn_none
  | .bracketed elements, _, _ => elements.denotesIn_none

theorem Items.denotesIn_none : (items : Items) → {depth : Nat} → {args : List TypeName} →
    (items.DenotesIn known ⟨none, depth⟩ args ↔ items.Denotes known depth args)
  | .last _ name _, _, _ => and_congr_right fun _ => exists_congr fun _ =>
    and_congr_right fun _ => or_congr_right name.denotesIn_none
  | .more _ name _ rest, _, _ => and_congr_right fun _ => exists_congr fun _ =>
    exists_congr fun _ => and_congr_right fun _ =>
      and_congr (or_congr_right name.denotesIn_none) rest.denotesIn_none

theorem Elements.denotesIn_none : (elements : Elements) → {depth : Nat} →
    {args : List TypeName} →
    (elements.DenotesIn known ⟨none, depth⟩ args ↔ elements.Denotes known depth args)
  | .last name _, _, _ => and_congr_right fun _ => exists_congr fun _ =>
    and_congr_right fun _ => name.denotesIn_none
  | .more name _ _ rest, _, _ => and_congr_right fun _ => exists_congr fun _ =>
    exists_congr fun _ => and_congr_right fun _ =>
      and_congr name.denotesIn_none rest.denotesIn_none

end

variable {known : String → Bool} {place : Place}

theorem Name.DenotesIn.head_named {name : Name} {context : ListContext} {t : TypeName}
    (h : name.DenotesIn known context place t) :
    ∃ base, NamedIn known place.containing name.head base := by
  cases name with
  | simple head => exact ⟨t, h⟩
  | generic head suffix => exact h.imp fun base hbase => hbase.1

theorem Name.DenotesIn.head_ne_nil {name : Name} {context : ListContext} {t : TypeName}
    (h : name.DenotesIn known context place t) : name.head ≠ [] := by
  intro hhead
  obtain ⟨base, hnamed⟩ := h.head_named
  exact not_namedIn_nil (hhead ▸ hnamed)

theorem Items.length_of_denotesIn : {items : Items} → {args : List TypeName} →
    items.DenotesIn known place args → args.length = items.length
  | .last _ _ _, _, ⟨_, _, hargs, _⟩ => by rw [hargs]; rfl
  | .more _ _ _ _, _, ⟨_, _, _, hargs, _, hrest⟩ => by
    rw [hargs, List.length_cons, Items.length_of_denotesIn hrest]
    rfl

theorem Elements.length_of_denotesIn : {elements : Elements} → {args : List TypeName} →
    elements.DenotesIn known place args → args.length = elements.length
  | .last _ _, _, ⟨_, _, hargs, _⟩ => by rw [hargs]; rfl
  | .more _ _ _ _, _, ⟨_, _, _, hargs, _, hrest⟩ => by
    rw [hargs, List.length_cons, Elements.length_of_denotesIn hrest]
    rfl

mutual

theorem Name.DenotesIn.delimited : {name : Name} → {context : ListContext} → {place : Place} →
    {t : TypeName} → name.DenotesIn known context place t → name.Delimited
  | .simple _, _, _, _, _ => trivial
  | .generic _ _, _, _, _, ⟨_, _, hsuffix⟩ => Suffix.DenotesIn.delimited hsuffix

theorem Suffix.DenotesIn.delimited : {suffix : Suffix} → {context : ListContext} →
    {place : Place} → {base t : TypeName} → suffix.DenotesIn known context place base t →
    suffix.Delimited
  | .mk _ _ _ _, _, _, _, _, ⟨_, hnested, _, _, hlist, _⟩ =>
    ⟨fun names h => (hnested names h).plain, ArgList.DenotesIn.delimited hlist⟩

theorem ArgList.DenotesIn.delimited : {list : ArgList} → {place : Place} →
    {args : List TypeName} → list.DenotesIn known place args → list.Delimited
  | .unbound, _, _, _ => trivial
  | .skipped _, _, _, _ => trivial
  | .plain _, _, _, ⟨hprint, hitems⟩ => ⟨hprint, Items.DenotesIn.delimited hitems⟩
  | .bracketed _, _, _, (h : Elements.DenotesIn _ _ _ _) => Elements.DenotesIn.delimited h

theorem Items.DenotesIn.delimited : {items : Items} → {place : Place} → {args : List TypeName} →
    items.DenotesIn known place args → items.Delimited
  | .last _ _ _, _, _, ⟨hitem, _, _, hname⟩ =>
    ⟨hitem, hname.elim (fun h => h.1 ▸ trivial) Name.DenotesIn.delimited⟩
  | .more _ _ _ _, _, _, ⟨hitem, _, _, _, hname, hrest⟩ =>
    ⟨hitem, hname.elim (fun h => h.1 ▸ trivial) Name.DenotesIn.delimited,
      Items.DenotesIn.delimited hrest⟩

theorem Elements.DenotesIn.delimited : {elements : Elements} → {place : Place} →
    {args : List TypeName} → elements.DenotesIn known place args → elements.Delimited
  | .last _ _, _, _, ⟨helement, _, _, hname⟩ => ⟨helement, Name.DenotesIn.delimited hname⟩
  | .more _ _ _ _, _, _, ⟨helement, _, _, _, hname, hrest⟩ =>
    ⟨helement, Name.DenotesIn.delimited hname, Elements.DenotesIn.delimited hrest⟩

end

theorem ArgList.length_of_denotes {depth : Nat} {list : ArgList} {args : List TypeName}
    (h : list.Denotes known depth args) : args.length = list.size := by
  have hin := (list.denotesIn_none known).mpr h
  cases list with
  | unbound => exact List.length_eq_zero_iff.mpr hin
  | skipped text => exact List.length_eq_zero_iff.mpr hin
  | plain items => exact Items.length_of_denotesIn hin.2
  | bracketed elements => exact Elements.length_of_denotesIn hin

end

end ClrNames.Written
