import ClrNames.Proofs.DottedNames
import ClrNames.Proofs.Unambiguous

/-!
# Spaces in plain lists

Around an argument of a plain list spaces are passed over, but the name of an argument
reaches up to the next delimiter: only behind a generic argument, which ends with its
list, are the spaces not part of the name. Spaces that are put in elsewhere change
nothing, and spaces behind a simple name always change what is read.
-/

set_option autoImplicit false

namespace ClrNames.Text

inductive Spread : List Char → List Char → Prop
  | nil : Spread [] []
  | keep (c : Char) {cs ds : List Char} (h : Spread cs ds) : Spread (c :: cs) (c :: ds)
  | space {cs ds : List Char} (h : Spread cs ds) : Spread cs (' ' :: ds)

namespace Spread

variable {cs ds cs' ds' piece : List Char}

theorem refl : (cs : List Char) → Spread cs cs
  | [] => .nil
  | c :: cs => .keep c (refl cs)

theorem append (h : Spread cs ds) (h' : Spread cs' ds') : Spread (cs ++ cs') (ds ++ ds') := by
  induction h with
  | nil => exact h'
  | keep c h ih => exact .keep c ih
  | space h ih => exact .space ih

theorem replicate {m n : Nat} (h : m ≤ n) :
    Spread (List.replicate m ' ') (List.replicate n ' ') := by
  induction h with
  | refl => exact refl _
  | step h ih => exact .space ih

theorem eq_nil (h : Spread cs []) : cs = [] := by
  cases h
  rfl

/-- A piece without spaces is not torn apart, so it was there before. -/
theorem prefix_of (h : Spread cs ds) (hpiece : ' ' ∉ piece) (hstarts : piece <+: ds) :
    piece <+: cs := by
  induction h generalizing piece with
  | nil => exact hstarts
  | keep c h ih =>
    cases piece with
    | nil => exact List.nil_prefix
    | cons d piece =>
      obtain ⟨rfl, hbehind⟩ := List.cons_prefix_cons.mp hstarts
      exact List.cons_prefix_cons.mpr
        ⟨rfl, ih (fun hmem => hpiece (List.mem_cons_of_mem _ hmem)) hbehind⟩
  | space h ih =>
    cases piece with
    | nil => exact List.nil_prefix
    | cons d piece =>
      obtain ⟨rfl, -⟩ := List.cons_prefix_cons.mp hstarts
      exact absurd List.mem_cons_self hpiece

theorem infix_of (h : Spread cs ds) (hpiece : ' ' ∉ piece) (hinside : piece <:+: ds) :
    piece <:+: cs := by
  induction h with
  | nil => exact hinside
  | keep c h ih =>
    rcases List.infix_cons_iff.mp hinside with hstarts | hinside
    · exact ((Spread.keep c h).prefix_of hpiece hstarts).isInfix
    · exact (ih hinside).trans (List.infix_cons (List.infix_refl _))
  | space h ih =>
    rcases List.infix_cons_iff.mp hinside with hstarts | hinside
    · exact ((Spread.space h).prefix_of hpiece hstarts).isInfix
    · exact ih hinside

/-- What marks a compiler-generated name has no spaces. -/
theorem isCompilerGenerated (h : Spread cs ds) (hcs : isCompilerGenerated cs = false) :
    ClrNames.isCompilerGenerated ds = false := by
  have hoccurs {piece : List Char} (hpiece : ' ' ∉ piece) (hnone : occurs piece cs = false) :
      occurs piece ds = false := by
    rw [← Bool.not_eq_true, occurs_iff] at hnone ⊢
    exact mt (h.infix_of hpiece) hnone
  rw [ClrNames.isCompilerGenerated, Bool.or_eq_false_iff] at hcs ⊢
  exact ⟨hoccurs (by decide) hcs.1, hoccurs (by decide) hcs.2⟩

end Spread

end ClrNames.Text

namespace ClrNames.Grammar
open Text Written

theorem readIndex?_spaced {cs : List Char} (h : ' ' ∈ cs) : readIndex? cs = none := by
  have hdigits : ' ' ∈ (if cs.head? = some '+' then cs.drop 1 else cs) := by
    split
    next hplus =>
      obtain ⟨more, rfl⟩ := List.head?_eq_some_iff.mp hplus
      simpa using h
    next => exact h
  unfold readIndex?
  rw [if_pos]
  rw [Bool.or_eq_true, Bool.not_eq_true', List.all_eq_false]
  exact .inr ⟨' ', hdigits, by decide⟩

/-- No parameter is named with a space. -/
theorem readParam?_spaced {cs : List Char} (h : ' ' ∈ cs) :
    readParam? ('!' :: cs) = none := by
  unfold readParam?
  split
  next digits heq =>
    obtain ⟨-, rfl⟩ := List.cons.inj heq
    rw [readIndex?_spaced (by simpa using h)]
    rfl
  next =>
    rw [List.drop_one, List.tail_cons, readIndex?_spaced h]
    rfl

end ClrNames.Grammar

namespace ClrNames.Text
open Written

theorem unmarked_spaced (cs : List Char) (count : Nat) :
    ¬ ['[', ']'] <:+ cs ++ spaces (count + 1) := by
  rw [spaces, List.replicate_succ', ← List.append_assoc, ← List.reverse_prefix]
  simp [List.cons_prefix_cons]

theorem stripByRef_spaced (cs : List Char) (count : Nat) :
    stripByRef (cs ++ spaces (count + 1)) = cs ++ spaces (count + 1) := by
  rw [spaces, List.replicate_succ', ← List.append_assoc]
  simp [stripByRef]

/-- What stands behind a name without a dot goes to its last segment. -/
theorem exists_segments_append (text : List Char) {more : List Char} (hmore : '.' ∉ more) :
    ∃ qualifier last, segments text = qualifier ++ [last] ∧
      segments (text ++ more) = qualifier ++ [last ++ more] := by
  obtain ⟨qualifier, last, hparts⟩ : ∃ qualifier last, segments text = qualifier ++ [last] :=
    ⟨_, _, (List.dropLast_concat_getLast (segments_ne_nil text)).symm⟩
  have hdotless : ∀ part ∈ qualifier ++ [last], '.' ∉ part := by
    rw [← hparts]
    exact fun part hpart hdot => (mem_segments hpart _ hdot).1 rfl
  refine ⟨qualifier, last, hparts, ?_⟩
  rw [← segments_append hdotless hmore, ← hparts, dotted_segments]

theorem dot_not_mem_spaces (count : Nat) : '.' ∉ spaces count := by
  simp [spaces]

/-- Spaces behind a dotted name are part of its last segment. -/
theorem Dotted.spaced {text last : List Char} {qualifier : List (List Char)} {markers : Nat}
    (h : Dotted text qualifier last markers) (count : Nat) :
    Dotted (text ++ spaces (count + 1)) qualifier
      (last ++ brackets markers ++ spaces (count + 1)) 0 where
  split := by
    obtain ⟨qualifier', last', hparts, hspaced⟩ :=
      exists_segments_append text (dot_not_mem_spaces (count + 1))
    rw [h.split] at hparts
    obtain ⟨rfl, hlast⟩ := List.append_inj' hparts rfl
    rw [hspaced, ← (List.cons.inj hlast).1, brackets_zero, List.append_nil]
  unmarked := unmarked_spaced _ count
  plain := by
    have hhead : (last ++ brackets markers).head? ≠ some '!' :=
      head?_append_brackets (by decide) h.plain
    rw [List.head?_append]
    cases hfirst : (last ++ brackets markers).head? with
    | none => exact (by decide : some ' ' ≠ some '!')
    | some c => rwa [hfirst] at hhead

end ClrNames.Text

namespace ClrNames.Grammar
open Text Written

/-- No reference has a space behind it. -/
theorem backReference_spaced {σ : Settings} {token : List Char} {count : Nat} {s u : State}
    {t : TypeName} (hhead : token.head? = some '!') :
    backReference σ (token ++ spaces (count + 1)) s ≠ .ok t u := by
  obtain ⟨digits, rfl⟩ := List.head?_eq_some_iff.mp hhead
  have hmarkers := withoutMarkers_append_brackets (unmarked_spaced ('!' :: digits) count) 0
  rw [brackets_zero, List.append_nil] at hmarkers
  have hparam : tokenParam? ('!' :: digits ++ spaces (count + 1)) = none := by
    rw [tokenParam?, stripByRef_spaced, hmarkers, stripByRef_spaced]
    exact readParam?_spaced (List.mem_append_right _ (by simp [spaces]))
  intro hread
  obtain ⟨-, ⟨p, hp, -⟩, -⟩ := backReference_ok_iff.mp hread
  rw [hparam] at hp
  cases hp

theorem name_of_dotted {σ : Settings} {text last : List Char} {qualifier : List (List Char)}
    {markers : Nat} (h : Dotted text qualifier last markers) {s u : State} {t : TypeName}
    (hname : nameOf σ text s = .ok t u) : t.name = String.ofList last := by
  obtain ⟨-, -, -, -, rfl, -⟩ := (nameOf_dotted_ok_iff h).mp hname
  rw [chainOf, TypeName.withArray_name, TypeName.name_ofChain]

section
variable {known : String → Bool} {containing : Option TypeName} {head : List Char} {t : TypeName}

/-- With spaces behind it a name names something else, if anything. -/
theorem namedIn_spaced {count : Nat} (h : NamedIn known containing head t)
    (hspaced : NamedIn known containing (head ++ spaces count) t) : count = 0 := by
  cases count with
  | zero => rfl
  | succ count =>
    let s : State := ⟨.start [] containing, 0⟩
    by_cases hhead : ((segments head).getLastD []).head? = some '!'
    · obtain ⟨qualifier, last, hparts, hmore⟩ :=
        exists_segments_append head (dot_not_mem_spaces (count + 1))
      rw [hparts, List.getLastD_concat] at hhead
      have hread := hspaced s rfl
      unfold nameOf at hread
      obtain ⟨-, hread⟩ := check_eq_ok hread
      obtain ⟨digits, hdigits⟩ := List.head?_eq_some_iff.mp hhead
      have hlast : (last ++ spaces (count + 1)).head? = some '!' := by rw [hdigits]; rfl
      rw [hmore, List.getLastD_concat, if_pos hlast] at hread
      exact absurd hread (backReference_spaced hhead)
    · obtain ⟨-, qualifier, last, markers, -, -, -, hdotted⟩ := exists_dotted hhead
      have hname := name_of_dotted hdotted (h s rfl)
      have hname' := name_of_dotted (hdotted.spaced count) (hspaced s rfl)
      have hlength := congrArg List.length (String.ofList_injective (hname.symm.trans hname'))
      simp [spaces] at hlength

end

end ClrNames.Grammar

namespace ClrNames.Written
open Text Grammar

section
variable (loose : Bool)

mutual

/-- The same name with more spaces around the arguments of its plain lists. Behind an
argument that is a simple name they only stand if the padding is loose. -/
def Name.Padded : Name → Name → Prop
  | .simple head, padded => padded = .simple head
  | .generic head suffix, padded => ∃ suffix', padded = .generic head suffix' ∧
    suffix.Padded suffix'
termination_by structural x => x

def Suffix.Padded : Suffix → Suffix → Prop
  | .mk arity nested list markers, padded => ∃ list', padded = .mk arity nested list' markers ∧
    list.Padded list'
termination_by structural x => x

def ArgList.Padded : ArgList → ArgList → Prop
  | .unbound, padded => padded = .unbound
  | .skipped text, padded => padded = .skipped text
  | .plain items, padded => ∃ items', padded = .plain items' ∧ items.Padded items'
  | .bracketed elements, padded => ∃ elements', padded = .bracketed elements' ∧
    elements.Padded elements'
termination_by structural x => x

def Items.Padded : Items → Items → Prop
  | .last before name behind, padded => ∃ before' name' behind',
    padded = .last before' name' behind' ∧ before ≤ before' ∧
    name.PaddedItem behind name' behind'
  | .more before name behind rest, padded => ∃ before' name' behind' rest',
    padded = .more before' name' behind' rest' ∧ before ≤ before' ∧
    name.PaddedItem behind name' behind' ∧ rest.Padded rest'
termination_by structural x => x

/-- Spaces behind a simple name come to be part of it; behind an argument that is left out
they stand in front of it as well. -/
def Name.PaddedItem : Name → Nat → Name → Nat → Prop
  | .simple head, behind, name', behind' => behind' = behind ∧
    ∃ count, name' = .simple (head ++ spaces count) ∧ (count = 0 ∨ loose = true ∧ head ≠ [])
  | .generic head suffix, behind, name', behind' => behind ≤ behind' ∧
    ∃ suffix', name' = .generic head suffix' ∧ suffix.Padded suffix'
termination_by structural x => x

def Elements.Padded : Elements → Elements → Prop
  | .last name noise, padded => ∃ name', padded = .last name' noise ∧ name.Padded name'
  | .more name noise gap rest, padded => ∃ name' rest', padded = .more name' noise gap rest' ∧
    name.Padded name' ∧ rest.Padded rest'
termination_by structural x => x

end

end

section
variable {loose : Bool}

mutual

theorem Name.Padded.spread : {name padded : Name} → name.Padded loose padded →
    Spread name.print padded.print
  | .simple head, _, rfl => .refl head
  | .generic head _, _, ⟨_, rfl, h⟩ => (Spread.refl head).append (Suffix.Padded.spread h)

theorem Suffix.Padded.spread : {suffix padded : Suffix} → suffix.Padded loose padded →
    Spread suffix.print padded.print
  | .mk _ _ _ _, _, ⟨_, rfl, h⟩ =>
    (Spread.refl _).append ((Spread.refl _).append ((ArgList.Padded.spread h).append (.refl _)))

theorem ArgList.Padded.spread : {list padded : ArgList} → list.Padded loose padded →
    Spread list.print padded.print
  | .unbound, _, rfl => .refl _
  | .skipped _, _, rfl => .refl _
  | .plain _, _, ⟨_, rfl, h⟩ => .keep '<' ((Items.Padded.spread h).append (.refl _))
  | .bracketed _, _, ⟨_, rfl, h⟩ => .keep '[' ((Elements.Padded.spread h).append (.refl _))

theorem Items.Padded.spread : {items padded : Items} → items.Padded loose padded →
    Spread items.print padded.print
  | .last _ _ _, _, ⟨_, _, _, rfl, hbefore, h⟩ => by
    simp only [Items.print, List.append_assoc]
    exact (Spread.replicate hbefore).append (Name.PaddedItem.spread h)
  | .more _ _ _ _, _, ⟨_, _, _, _, rfl, hbefore, h, hrest⟩ => by
    have hbehind := Spread.keep ',' (Items.Padded.spread hrest)
    simpa [Items.print, spaces] using
      (Spread.replicate hbefore).append ((Name.PaddedItem.spread h).append hbehind)

theorem Name.PaddedItem.spread : {name padded : Name} → {behind behind' : Nat} →
    name.PaddedItem loose behind padded behind' →
    Spread (name.print ++ spaces behind) (padded.print ++ spaces behind')
  | .simple head, _, _, _, ⟨rfl, count, rfl, _⟩ => by
    have hspaces : Spread [] (spaces count) := Spread.replicate (Nat.zero_le count)
    have hhead := (Spread.refl head).append hspaces
    rw [List.append_nil] at hhead
    exact hhead.append (.refl _)
  | .generic head _, _, _, _, ⟨hbehind, _, rfl, h⟩ =>
    ((Spread.refl head).append (Suffix.Padded.spread h)).append (Spread.replicate hbehind)

theorem Elements.Padded.spread : {elements padded : Elements} →
    elements.Padded loose padded → Spread elements.print padded.print
  | .last _ _, _, ⟨_, rfl, h⟩ =>
    .keep '[' (((Name.Padded.spread h).append (.refl _)).append (.refl _))
  | .more _ noise gap _, _, ⟨_, _, rfl, h, hrest⟩ => by
    have hbehind := (Spread.refl (']' :: ',' :: spaces gap)).append (Elements.Padded.spread hrest)
    simpa [Elements.print] using
      Spread.keep '[' (((Name.Padded.spread h).append (.refl noise)).append hbehind)

end

theorem Name.Padded.head {name padded : Name} (h : name.Padded loose padded) :
    padded.head = name.head := by
  cases name with
  | simple head => rw [h]
  | generic head suffix =>
    obtain ⟨suffix', rfl, -⟩ := h
    rfl

/-- An argument ends where it did, with its spaces. -/
theorem Name.PaddedItem.isItem {name padded : Name} {behind behind' : Nat}
    (h : name.PaddedItem loose behind padded behind') (hitem : name.IsItem behind) :
    padded.IsItem behind' := by
  cases name with
  | generic head suffix =>
    obtain ⟨-, suffix', rfl, -⟩ := h
    exact ⟨hitem.unspaced, hitem.undelimited, nofun⟩
  | simple head =>
    obtain ⟨rfl, count, rfl, hcount⟩ := h
    refine ⟨?_, ?_, fun _ _ => hitem.tight head rfl⟩
    · have hunspaced : head.head? ≠ some ' ' := hitem.unspaced
      show (head ++ spaces count).head? ≠ some ' '
      rcases hcount with rfl | ⟨-, hhead⟩
      · simpa [spaces] using hunspaced
      · obtain ⟨c, cs, rfl⟩ := List.exists_cons_of_ne_nil hhead
        exact hunspaced
    · intro c hc
      rcases List.mem_append.mp hc with hc | hc
      · exact hitem.undelimited c hc
      · rw [List.eq_of_mem_replicate hc]
        decide

/-- An element ends where it did. -/
theorem Name.Padded.isElement {name padded : Name} {noise : List Char}
    (h : name.Padded loose padded) (helement : name.IsElement noise) : padded.IsElement noise := by
  cases name with
  | simple head =>
    obtain rfl : padded = .simple head := h
    exact helement
  | generic head suffix =>
    obtain ⟨⟨arity, nested, list, markers⟩, rfl, -⟩ := h
    obtain ⟨arity, nested, list, markers⟩ := suffix
    exact ⟨helement.unclosed, helement.ends, helement.scanned⟩

mutual

theorem Name.Padded.delimited : {name padded : Name} → name.Padded loose padded →
    name.Delimited → padded.Delimited
  | .simple _, _, rfl, _ => trivial
  | .generic _ _, _, ⟨_, rfl, h⟩, hname => Suffix.Padded.delimited h hname

theorem Suffix.Padded.delimited : {suffix padded : Suffix} → suffix.Padded loose padded →
    suffix.Delimited → padded.Delimited
  | .mk _ _ _ _, _, ⟨_, rfl, h⟩, ⟨hnested, hlist⟩ => ⟨hnested, ArgList.Padded.delimited h hlist⟩

theorem ArgList.Padded.delimited : {list padded : ArgList} → list.Padded loose padded →
    list.Delimited → padded.Delimited
  | .unbound, _, rfl, _ => trivial
  | .skipped _, _, rfl, _ => trivial
  | .plain _, _, ⟨_, rfl, h⟩, ⟨hprint, hitems⟩ =>
    ⟨fun hnil => hprint (hnil ▸ h.spread).eq_nil, Items.Padded.delimited h hitems⟩
  | .bracketed _, _, ⟨_, rfl, h⟩, hlist => Elements.Padded.delimited h hlist

theorem Items.Padded.delimited : {items padded : Items} → items.Padded loose padded →
    items.Delimited → padded.Delimited
  | .last _ _ _, _, ⟨_, _, _, rfl, _, h⟩, ⟨hitem, hname⟩ =>
    ⟨h.isItem hitem, Name.PaddedItem.delimited h hname⟩
  | .more _ _ _ _, _, ⟨_, _, _, _, rfl, _, h, hrest⟩, ⟨hitem, hname, hothers⟩ =>
    ⟨h.isItem hitem, Name.PaddedItem.delimited h hname, Items.Padded.delimited hrest hothers⟩

theorem Name.PaddedItem.delimited : {name padded : Name} → {behind behind' : Nat} →
    name.PaddedItem loose behind padded behind' → name.Delimited → padded.Delimited
  | .simple _, _, _, _, ⟨_, _, rfl, _⟩, _ => trivial
  | .generic _ _, _, _, _, ⟨_, _, rfl, h⟩, hname => Suffix.Padded.delimited h hname

theorem Elements.Padded.delimited : {elements padded : Elements} →
    elements.Padded loose padded → elements.Delimited → padded.Delimited
  | .last _ _, _, ⟨_, rfl, h⟩, ⟨helement, hname⟩ =>
    ⟨h.isElement helement, Name.Padded.delimited h hname⟩
  | .more _ _ _ _, _, ⟨_, _, rfl, h, hrest⟩, ⟨helement, hname, hothers⟩ =>
    ⟨h.isElement helement, Name.Padded.delimited h hname, Elements.Padded.delimited hrest hothers⟩

end

theorem Items.Padded.length : {items padded : Items} → items.Padded loose padded →
    padded.length = items.length
  | .last _ _ _, _, ⟨_, _, _, rfl, _, _⟩ => rfl
  | .more _ _ _ _, _, ⟨_, _, _, _, rfl, _, _, hrest⟩ =>
    congrArg (· + 1) (Items.Padded.length hrest)

theorem Elements.Padded.length : {elements padded : Elements} → elements.Padded loose padded →
    padded.length = elements.length
  | .last _ _, _, ⟨_, rfl, _⟩ => rfl
  | .more _ _ _ _, _, ⟨_, _, rfl, _, hrest⟩ => congrArg (· + 1) (Elements.Padded.length hrest)

/-- A list may stand where it did. -/
theorem ArgList.Padded.allowed {list padded : ArgList} {context : ListContext} {depth : Nat}
    (h : list.Padded loose padded) (hallowed : list.Allowed context depth) :
    padded.Allowed context depth := by
  have hhead : padded.print.head? = list.print.head? := by
    cases list with
    | unbound => rw [show padded = .unbound from h]
    | skipped text => rw [show padded = .skipped text from h]
    | plain items =>
      obtain ⟨items', rfl, -⟩ := h
      rfl
    | bracketed elements =>
      obtain ⟨elements', rfl, -⟩ := h
      rfl
  exact ⟨hallowed.depth_lt, fun hcontext => hhead.trans (hallowed.angled hcontext)⟩

/-- As many arguments are listed as were. -/
theorem ArgList.Padded.counted {list padded : ArgList} {declared : Nat}
    (h : list.Padded loose padded) (hcounted : list.Counted declared) : padded.Counted declared := by
  cases list with
  | unbound =>
    obtain rfl : padded = .unbound := h
    exact hcounted
  | skipped text =>
    obtain rfl : padded = .skipped text := h
    exact hcounted
  | plain items =>
    obtain ⟨items', rfl, h⟩ := h
    exact .inl (h.length.trans (hcounted.size_eq items.length_ne_zero))
  | bracketed elements =>
    obtain ⟨elements', rfl, h⟩ := h
    exact .inl (h.length.trans (hcounted.size_eq elements.length_ne_zero))

section
variable {truncated : Bool}

mutual

theorem Name.Padded.allCounted : {name padded : Name} → name.Padded loose padded →
    AllCounted truncated name.suffixes → AllCounted truncated padded.suffixes
  | .simple _, _, rfl, h => h
  | .generic _ _, _, ⟨_, rfl, hsuffix⟩, h => Suffix.Padded.allCounted hsuffix h

theorem Suffix.Padded.allCounted : {suffix padded : Suffix} → suffix.Padded loose padded →
    AllCounted truncated suffix.suffixes → AllCounted truncated padded.suffixes
  | .mk _ _ _ _, _, ⟨_, rfl, hlist⟩, h =>
    allCounted_cons.mpr ⟨fun htruncated => hlist.counted ((allCounted_cons.mp h).1 htruncated),
      ArgList.Padded.allCounted hlist (allCounted_cons.mp h).2⟩

theorem ArgList.Padded.allCounted : {list padded : ArgList} → list.Padded loose padded →
    AllCounted truncated list.suffixes → AllCounted truncated padded.suffixes
  | .unbound, _, rfl, h => h
  | .skipped _, _, rfl, h => h
  | .plain _, _, ⟨_, rfl, hitems⟩, h => Items.Padded.allCounted hitems h
  | .bracketed _, _, ⟨_, rfl, helements⟩, h => Elements.Padded.allCounted helements h

theorem Items.Padded.allCounted : {items padded : Items} → items.Padded loose padded →
    AllCounted truncated items.suffixes → AllCounted truncated padded.suffixes
  | .last _ _ _, _, ⟨_, _, _, rfl, _, hname⟩, h => Name.PaddedItem.allCounted hname h
  | .more _ _ _ _, _, ⟨_, _, _, _, rfl, _, hname, hrest⟩, h =>
    allCounted_append.mpr ⟨Name.PaddedItem.allCounted hname (allCounted_append.mp h).1,
      Items.Padded.allCounted hrest (allCounted_append.mp h).2⟩

theorem Name.PaddedItem.allCounted : {name padded : Name} → {behind behind' : Nat} →
    name.PaddedItem loose behind padded behind' → AllCounted truncated name.suffixes →
    AllCounted truncated padded.suffixes
  | .simple _, _, _, _, ⟨_, _, rfl, _⟩, h => h
  | .generic _ _, _, _, _, ⟨_, _, rfl, hsuffix⟩, h => Suffix.Padded.allCounted hsuffix h

theorem Elements.Padded.allCounted : {elements padded : Elements} →
    elements.Padded loose padded → AllCounted truncated elements.suffixes →
    AllCounted truncated padded.suffixes
  | .last _ _, _, ⟨_, rfl, hname⟩, h => Name.Padded.allCounted hname h
  | .more _ _ _ _, _, ⟨_, _, rfl, hname, hrest⟩, h =>
    allCounted_append.mpr ⟨Name.Padded.allCounted hname (allCounted_append.mp h).1,
      Elements.Padded.allCounted hrest (allCounted_append.mp h).2⟩

end

end

end

/-- The arguments of a base can be told from the type that is nested in it. -/
theorem args_of_nested {base : TypeName} {args args' : List TypeName} {names : List String}
    {mark : Bool} (h : (names.foldl TypeName.nested { base with args }).withArray mark =
      (names.foldl TypeName.nested { base with args := args' }).withArray mark) : args = args' := by
  have hnested {a b : TypeName} : {names : List String} →
      names.foldl TypeName.nested a = names.foldl TypeName.nested b → a = b := by
    intro names heq
    induction names generalizing a b with
    | nil => exact heq
    | cons name names ih => exact Option.some.inj (congrArg TypeName.enclosing (ih heq))
  rcases List.eq_nil_or_concat names with rfl | ⟨front, last, rfl⟩
  · exact congrArg TypeName.args h
  · rw [List.concat_eq_append, List.foldl_append, List.foldl_append] at h
    exact congrArg TypeName.args (hnested (Option.some.inj (congrArg TypeName.enclosing h)))

section
variable {known : String → Bool}

mutual

/-- Where spaces are only passed over a name still denotes what it did. -/
theorem Name.Padded.denotesIn : {name padded : Name} → {context : ListContext} →
    {place : Place} → {t : TypeName} → name.Padded false padded →
    name.DenotesIn known context place t → padded.DenotesIn known context place t
  | .simple _, _, _, _, _, rfl, h => h
  | .generic _ _, _, _, _, _, ⟨_, rfl, hsuffix⟩, ⟨base, hbase, h⟩ =>
    ⟨base, hbase, Suffix.Padded.denotesIn hsuffix h⟩

theorem Suffix.Padded.denotesIn : {suffix padded : Suffix} → {context : ListContext} →
    {place : Place} → {base t : TypeName} → suffix.Padded false padded →
    suffix.DenotesIn known context place base t → padded.DenotesIn known context place base t
  | .mk _ _ _ _, _, _, _, _, _, ⟨_, rfl, hlist⟩, ⟨hlt, hnested, hallowed, args, hargs, heq⟩ =>
    ⟨hlt, hnested, hlist.allowed hallowed, args, ArgList.Padded.denotesIn hlist hargs, heq⟩

theorem ArgList.Padded.denotesIn : {list padded : ArgList} → {place : Place} →
    {args : List TypeName} → list.Padded false padded → list.DenotesIn known place args →
    padded.DenotesIn known place args
  | .unbound, _, _, _, rfl, h => h
  | .skipped _, _, _, _, rfl, h => h
  | .plain _, _, _, _, ⟨_, rfl, hitems⟩, ⟨hprint, h⟩ =>
    ⟨fun hnil => hprint (hnil ▸ hitems.spread).eq_nil, Items.Padded.denotesIn hitems h⟩
  | .bracketed _, _, _, _, ⟨_, rfl, helements⟩, h => Elements.Padded.denotesIn helements h

theorem Items.Padded.denotesIn : {items padded : Items} → {place : Place} →
    {args : List TypeName} → items.Padded false padded → items.DenotesIn known place args →
    padded.DenotesIn known place args
  | .last _ _ _, _, _, _, ⟨_, _, _, rfl, _, hname⟩, ⟨hitem, t, heq, h⟩ =>
    ⟨hname.isItem hitem, t, heq, Name.PaddedItem.denotesIn hname h⟩
  | .more _ _ _ _, _, _, _, ⟨_, _, _, _, rfl, _, hname, hrest⟩, ⟨hitem, t, others, heq, h, hothers⟩ =>
    ⟨hname.isItem hitem, t, others, heq, Name.PaddedItem.denotesIn hname h,
      Items.Padded.denotesIn hrest hothers⟩

theorem Name.PaddedItem.denotesIn : {name padded : Name} → {behind behind' : Nat} →
    {place : Place} → {t u : TypeName} → name.PaddedItem false behind padded behind' →
    (name = .simple [] ∧ t = u ∨ name.DenotesIn known .plain place t) →
    (padded = .simple [] ∧ t = u ∨ padded.DenotesIn known .plain place t)
  | .simple head, _, _, _, _, _, _, ⟨_, count, rfl, hcount⟩, h => by
    obtain rfl : count = 0 := hcount.resolve_right nofun
    rwa [show head ++ spaces 0 = head from List.append_nil head]
  | .generic _ _, _, _, _, _, _, _, ⟨_, _, rfl, hsuffix⟩, h => by
    obtain ⟨base, hbase, hdenotes⟩ := h.resolve_left nofun
    exact .inr ⟨base, hbase, Suffix.Padded.denotesIn hsuffix hdenotes⟩

theorem Elements.Padded.denotesIn : {elements padded : Elements} → {place : Place} →
    {args : List TypeName} → elements.Padded false padded →
    elements.DenotesIn known place args → padded.DenotesIn known place args
  | .last _ _, _, _, _, ⟨_, rfl, hname⟩, ⟨helement, t, heq, h⟩ =>
    ⟨hname.isElement helement, t, heq, Name.Padded.denotesIn hname h⟩
  | .more _ _ _ _, _, _, _, ⟨_, _, rfl, hname, hrest⟩, ⟨helement, t, others, heq, h, hothers⟩ =>
    ⟨hname.isElement helement, t, others, heq, Name.Padded.denotesIn hname h,
      Elements.Padded.denotesIn hrest hothers⟩

end

mutual

/-- What still denotes the same has no spaces behind a simple name. -/
theorem Name.Padded.tight : {name padded : Name} → {context : ListContext} →
    {place : Place} → {t : TypeName} → name.Padded true padded →
    name.DenotesIn known context place t → padded.DenotesIn known context place t →
    name.Padded false padded
  | .simple _, _, _, _, _, rfl, _, _ => rfl
  | .generic _ _, _, _, _, _, ⟨suffix', rfl, hsuffix⟩, ⟨base, hbase, h⟩, ⟨base', hbase', h'⟩ => by
    obtain rfl := hbase.unique hbase'
    exact ⟨suffix', rfl, Suffix.Padded.tight hsuffix h h'⟩

theorem Suffix.Padded.tight : {suffix padded : Suffix} → {context : ListContext} →
    {place : Place} → {base t : TypeName} → suffix.Padded true padded →
    suffix.DenotesIn known context place base t → padded.DenotesIn known context place base t →
    suffix.Padded false padded
  | .mk _ _ _ _, _, _, _, _, _, ⟨list', rfl, hlist⟩, ⟨_, _, _, args, hargs, heq⟩,
      ⟨_, _, _, args', hargs', heq'⟩ => by
    obtain rfl := args_of_nested (heq.symm.trans heq')
    exact ⟨list', rfl, ArgList.Padded.tight hlist hargs hargs'⟩

theorem ArgList.Padded.tight : {list padded : ArgList} → {place : Place} →
    {args : List TypeName} → list.Padded true padded → list.DenotesIn known place args →
    padded.DenotesIn known place args → list.Padded false padded
  | .unbound, _, _, _, rfl, _, _ => rfl
  | .skipped _, _, _, _, rfl, _, _ => rfl
  | .plain _, _, _, _, ⟨items', rfl, hitems⟩, ⟨_, h⟩, ⟨_, h'⟩ =>
    ⟨items', rfl, Items.Padded.tight hitems h h'⟩
  | .bracketed _, _, _, _, ⟨elements', rfl, helements⟩, h, h' =>
    ⟨elements', rfl, Elements.Padded.tight helements h h'⟩

theorem Items.Padded.tight : {items padded : Items} → {place : Place} →
    {args : List TypeName} → items.Padded true padded → items.DenotesIn known place args →
    padded.DenotesIn known place args → items.Padded false padded
  | .last _ _ _, _, _, _, ⟨before', name', behind', rfl, hbefore, hname⟩, ⟨_, t, heq, h⟩,
      ⟨_, t', heq', h'⟩ => by
    obtain rfl := (List.cons.inj (heq.symm.trans heq')).1
    exact ⟨before', name', behind', rfl, hbefore, Name.PaddedItem.tight hname h h'⟩
  | .more _ _ _ _, _, _, _, ⟨before', name', behind', rest', rfl, hbefore, hname, hrest⟩,
      ⟨_, t, others, heq, h, hothers⟩, ⟨_, t', others', heq', h', hothers'⟩ => by
    obtain ⟨rfl, rfl⟩ := List.cons.inj (heq.symm.trans heq')
    exact ⟨before', name', behind', rest', rfl, hbefore, Name.PaddedItem.tight hname h h',
      Items.Padded.tight hrest hothers hothers'⟩

theorem Name.PaddedItem.tight : {name padded : Name} → {behind behind' : Nat} →
    {place : Place} → {t u : TypeName} → name.PaddedItem true behind padded behind' →
    (name = .simple [] ∧ t = u ∨ name.DenotesIn known .plain place t) →
    (padded = .simple [] ∧ t = u ∨ padded.DenotesIn known .plain place t) →
    name.PaddedItem false behind padded behind'
  | .simple head, _, _, _, _, _, _, ⟨hbehind, count, rfl, hcount⟩, h, h' => by
    refine ⟨hbehind, count, rfl, .inl ?_⟩
    rcases hcount with hcount | ⟨-, hhead⟩
    · exact hcount
    · have hnamed := h.resolve_left fun h => hhead (Name.simple.inj h.1)
      have hspaced := h'.resolve_left fun h =>
        hhead (List.append_eq_nil_iff.mp (Name.simple.inj h.1)).1
      exact namedIn_spaced hnamed hspaced
  | .generic _ _, _, _, _, _, _, _, ⟨hbehind, suffix', rfl, hsuffix⟩, h, h' => by
    obtain ⟨base, hbase, hdenotes⟩ := h.resolve_left nofun
    obtain ⟨base', hbase', hdenotes'⟩ := h'.resolve_left nofun
    obtain rfl := hbase.unique hbase'
    exact ⟨hbehind, suffix', rfl, Suffix.Padded.tight hsuffix hdenotes hdenotes'⟩

theorem Elements.Padded.tight : {elements padded : Elements} → {place : Place} →
    {args : List TypeName} → elements.Padded true padded → elements.DenotesIn known place args →
    padded.DenotesIn known place args → elements.Padded false padded
  | .last _ _, _, _, _, ⟨name', rfl, hname⟩, ⟨_, t, heq, h⟩, ⟨_, t', heq', h'⟩ => by
    obtain rfl := (List.cons.inj (heq.symm.trans heq')).1
    exact ⟨name', rfl, Name.Padded.tight hname h h'⟩
  | .more _ _ _ _, _, _, _, ⟨name', rest', rfl, hname, hrest⟩, ⟨_, t, others, heq, h, hothers⟩,
      ⟨_, t', others', heq', h', hothers'⟩ => by
    obtain ⟨rfl, rfl⟩ := List.cons.inj (heq.symm.trans heq')
    exact ⟨name', rest', rfl, Name.Padded.tight hname h h',
      Elements.Padded.tight hrest hothers hothers'⟩

end

end

end ClrNames.Written

namespace ClrNames
open Grammar Written Text

/-- Spaces around the arguments of plain lists are passed over but for those that stand
directly behind a simple name, which they lengthen: an accepted text, which is that of one
written name, is with more spaces in its lists read as the same type exactly if none of
them was put in there. -/
theorem readTypeName_padded (known : String → Bool) (containing : Option TypeName)
    (text : List Char) (t : TypeName) (hlength : byteLength text ≠ 1023)
    (h : readTypeName known containing (String.ofList text) = .ok t) :
    ∃ name : Name,
      (∀ other : Name, other.print = text ∧ '\x60' ∉ other.head ∧ other.Delimited ↔ other = name) ∧
      ∀ padded, name.Padded true padded → byteLength padded.print ≠ 1023 →
        (readTypeName known containing (String.ofList padded.print) = .ok t ↔
          name.Padded false padded) := by
  rw [readTypeName_uncut_ok_iff hlength] at h
  obtain ⟨hnonempty, hgenerated, name, rfl, hhead, hdenotes, hcounted⟩ := h
  refine ⟨name, fun other => ⟨?_, ?_⟩, fun padded hpadded hlength' => ?_⟩
  · rintro ⟨hprint, hother, hdelimited⟩
    exact Name.print_unique hdelimited hdenotes.delimited hother hhead hprint
  · rintro rfl
    exact ⟨rfl, hhead, hdenotes.delimited⟩
  have hhead' : '\x60' ∉ padded.head := by rwa [hpadded.head]
  rw [readTypeName_uncut_ok_iff hlength']
  constructor
  · rintro ⟨-, -, read, hprint, hread, hdenotes', -⟩
    obtain rfl := Name.print_unique hdenotes'.delimited (hpadded.delimited hdenotes.delimited)
      hread hhead' hprint
    exact hpadded.tight hdenotes hdenotes'
  · intro htight
    exact ⟨fun hnil => hnonempty (hnil ▸ hpadded.spread).eq_nil,
      hpadded.spread.isCompilerGenerated hgenerated, padded, rfl, hhead',
      htight.denotesIn hdenotes, hpadded.allCounted hcounted⟩

/-- Spaces in front of both arguments, and behind the one that is generic. -/
theorem readTypeName_padded_around :
    let one : Decimal := ⟨['1'], by simp, by simp⟩
    let two : Decimal := ⟨['2'], by simp, by simp⟩
    let inner (before : Nat) : Suffix := .mk one none (.plain (.last before (.simple ['d']) 0)) 1
    let outer (before behind : Nat) : Name := .generic ['A'] (.mk two none (.plain
      (.more before (.simple ['b']) 0 (.last before (.generic ['C'] (inner before)) behind))) 0)
    let t : TypeName := { TypeName.topLevel "" "A" with args := [.topLevel "" "b",
      ({ TypeName.topLevel "" "C" with args := [.topLevel "" "d"] } : TypeName).withArray true] }
    String.ofList (outer 0 0).print = "A\x602<b,C\x601<d>[]>" ∧
      String.ofList (outer 1 2).print = "A\x602< b, C\x601< d>[]  >" ∧
      byteLength (outer 0 0).print ≠ 1023 ∧ byteLength (outer 1 2).print ≠ 1023 ∧
      readTypeName (fun _ => false) none (String.ofList (outer 0 0).print) = .ok t ∧
      (outer 0 0).Padded true (outer 1 2) ∧
      readTypeName (fun _ => false) none (String.ofList (outer 1 2).print) = .ok t := by
  intro one two inner outer t
  have hread : readTypeName (fun _ => false) none (String.ofList (outer 0 0).print) = .ok t :=
    readText_of_toList (by decide +kernel)
  have hlength : byteLength (outer 0 0).print ≠ 1023 := by decide
  have hlength' : byteLength (outer 1 2).print ≠ 1023 := by decide
  have hpadded (loose : Bool) : (outer 0 0).Padded loose (outer 1 2) := by
    have hsimple (c : Char) : (Name.simple [c]).PaddedItem loose 0 (.simple [c]) 0 :=
      ⟨rfl, 0, rfl, .inl rfl⟩
    have hinner : (inner 0).Padded loose (inner 1) :=
      ⟨_, rfl, _, rfl, 1, _, 0, rfl, by decide, hsimple 'd'⟩
    exact ⟨_, rfl, _, rfl, _, rfl, 1, _, 0, _, rfl, by decide, hsimple 'b', 1, _, 2, rfl, by decide,
      by decide, _, rfl, hinner⟩
  obtain ⟨name, hname, hall⟩ := readTypeName_padded (fun _ => false) none _ t hlength hread
  have hitem (c : Char) (hc : c ≠ ' ' ∧ c ∉ ['\x60', ',', '>']) : (Name.simple [c]).IsItem 0 :=
    ⟨by simpa [Name.head] using hc.1, by simpa [Name.head] using hc.2, fun _ _ => rfl⟩
  have hgeneric : (Name.generic ['C'] (inner 0)).IsItem 0 :=
    ⟨by simp [Name.head], by simp [Name.head], by rintro _ ⟨⟩⟩
  have hdelimited : (outer 0 0).Delimited :=
    ⟨by rintro _ ⟨⟩, by decide, hitem 'b' (by decide), trivial, hgeneric, by rintro _ ⟨⟩, by decide,
      hitem 'd' (by decide), trivial⟩
  obtain rfl := (hname (outer 0 0)).mp ⟨rfl, by decide, hdelimited⟩
  exact ⟨by decide, by decide, hlength, hlength', hread, hpadded true,
    (hall _ (hpadded true) hlength').mpr (hpadded false)⟩

/-- A space behind a simple argument makes it another name. -/
theorem space_behind_argument :
    let list (name : List Char) : Name := .generic ['A'] (.mk ⟨['1'], by simp, by simp⟩ none
      (.plain (.last 0 (.simple name) 0)) 0)
    let known : String → Bool := fun _ => false
    let node (name : String) : TypeName :=
      { TypeName.topLevel "" "A" with args := [.topLevel "" name] }
    String.ofList (list ['b']).print = "A\x601<b>" ∧
      String.ofList (list ['b', ' ']).print = "A\x601<b >" ∧
      (list ['b']).Padded true (list ['b', ' ']) ∧
      readTypeName known none (String.ofList (list ['b']).print) = .ok (node "b") ∧
      readTypeName known none (String.ofList (list ['b', ' ']).print) = .ok (node "b ") := by
  intro list known node
  refine ⟨by decide, by decide, ?_, readText_of_toList (by decide +kernel),
    readText_of_toList (by decide +kernel)⟩
  exact ⟨_, rfl, _, rfl, _, rfl, 0, _, 0, rfl, by decide, rfl, 1, rfl, .inr ⟨rfl, by decide⟩⟩

end ClrNames
