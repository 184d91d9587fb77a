import ClrNames.Proofs.WrittenReading

/-!
# Written names can be told apart

The parts of a written name are delimited: where each of them ends is seen from the
text behind it. So two written names of one text are the same, and so are the elements
that a text starts with, whatever stands behind them.
-/

set_option autoImplicit false

namespace ClrNames.Text

/-- Where the first character of a kind stands is determined by the text. -/
theorem split_unique (stop : Char → Prop) {a b x y : List Char} {c d : Char}
    (ha : ∀ z ∈ a, ¬ stop z) (hb : ∀ z ∈ b, ¬ stop z) (hc : stop c) (hd : stop d)
    (h : a ++ c :: x = b ++ d :: y) : a = b ∧ c :: x = d :: y := by
  induction a generalizing b with
  | nil =>
    cases b with
    | nil => exact ⟨rfl, h⟩
    | cons e b =>
      obtain ⟨rfl, -⟩ := List.cons.inj h
      exact absurd hc (hb c (by simp))
  | cons e a ih =>
    cases b with
    | nil =>
      obtain ⟨rfl, -⟩ := List.cons.inj h
      exact absurd hd (ha e (by simp))
    | cons f b =>
      obtain ⟨rfl, htail⟩ := List.cons.inj h
      obtain ⟨rfl, hrest⟩ := ih (fun z hz => ha z (by simp [hz]))
        (fun z hz => hb z (by simp [hz])) htail
      exact ⟨rfl, hrest⟩

end ClrNames.Text

namespace ClrNames.Grammar

/-- The scan for the end of a name ends at one place. -/
theorem Scans.unique {before c d : Char} {a b x y : List Char} (ha : Scans before a c)
    (hb : Scans before b d) (h : a ++ c :: x = b ++ d :: y) : a = b ∧ c :: x = d :: y := by
  have hstop {before e : Char} {cs : List Char} {d : Char} (hend : Scans before [] e) :
      ¬ Scans before (e :: cs) d := by
    rintro ⟨htick, hcomma, hclose, -⟩
    rcases hend with hend | hend | ⟨hend, hbefore⟩
    · exact htick hend
    · exact hcomma hend
    · exact hbefore (hclose hend)
  induction a generalizing before b with
  | nil =>
    cases b with
    | nil => exact ⟨rfl, h⟩
    | cons e b =>
      obtain ⟨rfl, -⟩ := List.cons.inj h
      exact absurd hb (hstop ha)
  | cons e a ih =>
    cases b with
    | nil =>
      obtain ⟨rfl, -⟩ := List.cons.inj h
      exact absurd ha (hstop hb)
    | cons f b =>
      obtain ⟨rfl, htail⟩ := List.cons.inj h
      obtain ⟨rfl, hrest⟩ := ih ha.2.2.2 hb.2.2.2 htail
      exact ⟨rfl, hrest⟩

end ClrNames.Grammar

namespace ClrNames.Written
open Text Grammar

def front (head : List Char) (arity : Decimal) (nested : Option (List Char)) : List Char :=
  head ++ '\x60' :: (arity.digits ++ nestedText nested)

theorem print_generic (head : List Char) (arity : Decimal) (nested : Option (List Char))
    (list : ArgList) (markers : Markers) :
    (Name.generic head (.mk arity nested list markers)).print =
      front head arity nested ++ (list.print ++ markers.print) := by
  simp [Name.print, Suffix.print, front]

section
variable {x y : List Char}

theorem spaces_unique {m n : Nat} (hx : x.head? ≠ some ' ') (hy : y.head? ≠ some ' ')
    (h : spaces m ++ x = spaces n ++ y) : m = n ∧ x = y := by
  induction m generalizing n with
  | zero =>
    cases n with
    | zero => exact ⟨rfl, h⟩
    | succ n => exact absurd (congrArg List.head? h) hx
  | succ m ih =>
    cases n with
    | zero => exact absurd (congrArg List.head? h.symm) hy
    | succ n =>
      obtain ⟨rfl, hrest⟩ := ih (List.cons.inj h).2
      exact ⟨rfl, hrest⟩

theorem brackets_unique {m n : Nat} (hx : ¬ ['[', ']'] <+: x) (hy : ¬ ['[', ']'] <+: y)
    (h : brackets m ++ x = brackets n ++ y) : m = n ∧ x = y := by
  have hcons (k : Nat) (cs : List Char) :
      brackets (k + 1) ++ cs = '[' :: ']' :: (brackets k ++ cs) := by
    rw [brackets_succ]
    rfl
  induction m generalizing n with
  | zero =>
    cases n with
    | zero => exact ⟨rfl, h⟩
    | succ n => exact absurd ⟨brackets n ++ y, ((hcons n y).symm.trans h.symm)⟩ hx
  | succ m ih =>
    cases n with
    | zero => exact absurd ⟨brackets m ++ x, ((hcons m x).symm.trans h)⟩ hy
    | succ n =>
      rw [hcons, hcons] at h
      obtain ⟨rfl, hrest⟩ := ih (List.cons.inj (List.cons.inj h).2).2
      exact ⟨rfl, hrest⟩

theorem markers_unique {m n : Markers} (hx : ¬ ['[', ']'] <+: x) (hy : ¬ ['[', ']'] <+: y)
    (h : m.print ++ x = n.print ++ y) : m = n ∧ x = y :=
  (brackets_unique hx hy h).imp_left Fin.ext

/-- The digits of an arity end where something else follows. -/
theorem arity_unique {m n : Decimal} {c d : Char} (hc : c.isDigit = false) (hd : d.isDigit = false)
    (h : m.digits ++ c :: x = n.digits ++ d :: y) : m = n ∧ c :: x = d :: y := by
  obtain ⟨hdigits, hrest⟩ := split_unique (fun z => z.isDigit = false)
    (fun z hz => by simp [m.isDigit z hz]) (fun z hz => by simp [n.isDigit z hz]) hc hd h
  refine ⟨?_, hrest⟩
  cases m
  cases n
  simpa using hdigits

/-- The nested names end where the list is opened. -/
theorem nestedText_unique {nested nested' : Option (List Char)} {c c' : Char} {more more' : List Char}
    (hnested : ∀ names, nested = some names → ∀ c ∈ names, c ∉ ['\x60', '[', '<'])
    (hnested' : ∀ names, nested' = some names → ∀ c ∈ names, c ∉ ['\x60', '[', '<'])
    (hc : c = '[' ∨ c = '<') (hc' : c' = '[' ∨ c' = '<')
    (h : nestedText nested ++ c :: more = nestedText nested' ++ c' :: more') :
    nested = nested' ∧ c :: more = c' :: more' := by
  cases nested with
  | none =>
    cases nested' with
    | none => exact ⟨rfl, h⟩
    | some names' =>
      obtain rfl := (List.cons.inj h).1
      rcases hc with hc | hc <;> cases hc
  | some names =>
    cases nested' with
    | none =>
      obtain rfl := (List.cons.inj h).1.symm
      rcases hc' with hc' | hc' <;> cases hc'
    | some names' =>
      have hmem {c : Char} (hc : c = '[' ∨ c = '<') : c ∈ ['\x60', '[', '<'] := by simp [hc]
      obtain ⟨rfl, hlist⟩ := Text.split_unique (· ∈ ['\x60', '[', '<'])
        (hnested names rfl) (hnested' names' rfl) (hmem hc) (hmem hc') (List.cons.inj h).2
      exact ⟨rfl, hlist⟩

/-- What stands in front of a list is told from it. -/
theorem listFront_unique {arity arity' : Decimal} {nested nested' : Option (List Char)}
    (hnested : ∀ names, nested = some names → ∀ c ∈ names, c ∉ ['\x60', '[', '<'])
    (hnested' : ∀ names, nested' = some names → ∀ c ∈ names, c ∉ ['\x60', '[', '<'])
    (hx : ∃ c, x.head? = some c ∧ (c = '[' ∨ c = '<'))
    (hy : ∃ c, y.head? = some c ∧ (c = '[' ∨ c = '<'))
    (h : arity.digits ++ (nestedText nested ++ x) = arity'.digits ++ (nestedText nested' ++ y)) :
    arity = arity' ∧ nested = nested' ∧ x = y := by
  obtain ⟨c, hhead, hc⟩ := hx
  obtain ⟨c', hhead', hc'⟩ := hy
  obtain ⟨more, rfl⟩ := List.head?_eq_some_iff.mp hhead
  obtain ⟨more', rfl⟩ := List.head?_eq_some_iff.mp hhead'
  obtain ⟨d, rest, hfirst, hd⟩ := exists_nestedText_append nested hc more
  obtain ⟨d', rest', hfirst', hd'⟩ := exists_nestedText_append nested' hc' more'
  rw [hfirst, hfirst'] at h
  obtain ⟨rfl, hrest⟩ := arity_unique hd hd' h
  rw [← hfirst, ← hfirst'] at hrest
  exact ⟨rfl, nestedText_unique hnested hnested' hc hc' hrest⟩

/-- The parts in front of a list can be told apart. -/
theorem front_unique {head head' : List Char} {arity arity' : Decimal}
    {nested nested' : Option (List Char)} (hhead : '\x60' ∉ head) (hhead' : '\x60' ∉ head')
    (hnested : ∀ names, nested = some names → ∀ c ∈ names, c ∉ ['\x60', '[', '<'])
    (hnested' : ∀ names, nested' = some names → ∀ c ∈ names, c ∉ ['\x60', '[', '<'])
    (hx : ∃ c, x.head? = some c ∧ (c = '[' ∨ c = '<'))
    (hy : ∃ c, y.head? = some c ∧ (c = '[' ∨ c = '<'))
    (h : front head arity nested ++ x = front head' arity' nested' ++ y) :
    head = head' ∧ arity = arity' ∧ nested = nested' ∧ x = y := by
  have hmarker : head ++ '\x60' :: (arity.digits ++ (nestedText nested ++ x)) =
      head' ++ '\x60' :: (arity'.digits ++ (nestedText nested' ++ y)) := by
    simpa [front] using h
  obtain ⟨rfl, htail⟩ := split_unique (· = '\x60')
    (fun z hz heq => hhead (heq ▸ hz)) (fun z hz heq => hhead' (heq ▸ hz)) rfl rfl hmarker
  exact ⟨rfl, listFront_unique hnested hnested' hx hy (List.cons.inj htail).2⟩

theorem ArgList.opens (list : ArgList) (x : List Char) :
    ∃ c, (list.print ++ x).head? = some c ∧ (c = '[' ∨ c = '<') := by
  obtain ⟨c, more, hlist, hc⟩ := list.print_eq_cons
  exact ⟨c, by rw [hlist]; rfl, hc⟩

def TailsUnique (name name' : Name) : Prop :=
  ∀ {x y : List Char}, name.Ends x → name'.Ends y → name.head = name'.head →
    name.tail ++ x = name'.tail ++ y → name = name' ∧ x = y

/-- The head of an element's name ends where the scan for its end does. -/
theorem element_unique_of {name name' : Name} {noise noise' : List Char}
    (htails : TailsUnique name name') (h : name.IsElement noise) (h' : name'.IsElement noise')
    (heq : name.print ++ (noise ++ ']' :: x) = name'.print ++ (noise' ++ ']' :: y)) :
    name = name' ∧ noise = noise' ∧ x = y := by
  obtain ⟨after, hafter⟩ := exists_headD_append (name.tail ++ noise) x
  obtain ⟨after', hafter'⟩ := exists_headD_append (name'.tail ++ noise') y
  rw [name.print_eq, name'.print_eq, List.append_assoc, List.append_assoc] at heq
  rw [List.append_assoc] at hafter hafter'
  rw [hafter, hafter'] at heq
  obtain ⟨hhead, hbehind⟩ := h.scanned.unique h'.scanned heq
  rw [← hafter, ← hafter'] at hbehind
  obtain ⟨rfl, hclosed⟩ := htails (ends_closed.mpr h.ends) (ends_closed.mpr h'.ends) hhead hbehind
  obtain ⟨rfl, hrest⟩ := split_unique (· = ']') (fun z hz heq => h.unclosed (heq ▸ hz))
    (fun z hz heq => h'.unclosed (heq ▸ hz)) rfl rfl hclosed
  exact ⟨rfl, rfl, (List.cons.inj hrest).2⟩

/-- The head of an argument ends at the first delimiter. -/
theorem item_unique_of {before before' behind behind' : Nat} {name name' : Name} {d d' : Char}
    (htails : TailsUnique name name') (h : name.IsItem behind) (h' : name'.IsItem behind')
    (hd : d = ',' ∨ d = '>') (hd' : d' = ',' ∨ d' = '>')
    (heq : spaces before ++ (name.print ++ (spaces behind ++ d :: x)) =
      spaces before' ++ (name'.print ++ (spaces behind' ++ d' :: y))) :
    before = before' ∧ name = name' ∧ behind = behind' ∧ d :: x = d' :: y := by
  obtain ⟨rfl, hname⟩ := spaces_unique (unspaced_item h hd rfl) (unspaced_item h' hd' rfl) heq
  have hfirst : (d :: x).head? = some d := rfl
  have hfirst' : (d' :: y).head? = some d' := rfl
  obtain ⟨e, he, hnext⟩ := follows_item h hd hfirst
  obtain ⟨e', he', hnext'⟩ := follows_item h' hd' hfirst'
  obtain ⟨after, hafter⟩ := List.head?_eq_some_iff.mp hnext
  obtain ⟨after', hafter'⟩ := List.head?_eq_some_iff.mp hnext'
  rw [name.print_eq, name'.print_eq, List.append_assoc, List.append_assoc, hafter, hafter'] at hname
  obtain ⟨hhead, hbehind⟩ :=
    split_unique (· ∈ ['\x60', ',', '>']) h.undelimited h'.undelimited he he' hname
  rw [← hafter, ← hafter'] at hbehind
  obtain ⟨rfl, hspaces⟩ := htails (ends_item h hd rfl) (ends_item h' hd' rfl) hhead hbehind
  have hunspaced {c : Char} {cs : List Char} (hc : c = ',' ∨ c = '>') :
      (c :: cs).head? ≠ some ' ' := by
    rcases hc with rfl | rfl <;> simp
  obtain ⟨rfl, hrest⟩ := spaces_unique (hunspaced hd) (hunspaced hd') hspaces
  exact ⟨rfl, rfl, rfl, hrest⟩

/-- Only an empty pair of brackets lists nothing. -/
theorem unbound_ne_plain {items : Items} (h : (ArgList.plain items).Delimited) :
    ArgList.unbound.print ++ x ≠ (ArgList.plain items).print ++ y := by
  intro heq
  obtain ⟨hprint, hitems⟩ := h
  have hclose := hitems.not_close
  obtain ⟨c, cs, hcons⟩ := List.exists_cons_of_ne_nil hprint
  rw [hcons] at hclose
  simp only [ArgList.print, hcons] at heq
  exact hclose (congrArg some (List.cons.inj (List.cons.inj heq).2).1.symm)

theorem Elements.unspaced (elements : Elements) (after : List Char) :
    (elements.print ++ after).head? ≠ some ' ' := by
  obtain ⟨more, hmore⟩ := elements.print_eq_cons
  rw [hmore]
  exact (by decide : some '[' ≠ some ' ')

theorem skipped_ne_bracketed {text : Skipped} {elements : Elements} :
    (ArgList.skipped text).print ++ x ≠ (ArgList.bracketed elements).print ++ y := by
  intro heq
  obtain ⟨more, hmore⟩ := elements.print_eq_cons
  have hopen : text.chars ++ ']' :: x = '[' :: (more ++ ']' :: y) := by
    simpa [ArgList.print, hmore] using heq
  exact text.head?_append x (congrArg List.head? hopen)

theorem skipped_unique {text text' : Skipped}
    (h : (ArgList.skipped text).print ++ x = (ArgList.skipped text').print ++ y) :
    ArgList.skipped text = ArgList.skipped text' ∧ x = y := by
  have hchars : text.chars ++ ']' :: x = text'.chars ++ ']' :: y := by
    simpa [ArgList.print] using h
  obtain ⟨hsame, hrest⟩ := split_unique (· = ']') (fun z hz heq => text.unclosed (heq ▸ hz))
    (fun z hz heq => text'.unclosed (heq ▸ hz)) rfl rfl hchars
  refine ⟨?_, (List.cons.inj hrest).2⟩
  cases text
  cases text'
  simpa using hsame

end

mutual

theorem Name.tail_unique : {name name' : Name} → name.Delimited → name'.Delimited →
    TailsUnique name name'
  | .simple _, .simple _, _, _, _, _, _, _, hhead, h => ⟨congrArg _ hhead, h⟩
  | .simple _, .generic _ (.mk _ _ _ _), _, _, _, _, hx, _, _, h =>
    absurd (congrArg List.head? h) hx
  | .generic _ (.mk _ _ _ _), .simple _, _, _, _, _, _, hy, _, h =>
    absurd (congrArg List.head? h.symm) hy
  | .generic _ _, .generic _ _, hname, hname', _, _, hx, hy, hhead, h => by
    obtain ⟨rfl, hrest⟩ := Suffix.print_unique hname hname' hx hy h
    exact ⟨congrArg (Name.generic · _) hhead, hrest⟩

theorem Suffix.print_unique : {suffix suffix' : Suffix} → {x y : List Char} → suffix.Delimited →
    suffix'.Delimited → ¬ ['[', ']'] <+: x → ¬ ['[', ']'] <+: y →
    suffix.print ++ x = suffix'.print ++ y → suffix = suffix' ∧ x = y
  | .mk arity nested list markers, .mk arity' nested' list' markers', x, y, ⟨hnested, hlist⟩,
      ⟨hnested', hlist'⟩, hx, hy, h => by
    have hparts : arity.digits ++ (nestedText nested ++ (list.print ++ (markers.print ++ x))) =
        arity'.digits ++ (nestedText nested' ++ (list'.print ++ (markers'.print ++ y))) := by
      simpa [Suffix.print] using h
    obtain ⟨rfl, rfl, hlists⟩ :=
      listFront_unique hnested hnested' (list.opens _) (list'.opens _) hparts
    obtain ⟨rfl, hmarkers⟩ := ArgList.print_unique hlist hlist' hlists
    obtain ⟨rfl, hbehind⟩ := markers_unique hx hy hmarkers
    exact ⟨rfl, hbehind⟩

theorem ArgList.print_unique : {list list' : ArgList} → {x y : List Char} → list.Delimited →
    list'.Delimited → list.print ++ x = list'.print ++ y → list = list' ∧ x = y
  | .unbound, list', x, y, _, h', heq => by
    cases list' with
    | unbound => exact ⟨rfl, List.append_cancel_left heq⟩
    | plain items => exact absurd heq (unbound_ne_plain h')
    | skipped text | bracketed elements => cases (List.cons.inj heq).1
  | .skipped text, list', x, y, _, h', heq => by
    cases list' with
    | skipped text' => exact skipped_unique heq
    | bracketed elements => exact absurd heq skipped_ne_bracketed
    | unbound | plain items => cases (List.cons.inj heq).1
  | .plain items, list', x, y, h, h', heq => by
    cases list' with
    | unbound => exact absurd heq.symm (unbound_ne_plain h)
    | plain items' =>
      have hitems : items.print ++ '>' :: x = items'.print ++ '>' :: y := by
        simpa [ArgList.print] using heq
      obtain ⟨rfl, hrest⟩ := Items.print_unique h.2 h'.2 hitems
      exact ⟨rfl, hrest⟩
    | skipped text | bracketed elements => cases (List.cons.inj heq).1
  | .bracketed elements, list', x, y, h, h', heq => by
    cases list' with
    | skipped text => exact absurd heq.symm skipped_ne_bracketed
    | bracketed elements' =>
      have helements : elements.print ++ ']' :: x = elements'.print ++ ']' :: y := by
        simpa [ArgList.print] using heq
      obtain ⟨rfl, hrest⟩ := Elements.print_unique h h' helements
      exact ⟨rfl, hrest⟩
    | unbound | plain items => cases (List.cons.inj heq).1

theorem Items.print_unique : {items items' : Items} → {x y : List Char} → items.Delimited →
    items'.Delimited → items.print ++ '>' :: x = items'.print ++ '>' :: y → items = items' ∧ x = y
  | .last before name behind, .last before' name' behind', x, y, ⟨hitem, hname⟩,
      ⟨hitem', hname'⟩, h => by
    obtain ⟨rfl, rfl, rfl, hrest⟩ := item_unique_of (Name.tail_unique hname hname') hitem hitem'
      (.inr rfl) (.inr rfl) (by simpa [Items.print] using h)
    exact ⟨rfl, (List.cons.inj hrest).2⟩
  | .last before name behind, .more before' name' behind' rest', x, y, ⟨hitem, hname⟩,
      ⟨hitem', hname', _⟩, h => by
    have hsplit : '>' :: x = ',' :: rest'.print ++ '>' :: y :=
      (item_unique_of (Name.tail_unique hname hname') hitem hitem' (.inr rfl) (.inl rfl)
        (by simpa [Items.print] using h)).2.2.2
    cases hsplit
  | .more before name behind rest, .last before' name' behind', x, y, ⟨hitem, hname, _⟩,
      ⟨hitem', hname'⟩, h => by
    have hsplit : ',' :: rest.print ++ '>' :: x = '>' :: y :=
      (item_unique_of (Name.tail_unique hname hname') hitem hitem' (.inl rfl) (.inr rfl)
        (by simpa [Items.print] using h)).2.2.2
    cases hsplit
  | .more before name behind rest, .more before' name' behind' rest', x, y, ⟨hitem, hname, hrest⟩,
      ⟨hitem', hname', hrest'⟩, h => by
    obtain ⟨rfl, rfl, rfl, hbehind⟩ := item_unique_of (Name.tail_unique hname hname') hitem hitem'
      (.inl rfl) (.inl rfl) (by simpa [Items.print] using h)
    obtain ⟨rfl, hafter⟩ := Items.print_unique hrest hrest' (List.cons.inj hbehind).2
    exact ⟨rfl, hafter⟩

theorem Elements.print_unique : {elements elements' : Elements} → {x y : List Char} →
    elements.Delimited → elements'.Delimited →
    elements.print ++ ']' :: x = elements'.print ++ ']' :: y → elements = elements' ∧ x = y
  | .last name noise, .last name' noise', x, y, ⟨helement, hname⟩, ⟨helement', hname'⟩, h => by
    obtain ⟨rfl, rfl, hrest⟩ := element_unique_of (Name.tail_unique hname hname') helement helement'
      (by simpa [Elements.print] using h)
    exact ⟨rfl, (List.cons.inj hrest).2⟩
  | .last name noise, .more name' noise' gap' rest', x, y, ⟨helement, hname⟩,
      ⟨helement', hname', _⟩, h => by
    have hsplit := (element_unique_of (Name.tail_unique hname hname') helement helement'
      (x := ']' :: x) (y := ',' :: (spaces gap' ++ (rest'.print ++ ']' :: y)))
      (by simpa [Elements.print] using h)).2.2
    cases hsplit
  | .more name noise gap rest, .last name' noise', x, y, ⟨helement, hname, _⟩,
      ⟨helement', hname'⟩, h => by
    have hsplit := (element_unique_of (Name.tail_unique hname hname') helement helement'
      (x := ',' :: (spaces gap ++ (rest.print ++ ']' :: x))) (y := ']' :: y)
      (by simpa [Elements.print] using h)).2.2
    cases hsplit
  | .more name noise gap rest, .more name' noise' gap' rest', x, y, ⟨helement, hname, hrest⟩,
      ⟨helement', hname', hrest'⟩, h => by
    obtain ⟨rfl, rfl, hbehind⟩ := element_unique_of (Name.tail_unique hname hname') helement
      helement' (x := ',' :: (spaces gap ++ (rest.print ++ ']' :: x)))
      (y := ',' :: (spaces gap' ++ (rest'.print ++ ']' :: y))) (by simpa [Elements.print] using h)
    obtain ⟨rfl, helements⟩ := spaces_unique (rest.unspaced _) (rest'.unspaced _)
      (List.cons.inj hbehind).2
    obtain ⟨rfl, hafter⟩ := Elements.print_unique hrest hrest' helements
    exact ⟨rfl, hafter⟩

end

/-- A text has at most one reading. -/
theorem Name.print_unique {name name' : Name} (h : name.Delimited) (h' : name'.Delimited)
    (hhead : '\x60' ∉ name.head) (hhead' : '\x60' ∉ name'.head) (heq : name.print = name'.print) :
    name = name' := by
  have hmarked {head : List Char} {suffix : Suffix} : '\x60' ∈ (Name.generic head suffix).print := by
    obtain ⟨arity, nested, list, markers⟩ := suffix
    simp [Name.print, Suffix.print]
  cases name with
  | simple head =>
    cases name' with
    | simple head' => exact congrArg _ heq
    | generic head' suffix' =>
      exact absurd (show '\x60' ∈ (Name.simple head).print from heq ▸ hmarked) hhead
  | generic head suffix =>
    cases name' with
    | simple head' =>
      exact absurd (show '\x60' ∈ (Name.simple head').print from heq ▸ hmarked) hhead'
    | generic head' suffix' =>
      obtain ⟨arity, nested, list, markers⟩ := suffix
      obtain ⟨arity', nested', list', markers'⟩ := suffix'
      obtain ⟨hsame, htail⟩ := split_unique (· = '\x60') (fun z hz heq => hhead (heq ▸ hz))
        (fun z hz heq => hhead' (heq ▸ hz)) rfl rfl heq
      exact (Name.tail_unique h h' (x := []) (y := []) (by simp [Name.Ends]) (by simp [Name.Ends])
        hsame (congrArg (· ++ []) htail)).1

/-- An element is told from what stands behind it. -/
theorem element_unique {name name' : Name} {noise noise' x y : List Char}
    (h : name.IsElement noise) (hname : name.Delimited) (h' : name'.IsElement noise')
    (hname' : name'.Delimited)
    (heq : name.print ++ (noise ++ ']' :: x) = name'.print ++ (noise' ++ ']' :: y)) :
    name = name' ∧ noise = noise' ∧ x = y :=
  element_unique_of (Name.tail_unique hname hname') h h' heq

def Elements.followedBy : Elements → Nat → Elements → Elements
  | .last name noise, gap, rest => .more name noise gap rest
  | .more name noise gap' kept, gap, rest => .more name noise gap' (kept.followedBy gap rest)

theorem Elements.DenotesIn.behind {known : String → Bool} {place : Place} {gap : Nat}
    {rest : Elements} : {kept : Elements} → {args : List TypeName} →
    (kept.followedBy gap rest).DenotesIn known place args →
    ∃ args', rest.DenotesIn known place args'
  | .last _ _, _, ⟨_, _, others, _, _, hrest⟩ => ⟨others, hrest⟩
  | .more _ _ _ _, _, ⟨_, _, _, _, _, hrest⟩ => Elements.DenotesIn.behind hrest

/-- Elements that stand at the start of a list, and in front of a comma, are its first
elements. -/
theorem Elements.followedBy_of_comma : {elements kept : Elements} → {x y : List Char} →
    elements.Delimited → kept.Delimited → elements.print ++ ']' :: x = kept.print ++ ',' :: y →
    ∃ gap rest, elements = kept.followedBy gap rest ∧ y = spaces gap ++ (rest.print ++ ']' :: x)
  | .last name noise, .last name' noise', x, y, ⟨helement, hname⟩, ⟨helement', hname'⟩, h => by
    have hsplit := (element_unique (x := ']' :: x) (y := ',' :: y) helement hname helement' hname'
      (by simpa [Elements.print] using h)).2.2
    cases hsplit
  | .last name noise, .more name' noise' gap' kept', x, y, ⟨helement, hname⟩,
      ⟨helement', hname', _⟩, h => by
    have hsplit := (element_unique helement hname helement' hname'
      (x := ']' :: x) (y := ',' :: (spaces gap' ++ (kept'.print ++ ',' :: y)))
      (by simpa [Elements.print] using h)).2.2
    cases hsplit
  | .more name noise gap rest, .last name' noise', x, y, ⟨helement, hname, _⟩,
      ⟨helement', hname'⟩, h => by
    obtain ⟨rfl, rfl, hbehind⟩ := element_unique helement hname helement' hname'
      (x := ',' :: (spaces gap ++ (rest.print ++ ']' :: x))) (y := ',' :: y)
      (by simpa [Elements.print] using h)
    exact ⟨gap, rest, rfl, (List.cons.inj hbehind).2.symm⟩
  | .more name noise gap rest, .more name' noise' gap' kept', x, y, ⟨helement, hname, hrest⟩,
      ⟨helement', hname', hkept⟩, h => by
    obtain ⟨rfl, rfl, hbehind⟩ := element_unique helement hname helement' hname'
      (x := ',' :: (spaces gap ++ (rest.print ++ ']' :: x)))
      (y := ',' :: (spaces gap' ++ (kept'.print ++ ',' :: y))) (by simpa [Elements.print] using h)
    obtain ⟨rfl, helements⟩ := spaces_unique (rest.unspaced _) (kept'.unspaced _)
      (List.cons.inj hbehind).2
    obtain ⟨gap', rest', rfl, hafter⟩ := Elements.followedBy_of_comma hrest hkept helements
    exact ⟨gap', rest', rfl, hafter⟩

end ClrNames.Written
