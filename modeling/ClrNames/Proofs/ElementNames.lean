import ClrNames.Proofs.Unambiguous

/-!
# Where the name of an element ends

The scan for the end of an element's name passes over the closing bracket of an array
marker. It looks for the opening bracket one character back, and in front of the name
stands the bracket of the element itself: so a closing bracket that directly follows it
is taken into the name. A comma or a backtick there leaves the element without a name,
and the text is refused, whatever comes next.
-/

set_option autoImplicit false

namespace ClrNames.Grammar
open Text

/-- A character that ends a name: a backtick, a comma, or a closing bracket without an
opening one in front of it, where `before` stands in front of the text. -/
def EndsAt (before : Char) (text : List Char) (n : Nat) : Prop :=
  text[n]? = some '\x60' ∨ text[n]? = some ',' ∨
    text[n]? = some ']' ∧ (before :: text)[n]? ≠ some '['

def FirstEnd (before : Char) (text : List Char) (n : Nat) : Prop :=
  EndsAt before text n ∧ ∀ m < n, ¬ EndsAt before text m

theorem endsAt_zero {before d : Char} {after : List Char} :
    EndsAt before (d :: after) 0 ↔ Scans before [] d := by
  simp [EndsAt, Scans]

theorem endsAt_succ {before c : Char} {text : List Char} {n : Nat} :
    EndsAt before (c :: text) (n + 1) ↔ EndsAt c text n := by
  simp [EndsAt]

theorem firstEnd_succ {before c : Char} {text : List Char} {n : Nat} :
    FirstEnd before (c :: text) (n + 1) ↔ ¬ Scans before [] c ∧ FirstEnd c text n := by
  have hzero : Scans before [] c ↔ EndsAt before (c :: text) 0 := endsAt_zero.symm
  rw [FirstEnd, FirstEnd, endsAt_succ, hzero]
  constructor
  · rintro ⟨hend, hfirst⟩
    exact ⟨hfirst 0 (Nat.succ_pos n), hend,
      fun m hm => mt endsAt_succ.mpr (hfirst (m + 1) (Nat.succ_lt_succ hm))⟩
  · rintro ⟨hzero, hend, hfirst⟩
    refine ⟨hend, fun m hm => ?_⟩
    cases m with
    | zero => exact hzero
    | succ m => exact mt endsAt_succ.mp (hfirst m (Nat.lt_of_succ_lt_succ hm))

theorem scans_cons {before c d : Char} {taken : List Char} :
    Scans before (c :: taken) d ↔ ¬ Scans before [] c ∧ Scans c taken d := by
  simp only [Scans, not_or, not_and, not_not, and_assoc]

theorem firstEnd_iff_scans {before d : Char} {taken after : List Char} :
    FirstEnd before (taken ++ d :: after) taken.length ↔ Scans before taken d := by
  induction taken generalizing before with
  | nil => simp [FirstEnd, endsAt_zero]
  | cons c taken ih => rw [List.cons_append, List.length_cons, firstEnd_succ, ih, scans_cons]

theorem EndsAt.lt_length {before : Char} {text : List Char} {n : Nat} (h : EndsAt before text n) :
    n < text.length := by
  rcases h with h | h | ⟨h, -⟩ <;> exact (List.getElem?_eq_some_iff.mp h).1

/-- The name goes on up to the first character that ends it, seen from the bracket in
front of it. -/
theorem elementNameEnd_ok_iff_firstEnd {s t : State} {stop : Nat} :
    elementNameEnd s = .ok stop t ↔ t = s ∧ ∃ n, FirstEnd '[' s.cursor.rest n ∧
      stop = s.cursor.pos + byteLength (s.cursor.rest.take n) := by
  rw [elementNameEnd_ok_iff]
  refine and_congr_right fun _ => ?_
  constructor
  · rintro ⟨taken, d, after, hrest, hscan, rfl⟩
    refine ⟨taken.length, ?_, ?_⟩
    · rw [hrest]
      exact firstEnd_iff_scans.mpr hscan
    · rw [hrest, List.take_left]
  · rintro ⟨n, hfirst, rfl⟩
    have hlt := hfirst.1.lt_length
    have hsplit : s.cursor.rest = s.cursor.rest.take n ++
        s.cursor.rest[n] :: s.cursor.rest.drop (n + 1) := by
      rw [← List.drop_eq_getElem_cons hlt, List.take_append_drop]
    refine ⟨s.cursor.rest.take n, s.cursor.rest[n], s.cursor.rest.drop (n + 1), hsplit, ?_, rfl⟩
    have hend : FirstEnd '[' (s.cursor.rest.take n ++
        s.cursor.rest[n] :: s.cursor.rest.drop (n + 1)) (s.cursor.rest.take n).length := by
      rwa [← hsplit, List.length_take_of_le hlt.le]
    exact firstEnd_iff_scans.mp hend

/-- Only a closing bracket at the start tells what stands in front of the text. -/
theorem firstEnd_before {before before' : Char} {text : List Char} {n : Nat}
    (h : text.head? ≠ some ']') : FirstEnd before text n ↔ FirstEnd before' text n := by
  have hends (m : Nat) : EndsAt before text m ↔ EndsAt before' text m := by
    cases m with
    | zero =>
      have hzero : text[0]? ≠ some ']' := by rwa [← List.head?_eq_getElem?]
      simp [EndsAt, hzero]
    | succ m => simp [EndsAt]
  simp [FirstEnd, hends]

end ClrNames.Grammar

namespace ClrNames.Written
open Text Grammar

/-- What stands in front of the name of an element: the generic name that it is an argument
of, up to the bracket that opens the element, with the elements in front of it if there
are any. -/
structure Frame where
  head : List Char
  arity : Decimal
  nested : Option (List Char)
  before : Option (Elements × Nat)

def ElementAt (known : String → Bool) (place : Place) (text : List Char) : Prop :=
  ∃ (name : Name) (noise after : List Char) (t : TypeName), name.IsElement noise ∧
    name.DenotesIn known .bracketed place t ∧ text = name.print ++ (noise ++ ']' :: after)

/-- A list that is denoted goes on with elements up to the bracket that closes it. -/
theorem Elements.DenotesIn.elementAt {known : String → Bool} {place : Place} {elements : Elements}
    {args : List TypeName} (h : elements.DenotesIn known place args) {x y : List Char}
    (heq : elements.print ++ ']' :: x = '[' :: y) : ElementAt known place y := by
  cases elements with
  | last name noise =>
    obtain ⟨helement, t, -, hname⟩ := h
    exact ⟨name, noise, ']' :: x, t, helement, hname,
      (List.cons.inj heq).2.symm.trans (by simp)⟩
  | more name noise gap rest =>
    obtain ⟨helement, t, others, -, hname, -⟩ := h
    exact ⟨name, noise, ',' :: (spaces gap ++ (rest.print ++ ']' :: x)), t, helement, hname,
      (List.cons.inj heq).2.symm.trans (by simp)⟩

namespace Frame

def beforeText : Option (Elements × Nat) → List Char
  | none => []
  | some (kept, gap) => kept.print ++ ',' :: spaces gap

def opened (f : Frame) : List Char := '[' :: (beforeText f.before ++ ['['])

def print (f : Frame) : List Char := front f.head f.arity f.nested ++ f.opened

structure Delimited (f : Frame) : Prop where
  nested : ∀ names, f.nested = some names → ∀ c ∈ names, c ∉ ['\x60', '[', '<']
  before : ∀ kept gap, f.before = some (kept, gap) → kept.Delimited

structure Inner (f : Frame) : Prop extends f.Delimited where
  scanned : Scans '[' f.head '\x60'

variable {known : String → Bool} {f : Frame} {place : Place} {x y : List Char}

theorem beforeText_opens (before : Option (Elements × Nat)) (y : List Char) :
    (beforeText before ++ '[' :: y).head? = some '[' := by
  cases before with
  | none => rfl
  | some pair =>
    obtain ⟨more, hmore⟩ := pair.1.print_eq_cons
    simp [beforeText, hmore]

/-- A list that goes on behind an opening bracket has an element there. -/
theorem elementAt_of_elements (hf : f.Delimited) {elements : Elements} {args : List TypeName}
    (h : elements.DenotesIn known place args)
    (heq : elements.print ++ ']' :: x = beforeText f.before ++ '[' :: y) :
    ElementAt known place y := by
  have hbefore := hf.before
  cases hpair : f.before with
  | none => exact h.elementAt (by rwa [hpair] at heq)
  | some pair =>
    obtain ⟨kept, gap⟩ := pair
    have hcomma : elements.print ++ ']' :: x = kept.print ++ ',' :: (spaces gap ++ '[' :: y) := by
      simpa [beforeText, hpair] using heq
    obtain ⟨gap', rest, rfl, hbehind⟩ :=
      Elements.followedBy_of_comma h.delimited (hbefore kept gap hpair) hcomma
    obtain ⟨args', hrest⟩ := h.behind
    exact hrest.elementAt (spaces_unique (by simp) (rest.unspaced _) hbehind).2.symm

theorem elementAt_of_list (hf : f.Delimited) {list : ArgList} {args : List TypeName}
    (hlist : list.DenotesIn known place args) (heq : list.print ++ x = f.opened ++ y) :
    ElementAt known place y := by
  cases list with
  | unbound => cases (List.cons.inj heq).1
  | plain items => cases (List.cons.inj heq).1
  | skipped text =>
    have hchars : text.chars ++ ']' :: x = beforeText f.before ++ '[' :: y := by
      simpa [ArgList.print, opened] using heq
    exact absurd (hchars ▸ beforeText_opens f.before y) (text.head?_append x)
  | bracketed elements =>
    exact elementAt_of_elements hf hlist (by simpa [ArgList.print, opened] using heq)

/-- The names of nested types and the list behind an arity are those of the frame. -/
theorem elementAt_of_suffix (hf : f.Delimited) {suffix : Suffix} {context : ListContext}
    {base t : TypeName} (h : suffix.DenotesIn known context place base t)
    (heq : suffix.print ++ x =
      '\x60' :: (f.arity.digits ++ (nestedText f.nested ++ (f.opened ++ y)))) :
    ElementAt known place.deeper y := by
  obtain ⟨arity, nested, list, markers⟩ := suffix
  obtain ⟨-, hnested, -, args, hlist, -⟩ := h
  have hparts : arity.digits ++ (nestedText nested ++ (list.print ++ (markers.print ++ x))) =
      f.arity.digits ++ (nestedText f.nested ++ (f.opened ++ y)) := by
    simpa [Suffix.print] using heq
  obtain ⟨-, -, hlists⟩ := listFront_unique (fun names h => (hnested names h).plain) hf.nested
    (list.opens _) ⟨'[', rfl, .inl rfl⟩ hparts
  exact elementAt_of_list hf hlist hlists

/-- Behind a frame at the start of a name the name goes on with an element. -/
theorem elementAt_of_root (hf : f.Delimited) (hhead : '\x60' ∉ f.head) {name : Name}
    (hname : '\x60' ∉ name.head) {context : ListContext} {t : TypeName}
    (h : name.DenotesIn known context place t) (heq : name.print = f.print ++ y) :
    ElementAt known place.deeper y := by
  have hmarker : f.print ++ y =
      f.head ++ '\x60' :: (f.arity.digits ++ (nestedText f.nested ++ (f.opened ++ y))) := by
    simp [print, front]
  rw [hmarker] at heq
  obtain head | ⟨head, suffix⟩ := name
  · have hmem : '\x60' ∈ head := by
      rw [show head = _ from heq]
      simp
    exact absurd hmem hname
  · obtain ⟨base, -, hsuffix⟩ := h
    obtain ⟨arity, nested, list, markers⟩ := suffix
    obtain ⟨rfl, htail⟩ := split_unique (· = '\x60') (fun z hz heq => hname (heq ▸ hz))
      (fun z hz heq => hhead (heq ▸ hz)) rfl rfl heq
    exact elementAt_of_suffix hf (x := []) hsuffix ((List.append_nil _).trans htail)

/-- Behind a frame inside of an element the element's name goes on with an element. -/
theorem elementAt_of_inner (hf : f.Inner) (h : ElementAt known place (f.print ++ y)) :
    ElementAt known place.deeper y := by
  obtain ⟨name, noise, z, t, helement, hname, heq⟩ := h
  have hmarker : f.print ++ y =
      f.head ++ '\x60' :: (f.arity.digits ++ (nestedText f.nested ++ (f.opened ++ y))) := by
    simp [print, front]
  obtain ⟨after, hafter⟩ := exists_headD_append (name.tail ++ noise) z
  rw [List.append_assoc] at hafter
  rw [hmarker, name.print_eq, List.append_assoc, hafter] at heq
  obtain ⟨-, htail⟩ := hf.scanned.unique helement.scanned heq
  rw [← hafter] at htail
  obtain head | ⟨head, suffix⟩ := name
  · have hend : (noise ++ ']' :: z).head? ≠ some '\x60' := ends_closed.mpr helement.ends
    exact absurd (congrArg List.head? htail.symm) hend
  · obtain ⟨base, -, hsuffix⟩ := hname
    exact elementAt_of_suffix hf.toDelimited hsuffix htail.symm

end Frame

/-- However deep in the name: behind frames inside of each other the innermost list goes
on with an element. -/
theorem elementAt_of_frames {known : String → Bool} {frames : List Frame} {place : Place}
    {y : List Char} (hframes : ∀ f ∈ frames, f.Inner)
    (h : ElementAt known place (frames.flatMap Frame.print ++ y)) :
    ∃ place', ElementAt known place' y := by
  induction frames generalizing place with
  | nil => exact ⟨place, h⟩
  | cons f frames ih =>
    obtain ⟨hf, hframes⟩ := List.forall_mem_cons.mp hframes
    rw [List.flatMap_cons, List.append_assoc] at h
    exact ih hframes (Frame.elementAt_of_inner hf h)

/-- A name that begins with neither a comma nor a backtick. -/
theorem ElementAt.first {known : String → Bool} {place : Place} {c : Char} {rest : List Char}
    (h : ElementAt known place (c :: rest)) :
    c ≠ ',' ∧ c ≠ '\x60' ∧ (c = ']' → ∃ (name : Name) (noise after : List Char) (t : TypeName),
      name.DenotesIn known .bracketed place t ∧ c :: rest = name.print ++ (noise ++ ']' :: after) ∧
      ∃ more, name.head = c :: more) := by
  obtain ⟨name, noise, after, t, helement, hname, heq⟩ := h
  obtain ⟨d, more, hhead⟩ := List.exists_cons_of_ne_nil hname.head_ne_nil
  obtain rfl : c = d := by
    rw [name.print_eq, hhead] at heq
    exact (List.cons.inj heq).1
  have hscan := helement.scanned
  rw [hhead] at hscan
  exact ⟨hscan.2.1, hscan.1, fun _ => ⟨name, noise, after, t, hname, heq, more, hhead⟩⟩

end ClrNames.Written

namespace ClrNames
open Grammar Written Text

/-- An element whose opening bracket is followed by a comma or a backtick is refused, however
deep it stands and whatever comes behind. One whose opening bracket is followed by a
closing bracket is only accepted under a name that begins with it: the scan for the end of
a name takes the two for an array marker, and apart from them ends where it should. -/
theorem readTypeName_element_name (known : String → Bool) (containing : Option TypeName)
    (root : Frame) (frames : List Frame) (c : Char) (rest : List Char) (hroot : root.Delimited)
    (hhead : '\x60' ∉ root.head) (hframes : ∀ f ∈ frames, f.Inner)
    (hlength : byteLength (root.print ++ (frames.flatMap Frame.print ++ c :: rest)) ≠ 1023) :
    let name := String.ofList (root.print ++ (frames.flatMap Frame.print ++ c :: rest))
    (c = ',' ∨ c = '\x60' → ∃ refusal, readTypeName known containing name = .error refusal) ∧
    (c = ']' → ∀ t, readTypeName known containing name = .ok t →
      ∃ (inner : Name) (noise after : List Char) (place : Place) (u : TypeName),
        inner.DenotesIn known .bracketed place u ∧
        c :: rest = inner.print ++ (noise ++ ']' :: after) ∧ ∃ more, inner.head = ']' :: more) ∧
    ∀ s : State,
      (∀ stop, elementNameEnd s = .ok stop s ↔ ∃ n, FirstEnd '[' s.cursor.rest n ∧
        stop = s.cursor.pos + byteLength (s.cursor.rest.take n)) ∧
      ∀ before ≠ '[', (∀ n, FirstEnd '[' s.cursor.rest n ↔ FirstEnd before s.cursor.rest n) ↔
        s.cursor.rest.head? ≠ some ']' := by
  intro name
  have haccepted (t : TypeName) (h : readTypeName known containing name = .ok t) :
      ∃ place, ElementAt known place (c :: rest) := by
    rw [readTypeName_uncut_ok_iff hlength] at h
    obtain ⟨-, -, written, hprint, hname, hdenotes, -⟩ := h
    exact elementAt_of_frames hframes (Frame.elementAt_of_root hroot hhead hname hdenotes hprint)
  refine ⟨fun hc => ?_, ?_, fun s => ⟨fun stop => ?_, fun before hbefore => ⟨?_, ?_⟩⟩⟩
  · cases h : readTypeName known containing name with
    | error refusal => exact ⟨refusal, rfl⟩
    | ok t =>
      obtain ⟨place, helement⟩ := haccepted t h
      exact (hc.elim helement.first.1 helement.first.2.1).elim
  · rintro rfl t h
    obtain ⟨place, helement⟩ := haccepted t h
    obtain ⟨inner, noise, after, u, hdenotes, heq, hbegin⟩ := helement.first.2.2 rfl
    exact ⟨inner, noise, after, place, u, hdenotes, heq, hbegin⟩
  · rw [elementNameEnd_ok_iff_firstEnd]
    exact and_iff_right rfl
  · intro hsame hclose
    obtain ⟨more, hmore⟩ := List.head?_eq_some_iff.mp hclose
    have hfirst : FirstEnd before s.cursor.rest 0 := by simp [FirstEnd, EndsAt, hmore, hbefore]
    have hnone : ¬ FirstEnd '[' s.cursor.rest 0 := by simp [FirstEnd, EndsAt, hmore]
    exact hnone ((hsame 0).mpr hfirst)
  · intro hclose n
    exact firstEnd_before hclose

/-- Inside of the second element stands an element without a name. -/
theorem readTypeName_element_name_inner :
    let root : Frame := ⟨['A'], ⟨['2'], by simp, by simp⟩, none,
      some (.last (.simple ['x']) ", lib".toList, 1)⟩
    let inner : Frame := ⟨['B'], ⟨['1'], by simp, by simp⟩, none, none⟩
    let text := root.print ++ ([inner].flatMap Frame.print ++ ',' :: "q]]]]".toList)
    root.Delimited ∧ '\x60' ∉ root.head ∧ (∀ f ∈ [inner], f.Inner) ∧ byteLength text ≠ 1023 ∧
      String.ofList text = "A\x602[[x, lib], [B\x601[[,q]]]]" ∧
      ∃ refusal, readTypeName (fun _ => false) none (String.ofList text) = .error refusal := by
  intro root inner text
  have hkept : (Written.Elements.last (.simple ['x']) ", lib".toList).Delimited :=
    ⟨⟨by decide, by simp [Name.Ends], by simp [Scans, Name.head, Name.tail]⟩, trivial⟩
  have hroot : root.Delimited := ⟨by rintro _ ⟨⟩, by rintro _ _ ⟨⟩; exact hkept⟩
  have hhead : '\x60' ∉ root.head := by decide
  have hframes : ∀ f ∈ [inner], f.Inner := by
    rw [List.forall_mem_singleton]
    exact ⟨⟨by rintro _ ⟨⟩, by rintro _ _ ⟨⟩⟩, by simp [inner, Scans]⟩
  have hlength : byteLength text ≠ 1023 := by decide
  exact ⟨hroot, hhead, hframes, hlength, by decide, (readTypeName_element_name (fun _ => false) none
    root [inner] ',' "q]]]]".toList hroot hhead hframes hlength).1 (.inl rfl)⟩

/-- The bracket that closes an empty element counts as its name, and the next one closes the
element: a list with one argument is read where there is none. -/
theorem empty_element_named :
    let root : Frame := ⟨['A'], ⟨['1'], by simp, by simp⟩, none, none⟩
    let text := root.print ++ ']' :: [']', ']']
    root.Delimited ∧ '\x60' ∉ root.head ∧ byteLength text ≠ 1023 ∧
      String.ofList text = "A\x601[[]]]" ∧
      readTypeName (fun _ => false) none (String.ofList text) =
        .ok { TypeName.topLevel "" "A" with args := [.topLevel "" "]"] } := by
  intro root text
  have hread : readText { known := fun _ => false } text =
    .ok { TypeName.topLevel "" "A" with args := [.topLevel "" "]"] } := by decide +kernel
  exact ⟨⟨by rintro _ ⟨⟩, by rintro _ _ ⟨⟩⟩, by decide, by decide, by decide,
    readText_of_toList hread⟩

end ClrNames
