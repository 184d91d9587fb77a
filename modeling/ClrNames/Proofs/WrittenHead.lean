import ClrNames.Proofs.Passes
import ClrNames.Proofs.Written

/-!
# Heads and suffixes of written names

A base name, and what stands from an arity marker on, are read exactly where they are
written names whose lists can be read. The lists themselves are left open.
-/

set_option autoImplicit false

namespace ClrNames.Grammar
open Text Written

section
variable {s t : State}

theorem nameEnd?_eq_some_iff {before : Char} {offset n : Nat} {cs : List Char} :
    nameEnd? before offset cs = some n ↔ ∃ taken d after, cs = taken ++ d :: after ∧
      Scans before taken d ∧ n = offset + byteLength taken := by
  induction cs generalizing before offset with
  | nil => simp [nameEnd?]
  | cons c cs ih =>
    have hstop : (decide (c = '\x60') || decide (c = ',') || (decide (c = ']') && before != '[')) =
        true ↔ Scans before [] c := by
      simp [Scans, or_assoc]
    rw [nameEnd?]
    by_cases hend : Scans before [] c
    · rw [if_pos (hstop.mpr hend)]
      constructor
      · rintro ⟨⟩
        exact ⟨[], c, cs, rfl, hend, rfl⟩
      · rintro ⟨_ | ⟨b, taken⟩, d, after, hcs, hscan, rfl⟩
        · rfl
        · obtain ⟨rfl, -⟩ := List.cons.inj hcs
          rcases hend with hend | hend | ⟨hend, hbefore⟩
          · exact absurd hend hscan.1
          · exact absurd hend hscan.2.1
          · exact absurd (hscan.2.2.1 hend) hbefore
    · rw [if_neg (mt hstop.mp hend), ih]
      simp only [Scans, not_or, not_and, not_not] at hend
      constructor
      · rintro ⟨taken, d, after, rfl, hscan, rfl⟩
        exact ⟨c :: taken, d, after, rfl, ⟨hend.1, hend.2.1, hend.2.2, hscan⟩,
          by rw [byteLength_cons, Nat.add_assoc]⟩
      · rintro ⟨_ | ⟨b, taken⟩, d, after, hcs, hscan, rfl⟩
        · obtain ⟨rfl, -⟩ := List.cons.inj hcs
          rcases hscan with hscan | hscan | ⟨hscan, hbefore⟩
          · exact absurd hscan hend.1
          · exact absurd hscan hend.2.1
          · exact absurd (hend.2.2 hscan) hbefore
        · obtain ⟨rfl, rfl⟩ := List.cons.inj hcs
          exact ⟨taken, d, after, rfl, hscan.2.2.2, by rw [byteLength_cons, Nat.add_assoc]⟩

theorem elementNameEnd_ok_iff {stop : Nat} : elementNameEnd s = .ok stop t ↔
    t = s ∧ ∃ taken d after, s.cursor.rest = taken ++ d :: after ∧ Scans '[' taken d ∧
      stop = s.cursor.pos + byteLength taken := by
  rw [elementNameEnd, bind_ok (cursor_pass s), ← nameEnd?_eq_some_iff]
  cases nameEnd? '[' s.cursor.pos s.cursor.rest with
  | none =>
    constructor
    · rintro ⟨⟩
    · rintro ⟨-, ⟨⟩⟩
  | some n =>
    constructor
    · rintro ⟨⟩
      exact ⟨rfl, rfl⟩
    · rintro ⟨rfl, ⟨⟩⟩
      rfl

end

theorem Passes.place {s t : State} {piece : List Char} (h : Passes s piece t) :
    t.place = s.place := by
  rw [h.state]
  rfl

section
variable {known : String → Bool} {truncated : Bool} {s t u : State} {node base : TypeName}

theorem nameOf_ok_iff {text : List Char} : nameOf (contained known truncated) text s = .ok base t ↔
    NamedIn known s.place.containing text base ∧ t = s := by
  constructor
  · intro h
    refine ⟨fun v hv => ?_, (nameOf_ok (τ := contained known truncated) rfl rfl h).1⟩
    exact (nameOf_ok (τ := contained known false) rfl (resolve_of_containing hv.symm) h).2
  · rintro ⟨hnamed, rfl⟩
    exact (nameOf_ok (τ := contained known truncated) rfl rfl (hnamed t rfl)).2

/-- The markers that are read are all there are. -/
theorem arraySuffix_ok_iff : arraySuffix node s = .ok base t ↔ ∃ m : Markers,
    Passes s m.print t ∧ ¬ ['[', ']'] <+: t.cursor.rest ∧ base = node.withArray (0 < m.val) := by
  constructor
  · intro h
    unfold arraySuffix at h
    obtain ⟨first, s₁, hfirst, h⟩ := bind_eq_ok h
    obtain ⟨second, s₂, hsecond, h⟩ := bind_eq_ok h
    rw [bind_ok (cursor_pass s₂), check_ok_iff] at h
    obtain ⟨hend, ⟨⟩⟩ := h
    rw [Bool.not_eq_true', ← Bool.not_eq_true, Cursor.startsWith, List.isPrefixOf_iff_prefix] at hend
    rcases eat_ok_iff.mp hfirst with ⟨rfl, hmark⟩ | ⟨rfl, hnone, rfl⟩
    · rcases eat_ok_iff.mp hsecond with ⟨rfl, hmark'⟩ | ⟨rfl, -, rfl⟩
      · exact ⟨2, hmark.trans hmark', hend, rfl⟩
      · exact ⟨1, hmark, hend, rfl⟩
    · rcases eat_ok_iff.mp hsecond with ⟨rfl, hmark⟩ | ⟨rfl, -, rfl⟩
      · exact absurd ⟨_, hmark.rest.symm⟩ hnone
      · exact ⟨0, passes_nil.mpr rfl, hend, rfl⟩
  · rintro ⟨m, hpass, hend, rfl⟩
    rw [arraySuffix_pass node m hpass.rest hend, ← hpass.state]

variable {L : ListReader} {context : ListContext} {declared : Nat} {args : List TypeName}

structure ListRead (known : String → Bool) (truncated : Bool) (place : Place) (declared : Nat)
    (s : State) (list : ArgList) (args : List TypeName) (t : State) : Prop where
  passes : Passes s list.print t
  denotes : list.DenotesIn known place args
  counted : truncated = false → list.Counted declared
  inner : AllCounted truncated list.suffixes

def ListsRead (known : String → Bool) (truncated : Bool) (L : ListReader) (place : Place) : Prop :=
  ∀ (owner : TypeName) (declared : Nat) (context : ListContext) (s t : State)
    (args : List TypeName), s.place = place →
    (L owner declared context s = .ok args t ↔ ∃ list : ArgList, list.Allowed context place.depth ∧
      ListRead known truncated place.deeper declared s list args t)

theorem nestedInGeneric_ok_iff :
    nestedInGeneric L base declared context s = .ok node u ↔ ∃ c names v args,
      Passes s (c :: names) v ∧ (∃ d, v.cursor.rest.head? = some d ∧ (d = '[' ∨ d = '<')) ∧
      NestedNames base names ∧ L base declared context v = .ok args u ∧
      node = ((segments names).map String.ofList).foldl TypeName.nested { base with args } := by
  have hrun {s₁ : State} {c d : Char} {names more : List Char} (hfirst : Passes s [c] s₁)
      (hrest : s₁.cursor.rest = names ++ d :: more)
      (hplain : ∀ c ∈ names, c ∉ ['\x60', '[', '<']) (hd : d ∈ ['\x60', '[', '<']) :
      nestedInGeneric L base declared context s = .ok node u ↔
        (d = '[' ∨ d = '<') ∧ NestedNames base names ∧ ∃ args,
        L base declared context (s₁.pass names (d :: more)) = .ok args u ∧
        node = ((segments names).map String.ofList).foldl TypeName.nested { base with args } := by
    unfold nestedInGeneric checkNesting
    rw [step_ok_iff (advance_ok_iff.mpr ⟨c, hfirst⟩), step_ok_iff (expectAny_pass hrest hplain hd),
      step_ok_iff (cursor_pass s₁), check_ok_iff, step_ok_iff (region_pass hrest), check_ok_iff,
      check_ok_iff, step_ok_iff (seek_pass hrest), charAt_pass hrest, opens_iff hd,
      nestedNames_iff hplain, then_pure_iff, and_assoc]
  constructor
  · intro h
    obtain ⟨x, s₁, hadvance, hsteps⟩ := bind_eq_ok h
    obtain ⟨c, hfirst⟩ := advance_ok_iff.mp hadvance
    obtain ⟨stop, s₂, hstop, -⟩ := bind_eq_ok hsteps
    obtain ⟨rfl, names, d, more, hrest, hplain, hd, rfl⟩ := expectAny_eq_ok hstop
    obtain ⟨hd', hnested, args, hlist, rfl⟩ := (hrun hfirst hrest hplain hd).mp h
    exact ⟨c, names, _, args, hfirst.trans (passes_of hrest), ⟨d, rfl, hd'⟩, hnested, hlist, rfl⟩
  · rintro ⟨c, names, v, args, hpass, ⟨d, hhead, hd⟩, hnested, hlist, rfl⟩
    obtain ⟨s₁, hfirst, hsecond⟩ := passes_append.mp (show Passes s ([c] ++ names) v from hpass)
    obtain ⟨more, hmore⟩ := List.head?_eq_some_iff.mp hhead
    have hrest : s₁.cursor.rest = names ++ d :: more := by rw [hsecond.rest, hmore]
    have hmem : d ∈ ['\x60', '[', '<'] := by simp [hd]
    rw [hrun hfirst hrest hnested.plain hmem]
    refine ⟨hd, hnested, args, ?_, rfl⟩
    rw [← hmore, ← hsecond.state]
    exact hlist

theorem genericTail_ok_iff (hL : ListsRead known truncated L s.place) :
    genericTail L base declared context s = .ok node u ↔ ∃ nested v list args,
      Passes s (nestedText nested) v ∧ (∀ names, nested = some names → NestedNames base names) ∧
      list.Allowed context s.place.depth ∧
      ListRead known truncated s.place.deeper declared v list args u ∧
      node = (nestedNames nested).foldl TypeName.nested { base with args } := by
  unfold genericTail
  rw [step_ok_iff (peek_ok s)]
  have hlists {v : State} {piece : List Char} (hpass : Passes s piece v) {args : List TypeName} :=
    hL base declared context v u args hpass.place
  have hhead {v : State} {list : ArgList} (hpass : Passes v list.print u) :
      ∃ d, v.cursor.rest.head? = some d ∧ (d = '[' ∨ d = '<') := by
    obtain ⟨d, more, hprint, hd⟩ := list.print_eq_cons
    exact ⟨d, by rw [hpass.rest, hprint]; rfl, hd⟩
  by_cases hdot : s.cursor.peek = '.'
  · rw [if_pos hdot, nestedInGeneric_ok_iff]
    rw [peek_eq_iff (by decide)] at hdot
    constructor
    · rintro ⟨c, names, v, args, hpass, -, hnested, hrun, rfl⟩
      obtain rfl : c = '.' := by simpa [hpass.rest] using hdot
      obtain ⟨list, hallowed, hlist⟩ := (hlists hpass).mp hrun
      exact ⟨some names, v, list, args, hpass, by rintro _ ⟨⟩; exact hnested, hallowed, hlist, rfl⟩
    · rintro ⟨_ | names, v, list, args, hpass, hnested, hallowed, hlist, rfl⟩
      · obtain rfl := passes_nil.mp hpass
        obtain ⟨d, hd, hopen⟩ := hhead hlist.passes
        rw [hd] at hdot
        rcases hopen with rfl | rfl <;> cases hdot
      · exact ⟨'.', names, v, args, hpass, hhead hlist.passes, hnested names rfl,
          (hlists hpass).mpr ⟨list, hallowed, hlist⟩, rfl⟩
  · rw [if_neg hdot, then_pure_iff]
    rw [peek_eq_iff (by decide)] at hdot
    constructor
    · rintro ⟨args, hrun, rfl⟩
      obtain ⟨list, hallowed, hlist⟩ := (hlists (passes_nil.mpr rfl)).mp hrun
      exact ⟨none, s, list, args, passes_nil.mpr rfl, nofun, hallowed, hlist, rfl⟩
    · rintro ⟨_ | names, v, list, args, hpass, hnested, hallowed, hlist, rfl⟩
      · obtain rfl := passes_nil.mp hpass
        exact ⟨args, (hlists hpass).mpr ⟨list, hallowed, hlist⟩, rfl⟩
      · exact absurd (by rw [hpass.rest]; rfl) hdot

theorem genericSuffix_ok_iff (hL : ListsRead known truncated L s.place) :
    genericSuffix L base context s = .ok node u ↔ ∃ suffix : Suffix,
      Passes s suffix.print u ∧ ¬ ['[', ']'] <+: u.cursor.rest ∧
      suffix.DenotesIn known context s.place base node ∧ AllCounted truncated suffix.suffixes := by
  constructor
  · intro h
    obtain ⟨n, s₁, harity, h⟩ := bind_eq_ok h
    obtain ⟨t, s₂, htail, h⟩ := bind_eq_ok h
    obtain ⟨arity, after, hrest, -, hlt, rfl, rfl⟩ := arity_ok_iff.mp harity
    have hmarker := passes_of hrest
    obtain ⟨nested, v, list, args, hnested, hnames, hallowed, hlist, rfl⟩ :=
      (genericTail_ok_iff (hmarker.place ▸ hL)).mp htail
    obtain ⟨markers, hmarkers, hend, rfl⟩ := arraySuffix_ok_iff.mp h
    refine ⟨.mk arity nested list markers, ?_, hend,
      ⟨hlt, hnames, hallowed, args, hlist.denotes, rfl⟩,
      allCounted_cons.mpr ⟨hlist.counted, hlist.inner⟩⟩
    exact hmarker.trans (hnested.trans (hlist.passes.trans hmarkers))
  · rintro ⟨⟨arity, nested, list, markers⟩, hpass, hend, hdenotes, hcounted⟩
    obtain ⟨hlt, hnames, hallowed, args, hargs, rfl⟩ := hdenotes
    obtain ⟨hself, hinner⟩ := allCounted_cons.mp hcounted
    obtain ⟨s₁, hmarker, hpass⟩ := passes_append.mp hpass
    obtain ⟨s₂, hnested, hpass⟩ := passes_append.mp hpass
    obtain ⟨s₃, hlist, hmarkers⟩ := passes_append.mp hpass
    have hdigit : ∀ c, s₁.cursor.rest.head? = some c → c.isDigit = false := by
      obtain ⟨c, more, hprint, hc⟩ := list.print_eq_cons
      obtain ⟨d, rest, hfirst, hd⟩ :=
        exists_nestedText_append nested hc (more ++ s₃.cursor.rest)
      rw [hnested.rest, hlist.rest, hprint, List.cons_append, hfirst]
      rintro _ ⟨⟩
      exact hd
    have harity := arity_ok_iff.mpr ⟨arity, _, hmarker.rest, hdigit, hlt, rfl, hmarker.state⟩
    have htail := (genericTail_ok_iff (hmarker.place ▸ hL)).mpr
      ⟨nested, s₂, list, args, hnested, hnames, hmarker.place ▸ hallowed,
        ⟨hlist, hmarker.place ▸ hargs, hself, hinner⟩, rfl⟩
    unfold genericSuffix
    rw [bind_ok harity, bind_ok htail]
    exact arraySuffix_ok_iff.mpr ⟨markers, hmarkers, hend, rfl⟩

/-- A full name is read up to the end of its head, and from a marker on if one stands
there. -/
theorem fullName_ok_iff (hL : ListsRead known truncated L s.place) {taken after : List Char}
    (hrest : s.cursor.rest = taken ++ after) :
    fullName (contained known truncated) L (s.cursor.pos + byteLength taken) context s = .ok node u ↔
      ∃ name : Name, name.head = taken ∧ Passes s name.print u ∧ name.Ends u.cursor.rest ∧
        name.DenotesIn known context s.place node ∧ AllCounted truncated name.suffixes := by
  have hhead := passes_of hrest
  have hbase : fullName (contained known truncated) L (s.cursor.pos + byteLength taken) context s =
      .ok node u ↔ ∃ base, NamedIn known s.place.containing taken base ∧
        (do if (← peek) = '\x60' then genericSuffix L base context else pure base : Reader TypeName)
          (s.pass taken after) = .ok node u := by
    unfold fullName
    rw [bind_ok_iff]
    constructor
    · rintro ⟨base, v, hname, h⟩
      rw [baseName_pass _ hrest, nameOf_ok_iff] at hname
      obtain ⟨hnamed, rfl⟩ := hname
      exact ⟨base, hnamed, h⟩
    · rintro ⟨base, hnamed, h⟩
      exact ⟨base, _, (baseName_pass _ hrest).trans (nameOf_ok_iff.mpr ⟨hnamed, rfl⟩), h⟩
  rw [hbase]
  by_cases htick : after.head? = some '\x60'
  · have hmarker (base : TypeName) :
        (do if (← peek) = '\x60' then genericSuffix L base context else pure base : Reader TypeName)
          (s.pass taken after) = genericSuffix L base context (s.pass taken after) := by
      obtain ⟨more, rfl⟩ := List.head?_eq_some_iff.mp htick
      exact bind_ok (peek_pass (State.pass_rest _ _ _)) _
    constructor
    · rintro ⟨base, hnamed, h⟩
      rw [hmarker, genericSuffix_ok_iff (hhead.place ▸ hL)] at h
      obtain ⟨suffix, hpass, hend, hdenotes, hcounted⟩ := h
      exact ⟨.generic taken suffix, rfl, hhead.trans hpass, hend, ⟨base, hnamed, hdenotes⟩, hcounted⟩
    · rintro ⟨_ | ⟨_, suffix⟩, rfl, hpass, hend, hdenotes, hcounted⟩
      · rw [hpass.unique hhead] at hend
        exact absurd htick hend
      · obtain ⟨base, hnamed, hdenotes⟩ := hdenotes
        obtain ⟨v, hfirst, hpass⟩ := passes_append.mp hpass
        obtain rfl := hfirst.unique hhead
        refine ⟨base, hnamed, ?_⟩
        rw [hmarker, genericSuffix_ok_iff (hhead.place ▸ hL)]
        exact ⟨suffix, hpass, hend, hdenotes, hcounted⟩
  · constructor
    · rintro ⟨base, hnamed, h⟩
      rw [fullName_end base htick rfl] at h
      cases h
      exact ⟨.simple taken, rfl, hhead, htick, hnamed, allCounted_nil _⟩
    · rintro ⟨_ | ⟨_, ⟨arity, nested, list, markers⟩⟩, rfl, hpass, hend, hdenotes, hcounted⟩
      · rw [hpass.unique hhead]
        exact ⟨node, hdenotes, fullName_end node htick rfl⟩
      · have hcancel := hpass.rest.symm.trans hrest
        rw [Name.print_eq, List.append_assoc, List.append_cancel_left_eq] at hcancel
        exact absurd (by rw [← hcancel]; rfl) htick

end

end ClrNames.Grammar
