import ClrNames.Proofs.FlatCut
import ClrNames.Proofs.SameNames
import ClrNames.Proofs.Unambiguous

/-!
# Cut-off names with nested lists

A cut-off name is closed with the brackets of one element and one list. That closes it
exactly if the last separator in front of the cut stands between two elements of the
outermost list; behind an inner list it leaves the outer ones open. A separator may also
stand in the base name, where there is nothing to close.
-/

set_option autoImplicit false

namespace ClrNames

namespace Written
open Grammar

inductive Elements.Starts : Elements → List Char → Prop
  | first (name : Name) (noise : List Char) (gap : Nat) (rest : Elements) :
      Starts (.more name noise gap rest) ('[' :: name.print ++ noise ++ [']'])
  | next (name : Name) (noise : List Char) (gap : Nat) {rest : Elements} {text : List Char}
      (h : Starts rest text) : Starts (.more name noise gap rest)
        ('[' :: name.print ++ noise ++ [']'] ++ ',' :: (spaces gap ++ text))

variable {known : String → Bool} {depth : Nat} {args args' : List TypeName}

/-- The first elements of a list make up a list of their own. -/
theorem Elements.Starts.kept {elements : Elements} {text : List Char} (h : elements.Starts text)
    (hdenotes : elements.Denotes known depth args) :
    ∃ (kept : Elements) (args : List TypeName),
      kept.print = text ∧ kept.Denotes known depth args := by
  induction h generalizing args with
  | first name noise gap rest =>
    obtain ⟨hname, t, others, -, ht, -⟩ := hdenotes
    exact ⟨.last name noise, [t], rfl, hname, t, rfl, ht⟩
  | next name noise gap h ih =>
    obtain ⟨hname, t, others, -, ht, hrest⟩ := hdenotes
    obtain ⟨kept, args, hprint, hkept⟩ := ih hrest
    refine ⟨.more name noise gap kept, t :: args, ?_, hname, t, args, rfl, ht, hkept⟩
    simp [Elements.print, hprint]

theorem Elements.starts_followedBy (gap : Nat) (rest : Elements) : (kept : Elements) →
    (kept.followedBy gap rest).Starts kept.print
  | .last name noise => .first name noise gap rest
  | .more name noise gap' kept => by
    have hprint : (Elements.more name noise gap' kept).print =
        '[' :: name.print ++ noise ++ [']'] ++ ',' :: (spaces gap' ++ kept.print) := by
      simp [Elements.print]
    rw [hprint]
    exact .next name noise gap' (Elements.starts_followedBy gap rest kept)

/-- A name that ends with two brackets that close ends with a bracketed list. -/
theorem bracketed_of_closed {front before : List Char} {list : ArgList} {markers : Markers}
    (h : front ++ (list.print ++ markers.print) = before ++ [']', ']']) :
    ∃ kept, list = .bracketed kept ∧ front ++ '[' :: kept.print = before ++ [']'] := by
  have hlast (cs : List Char) (c : Char) (h : cs ++ [c] = before ++ [']', ']']) :
      c = ']' ∧ cs = before ++ [']'] := by
    have hsplit : cs ++ [c] = (before ++ [']']) ++ [']'] := by simpa using h
    obtain ⟨hcs, hc⟩ := List.append_inj' hsplit rfl
    exact ⟨(List.cons.inj hc).1, hcs⟩
  -- array markers end with a pair of brackets, the first of which opens
  have hmarked (more : List Char) :
      front ++ (list.print ++ (more ++ ['[', ']'])) ≠ before ++ [']', ']'] := by
    intro h
    have hpair : (front ++ list.print ++ more) ++ ['[', ']'] = before ++ [']', ']'] := by
      simpa using h
    cases (List.append_inj' hpair rfl).2
  obtain ⟨_ | _ | _ | m, hm⟩ := markers
  · have hnone : front ++ list.print = before ++ [']', ']'] := by simpa [Markers.print] using h
    cases list with
    | unbound =>
      have hc := (hlast (front ++ ['<']) '>' (by simpa [ArgList.print] using hnone)).1
      cases hc
    | plain items =>
      have hc := (hlast (front ++ '<' :: items.print) '>'
        (by simpa [ArgList.print] using hnone)).1
      cases hc
    | skipped text =>
      have hcs := (hlast (front ++ '[' :: text.chars) ']'
        (by simpa [ArgList.print] using hnone)).2
      rcases List.eq_nil_or_concat text.chars with hnil | ⟨init, last, hconcat⟩
      · rw [hnil] at hcs
        cases (List.append_inj' hcs rfl).2
      · have hparts : (front ++ '[' :: init) ++ [last] = before ++ [']'] := by
          simpa [hconcat] using hcs
        have hbracket : last = ']' := (List.cons.inj (List.append_inj' hparts rfl).2).1
        exact absurd (by simp [hconcat, hbracket]) text.unclosed
    | bracketed kept =>
      have hcs := (hlast (front ++ '[' :: kept.print) ']'
        (by simpa [ArgList.print] using hnone)).2
      exact ⟨kept, rfl, hcs⟩
  · exact absurd h (hmarked [])
  · exact absurd h (hmarked ['[', ']'])
  · omega

/-- Types of one base differ in their arguments alone, whatever lists they are read with. -/
theorem Name.Denotes.sameNames {context : ListContext} {head : List Char}
    {arity arity' : Decimal} {nested : Option (List Char)} {list list' : ArgList}
    {markers markers' : Markers} {t u : TypeName}
    (ht : (Name.generic head (.mk arity nested list markers)).Denotes known context depth t)
    (hu : (Name.generic head (.mk arity' nested list' markers')).Denotes known context depth u) :
    SameNames u t := by
  obtain ⟨base, hbase, -, -, -, args, -, rfl⟩ := ht
  obtain ⟨base', hbase', -, -, -, args', -, rfl⟩ := hu
  obtain rfl := hbase.unique hbase'
  have hargs := (SameNames.withArgs base args').symm.trans (.withArgs base args)
  exact (hargs.foldl_nested _).withArray _ _

/-- A closed name that is written as a name closes a list behind its first elements. -/
theorem starts_of_closed {head before after : List Char} {arity : Decimal}
    {nested : Option (List Char)} {list : ArgList} {markers : Markers} {name : Name}
    {t u : TypeName} (hhead : '\x60' ∉ head)
    (hdenotes : (Name.generic head (.mk arity nested list markers)).Denotes known .root 0 t)
    (hprint : (Name.generic head (.mk arity nested list markers)).print =
      before ++ Text.separator ++ after)
    (hmarked : '\x60' ∈ before) (hhead' : '\x60' ∉ name.head)
    (hdenotes' : name.Denotes known .root 0 u) (hclosed : name.print = before ++ [']', ']']) :
    (∃ elements text, list = .bracketed elements ∧ elements.Starts text ∧
      before ++ [']'] = front head arity nested ++ '[' :: text) ∧ SameNames u t := by
  obtain head' | ⟨head', arity', nested', list', markers'⟩ := name
  · have hmem : '\x60' ∈ head' := by
      rw [show head' = before ++ [']', ']'] from hclosed]
      exact List.mem_append_left _ hmarked
    exact absurd hmem hhead'
  · rw [print_generic] at hprint hclosed
    obtain ⟨kept, rfl, hkept⟩ := bracketed_of_closed hclosed
    -- the text goes on behind the kept elements with the rest of the separator
    have hwhole : front head arity nested ++ (list.print ++ markers.print) =
        front head' arity' nested' ++ ('[' :: kept.print ++ ',' :: '[' :: after) := by
      have hparts : before ++ Text.separator ++ after =
          (before ++ [']']) ++ ([',', '['] ++ after) := by simp [Text.separator]
      rw [hprint, hparts, ← hkept]
      simp
    obtain ⟨base, hbase, hlt, hnames, hallowed, args, hargs, rfl⟩ := hdenotes
    obtain ⟨base', hbase', hlt', hnames', hallowed', args', hargs', rfl⟩ := hdenotes'
    obtain ⟨rfl, rfl, rfl, hlist⟩ := front_unique hhead hhead'
      (fun names h => (hnames names h).plain) (fun names h => (hnames' names h).plain)
      (list.opens markers.print) ⟨'[', rfl, .inl rfl⟩ hwhole
    refine ⟨?_, Name.Denotes.sameNames ⟨base, hbase, hlt, hnames, hallowed, args, hargs, rfl⟩
      ⟨base', hbase', hlt', hnames', hallowed', args', hargs', rfl⟩⟩
    obtain ⟨more, hmore⟩ := kept.print_eq_cons
    cases list with
    | unbound => cases (List.cons.inj hlist).1
    | plain items => cases (List.cons.inj hlist).1
    | skipped text =>
      have hchars : text.chars ++ ']' :: markers.print = kept.print ++ ',' :: '[' :: after := by
        simpa [ArgList.print] using hlist
      exact absurd (by rw [hchars, hmore]; rfl) (text.head?_append markers.print)
    | bracketed elements =>
      have hbehind : elements.print ++ ']' :: markers.print = kept.print ++ ',' :: '[' :: after := by
        simpa [ArgList.print] using hlist
      have helements : elements.Delimited :=
        ((elements.denotesIn_none known).mpr hargs).delimited
      have hkept' : kept.Delimited := ((kept.denotesIn_none known).mpr hargs').delimited
      obtain ⟨gap, rest, rfl, -⟩ := Elements.followedBy_of_comma helements hkept' hbehind
      exact ⟨_, kept.print, rfl, Elements.starts_followedBy gap rest kept, hkept.symm⟩

/-- In front of a separator behind the arity marker a name can be closed if and only if the
separator stands between elements of its outermost list. -/
theorem closed_iff_starts {head before after : List Char} {arity : Decimal}
    {nested : Option (List Char)} {list : ArgList} {markers : Markers} {t : TypeName}
    (hhead : '\x60' ∉ head)
    (hdenotes : (Name.generic head (.mk arity nested list markers)).Denotes known .root 0 t)
    (hprint : (Name.generic head (.mk arity nested list markers)).print =
      before ++ Text.separator ++ after)
    (hmarked : '\x60' ∈ before) :
    (∃ u, ∃ name : Name, name.print = before ++ [']', ']'] ∧ '\x60' ∉ name.head ∧
        name.Denotes known .root 0 u) ↔
      ∃ elements text, list = .bracketed elements ∧ elements.Starts text ∧
        before ++ [']'] = front head arity nested ++ '[' :: text := by
  constructor
  · rintro ⟨u, closed, hclosed, hhead', hdenotes'⟩
    exact (starts_of_closed hhead hdenotes hprint hmarked hhead' hdenotes' hclosed).1
  · rintro ⟨elements, text, rfl, hfirst, hclosed⟩
    obtain ⟨base, hbase, hlt, hnames, hallowed, args, hargs, rfl⟩ := hdenotes
    obtain ⟨kept, args', rfl, hkept⟩ := hfirst.kept hargs
    refine ⟨_, .generic head (.mk arity nested (.bracketed kept) 0), ?_, hhead,
      base, hbase, hlt, hnames, ⟨hallowed.depth_lt, nofun⟩, args', hkept, rfl⟩
    rw [print_generic]
    have hbracket : before ++ [']', ']'] = (before ++ [']']) ++ [']'] := by simp
    rw [hbracket, hclosed]
    simp [ArgList.print, Markers.print]

/-! ## Separators in the base name -/

theorem Name.prefix_head {name : Name} {text : List Char} (h : text <+: name.print)
    (htick : '\x60' ∉ text) : text <+: name.head := by
  rw [Name.print_eq] at h
  rcases Text.prefix_append_cases h with hshort | ⟨rest, rfl, hrest⟩
  · exact hshort
  · have hnil : rest = [] := by
      cases rest with
      | nil => rfl
      | cons c rest =>
        obtain head | ⟨head, ⟨arity, nested, list, markers⟩⟩ := name
        · exact absurd hrest (by simp [Name.tail])
        · obtain ⟨more, hmore⟩ := hrest
          have hc : c = '\x60' := (List.cons.inj hmore).1
          exact absurd (by simp [hc]) htick
    rw [hnil, List.append_nil]

/-- A text without an arity marker is written as a name by itself alone. -/
theorem denotes_unmarked_iff {context : ListContext} {text : List Char} {t : TypeName}
    (htick : '\x60' ∉ text) :
    (∃ name : Name, name.print = text ∧ '\x60' ∉ name.head ∧ name.Denotes known context depth t) ↔
      Named known text t := by
  constructor
  · rintro ⟨head | ⟨head, ⟨arity, nested, list, markers⟩⟩, rfl, -, h⟩
    · exact h
    · exact absurd (by simp [Name.print, Suffix.print]) htick
  · exact fun h => ⟨.simple text, rfl, htick, h⟩

section
variable {name : Name} {context : ListContext} {t u : TypeName} {before more cut : List Char}
  (h : name.Denotes known context depth t)
  (hplain : ((Text.segments name.head).getLastD []).head? ≠ some '!')
include h hplain

theorem Name.Denotes.fullname_eq : ∃ names : List String,
    t.fullname.toList =
      Text.withoutMarkers name.head ++ (names.flatMap fun name => '.' :: name.toList) ∧
    (names = [] → ∃ base, Named known name.head base ∧ SameNames base t) := by
  obtain ⟨base, names, hbase, hsame⟩ := h.sameNames_head
  refine ⟨names, ?_, ?_⟩
  · rw [← hsame.fullname, TypeName.fullname_foldl_nested, hbase.fullname_of_plain hplain,
      String.toList_ofList]
  · rintro rfl
    exact ⟨base, hbase, hsame⟩

/-- Array markers have no comma, so the names of a type keep the one of a separator. -/
theorem stem_prefix_of_separator (hhead : before ++ Text.separator <+: name.head) :
    ∃ more, t.fullname.toList = before ++ ']' :: ',' :: more := by
  obtain ⟨names, hfull, -⟩ := h.fullname_eq hplain
  obtain ⟨marks, hmarks, hbracket⟩ := Text.withoutMarkers_append name.head
  obtain ⟨behind, hbehind⟩ := hhead
  have hsplit :
      (before ++ [']', ',']) ++ ('[' :: behind) = Text.withoutMarkers name.head ++ marks := by
    rw [← hmarks, ← hbehind]
    simp [Text.separator]
  have hstem : before ++ [']', ','] <+: Text.withoutMarkers name.head := by
    rcases List.append_eq_append_iff.mp hsplit with ⟨rest, hrest, -⟩ | ⟨rest, hrest, hmarks'⟩
    · exact ⟨rest, hrest.symm⟩
    · rcases List.eq_nil_or_concat rest with rfl | ⟨init, last, rfl⟩
      · exact ⟨[], by rw [hrest, List.append_nil, List.append_nil]⟩
      · have hlast :
            (before ++ [']']) ++ [','] = Text.withoutMarkers name.head ++ init ++ [last] := by
          simpa using hrest
        have hcomma : ',' = last := (List.cons.inj (List.append_inj' hlast rfl).2).1
        rcases hbracket ',' (by rw [hmarks', ← hcomma]; simp) with hc | hc <;> cases hc
  obtain ⟨rest, hrest⟩ := hstem
  refine ⟨rest ++ names.flatMap fun name => '.' :: name.toList, ?_⟩
  rw [hfull, ← hrest]
  simp

/-- Closed behind a separator of its base, a name is another one. -/
theorem not_sameNames_of_closed (hhead : before ++ Text.separator <+: name.head)
    (hu : Named known (before ++ [']', ']']) u) : ¬ SameNames u t := by
  intro hsame
  obtain ⟨more, hmore⟩ := stem_prefix_of_separator h hplain hhead
  have hunmarked : ¬ ['[', ']'] <:+ before ++ [']', ']'] := by
    rintro ⟨rest, hrest⟩
    cases (List.append_inj' hrest rfl).2
  have hstem := Text.withoutMarkers_append_brackets hunmarked 0
  have hspelled := hu.fullname_of_comma (by simp [hsame.fullname, hmore])
  rw [hsame.fullname, ← String.toList_inj, hmore, String.toList_ofList] at hspelled
  rw [Text.brackets_zero, List.append_nil] at hstem
  rw [hstem, List.append_cancel_left_eq] at hspelled
  cases hspelled

/-- Cut in front of its arity marker, a name keeps its names if only array markers are lost. -/
theorem sameNames_of_unmarked_iff (hhead : before ++ Text.separator <+: name.head)
    (hcut : cut <+: name.head) :
    (∃ u, Named known cut u ∧ SameNames u t) ↔
      t.fullname = String.ofList (Text.withoutMarkers cut) := by
  obtain ⟨more, hmore⟩ := stem_prefix_of_separator h hplain hhead
  constructor
  · rintro ⟨u, hu, hsame⟩
    rw [← hsame.fullname]
    exact hu.fullname_of_comma (by simp [hsame.fullname, hmore])
  · intro hspelled
    obtain ⟨names, hfull, hbase⟩ := h.fullname_eq hplain
    obtain ⟨marks, hmarks, hbracket⟩ := Text.withoutMarkers_append name.head
    obtain ⟨lost, hlost, -⟩ := Text.withoutMarkers_append cut
    rw [hspelled, String.toList_ofList] at hfull
    -- nested names would stand where the head has nothing but array markers
    have hnames : (names.flatMap fun name => '.' :: name.toList) <+: marks := by
      have hkept : Text.withoutMarkers cut <+: cut := ⟨lost, hlost.symm⟩
      obtain ⟨behind, hbehind⟩ := hkept.trans hcut
      rw [hfull] at hbehind
      have hmarked := hbehind.trans hmarks
      rw [List.append_assoc, List.append_cancel_left_eq] at hmarked
      exact ⟨behind, hmarked⟩
    have hnil : names = [] := by
      cases names with
      | nil => rfl
      | cons first rest =>
        rcases hbracket '.' (hnames.subset (by simp)) with h | h <;> cases h
    rw [hnil, List.flatMap_nil, List.append_nil] at hfull
    obtain ⟨base, hnamed, hsame⟩ := hbase hnil
    obtain ⟨u, hu, hsame'⟩ := hnamed.cut hplain hcut hfull
    exact ⟨u, hu, hsame'.trans hsame⟩

end

end Written

open Written Text Grammar

section
variable {known : String → Bool} {name cut before : List Char} {t u : TypeName}

/-- A text that is cut off in its base name is left alone if no arity marker is left in it,
else it is closed as if a list had been cut; in both cases it is read as a base name. -/
theorem readTypeName_cut_base_iff (hlength : byteLength cut = 1023)
    (hgenerated : isCompilerGenerated cut = false)
    (hbefore : beforeLast? separator cut = some before) (hmarked : '\x60' ∉ before) :
    readTypeName known none (String.ofList cut) = .ok u ↔
      Named known (if '\x60' ∈ cut then before ++ [']', ']'] else cut) u := by
  split
  next htick =>
    have hclosed : '\x60' ∉ before ++ [']', ']'] := by simpa using hmarked
    exact (readTypeName_cut_ok_iff hlength hgenerated htick hbefore).trans
      (denotes_unmarked_iff hclosed)
  next htick =>
    have hwhole : closeTruncated cut = .ok (cut, false) := if_neg fun hcut => htick hcut.2
    rw [readTypeName_ok_iff, hwhole]
    constructor
    · rintro ⟨-, -, _, _, ⟨⟩, written, hprint, hhead, hdenotes, -⟩
      exact (denotes_unmarked_iff htick).mp ⟨written, hprint, hhead, hdenotes⟩
    · intro hnamed
      have hnonempty : cut ≠ [] := by
        rintro rfl
        cases hlength
      exact ⟨hnonempty, hgenerated, cut, false, rfl, .simple cut, rfl, htick, hnamed,
        allCounted_nil false⟩

end

/-- A name that is cut off behind its arity marker is read if and only if the last
separator in front of the cut stands between elements of its outermost list, which is a
bracketed one. It is then read as the same type, but for arguments and array marks.

If that separator stands in the base name, what is in front of it is closed all the same
and read as a base name of its own, or the cut is left alone because no arity marker is in
front of it. A name that is no reference then keeps its names only if it is left alone and
the cut has lost no more than array markers of the base. -/
theorem readTypeName_nested_cut (known : String → Bool) (name cut before : List Char)
    (t : TypeName) (h : readTypeName known none (String.ofList name) = .ok t)
    (hlong : 1023 < byteLength name) (hcut : cut <+: name) (hlength : byteLength cut = 1023)
    (hgenerated : isCompilerGenerated cut = false)
    (hbefore : beforeLast? "],[".toList cut = some before) :
    ∃ written : Name, name = written.print ∧ '\x60' ∉ written.head ∧
      written.Denotes known .root 0 t ∧
      ('\x60' ∈ before →
        (∃ (head : List Char) (arity : Decimal) (nested : Option (List Char)) (list : ArgList)
          (markers : Markers), written = .generic head (.mk arity nested list markers) ∧
          ((∃ u, readTypeName known none (String.ofList cut) = .ok u) ↔
            ∃ elements text, list = .bracketed elements ∧ elements.Starts text ∧
              before ++ [']'] = front head arity nested ++ '[' :: text)) ∧
        ∀ u, readTypeName known none (String.ofList cut) = .ok u → SameNames u t) ∧
      ('\x60' ∉ before →
        (∀ u, readTypeName known none (String.ofList cut) = .ok u ↔
          Named known (if '\x60' ∈ cut then before ++ [']', ']'] else cut) u) ∧
        (((segments written.head).getLastD []).head? ≠ some '!' →
          ((∃ u, readTypeName known none (String.ofList cut) = .ok u ∧ SameNames u t) ↔
            '\x60' ∉ cut ∧ t.fullname = String.ofList (withoutMarkers cut)))) := by
  have hwhole : closeTruncated name = .ok (name, false) := if_neg fun hcut => by
    have := hcut.1
    unfold truncatedLength at this
    omega
  obtain ⟨inside, hinside⟩ := beforeLast?_eq_some hbefore
  obtain ⟨outside, houtside⟩ := id hcut
  have hname : name = before ++ separator ++ (inside ++ outside) := by
    rw [← houtside, hinside, List.append_assoc _ inside outside]
    rfl
  rw [readTypeName_ok_iff, hwhole] at h
  obtain ⟨-, -, _, _, ⟨⟩, written, hprint, hhead, hdenotes, -⟩ := h
  refine ⟨written, hprint.symm, hhead, hdenotes, fun hmarked => ?_, fun hmarked => ?_⟩
  · have hcutmarked : '\x60' ∈ cut := by
      rw [hinside]
      exact List.mem_append_left _ (List.mem_append_left _ hmarked)
    obtain head | ⟨head, arity, nested, list, markers⟩ := written
    · have hmem : '\x60' ∈ head := by
        rw [show head = name from hprint, hname]
        exact List.mem_append_left _ (List.mem_append_left _ hmarked)
      exact absurd hmem hhead
    have hread (u : TypeName) : readTypeName known none (String.ofList cut) = .ok u ↔
        ∃ name : Name, name.print = before ++ [']', ']'] ∧ '\x60' ∉ name.head ∧
          name.Denotes known .root 0 u :=
      readTypeName_cut_ok_iff hlength hgenerated hcutmarked hbefore
    simp only [hread]
    refine ⟨⟨head, arity, nested, list, markers, rfl,
      closed_iff_starts hhead hdenotes (hprint.trans hname) hmarked⟩, ?_⟩
    rintro u ⟨closed, hclosed, hhead', hdenotes'⟩
    exact (starts_of_closed hhead hdenotes (hprint.trans hname) hmarked hhead' hdenotes' hclosed).2
  · have hread (u : TypeName) : readTypeName known none (String.ofList cut) = .ok u ↔
        Named known (if '\x60' ∈ cut then before ++ [']', ']'] else cut) u :=
      readTypeName_cut_base_iff hlength hgenerated hbefore hmarked
    refine ⟨hread, fun hplain => ?_⟩
    have hbase : before ++ separator <+: written.head := by
      refine Name.prefix_head ⟨inside ++ outside, by rw [hprint, hname]⟩ ?_
      rw [List.mem_append]
      exact not_or.mpr ⟨hmarked, by decide⟩
    simp only [hread]
    by_cases htick : '\x60' ∈ cut
    · simp only [if_pos htick]
      refine iff_of_false ?_ fun hkept => hkept.1 htick
      rintro ⟨u, hu, hsame⟩
      exact not_sameNames_of_closed hdenotes hplain hbase hu hsame
    · simp only [if_neg htick]
      have hshort : cut <+: written.head := Name.prefix_head (hprint.symm ▸ hcut) htick
      rw [sameNames_of_unmarked_iff hdenotes hplain hbase hshort]
      exact ⟨fun hspelled => ⟨htick, hspelled⟩, And.right⟩

/-- The inner list is complete and the cut falls behind the second of the outer elements. -/
theorem readTypeName_nested_cut_outer :
    let known : String → Bool := fun _ => false
    let before := "B\x602[[X\x601[[a, ".toList ++ List.replicate 999 'q' ++ "]], lib".toList
    let name := before ++ "],[c, d]]".toList
    let cut := name.take 1023
    let t : TypeName := { TypeName.topLevel "" "B" with
      args := [{ TypeName.topLevel "" "X" with args := [.topLevel "" "a"] }, .topLevel "" "c"] }
    readTypeName known none (String.ofList name) = .ok t ∧ 1023 < byteLength name ∧
      cut <+: name ∧ byteLength cut = 1023 ∧ isCompilerGenerated cut = false ∧
      beforeLast? "],[".toList cut = some before ∧ '\x60' ∈ before ∧
      ∃ (head : List Char) (arity : Decimal) (nested : Option (List Char)) (list : ArgList)
        (markers : Markers), name = (Name.generic head (.mk arity nested list markers)).print ∧
        '\x60' ∉ head ∧
        (Name.generic head (.mk arity nested list markers)).Denotes known .root 0 t ∧
        ((∃ u, readTypeName known none (String.ofList cut) = .ok u) ↔
          ∃ elements text, list = .bracketed elements ∧ elements.Starts text ∧
            before ++ [']'] = front head arity nested ++ '[' :: text) ∧
        ∀ u, readTypeName known none (String.ofList cut) = .ok u → SameNames u t := by
  intro known before name cut t
  have hread : readTypeName known none (String.ofList name) = .ok t :=
    readText_of_toList (by decide +kernel)
  have hlong : 1023 < byteLength name := by decide +kernel
  have hcut : cut <+: name := List.take_prefix _ _
  have hlength : byteLength cut = 1023 := by decide +kernel
  have hgenerated : isCompilerGenerated cut = false := by decide +kernel
  have hbefore : beforeLast? "],[".toList cut = some before := by decide +kernel
  have hmarked : '\x60' ∈ before :=
    List.mem_append_left _ (List.mem_append_left _ (by decide))
  obtain ⟨written, hprint, hhead, hdenotes, hkept, -⟩ :=
    readTypeName_nested_cut known name cut before t hread hlong hcut hlength hgenerated hbefore
  obtain ⟨⟨head, arity, nested, list, markers, rfl, hiff⟩, hsame⟩ := hkept hmarked
  exact ⟨hread, hlong, hcut, hlength, hgenerated, hbefore, hmarked, head, arity, nested, list,
    markers, hprint, hhead, hdenotes, hiff, hsame⟩

/-- Behind an inner list the two brackets close the inner list and its last element, and
nothing closes the element that it belongs to. -/
theorem inner_cut_malformed :
    let known : String → Bool := fun _ => false
    let name := "B\x601[[X\x602[[a, ".toList ++ List.replicate 1006 'q' ++ "],[c, d]]]]".toList
    let cut := name.take 1023
    (∃ t, readTypeName known none (String.ofList name) = .ok t) ∧ 1023 < byteLength name ∧
      cut <+: name ∧ byteLength cut = 1023 ∧ isCompilerGenerated cut = false ∧
      "],[".toList <:+: cut ∧
      ∃ refusal, readTypeName known none (String.ofList cut) = .error refusal ∧
        refusal.outcome = .malformed := by
  intro known name cut
  let t : TypeName := { TypeName.topLevel "" "B" with
    args := [{ TypeName.topLevel "" "X" with args := [.topLevel "" "a", .topLevel "" "c"] }] }
  have hread : readTypeName known none (String.ofList name) = .ok t :=
    readText_of_toList (by decide +kernel)
  have hinfix : "],[".toList <:+: cut := (occurs_iff _ _).mp (by decide +kernel)
  have hrefused : readTypeName known none (String.ofList cut) =
      .error ⟨.delimiterExpected [']'] 1021, name.take 1019 ++ [']', ']']⟩ :=
    readText_of_toList (by decide +kernel)
  exact ⟨⟨t, hread⟩, by decide +kernel, List.take_prefix _ _, by decide +kernel, by decide +kernel,
    hinfix, _, hrefused, rfl⟩

end ClrNames
