import ClrNames.Proofs.WrittenHead

/-!
# Written lists

Each routine that reads an argument list succeeds exactly on the lists that are written
as it reads them: elements up to the bracket that closes them, items up to a delimiter,
and a count that agrees with the arity.
-/

set_option autoImplicit false

namespace ClrNames.Grammar
open Text Written

section
variable {known : String → Bool} {truncated : Bool} {s t u : State} {node : TypeName}
  {L : ListReader} {declared : Nat} {args : List TypeName}

theorem ends_closed {name : Name} {noise after : List Char} :
    name.Ends (noise ++ ']' :: after) ↔ name.Ends (noise ++ [']']) := by
  cases name with
  | simple head => cases noise <;> exact Iff.rfl
  | generic head suffix =>
    obtain _ | ⟨c, _ | ⟨d, noise⟩⟩ := noise <;> simp [Name.Ends, List.cons_prefix_cons]

theorem exists_headD_append (cs more : List Char) :
    ∃ after, cs ++ ']' :: more = cs.headD ']' :: after := by
  cases cs with
  | nil => exact ⟨more, rfl⟩
  | cons c cs => exact ⟨cs ++ ']' :: more, rfl⟩

/-- An element ends behind the first closing bracket that its name does not contain. -/
theorem element_ok_iff (hL : ListsRead known truncated L s.place)
    (hopen : s.cursor.rest.head? = some '[') :
    element (contained known truncated) L s = .ok node u ↔ ∃ (name : Name) (noise : List Char),
      Passes s ('[' :: name.print ++ noise ++ [']']) u ∧ name.IsElement noise ∧
      name.DenotesIn known .bracketed s.place node ∧ AllCounted truncated name.suffixes := by
  obtain ⟨more, hmore⟩ := List.head?_eq_some_iff.mp hopen
  have hfirst : Passes s ['['] (s.pass ['['] more) := passes_of hmore
  rw [element_eq, step_ok_iff (advance_ok_iff.mpr ⟨_, hfirst⟩)]
  generalize s.pass ['['] more = s₁ at hfirst ⊢
  rw [bind_ok_iff]
  constructor
  · rintro ⟨stop, t, hstop, h⟩
    obtain ⟨rfl, taken, d, after, hrest, hscan, rfl⟩ := elementNameEnd_ok_iff.mp hstop
    obtain ⟨node, s₂, hname, h⟩ := bind_eq_ok h
    obtain ⟨noise, v, hnoise, hclose, ⟨⟩⟩ := close_ok_iff.mp h
    obtain ⟨name, rfl, hpass, hends, hdenotes, hcounted⟩ :=
      (fullName_ok_iff (hfirst.place ▸ hL) hrest).mp hname
    have hbehind : s₂.cursor.rest = noise ++ ']' :: u.cursor.rest := by simp [hclose.rest]
    refine ⟨name, noise, ?_, ⟨hnoise, ends_closed.mp (hbehind ▸ hends), ?_⟩,
      hfirst.place ▸ hdenotes, hcounted⟩
    · rw [List.append_assoc]
      exact hfirst.trans (hpass.trans hclose)
    · have hcancel := hpass.rest.symm.trans hrest
      rw [hbehind, name.print_eq, List.append_assoc, List.append_cancel_left_eq,
        ← List.append_assoc] at hcancel
      obtain ⟨behind, hnext⟩ := exists_headD_append (name.tail ++ noise) u.cursor.rest
      rwa [(List.cons.inj (hnext.symm.trans hcancel)).1]
  · rintro ⟨name, noise, hpass, ⟨hnoise, hends, hscan⟩, hdenotes, hcounted⟩
    rw [List.append_assoc] at hpass
    obtain ⟨s₂, hname, hclose⟩ := passes_append.mp (hfirst.behind hpass)
    have hbehind : s₂.cursor.rest = noise ++ ']' :: u.cursor.rest := by simp [hclose.rest]
    obtain ⟨after, hafter⟩ := exists_headD_append (name.tail ++ noise) u.cursor.rest
    have hrest : s₁.cursor.rest = name.head ++ (name.tail ++ noise).headD ']' :: after := by
      rw [hname.rest, hbehind, name.print_eq, ← hafter, List.append_assoc, List.append_assoc]
    have hfull : fullName (contained known truncated) L (s₁.cursor.pos + byteLength name.head)
        .bracketed s₁ = .ok node s₂ := (fullName_ok_iff (hfirst.place ▸ hL) hrest).mpr
      ⟨name, rfl, hname, hbehind ▸ ends_closed.mpr hends, hfirst.place ▸ hdenotes, hcounted⟩
    refine ⟨_, s₁, elementNameEnd_ok_iff.mpr ⟨rfl, _, _, after, hrest, hscan, rfl⟩, ?_⟩
    rw [step_ok_iff hfull]
    exact close_ok_iff.mpr ⟨noise, u, hnoise, hclose, rfl⟩

/-- Behind an element comes the next one or the end of the list. -/
theorem elements_step_iff {σ : Settings} {fuel : Nat} :
    elements σ L (fuel + 1) s = .ok args t ↔ s.cursor.rest.head? = some '[' ∧
      ∃ first u, element σ L s = .ok first u ∧
        ((∃ v w others, Passes u [','] v ∧ skipSpaces v = .ok () w ∧
            elements σ L fuel w = .ok others t ∧ args = first :: others) ∨
          Passes u [']'] t ∧ args = [first]) := by
  rw [elements, step_ok_iff (peek_ok s), step_ok_iff (cursor_pass s), check_ok_iff, beq_iff_eq,
    peek_eq_iff (by decide), bind_ok_iff]
  refine and_congr_right fun _ => exists_congr fun first => exists_congr fun u =>
    and_congr_right fun _ => ?_
  rw [step_ok_iff (peek_ok u)]
  constructor
  · intro h
    generalize hfound : u.cursor.peek = found at h
    split at h
    next =>
      obtain ⟨x, v, hadvance, h⟩ := bind_eq_ok h
      obtain ⟨y, w, hspaces, h⟩ := bind_eq_ok h
      obtain ⟨c, hpass⟩ := advance_ok_iff.mp hadvance
      obtain ⟨others, hothers, rfl⟩ := then_pure_iff.mp h
      obtain rfl := hpass.peek.symm.trans hfound
      exact .inl ⟨v, w, others, hpass, hspaces, hothers, rfl⟩
    next =>
      obtain ⟨x, v, hadvance, ⟨⟩⟩ := bind_eq_ok h
      obtain ⟨c, hpass⟩ := advance_ok_iff.mp hadvance
      obtain rfl := hpass.peek.symm.trans hfound
      exact .inr ⟨hpass, rfl⟩
    next => cases h
  · rintro (⟨v, w, others, hpass, hspaces, hothers, rfl⟩ | ⟨hpass, rfl⟩)
    · rw [hpass.peek]
      show (advance >>= fun _ => _) u = _
      rw [bind_ok (advance_ok_iff.mpr ⟨_, hpass⟩), bind_ok hspaces]
      exact then_pure_iff.mpr ⟨others, hothers, rfl⟩
    · rw [hpass.peek]
      show (advance >>= fun _ => _) u = _
      rw [bind_ok (advance_ok_iff.mpr ⟨_, hpass⟩)]
      rfl

theorem elements_ok_iff (fuel : Nat) (hL : ListsRead known truncated L s.place) :
    elements (contained known truncated) L fuel s = .ok args t ↔ ∃ es : Written.Elements,
      Passes s (es.print ++ [']']) t ∧ es.length ≤ fuel ∧ es.DenotesIn known s.place args ∧
      AllCounted truncated es.suffixes := by
  induction fuel generalizing s args with
  | zero =>
    constructor
    · rintro ⟨⟩
    · rintro ⟨es, -, hlength, -⟩
      exact absurd (Nat.le_zero.mp hlength) es.length_ne_zero
  | succ fuel ih =>
    rw [elements_step_iff]
    constructor
    · rintro ⟨hopen, first, u, hfirst, h⟩
      obtain ⟨name, noise, hpass, helement, hdenotes, hcounted⟩ :=
        (element_ok_iff hL hopen).mp hfirst
      rcases h with ⟨v, w, others, hcomma, hspaces, hothers, rfl⟩ | ⟨hclose, rfl⟩
      · obtain ⟨gap, hgap, -⟩ := skipSpaces_ok_iff.mp hspaces
        have hplace : w.place = s.place := ((hpass.trans hcomma).trans hgap).place
        obtain ⟨rest, hrest, hlength, hargs, hinner⟩ := (ih (hplace ▸ hL)).mp hothers
        refine ⟨.more name noise gap rest, ?_, Nat.succ_le_succ hlength,
          ⟨helement, first, others, rfl, hdenotes, hplace ▸ hargs⟩,
          allCounted_append.mpr ⟨hcounted, hinner⟩⟩
        simpa [Written.Elements.print, spaces] using ((hpass.trans hcomma).trans hgap).trans hrest
      · refine ⟨.last name noise, ?_, Nat.succ_le_succ (Nat.zero_le _),
          ⟨helement, first, rfl, hdenotes⟩, hcounted⟩
        simpa [Written.Elements.print] using hpass.trans hclose
    · rintro ⟨⟨name, noise⟩ | ⟨name, noise, gap, rest⟩, hpass, hlength, hargs, hcounted⟩
      · obtain ⟨helement, first, rfl, hdenotes⟩ := hargs
        have hopen : s.cursor.rest.head? = some '[' := by rw [hpass.rest]; rfl
        obtain ⟨u, hfirst, hclose⟩ := passes_append.mp hpass
        exact ⟨hopen, first, u,
          (element_ok_iff hL hopen).mpr ⟨name, noise, hfirst, helement, hdenotes, hcounted⟩,
          .inr ⟨hclose, rfl⟩⟩
      · obtain ⟨helement, first, others, rfl, hdenotes, hothers⟩ := hargs
        obtain ⟨hself, hinner⟩ := allCounted_append.mp hcounted
        have hopen : s.cursor.rest.head? = some '[' := by rw [hpass.rest]; rfl
        have hparts : Passes s (('[' :: name.print ++ noise ++ [']']) ++
            ([','] ++ (List.replicate gap ' ' ++ (rest.print ++ [']'])))) t := by
          simpa [Written.Elements.print, spaces] using hpass
        obtain ⟨u, hfirst, hparts⟩ := passes_append.mp hparts
        obtain ⟨v, hcomma, hparts⟩ := passes_append.mp hparts
        obtain ⟨w, hgap, hrest⟩ := passes_append.mp hparts
        have hplace : w.place = s.place := ((hfirst.trans hcomma).trans hgap).place
        have hstop : w.cursor.rest.head? ≠ some ' ' := by
          obtain ⟨more, hmore⟩ := rest.print_eq_cons
          rw [hrest.rest, hmore]
          rintro ⟨⟩
        exact ⟨hopen, first, u,
          (element_ok_iff hL hopen).mpr ⟨name, noise, hfirst, helement, hdenotes, hself⟩,
          .inl ⟨v, w, others, hcomma, skipSpaces_ok_iff.mpr ⟨gap, hgap, hstop⟩,
            (ih (hplace ▸ hL)).mpr ⟨rest, hrest, Nat.le_of_succ_le_succ hlength,
              hplace ▸ hothers, hinner⟩, rfl⟩⟩

theorem checkArity_ok_iff {found : Nat} {p : Reader (List TypeName)} :
    (checkArity (contained known truncated) declared found >>= fun _ => p) s = .ok args t ↔
      (truncated = false → found = declared) ∧ p s = .ok args t := by
  rw [checkArity, check_ok_iff]
  cases truncated <;> simp [contained]

theorem ListRead.head? {place : Place} {list : ArgList}
    (h : ListRead known truncated place declared s list args t) :
    s.cursor.rest.head? = list.print.head? := by
  obtain ⟨c, more, hprint, -⟩ := list.print_eq_cons
  rw [h.passes.rest, hprint]
  rfl

theorem ListRead.double {place : Place} {es : Written.Elements}
    (h : ListRead known truncated place declared s (.bracketed es) args t) :
    ['[', '['] <+: s.cursor.rest := by
  obtain ⟨more, hmore⟩ := es.print_eq_cons
  exact ⟨more ++ ([']'] ++ t.cursor.rest), by simp [h.passes.rest, ArgList.print, hmore]⟩

theorem ListRead.single {place : Place} {text : Skipped}
    (h : ListRead known truncated place declared s (.skipped text) args t) :
    ¬ ['[', '['] <+: s.cursor.rest := by
  have hrest : s.cursor.rest = '[' :: (text.chars ++ ']' :: t.cursor.rest) := by
    simp [h.passes.rest, ArgList.print]
  rw [hrest, doubled_iff]
  exact text.head?_append _

theorem elementsList_ok_iff (hL : ListsRead known truncated L s.place)
    (hdouble : ['[', '['] <+: s.cursor.rest) :
    bracketedList (contained known truncated) L declared s = .ok args t ↔
      ∃ es, ListRead known truncated s.place declared s (.bracketed es) args t := by
  obtain ⟨more, hmore⟩ := hdouble
  have hopen : s.cursor.startsWith ['[', '['] = true := by
    simp [Cursor.startsWith, ← hmore]
  unfold bracketedList
  have hfirst : Passes s ['['] (s.pass ['['] ('[' :: more)) := passes_of hmore.symm
  rw [step_ok_iff (cursor_pass s), if_pos hopen, step_ok_iff (advance_ok_iff.mpr ⟨_, hfirst⟩)]
  generalize s.pass ['['] ('[' :: more) = v at hfirst ⊢
  rw [bind_ok_iff]
  constructor
  · rintro ⟨found, w, helements, h⟩
    obtain ⟨hcount, ⟨⟩⟩ := checkArity_ok_iff.mp h
    obtain ⟨es, hpass, -, hargs, hinner⟩ := (elements_ok_iff _ (hfirst.place ▸ hL)).mp helements
    refine ⟨es, hfirst.trans hpass, hfirst.place ▸ hargs, fun htruncated => .inl ?_, hinner⟩
    exact (Written.Elements.length_of_denotesIn hargs).symm.trans (hcount htruncated)
  · rintro ⟨es, hpass, hargs, hcounted, hinner⟩
    have hfuel : es.length ≤ s.cursor.rest.length + 1 := by
      have hlength := es.length_le
      have hprint := congrArg List.length hpass.rest
      simp only [ArgList.print, List.length_append, List.length_cons] at hprint
      omega
    refine ⟨args, t, (elements_ok_iff _ (hfirst.place ▸ hL)).mpr
      ⟨es, hfirst.behind hpass, hfuel, hfirst.place ▸ hargs, hinner⟩,
      checkArity_ok_iff.mpr ⟨?_, rfl⟩⟩
    intro htruncated
    exact (Written.Elements.length_of_denotesIn hargs).trans
      ((hcounted htruncated).size_eq es.length_ne_zero)

theorem skippedList_ok_iff (hopen : s.cursor.rest.head? = some '[')
    (hsingle : ¬ ['[', '['] <+: s.cursor.rest) :
    bracketedList (contained known truncated) L declared s = .ok args t ↔
      ∃ text, ListRead known truncated s.place declared s (.skipped text) args t := by
  obtain ⟨more, hmore⟩ := List.head?_eq_some_iff.mp hopen
  have hno : ¬ s.cursor.startsWith ['[', '['] = true := by
    simpa [Cursor.startsWith] using hsingle
  unfold bracketedList
  rw [step_ok_iff (cursor_pass s), if_neg hno, close_ok_iff]
  constructor
  · rintro ⟨noise, v, hnoise, hpass, ⟨⟩⟩
    obtain ⟨chars, rfl⟩ : ∃ chars, noise = '[' :: chars := by
      have hrest := hmore.symm.trans hpass.rest
      cases noise with
      | nil => simp at hrest
      | cons c chars => exact ⟨chars, by rw [(List.cons.inj hrest).1]⟩
    have hunopened : chars.head? ≠ some '[' := by
      intro hhead
      obtain ⟨rest, rfl⟩ := List.head?_eq_some_iff.mp hhead
      exact hsingle ⟨rest ++ ([']'] ++ t.cursor.rest), by simp [hpass.rest]⟩
    let text : Skipped := ⟨chars, fun hmem => hnoise (List.mem_cons_of_mem _ hmem), hunopened⟩
    have hlisted : Open (ArgList.skipped text).print := .inr ⟨_, rfl, text.head?_append []⟩
    exact ⟨text, hpass, rfl, fun _ => .inr ⟨rfl, hlisted⟩, allCounted_nil _⟩
  · rintro ⟨text, hpass, rfl, -, -⟩
    exact ⟨'[' :: text.chars, t, by simp [text.unclosed], hpass, rfl⟩

theorem bracketedList_ok_iff (hL : ListsRead known truncated L s.place)
    (hopen : s.cursor.rest.head? = some '[') :
    bracketedList (contained known truncated) L declared s = .ok args t ↔
      ∃ list, ListRead known truncated s.place declared s list args t := by
  by_cases hdouble : ['[', '['] <+: s.cursor.rest
  · rw [elementsList_ok_iff hL hdouble]
    constructor
    · rintro ⟨es, h⟩
      exact ⟨.bracketed es, h⟩
    · rintro ⟨_ | text | items | es, h⟩
      · cases hopen.symm.trans h.head?
      · exact absurd hdouble h.single
      · cases hopen.symm.trans h.head?
      · exact ⟨es, h⟩
  · rw [skippedList_ok_iff hopen hdouble]
    constructor
    · rintro ⟨text, h⟩
      exact ⟨.skipped text, h⟩
    · rintro ⟨_ | text | items | es, h⟩
      · cases hopen.symm.trans h.head?
      · exact ⟨text, h⟩
      · cases hopen.symm.trans h.head?
      · exact absurd h.double hdouble

/-- An argument of a plain list is an object or a name, up to the next delimiter. -/
theorem plainArgument_ok_iff (hL : ListsRead known truncated L s.place) :
    plainArgument (contained known truncated) L s = .ok node u ↔ ∃ name : Name,
      Passes s name.print u ∧ name.Ends u.cursor.rest ∧
      (∀ c ∈ name.head, c ∉ ['\x60', ',', '>']) ∧
      (∃ d ∈ ['\x60', ',', '>'], (name.tail ++ u.cursor.rest).head? = some d) ∧
      (name = .simple [] ∧ node = .topLevel "" "object" ∨
        name.DenotesIn known .plain s.place node) ∧ AllCounted truncated name.suffixes := by
  have hsplit {name : Name} (hpass : Passes s name.print u) :
      s.cursor.rest = name.head ++ (name.tail ++ u.cursor.rest) := by
    rw [hpass.rest, name.print_eq, List.append_assoc]
  have hsome {c : Char} {taken : List Char} :
      s.cursor.pos + byteLength (c :: taken) ≠ s.cursor.pos := by
    have := c.utf8Size_pos
    rw [byteLength_cons]
    omega
  rw [plainArgument_eq, step_ok_iff (cursor_pass s)]
  constructor
  · intro h
    obtain ⟨stop, v, hstop, h⟩ := bind_eq_ok h
    obtain ⟨rfl, taken, d, after, hrest, htaken, hd, rfl⟩ := expectAny_eq_ok hstop
    cases taken with
    | nil =>
      rw [byteLength_nil, Nat.add_zero, if_pos rfl, check_ok_iff] at h
      obtain ⟨hmarker, ⟨⟩⟩ := h
      have hchar : u.cursor.charAt (u.cursor.pos + byteLength []) = d := charAt_pass hrest
      rw [byteLength_nil, Nat.add_zero] at hchar
      have hne : d ≠ '\x60' := by simpa [hchar] using hmarker
      have hend : u.cursor.rest.head? ≠ some '\x60' := by simpa [hrest] using hne
      exact ⟨.simple [], passes_nil.mpr rfl, hend, by simp [Name.head],
        ⟨d, hd, by rw [hrest]; rfl⟩, .inl ⟨rfl, rfl⟩, allCounted_nil _⟩
    | cons c taken =>
      rw [if_neg hsome, fullName_ok_iff hL hrest] at h
      obtain ⟨name, hhead, hpass, hends, hdenotes, hcounted⟩ := h
      have hcancel := (hsplit hpass).symm.trans hrest
      rw [hhead, List.append_cancel_left_eq] at hcancel
      exact ⟨name, hpass, hends, hhead ▸ htaken, ⟨d, hd, by rw [hcancel]; rfl⟩, .inr hdenotes,
        hcounted⟩
  · rintro ⟨name, hpass, hends, hhead, ⟨d, hd, hnext⟩, hdenotes, hcounted⟩
    obtain ⟨after, hafter⟩ := List.head?_eq_some_iff.mp hnext
    have hrest := hsplit hpass
    rw [hafter] at hrest
    rw [step_ok_iff (expectAny_pass hrest hhead hd)]
    cases hname : name.head with
    | nil =>
      have hobject : name = .simple [] ∧ node = .topLevel "" "object" := by
        refine hdenotes.resolve_right fun hdenotes => ?_
        exact hdenotes.head_ne_nil hname
      obtain ⟨rfl, rfl⟩ := hobject
      obtain rfl := passes_nil.mp hpass
      have hchar : u.cursor.charAt (u.cursor.pos + byteLength []) = d := charAt_pass (hname ▸ hrest)
      rw [byteLength_nil, Nat.add_zero] at hchar ⊢
      rw [if_pos rfl, check_ok_iff, hchar]
      refine ⟨?_, rfl⟩
      rw [bne_iff_ne]
      rintro rfl
      exact hends hnext
    | cons c taken =>
      rw [if_neg hsome, ← hname, fullName_ok_iff hL hrest]
      refine ⟨name, rfl, hpass, hends, hdenotes.resolve_left ?_, hcounted⟩
      rintro ⟨rfl, -⟩
      cases hname

section
variable {name : Name} {behind : Nat} {after : List Char} {d : Char}

/-- In front of a delimiter an argument's head goes on with one. -/
theorem follows_item (h : name.IsItem behind) (hd : d = ',' ∨ d = '>')
    (hnext : after.head? = some d) :
    ∃ e ∈ ['\x60', ',', '>'], (name.tail ++ (spaces behind ++ after)).head? = some e := by
  obtain head | ⟨head, ⟨arity, nested, list, markers⟩⟩ := name
  · obtain rfl := h.tight head rfl
    exact ⟨d, by simp [hd], hnext⟩
  · exact ⟨'\x60', by simp, rfl⟩

theorem ends_item (h : name.IsItem behind) (hd : d = ',' ∨ d = '>') (hnext : after.head? = some d) :
    name.Ends (spaces behind ++ after) := by
  cases name with
  | simple head =>
    obtain rfl := h.tight head rfl
    show after.head? ≠ some '\x60'
    rw [hnext]
    rcases hd with rfl | rfl <;> decide
  | generic head suffix =>
    apply not_marker_of_head?
    cases behind with
    | zero =>
      show after.head? ≠ some '['
      rw [hnext]
      rcases hd with rfl | rfl <;> decide
    | succ behind => exact (by decide : some ' ' ≠ some '[')

theorem unspaced_item (h : name.IsItem behind) (hd : d = ',' ∨ d = '>')
    (hnext : after.head? = some d) :
    (name.print ++ (spaces behind ++ after)).head? ≠ some ' ' := by
  obtain ⟨e, he, hfollows⟩ := follows_item h hd hnext
  have hunspaced := h.unspaced
  rw [name.print_eq, List.append_assoc]
  cases hhead : name.head with
  | nil =>
    rw [List.nil_append, hfollows]
    rintro ⟨⟩
    exact absurd he (by decide)
  | cons c cs =>
    rw [hhead] at hunspaced
    exact hunspaced

end

/-- An argument with the spaces around it, in front of the delimiter behind it. -/
theorem item_ok_iff (hL : ListsRead known truncated L s.place) {d : Char} (hd : d = ',' ∨ d = '>')
    (hnext : u.cursor.rest.head? = some d) :
    (∃ v w, skipSpaces s = .ok () v ∧ plainArgument (contained known truncated) L v = .ok node w ∧
      skipSpaces w = .ok () u) ↔
    ∃ (before : Nat) (name : Name) (behind : Nat),
      Passes s (spaces before ++ name.print ++ spaces behind) u ∧
      name.IsItem behind ∧ (name = .simple [] ∧ node = .topLevel "" "object" ∨
        name.DenotesIn known .plain s.place node) ∧ AllCounted truncated name.suffixes := by
  constructor
  · rintro ⟨v, w, hbefore, hargument, hbehind⟩
    obtain ⟨before, hbefore, hstart⟩ := skipSpaces_ok_iff.mp hbefore
    obtain ⟨behind, hbehind, -⟩ := skipSpaces_ok_iff.mp hbehind
    obtain ⟨name, hname, hends, hhead, ⟨e, he, hfollows⟩, hdenotes, hcounted⟩ :=
      (plainArgument_ok_iff (hbefore.place ▸ hL)).mp hargument
    refine ⟨before, name, behind, (hbefore.trans hname).trans hbehind, ⟨?_, hhead, ?_⟩,
      hbefore.place ▸ hdenotes, hcounted⟩
    · intro hblank
      obtain ⟨more, hmore⟩ := List.head?_eq_some_iff.mp hblank
      exact hstart (by rw [hname.rest, name.print_eq, hmore]; rfl)
    · rintro head rfl
      cases behind with
      | zero => rfl
      | succ behind =>
        -- the name goes on up to a delimiter
        have hblank : e = ' ' := by
          rw [hbehind.rest] at hfollows
          exact (Option.some.inj hfollows).symm
        subst hblank
        exact absurd he (by decide)
  · rintro ⟨before, name, behind, hpass, hitem, hdenotes, hcounted⟩
    obtain ⟨w, hpass, hbehind⟩ := passes_append.mp hpass
    obtain ⟨v, hbefore, hname⟩ := passes_append.mp hpass
    have hrest : w.cursor.rest = spaces behind ++ u.cursor.rest := hbehind.rest
    have hstart : v.cursor.rest.head? ≠ some ' ' := by
      rw [hname.rest, hrest]
      exact unspaced_item hitem hd hnext
    have hstop : u.cursor.rest.head? ≠ some ' ' := by
      rw [hnext]
      rcases hd with rfl | rfl <;> decide
    exact ⟨v, w, skipSpaces_ok_iff.mpr ⟨before, hbefore, hstart⟩,
      (plainArgument_ok_iff (hbefore.place ▸ hL)).mpr
        ⟨name, hname, hrest ▸ ends_item hitem hd hnext, hitem.undelimited,
          hrest ▸ follows_item hitem hd hnext, hbefore.place ▸ hdenotes, hcounted⟩,
      skipSpaces_ok_iff.mpr ⟨behind, hbehind, hstop⟩⟩

/-- Behind an argument comes the next one or the end of the list. -/
theorem plainArguments_step_iff {σ : Settings} {fuel : Nat} :
    plainArguments σ L (fuel + 1) s = .ok args t ↔ ∃ first u,
      (∃ v w, skipSpaces s = .ok () v ∧ plainArgument σ L v = .ok first w ∧
        skipSpaces w = .ok () u) ∧
      ((∃ v others, Passes u [','] v ∧ plainArguments σ L fuel v = .ok others t ∧
          args = first :: others) ∨
        Passes u ['>'] t ∧ args = [first]) := by
  rw [plainArguments]
  constructor
  · intro h
    obtain ⟨x, v, hbefore, h⟩ := bind_eq_ok h
    obtain ⟨first, w, hfirst, h⟩ := bind_eq_ok h
    obtain ⟨y, u, hbehind, h⟩ := bind_eq_ok h
    refine ⟨first, u, ⟨v, w, hbefore, hfirst, hbehind⟩, ?_⟩
    rw [step_ok_iff (peek_ok u)] at h
    generalize hfound : u.cursor.peek = found at h
    split at h
    next =>
      obtain ⟨x, v, hadvance, h⟩ := bind_eq_ok h
      obtain ⟨c, hpass⟩ := advance_ok_iff.mp hadvance
      obtain ⟨others, hothers, rfl⟩ := then_pure_iff.mp h
      obtain rfl := hpass.peek.symm.trans hfound
      exact .inl ⟨v, others, hpass, hothers, rfl⟩
    next =>
      obtain ⟨x, v, hadvance, ⟨⟩⟩ := bind_eq_ok h
      obtain ⟨c, hpass⟩ := advance_ok_iff.mp hadvance
      obtain rfl := hpass.peek.symm.trans hfound
      exact .inr ⟨hpass, rfl⟩
    next => cases h
    next => cases h
  · rintro ⟨first, u, ⟨v, w, hbefore, hfirst, hbehind⟩, h⟩
    rw [bind_ok hbefore, bind_ok hfirst, bind_ok hbehind, step_ok_iff (peek_ok u)]
    rcases h with ⟨v, others, hpass, hothers, rfl⟩ | ⟨hpass, rfl⟩
    · rw [hpass.peek]
      show (advance >>= fun _ => _) u = _
      rw [bind_ok (advance_ok_iff.mpr ⟨_, hpass⟩)]
      exact then_pure_iff.mpr ⟨others, hothers, rfl⟩
    · rw [hpass.peek]
      show (advance >>= fun _ => _) u = _
      rw [bind_ok (advance_ok_iff.mpr ⟨_, hpass⟩)]
      rfl

theorem plainArguments_ok_iff (fuel : Nat) (hL : ListsRead known truncated L s.place) :
    plainArguments (contained known truncated) L fuel s = .ok args t ↔ ∃ items : Written.Items,
      Passes s (items.print ++ ['>']) t ∧ items.length ≤ fuel ∧ items.DenotesIn known s.place args ∧
      AllCounted truncated items.suffixes := by
  induction fuel generalizing s args with
  | zero =>
    constructor
    · rintro ⟨⟩
    · rintro ⟨items, -, hlength, -⟩
      exact absurd (Nat.le_zero.mp hlength) items.length_ne_zero
  | succ fuel ih =>
    rw [plainArguments_step_iff]
    constructor
    · rintro ⟨first, u, hfirst, ⟨v, others, hcomma, hothers, rfl⟩ | ⟨hclose, rfl⟩⟩
      · rw [item_ok_iff hL (.inl rfl) (by rw [hcomma.rest]; rfl)] at hfirst
        obtain ⟨before, name, behind, hpass, hitem, hdenotes, hcounted⟩ := hfirst
        have hplace : v.place = s.place := (hpass.trans hcomma).place
        obtain ⟨rest, hrest, hlength, hargs, hinner⟩ := (ih (hplace ▸ hL)).mp hothers
        refine ⟨.more before name behind rest, ?_, Nat.succ_le_succ hlength,
          ⟨hitem, first, others, rfl, hdenotes, hplace ▸ hargs⟩,
          allCounted_append.mpr ⟨hcounted, hinner⟩⟩
        simpa [Written.Items.print] using (hpass.trans hcomma).trans hrest
      · rw [item_ok_iff hL (.inr rfl) (by rw [hclose.rest]; rfl)] at hfirst
        obtain ⟨before, name, behind, hpass, hitem, hdenotes, hcounted⟩ := hfirst
        exact ⟨.last before name behind, hpass.trans hclose, Nat.succ_le_succ (Nat.zero_le _),
          ⟨hitem, first, rfl, hdenotes⟩, hcounted⟩
    · rintro ⟨⟨before, name, behind⟩ | ⟨before, name, behind, rest⟩, hpass, hlength, hargs, hcounted⟩
      · obtain ⟨hitem, first, rfl, hdenotes⟩ := hargs
        obtain ⟨u, hfirst, hclose⟩ := passes_append.mp hpass
        refine ⟨first, u, ?_, .inr ⟨hclose, rfl⟩⟩
        rw [item_ok_iff hL (.inr rfl) (by rw [hclose.rest]; rfl)]
        exact ⟨before, name, behind, hfirst, hitem, hdenotes, hcounted⟩
      · obtain ⟨hitem, first, others, rfl, hdenotes, hothers⟩ := hargs
        obtain ⟨hself, hinner⟩ := allCounted_append.mp hcounted
        have hparts : Passes s ((spaces before ++ name.print ++ spaces behind) ++
            ([','] ++ (rest.print ++ ['>']))) t := by
          simpa [Written.Items.print] using hpass
        obtain ⟨u, hfirst, hparts⟩ := passes_append.mp hparts
        obtain ⟨v, hcomma, hrest⟩ := passes_append.mp hparts
        have hplace : v.place = s.place := (hfirst.trans hcomma).place
        refine ⟨first, u, ?_, .inl ⟨v, others, hcomma, (ih (hplace ▸ hL)).mpr
          ⟨rest, hrest, Nat.le_of_succ_le_succ hlength, hplace ▸ hothers, hinner⟩, rfl⟩⟩
        rw [item_ok_iff hL (.inl rfl) (by rw [hcomma.rest]; rfl)]
        exact ⟨before, name, behind, hfirst, hitem, hdenotes, hself⟩

/-- Only `<>` leaves no argument to be read. -/
theorem plainList_ok_iff (hL : ListsRead known truncated L s.place)
    (hopen : s.cursor.rest.head? = some '<') :
    plainList (contained known truncated) L declared s = .ok args t ↔
      ∃ list, ListRead known truncated s.place declared s list args t := by
  obtain ⟨more, hmore⟩ := List.head?_eq_some_iff.mp hopen
  have hfirst : Passes s ['<'] (s.pass ['<'] more) := passes_of hmore
  unfold plainList
  rw [step_ok_iff (advance_ok_iff.mpr ⟨_, hfirst⟩)]
  generalize s.pass ['<'] more = v at hfirst ⊢
  by_cases hempty : ['>'] <+: v.cursor.rest
  · obtain ⟨after, hafter⟩ := hempty
    rw [step_ok_iff (eat_ok_iff.mpr (.inl ⟨rfl, passes_of hafter.symm⟩)), if_pos rfl]
    constructor
    · rintro ⟨⟩
      exact ⟨.unbound, hfirst.trans (passes_of hafter.symm), rfl,
        fun _ => .inr ⟨rfl, .inl (List.prefix_refl _)⟩, allCounted_nil _⟩
    · rintro ⟨_ | text | items | es, h⟩
      · obtain rfl := h.denotes
        rw [(hfirst.behind h.passes).unique (passes_of hafter.symm)]
        rfl
      · cases hopen.symm.trans h.head?
      · -- no argument starts with the closing bracket
        have hrest := hafter.trans (hfirst.behind h.passes).rest
        obtain ⟨hprint, hargs⟩ := h.denotes
        obtain ⟨c, cs, hcons⟩ := List.exists_cons_of_ne_nil hprint
        have hclose := hargs.delimited.not_close
        rw [hcons] at hrest hclose
        exact absurd (congrArg some (List.cons.inj hrest).1.symm) hclose
      · cases hopen.symm.trans h.head?
  · rw [step_ok_iff (eat_ok_iff.mpr (.inr ⟨rfl, hempty, rfl⟩)), if_neg (by decide),
      step_ok_iff (cursor_pass v), bind_ok_iff]
    constructor
    · rintro ⟨found, w, harguments, h⟩
      obtain ⟨hcount, ⟨⟩⟩ := checkArity_ok_iff.mp h
      obtain ⟨items, hpass, -, hargs, hinner⟩ :=
        (plainArguments_ok_iff _ (hfirst.place ▸ hL)).mp harguments
      refine ⟨.plain items, hfirst.trans hpass, ⟨?_, hfirst.place ▸ hargs⟩,
        fun htruncated => .inl ?_, hinner⟩
      · intro hnil
        exact hempty ⟨t.cursor.rest, by rw [hpass.rest, hnil]; rfl⟩
      · exact (Written.Items.length_of_denotesIn hargs).symm.trans (hcount htruncated)
    · rintro ⟨_ | text | items | es, h⟩
      · exact absurd ⟨t.cursor.rest, (hfirst.behind h.passes).rest.symm⟩ hempty
      · cases hopen.symm.trans h.head?
      · obtain ⟨hpass, ⟨-, hargs⟩, hcounted, hinner⟩ := h
        have hfuel : items.length ≤ v.cursor.rest.length + 1 := by
          have hlength := items.length_le
          have hprint := congrArg List.length (hfirst.behind hpass).rest
          simp only [List.append_eq, List.length_append] at hprint
          omega
        refine ⟨args, t, (plainArguments_ok_iff _ (hfirst.place ▸ hL)).mpr
          ⟨items, hfirst.behind hpass, hfuel, hfirst.place ▸ hargs, hinner⟩,
          checkArity_ok_iff.mpr ⟨?_, rfl⟩⟩
        intro htruncated
        exact (Written.Items.length_of_denotesIn hargs).trans
          ((hcounted htruncated).size_eq items.length_ne_zero)
      · cases hopen.symm.trans h.head?

end

end ClrNames.Grammar
