import ClrNames.Proofs.DottedNames
import ClrNames.Proofs.Passes

/-!
# The text of plain lists

In a name whose lists are plain and full, nothing is passed over but arity markers,
and a comma shows with a space behind it. `Shows` says so of one routine: what it
passes over, so edited, is the text of what it reads.
-/

set_option autoImplicit false

namespace ClrNames.Text

def withoutArities : Bool → List Char → List Char
  | _, [] => []
  | behindMarker, c :: cs =>
    if c = '\x60' then withoutArities true cs
    else if behindMarker && c.isDigit then withoutArities true cs
    else c :: withoutArities false cs

def plainText (cs : List Char) : List Char :=
  (withoutArities false cs).flatMap fun c => if c = ',' then [',', ' '] else [c]

variable {cs word digits : List Char}

@[simp] theorem plainText_nil : plainText [] = [] := rfl

theorem plainText_cons {c : Char} (htick : c ≠ '\x60') (hcomma : c ≠ ',') :
    plainText (c :: cs) = c :: plainText cs := by
  simp [plainText, withoutArities, htick, hcomma]

theorem plainText_append (hword : ∀ c ∈ word, c ≠ '\x60' ∧ c ≠ ',') :
    plainText (word ++ cs) = word ++ plainText cs := by
  induction word with
  | nil => rfl
  | cons c word ih =>
    have hc := hword c (by simp)
    rw [List.cons_append, plainText_cons hc.1 hc.2, ih fun d hd => hword d (by simp [hd])]
    rfl

theorem withoutArities_digits (hdigits : ∀ c ∈ digits, c.isDigit = true) :
    withoutArities true (digits ++ cs) = withoutArities true cs := by
  induction digits with
  | nil => rfl
  | cons d digits ih =>
    have hd := hdigits d (by simp)
    have htick : d ≠ '\x60' := by
      rintro rfl
      cases hd
    rw [List.cons_append, withoutArities, if_neg htick, hd]
    exact ih fun c hc => hdigits c (by simp [hc])

theorem plainText_arity (hdigits : ∀ c ∈ digits, c.isDigit = true)
    (hcs : ∀ c, cs.head? = some c → c.isDigit = false) :
    plainText ('\x60' :: digits ++ cs) = plainText cs := by
  have hend : withoutArities true cs = withoutArities false cs := by
    cases cs with
    | nil => rfl
    | cons c cs => simp [withoutArities, hcs c rfl]
  rw [plainText, plainText, List.cons_append, withoutArities, if_pos rfl,
    withoutArities_digits hdigits, hend]

end ClrNames.Text

namespace ClrNames

open Text

/-- A text whose lists are plain and full, none of them behind nested names, and that
refers to no parameter. -/
structure PlainForm (cs : List Char) : Prop where
  clean : ∀ c ∈ cs, c ≠ '[' ∧ c ≠ '!' ∧ c ≠ ' '
  full : ∀ before ∈ ['<', ','], ∀ behind ∈ [',', '>'], ¬ [before, behind] <:+: cs
  owned : ∀ n : Decimal, ¬ '\x60' :: n.digits ++ ['.'] <:+: cs

theorem PlainForm.of_infix {cs ds : List Char} (h : PlainForm cs) (hs : ds <:+: cs) :
    PlainForm ds where
  clean c hc := h.clean c (hs.subset hc)
  full before hbefore behind hbehind hpair := h.full before hbefore behind hbehind (hpair.trans hs)
  owned n hn := h.owned n (hn.trans hs)

theorem PlainForm.of_suffix {cs ds : List Char} (h : PlainForm cs) (hs : ds <:+ cs) :
    PlainForm ds :=
  h.of_infix hs.isInfix

/-- Where no dot stands behind a digit, none stands behind an arity marker. -/
theorem plainForm_of_checks {cs : List Char}
    (hclean : cs.all (fun c => c != '[' && c != '!' && c != ' ') = true)
    (hfull : ['<', ','].all (fun before => [',', '>'].all fun behind =>
      !occurs [before, behind] cs) = true)
    (howned : cs.all (fun d => !(d.isDigit && occurs [d, '.'] cs)) = true) : PlainForm cs := by
  simp only [List.all_eq_true, Bool.and_eq_true, bne_iff_ne, Bool.not_eq_true', ← Bool.not_eq_true,
    occurs_iff] at hclean hfull howned
  refine ⟨fun c hc => and_assoc.mp (hclean c hc), hfull, ?_⟩
  intro n hn
  obtain ⟨front, d, hfront⟩ := (List.eq_nil_or_concat n.digits).resolve_left n.digits_ne
  have hpair : [d, '.'] <:+: cs := List.IsInfix.trans ⟨'\x60' :: front, [], by simp [hfront]⟩ hn
  exact howned d (hpair.subset (by simp)) ⟨n.isDigit d (by simp [hfront]), hpair⟩

namespace Grammar

structure Shows (s : State) (text : List Char) (t : State) : Prop where
  suffix : t.cursor.rest <:+ s.cursor.rest
  shown : plainText s.cursor.rest = text ++ plainText t.cursor.rest

section
variable {s t u : State} {text more after : List Char}

theorem Shows.trans (h : Shows s text t) (h' : Shows t more u) : Shows s (text ++ more) u :=
  ⟨h'.suffix.trans h.suffix, by rw [h.shown, h'.shown, List.append_assoc]⟩

theorem shows_word {word : List Char} (hrest : s.cursor.rest = word ++ after)
    (hword : ∀ c ∈ word, c ≠ '\x60' ∧ c ≠ ',') : Shows s word (s.pass word after) :=
  ⟨⟨word, hrest.symm⟩, by rw [hrest, plainText_append hword]; rfl⟩

theorem shows_comma (hrest : s.cursor.rest = ',' :: after) :
    Shows s [',', ' '] (s.pass [','] after) :=
  ⟨⟨[','], hrest.symm⟩, by rw [hrest]; rfl⟩

end

section
variable {σ : Settings} {s t : State} {text taken after : List Char} {base node : TypeName}

/-- A base name without brackets is the text of its type, with or without arguments. -/
theorem nameOf_display (h : nameOf σ text s = .ok base t) (hform : PlainForm text) :
    t = s ∧ base.display = String.ofList text ∧ ∀ args, ({ base with args } : TypeName).display =
      String.ofList text ++ Renderer.argumentSuffix (args.map TypeName.display) := by
  have hplain : ((segments text).getLastD []).head? ≠ some '!' := by
    intro hhead
    have hmem := (getLastD_segments_suffix text).subset (List.mem_of_head? hhead)
    exact (hform.clean _ hmem).2.1 rfl
  obtain ⟨stem, qualifier, last, markers, htext, -, hparts, hdotted⟩ := exists_dotted hplain
  obtain rfl : markers = 0 := by
    rw [← Nat.le_zero, ← Nat.not_lt]
    intro hpos
    have hopen : '[' ∈ text := by
      obtain ⟨m, rfl⟩ := Nat.exists_eq_add_one.mpr hpos
      simp [htext, brackets_succ]
    exact (hform.clean _ hopen).1 rfl
  have hstem : dotted (qualifier ++ [last]) = text := by
    simpa [brackets] using hdotted.text_eq.symm
  obtain ⟨-, -, hsegment, -, rfl, rfl⟩ := (nameOf_dotted_ok_iff hdotted).mp h
  have hqualifier : ∀ part ∈ qualifier, part ≠ [] :=
    fun part hpart heq => hsegment (heq ▸ List.mem_append_left _ hpart)
  refine ⟨rfl, ?_, ?_⟩
  · rw [TypeName.display_chainOf_bare hqualifier, TypeName.fullname_chainOf hqualifier, hstem]
    exact String.append_empty
  · intro args
    rw [TypeName.display_chainOf hqualifier, hstem]
    exact String.append_empty

def ShowsLists (L : ListReader) : Prop :=
  ∀ (owner : TypeName) (declared : Nat) (context : ListContext) (s t : State)
    (args : List TypeName), PlainForm s.cursor.rest → L owner declared context s = .ok args t →
    Shows s (Renderer.argumentSuffix (args.map TypeName.display)).toList t

variable {L : ListReader} {context : ListContext} {declared : Nat} {args : List TypeName}

theorem arraySuffix_plain (hplain : PlainForm s.cursor.rest) (node : TypeName) :
    arraySuffix node s = .ok node s := by
  have hopen : s.cursor.rest.head? ≠ some '[' :=
    fun hhead => (hplain.clean _ (List.mem_of_head? hhead)).1 rfl
  have hunmarked : node.withArray (0 < (0 : Markers).val) = node := node.withArray_false
  have hpass : arraySuffix node s = .ok (node.withArray (0 < (0 : Markers).val)) (s.pass [] _) :=
    arraySuffix_pass node 0 rfl (not_marker_of_head? hopen)
  rwa [hunmarked, State.pass_nil] at hpass

theorem arity_shows {n : Nat} (h : arity s = .ok n t) (hplain : PlainForm s.cursor.rest) :
    Shows s [] t ∧ t.cursor.peek ≠ '.' := by
  obtain ⟨d, after, hrest, hafter, -, -, rfl⟩ := arity_ok_iff.mp h
  refine ⟨⟨⟨_, hrest.symm⟩, ?_⟩, ?_⟩
  · rw [hrest, plainText_arity d.isDigit hafter]
    rfl
  · rw [ne_eq, peek_eq_iff (by decide)]
    intro hdot
    obtain ⟨more, rfl⟩ : ∃ more, after = '.' :: more := by
      cases after with
      | nil => cases hdot
      | cons c more =>
        obtain rfl := Option.some.inj hdot
        exact ⟨more, rfl⟩
    exact hplain.owned d ⟨[], more, by simp [hrest]⟩

theorem genericSuffix_shows (hL : ShowsLists L) (hplain : PlainForm s.cursor.rest)
    (h : genericSuffix L base context s = .ok node t) :
    ∃ args, node = { base with args } ∧
      Shows s (Renderer.argumentSuffix (args.map TypeName.display)).toList t := by
  unfold genericSuffix genericTail at h
  obtain ⟨declared, s₁, harity, h⟩ := bind_eq_ok h
  obtain ⟨hshows, hdot⟩ := arity_shows harity hplain
  obtain ⟨owner, s₂, htail, h⟩ := bind_eq_ok h
  have hpeek : peek s₁ = .ok s₁.cursor.peek s₁ := rfl
  rw [bind_ok hpeek, if_neg hdot] at htail
  obtain ⟨args, s₃, hargs, htail⟩ := bind_eq_ok htail
  cases htail
  have hlist := hL _ _ _ _ _ _ (hplain.of_suffix hshows.suffix) hargs
  rw [arraySuffix_plain (hplain.of_suffix (hshows.trans hlist).suffix)] at h
  cases h
  exact ⟨args, rfl, hshows.trans hlist⟩

theorem fullName_shows (hL : ShowsLists L) (hplain : PlainForm s.cursor.rest) {d : Char}
    (hrest : s.cursor.rest = taken ++ d :: after) (htaken : ∀ c ∈ taken, c ≠ '\x60' ∧ c ≠ ',')
    (h : fullName σ L (s.cursor.pos + byteLength taken) context s = .ok node t) :
    Shows s node.display.toList t := by
  unfold fullName at h
  obtain ⟨base, u, hbase, h⟩ := bind_eq_ok h
  rw [baseName_pass σ hrest] at hbase
  have hname : PlainForm taken := hplain.of_infix ⟨[], d :: after, by simp [hrest]⟩
  obtain ⟨rfl, hdisplay, hargs⟩ := nameOf_display hbase hname
  have hword := shows_word hrest htaken
  have hpeek : peek (s.pass taken (d :: after)) = .ok d (s.pass taken (d :: after)) := rfl
  rw [bind_ok hpeek] at h
  split at h
  next =>
    obtain ⟨args, rfl, hlist⟩ := genericSuffix_shows hL (hplain.of_suffix hword.suffix) h
    rw [hargs, String.toList_append, String.toList_ofList]
    exact hword.trans hlist
  next =>
    cases h
    rw [hdisplay, String.toList_ofList]
    exact hword

/-- An argument that is there is shown as it is written. -/
theorem plainArgument_shows (hL : ShowsLists L) {before : Char} (hbefore : before ∈ ['<', ','])
    (hplain : PlainForm (before :: s.cursor.rest)) (h : plainArgument σ L s = .ok node t) :
    Shows s node.display.toList t := by
  have hrest' : PlainForm s.cursor.rest := hplain.of_suffix (List.suffix_cons _ _)
  rw [plainArgument_eq, bind_ok (cursor_pass s)] at h
  obtain ⟨stop, u, hstop, h⟩ := bind_eq_ok h
  obtain ⟨rfl, taken, d, after, hrest, htaken, hd, rfl⟩ := expectAny_eq_ok hstop
  cases taken with
  | nil =>
    rw [byteLength_nil, Nat.add_zero, if_pos rfl] at h
    obtain ⟨hmarker, -⟩ := check_eq_ok h
    have hchar : u.cursor.charAt (u.cursor.pos + byteLength []) = d := charAt_pass hrest
    rw [byteLength_nil, Nat.add_zero] at hchar
    rw [hchar] at hmarker
    have hbehind : d ∈ [',', '>'] := by simpa [bne_iff_ne.mp hmarker] using hd
    exact absurd ⟨[], after, by simp [hrest]⟩ (hplain.full before hbefore d hbehind)
  | cons c taken =>
    have hne : u.cursor.pos + byteLength (c :: taken) ≠ u.cursor.pos := by
      have := c.utf8Size_pos
      rw [byteLength_cons]
      omega
    rw [if_neg hne] at h
    apply fullName_shows hL hrest' hrest _ h
    intro x hx
    have hdelimiter := htaken x hx
    simp only [List.mem_cons, List.not_mem_nil, or_false, not_or] at hdelimiter
    exact ⟨hdelimiter.1, hdelimiter.2.1⟩

theorem plainArguments_shows (hL : ShowsLists L) (fuel : Nat) {before : Char}
    (hbefore : before ∈ ['<', ',']) (hplain : PlainForm (before :: s.cursor.rest))
    (h : plainArguments σ L fuel s = .ok args t) :
    args ≠ [] ∧ Shows s ((", ".intercalate (args.map TypeName.display)).toList ++ ['>']) t := by
  have hnospace {u : State} (hu : PlainForm u.cursor.rest) : skipSpaces u = .ok () u :=
    skipSpaces_none fun hhead => (hu.clean _ (List.mem_of_head? hhead)).2.2 rfl
  induction fuel generalizing s before args with
  | zero => cases h
  | succ fuel ih =>
    rw [plainArguments, bind_ok (hnospace (hplain.of_suffix (List.suffix_cons _ _)))] at h
    obtain ⟨first, u, hfirst, h⟩ := bind_eq_ok h
    have hshows := plainArgument_shows hL hbefore hplain hfirst
    have hu := hplain.of_suffix (hshows.suffix.trans (List.suffix_cons _ _))
    have hpeek : peek u = .ok u.cursor.peek u := rfl
    rw [bind_ok (hnospace hu), bind_ok hpeek] at h
    generalize hfound : u.cursor.peek = found at h
    split at h
    next =>
      obtain ⟨after, hrest⟩ := List.head?_eq_some_iff.mp ((peek_eq_iff (by decide)).mp hfound)
      rw [bind_ok (advance_pass hrest)] at h
      obtain ⟨others, v, hothers, h⟩ := bind_eq_ok h
      cases h
      obtain ⟨hne, hmore⟩ := ih (by simp) (hrest ▸ hu) hothers
      refine ⟨by simp, ?_⟩
      obtain ⟨second, rest, rfl⟩ := List.exists_cons_of_ne_nil hne
      have hall := (hshows.trans (shows_comma hrest)).trans hmore
      simpa [String.intercalate_cons_cons] using hall
    next =>
      obtain ⟨after, hrest⟩ := List.head?_eq_some_iff.mp ((peek_eq_iff (by decide)).mp hfound)
      rw [bind_ok (advance_pass hrest)] at h
      cases h
      refine ⟨by simp, ?_⟩
      simpa using hshows.trans (shows_word hrest (by simp))
    next => cases h
    next => cases h

theorem plainList_shows (hL : ShowsLists L) (h : plainList σ L declared s = .ok args t)
    (hplain : PlainForm s.cursor.rest) (hopen : s.cursor.rest.head? = some '<') :
    Shows s (Renderer.argumentSuffix (args.map TypeName.display)).toList t := by
  obtain ⟨more, hrest⟩ := List.head?_eq_some_iff.mp hopen
  have hfilled : ¬ ['>'] <+: more := by
    rintro ⟨after, rfl⟩
    exact hplain.full '<' (by simp) '>' (by simp) ⟨[], after, by simp [hrest]⟩
  rw [plainList, bind_ok (advance_pass hrest), bind_ok (eat_other hfilled), if_neg (by decide),
    bind_ok (cursor_pass _)] at h
  obtain ⟨items, u, hitems, h⟩ := bind_eq_ok h
  obtain ⟨-, h⟩ := check_eq_ok h
  cases h
  have hbehind : PlainForm ('<' :: (s.pass ['<'] more).cursor.rest) := hrest ▸ hplain
  obtain ⟨hne, hshows⟩ := plainArguments_shows hL _ (by simp) hbehind hitems
  have hword : Shows s ['<'] (s.pass ['<'] more) := shows_word hrest (by simp)
  have hall := hword.trans hshows
  simpa [Renderer.argumentSuffix, hne] using hall

theorem listLevel_shows (hL : ShowsLists L) : ShowsLists (listLevel σ L) := by
  intro owner declared context s t args hplain h
  rw [listLevel, bind_ok (peek_ok s)] at h
  generalize hfound : s.cursor.peek = found at h
  split at h
  next =>
    have hopen := (peek_eq_iff (by decide)).mp hfound
    exact absurd rfl (hplain.clean _ (List.mem_of_head? hopen)).1
  next =>
    have hopen := (peek_eq_iff (by decide)).mp hfound
    split at h
    next => cases h
    next =>
      obtain ⟨-, u, hdeeper, rfl⟩ := deeper_ok_iff.mp h
      obtain ⟨v, howned, rfl⟩ := withOwner_ok_iff.mp hdeeper
      have hshows := plainList_shows hL howned hplain hopen
      exact ⟨hshows.suffix, hshows.shown⟩
  next => cases h
  next => cases h

theorem argumentLists_shows (σ : Settings) (levels : Nat) :
    ShowsLists (argumentLists σ levels) := by
  induction levels with
  | zero =>
    apply listLevel_shows
    intro owner declared context s t args _ h
    cases h
  | succ levels ih => exact listLevel_shows ih

end

end Grammar

open Grammar

theorem readText_eq_ok {o : ReadOptions} {text : List Char} {t : TypeName}
    (h : readText o text = .ok t) :
    ∃ closed truncated s, closeTruncated text = .ok (closed, truncated) ∧
      wholeName (o.settings truncated) ⟨.start closed o.containing, 0⟩ = .ok t s ∧
      s.cursor.rest = [] := by
  unfold readText at h
  split_ifs at h
  cases hclose : closeTruncated text with
  | error e =>
    rw [hclose] at h
    cases h
  | ok closing =>
    obtain ⟨closed, truncated⟩ := closing
    rw [hclose] at h
    change readClosed o text closed truncated = .ok t at h
    rw [readClosed_eq] at h
    cases hrun : wholeName (o.settings truncated) ⟨.start closed o.containing, 0⟩ with
    | error e s =>
      rw [hrun] at h
      cases h
    | ok u s =>
      rw [hrun] at h
      dsimp only at h
      split at h
      next => cases h
      next hend =>
        cases h
        exact ⟨closed, truncated, s, rfl, hrun, by simpa [Cursor.hasMore] using hend⟩

/-- No text is lost or invented: a generic name with plain and full lists shows as it is
written, but without arity markers behind its base and with a space behind each comma. -/
theorem display_of_plainForm (known : String → Bool) (containing : Option TypeName)
    (name : String) (t : TypeName) (h : readTypeName known containing name = .ok t)
    (hgeneric : '\x60' ∈ name.toList) (hplain : PlainForm name.toList) :
    t.display = String.ofList (name.toList.takeWhile (· != '\x60') ++
      plainText (name.toList.dropWhile (· != '\x60'))) := by
  obtain ⟨closed, truncated, s, hclose, hrun, hend⟩ := readText_eq_ok h
  have hclosed : closed = name.toList := by
    rcases closeTruncated_eq_ok hclose with hclosed | ⟨before, after, htext, -⟩
    · exact hclosed
    · exact absurd rfl (hplain.clean '[' (by simp [htext])).1
  subst hclosed
  obtain ⟨stem, more, htext, hstem⟩ := List.eq_append_cons_of_mem hgeneric
  have hwords : ∀ c ∈ stem, (c != '\x60') = true :=
    fun c hc => bne_iff_ne.mpr fun heq => hstem (heq ▸ hc)
  have hrest : (State.mk (.start name.toList containing) 0).cursor.rest = stem ++ '\x60' :: more :=
    htext
  rw [wholeName_of_marked hrest hstem] at hrun
  obtain ⟨base, u, hbase, hsuffix⟩ := bind_eq_ok hrun
  rw [baseName_pass _ hrest] at hbase
  have hname : PlainForm stem := hplain.of_infix ⟨[], '\x60' :: more, by simp [htext]⟩
  obtain ⟨rfl, -, hdisplay⟩ := nameOf_display hbase hname
  have hbehind : PlainForm ('\x60' :: more) := hplain.of_suffix ⟨stem, htext.symm⟩
  obtain ⟨args, rfl, hshows⟩ := genericSuffix_shows (argumentLists_shows _ _) hbehind hsuffix
  have hshown : plainText ('\x60' :: more) =
      (Renderer.argumentSuffix (args.map TypeName.display)).toList := by
    simpa [hend] using hshows.shown
  rw [hdisplay, htext, List.takeWhile_append_of_pos hwords, List.dropWhile_append_of_pos hwords]
  simp [hshown]

theorem display_of_plainForm_map :
    let known : String → Bool := fun name => name == "a,x"
    let map : TypeName := { (TypeName.topLevel "" "a,x").nested "Map" with
      args := [{ TypeName.topLevel "" "K" with args := [.topLevel "" "V"] },
        .topLevel "b" "Item"] }
    readTypeName known none "a,x.Map\x602<K\x601<V>,b.Item>" = .ok map ∧
      PlainForm "a,x.Map\x602<K\x601<V>,b.Item>".toList ∧
      map.display = "a,x.Map<K<V>, b.Item>" := by
  intro known map
  have hread : readTypeName known none "a,x.Map\x602<K\x601<V>,b.Item>" = .ok map := by
    decide +kernel
  have hplain : PlainForm "a,x.Map\x602<K\x601<V>,b.Item>".toList :=
    plainForm_of_checks (by decide) (by decide) (by decide)
  have hshown := display_of_plainForm known none _ map hread (by decide) hplain
  exact ⟨hread, hplain, hshown.trans (by decide +kernel)⟩

end ClrNames
