import ClrNames.Proofs.DefinitionMode
import ClrNames.Proofs.NameTables
import ClrNames.Proofs.NodeInvariant

/-!
# Names without arguments

A name without an arity marker is a dotted name with array markers behind it, if it
is no reference. Its marks, its segments and the table tell whether it is refused, and
why; a name that is not refused is the text of its type, but for a second array marker.
-/

set_option autoImplicit false

namespace ClrNames.Text

variable {text last : List Char} {qualifier : List (List Char)} {markers : Nat}

structure Dotted (text : List Char) (qualifier : List (List Char)) (last : List Char)
    (markers : Nat) : Prop where
  split : segments text = qualifier ++ [last ++ brackets markers]
  unmarked : ¬ ['[', ']'] <:+ last
  plain : last.head? ≠ some '!'

namespace Dotted

variable (h : Dotted text qualifier last markers)
include h

theorem text_eq : text = dotted (qualifier ++ [last]) ++ brackets markers := by
  rw [dotted_append, ← h.split, dotted_segments]

theorem dotless : ∀ part ∈ qualifier ++ [last], '.' ∉ part := by
  intro part hpart hdot
  rcases List.mem_append.mp hpart with hpart | hpart
  · have hmem : part ∈ segments text := by simp [h.split, hpart]
    exact (mem_segments hmem _ hdot).1 rfl
  · obtain rfl := List.mem_singleton.mp hpart
    have hmem : part ++ brackets markers ∈ segments text := by simp [h.split]
    exact (mem_segments hmem _ (List.mem_append_left _ hdot)).1 rfl

theorem remark (markers' : Nat) :
    Dotted (dotted (qualifier ++ [last]) ++ brackets markers') qualifier last markers' :=
  ⟨segments_append h.dotless (dot_not_mem_brackets markers'), h.unmarked, h.plain⟩

end Dotted

/-- Every text but a reference is a dotted name with array markers. -/
theorem exists_dotted (h : ((segments text).getLastD []).head? ≠ some '!') :
    ∃ stem qualifier last markers, text = stem ++ brackets markers ∧ ¬ ['[', ']'] <:+ stem ∧
      segments stem = qualifier ++ [last] ∧ Dotted text qualifier last markers := by
  obtain ⟨stem, markers, rfl, hstem⟩ := exists_stem text
  obtain ⟨qualifier, last, hparts⟩ : ∃ qualifier last, segments stem = qualifier ++ [last] :=
    ⟨_, _, (List.dropLast_concat_getLast (segments_ne_nil stem)).symm⟩
  have hdotless : ∀ part ∈ qualifier ++ [last], '.' ∉ part := by
    rw [← hparts]
    exact fun part hpart hdot => (mem_segments hpart _ hdot).1 rfl
  have hdotted : dotted (qualifier ++ [last]) = stem := by rw [← hparts, dotted_segments]
  have hsplit := segments_append hdotless (dot_not_mem_brackets markers)
  rw [hdotted] at hsplit
  have hsuffix : last <:+ stem := hdotted ▸ dotted_append_singleton qualifier last
  refine ⟨stem, qualifier, last, markers, rfl, hstem, hparts, hsplit, ?_, ?_⟩
  · exact fun hmarked => hstem (hmarked.trans hsuffix)
  · intro hhead
    rw [hsplit, List.getLastD_concat] at h
    cases last with
    | nil => cases hhead
    | cons first rest => exact h hhead

end ClrNames.Text

namespace ClrNames.Grammar
open Text

def namespaceCount (known : String → Bool) (qualifier : List (List Char)) : Nat :=
  Nat.findGreatest (fun k => known (String.ofList (dotted (qualifier.take k))) = false)
    qualifier.length

def enclosingCount (known : String → Bool) (qualifier : List (List Char)) : Nat :=
  qualifier.length - namespaceCount known qualifier

theorem any_angle (text : List Char) :
    (!text.any fun c => c == '<' || c == '>') = true ↔ ¬ ('<' ∈ text ∨ '>' ∈ text) := by
  simp only [Bool.not_eq_true', List.any_eq_false, Bool.or_eq_true, beq_iff_eq, not_or]
  constructor
  · exact fun hclean => ⟨fun hc => (hclean _ hc).1 rfl, fun hc => (hclean _ hc).2 rfl⟩
  · rintro ⟨hless, hgreater⟩ c hc
    exact ⟨fun heq => hless (heq ▸ hc), fun heq => hgreater (heq ▸ hc)⟩

theorem any_isEmpty (qualifier : List (List Char)) (last : List Char) :
    (!last.isEmpty && !qualifier.any List.isEmpty) = true ↔ ¬ [] ∈ qualifier ++ [last] := by
  simp only [Bool.and_eq_true, Bool.not_eq_true', List.isEmpty_eq_false_iff, List.any_eq_false,
    List.isEmpty_iff, List.mem_append, List.mem_singleton, not_or]
  constructor
  · rintro ⟨hlast, hparts⟩
    exact ⟨fun hmem => hparts _ hmem rfl, Ne.symm hlast⟩
  · rintro ⟨hparts, hlast⟩
    exact ⟨Ne.symm hlast, fun part hpart heq => hparts (heq ▸ hpart)⟩

/-- A check in front of a reader, where what it checks is known by another name. -/
theorem check_bind {α : Type} {ok : Bool} {bad : Prop} [Decidable bad] (h : ok = true ↔ ¬ bad)
    (cause : ParseError.Cause) (p : Reader α) (s : State) :
    (check ok cause >>= fun _ => p) s =
      if bad then .error (s.cursor.refuse cause) s else p s := by
  by_cases hbad : bad
  · rw [if_pos hbad]
    exact bind_error (check_refused (by simpa [hbad] using h) cause s) _
  · rw [if_neg hbad]
    exact bind_ok (check_pass (h.mpr hbad) cause s) _

/-- All there is to say about a dotted name: the refusals in their order, else its node. -/
theorem nameOf_dotted (σ : Settings) {text last : List Char} {qualifier : List (List Char)}
    {markers : Nat} (h : Dotted text qualifier last markers) (s : State) :
    nameOf σ text s =
      if '<' ∈ text ∨ '>' ∈ text then .error (s.cursor.refuse .argumentsWithoutArity) s
      else if 2 < markers then .error ⟨.arrayRank markers, last ++ brackets markers⟩ s
      else if [] ∈ qualifier ++ [last] then .error (s.cursor.refuse .emptySegment) s
      else if 64 < enclosingCount σ.known qualifier then
        .error (s.cursor.refuse (.nestedTooDeep (enclosingCount σ.known qualifier))) s
      else .ok (chainOf qualifier (namespaceCount σ.known qualifier) last (0 < markers)) s := by
  have hhead : (last ++ brackets markers).head? ≠ some '!' :=
    head?_append_brackets (by decide) h.plain
  have hlevels : decide (enclosingCount σ.known qualifier ≤ maxNesting) = true ↔
      ¬ 64 < enclosingCount σ.known qualifier := decide_eq_true_iff.trans Nat.not_lt.symm
  unfold nameOf
  rw [check_bind (any_angle text), h.split, List.getLastD_concat, List.dropLast_concat,
    if_neg hhead]
  congr 1
  unfold simpleName
  rw [arrayMarkers_append h.unmarked, withoutMarkers_append_brackets h.unmarked]
  dsimp only
  by_cases hrank : 2 < markers
  · have hmax : maxArrayMarkers < markers := hrank
    rw [if_pos hrank, if_pos hmax]
    rfl
  · have hmax : ¬ maxArrayMarkers < markers := hrank
    rw [if_neg hrank, if_neg hmax, check_bind (any_isEmpty qualifier last), namespaceLength_eq]
    congr 1
    exact check_bind hlevels _ _ s

theorem nameOf_dotted_ok_iff {σ : Settings} {text last : List Char} {qualifier : List (List Char)}
    {markers : Nat} (h : Dotted text qualifier last markers) {s u : State} {t : TypeName} :
    nameOf σ text s = .ok t u ↔
      ¬ ('<' ∈ text ∨ '>' ∈ text) ∧ markers ≤ 2 ∧ [] ∉ qualifier ++ [last] ∧
        enclosingCount σ.known qualifier ≤ 64 ∧
        t = chainOf qualifier (namespaceCount σ.known qualifier) last (0 < markers) ∧ u = s := by
  rw [nameOf_dotted σ h]
  split_ifs with hangle hrank hsegment hlevels
  · exact ⟨nofun, fun hok => absurd hangle hok.1⟩
  · exact ⟨nofun, fun hok => absurd hrank (Nat.not_lt.mpr hok.2.1)⟩
  · exact ⟨nofun, fun hok => absurd hsegment hok.2.2.1⟩
  · exact ⟨nofun, fun hok => absurd hlevels (Nat.not_lt.mpr hok.2.2.2.1)⟩
  · constructor
    · rintro ⟨⟩
      exact ⟨hangle, Nat.not_lt.mp hrank, hsegment, Nat.not_lt.mp hlevels, rfl, rfl⟩
    · rintro ⟨-, -, -, -, rfl, rfl⟩
      rfl

end ClrNames.Grammar

namespace ClrNames.TypeName
open Text Grammar

theorem arrayMark_eq (markers : Nat) :
    Renderer.arrayMark (0 < markers) = String.ofList (brackets (min markers 1)) := by
  cases markers with
  | zero => rfl
  | succ markers =>
    rw [Nat.min_eq_right (by omega)]
    rfl

def Bare (t : TypeName) : Prop := t.Everywhere (fun _ n => n.args = [] ∧ n.param = none) 0

theorem withArgs_nil {t : TypeName} (h : t.args = []) : ({ t with args := [] } : TypeName) = t := by
  cases t with
  | mk nspace name enclosing args isArray param =>
    cases h
    rfl

theorem bare_topLevel (nspace name : String) : Bare (topLevel nspace name) :=
  everywhere_topLevel ⟨rfl, rfl⟩

theorem Bare.nested {t : TypeName} (h : Bare t) (name : String) : Bare (t.nested name) :=
  Everywhere.nested h ⟨rfl, rfl⟩

theorem Bare.foldl_nested {t : TypeName} (h : Bare t) (names : List String) :
    Bare (names.foldl TypeName.nested t) := by
  induction names generalizing t with
  | nil => exact h
  | cons name names ih => exact ih (h.nested name)

theorem bare_chainOf (qualifier : List (List Char)) (split : Nat) (last : List Char)
    (mark : Bool) : Bare (chainOf qualifier split last mark) := by
  have hchain (nspace name : String) (enclosing : List String) :
      Bare (ofChain nspace enclosing name) := by
    cases enclosing with
    | nil => exact bare_topLevel nspace name
    | cons outermost inner =>
      exact ((bare_topLevel nspace outermost).foldl_nested inner).nested name
  have hbare := hchain (String.ofList (dotted (qualifier.take split)))
    (String.ofList last) ((qualifier.drop split).map String.ofList)
  exact Everywhere.withArray hbare mark (Everywhere.self hbare)

theorem display_topLevel (nspace name : String) (mark : Bool) (args : List TypeName) :
    ({ (topLevel nspace name).withArray mark with args } : TypeName).display =
      nspacePrefix nspace ++ name ++ Renderer.argumentSuffix (args.map display) ++
        Renderer.arrayMark mark := by
  have heven : Renderer.Even { flags := .qualified } := ⟨rfl, rfl⟩
  rw [display, Renderer.render_of_even _ heven, Renderer.path_withArgs, Renderer.path_withArray,
    Renderer.path_topLevel _ heven, Renderer.renderArgs_eq_map]
  rfl

section
variable {qualifier : List (List Char)} (h : ∀ part ∈ qualifier, part ≠ []) (split : Nat)
  (last : List Char) (mark : Bool)
include h

theorem fullname_chainOf :
    (chainOf qualifier split last mark).fullname =
      String.ofList (dotted (qualifier ++ [last])) := by
  rw [(sameText_topLevel h split last mark).fullname, fullname_withArray, fullname_topLevel,
    nspacePrefix_append h last]

theorem display_chainOf (args : List TypeName) :
    ({ chainOf qualifier split last mark with args } : TypeName).display =
      String.ofList (dotted (qualifier ++ [last])) ++
        Renderer.argumentSuffix (args.map display) ++ Renderer.arrayMark mark := by
  have hargs : List.Forall₂ SameText args args := List.forall₂_same.mpr fun t _ => .refl t
  have hsame := (sameText_topLevel h split last mark).withArgs hargs
  rw [display, hsame.render ⟨rfl, rfl⟩, ← nspacePrefix_append h last]
  exact display_topLevel _ _ mark args

theorem isArray_chainOf : (chainOf qualifier split last mark).isArray = mark := by
  rw [(sameText_topLevel h split last mark).isArray]
  exact Bool.false_or mark

theorem display_chainOf_bare : (chainOf qualifier split last mark).display =
    (chainOf qualifier split last mark).fullname ++ Renderer.arrayMark mark := by
  have hbare := Everywhere.self (bare_chainOf qualifier split last mark)
  have hshown := display_chainOf h split last mark []
  rw [withArgs_nil hbare.1, List.map_nil, ← fullname_chainOf h split last mark] at hshown
  exact hshown.trans (congrArg (· ++ _) String.append_empty)

end

end ClrNames.TypeName

namespace ClrNames
open Text Grammar

def Unmodelled (name : List Char) : Prop :=
  "c__DisplayClass".toList <:+: name ∨ ".<>c".toList <:+: name ∨ '<' ∈ name ∨ '>' ∈ name

theorem unmodelled_iff (name : List Char) :
    Unmodelled name ↔ isCompilerGenerated name = true ∨ '<' ∈ name ∨ '>' ∈ name := by
  rw [Unmodelled, isCompilerGenerated, Bool.or_eq_true, occurs_iff, occurs_iff, or_assoc]

theorem Unmodelled.of_prefix {part name : List Char} (h : part <+: name) (hpart : Unmodelled part) :
    Unmodelled name := by
  rcases hpart with hpiece | hpiece | hc | hc
  · exact .inl (hpiece.trans h.isInfix)
  · exact .inr (.inl (hpiece.trans h.isInfix))
  · exact .inr (.inr (.inl (h.subset hc)))
  · exact .inr (.inr (.inr (h.subset hc)))

section
variable {text last : List Char} {qualifier : List (List Char)} {markers : Nat}
  (h : Dotted text qualifier last markers) (htick : '\x60' ∉ text)
include h htick

theorem readTypeName_of_dotted (known : String → Bool) (containing : Option TypeName) :
    readTypeName known containing (String.ofList text) =
      if text = [] then .error ⟨.emptyName, text⟩
      else if isCompilerGenerated text then .error ⟨.compilerGenerated, text⟩
      else if '<' ∈ text ∨ '>' ∈ text then .error ⟨.argumentsWithoutArity, text⟩
      else if 2 < markers then .error ⟨.arrayRank markers, last ++ brackets markers⟩
      else if [] ∈ qualifier ++ [last] then .error ⟨.emptySegment, text⟩
      else if 64 < enclosingCount known qualifier then
        .error ⟨.nestedTooDeep (enclosingCount known qualifier), text⟩
      else .ok (chainOf qualifier (namespaceCount known qualifier) last (0 < markers)) := by
  have hknown : (ReadOptions.settings { known, containing } false).known = known := rfl
  rw [readTypeName_unmarked known containing htick, nameOf_dotted _ h, hknown]
  split_ifs <;> rfl

theorem unsupported_of_dotted (known : String → Bool) (containing : Option TypeName)
    (hmark : Unmodelled text ∨ 2 < markers) :
    ∃ e, readTypeName known containing (String.ofList text) = .error e ∧
      e.outcome = .unsupported := by
  have hne : text ≠ [] := by
    rintro rfl
    rcases hmark with hmark | hrank
    · simp [Unmodelled] at hmark
    · have hnil := (List.append_eq_nil_iff.mp h.text_eq.symm).2
      rw [brackets_eq_nil] at hnil
      omega
  rw [unmodelled_iff] at hmark
  rw [readTypeName_of_dotted h htick, if_neg hne]
  split_ifs with hgenerated hangle hrank
  · exact ⟨_, rfl, rfl⟩
  · exact ⟨_, rfl, rfl⟩
  · exact ⟨_, rfl, rfl⟩
  all_goals exact absurd hmark (by simp [hgenerated, hangle, hrank])

theorem malformed_of_dotted {known : String → Bool} (containing : Option TypeName)
    (hmark : ¬ (Unmodelled text ∨ 2 < markers))
    (hname : text = [] ∨ [] ∈ qualifier ++ [last] ∨ 64 < enclosingCount known qualifier) :
    ∃ e, readTypeName known containing (String.ofList text) = .error e ∧
      e.outcome = .malformed := by
  rw [unmodelled_iff] at hmark
  rw [readTypeName_of_dotted h htick]
  split_ifs with hempty hgenerated hangle hrank hsegment hlevels
  · exact ⟨_, rfl, rfl⟩
  · exact absurd (.inl (.inl hgenerated)) hmark
  · exact absurd (.inl (.inr hangle)) hmark
  · exact absurd (.inr hrank) hmark
  · exact ⟨_, rfl, rfl⟩
  · exact ⟨_, rfl, rfl⟩
  · exact absurd hname (by simp only [hempty, hsegment, hlevels, or_self, not_false_eq_true])

theorem accepted_of_dotted {known : String → Bool} (containing : Option TypeName)
    (hmark : ¬ (Unmodelled text ∨ 2 < markers)) (hempty : text ≠ [])
    (hsegment : [] ∉ qualifier ++ [last]) (hlevels : ¬ 64 < enclosingCount known qualifier) :
    readTypeName known containing (String.ofList text) =
      .ok (chainOf qualifier (namespaceCount known qualifier) last (0 < markers)) := by
  rw [unmodelled_iff, not_or, not_or] at hmark
  rw [readTypeName_of_dotted h htick, if_neg hempty, if_neg hmark.1.1, if_neg hmark.1.2,
    if_neg hmark.2, if_neg hsegment, if_neg hlevels]

/-- What is accepted shows with one array marker at most, and is read again. -/
theorem display_of_dotted {known : String → Bool}
    (hmark : ¬ (Unmodelled text ∨ 2 < markers)) (hsegment : [] ∉ qualifier ++ [last])
    (hlevels : ¬ 64 < enclosingCount known qualifier) (scope : Option TypeName) :
    readTypeName known scope
        (chainOf qualifier (namespaceCount known qualifier) last (0 < markers)).display =
      .ok (chainOf qualifier (namespaceCount known qualifier) last (0 < markers)) := by
  have hparts : ∀ part ∈ qualifier ++ [last], part ≠ [] :=
    fun part hpart heq => hsegment (heq ▸ hpart)
  obtain ⟨more, hmore⟩ := brackets_min_one markers
  have hstart : dotted (qualifier ++ [last]) ++ brackets (min markers 1) <+: text := by
    rw [h.text_eq, hmore, ← List.append_assoc]
    exact List.prefix_append _ _
  have hshown : (chainOf qualifier (namespaceCount known qualifier) last (0 < markers)).display =
      String.ofList (dotted (qualifier ++ [last]) ++ brackets (min markers 1)) := by
    rw [TypeName.display_chainOf_bare fun part hpart =>
      hparts part (List.mem_append_left _ hpart), TypeName.fullname_chainOf fun part hpart =>
      hparts part (List.mem_append_left _ hpart), String.ofList_append, TypeName.arrayMark_eq]
  have hmark' : ¬ (Unmodelled (dotted (qualifier ++ [last]) ++ brackets (min markers 1)) ∨
      2 < min markers 1) := by
    rintro (hpart | hrank)
    · exact hmark (.inl (hpart.of_prefix hstart))
    · omega
  have hne : dotted (qualifier ++ [last]) ++ brackets (min markers 1) ≠ [] :=
    fun hnil => dotted_ne_nil hparts (by simp) (List.append_eq_nil_iff.mp hnil).1
  have hsame : decide (0 < min markers 1) = decide (0 < markers) := by
    simp only [decide_eq_decide]
    omega
  rw [hshown, accepted_of_dotted (h.remark _) (fun hc => htick (hstart.subset hc)) scope hmark'
    hne hsegment hlevels, hsame]

end

/-- How a name without arity markers is read, whatever the table and the scope are. A name
that is accepted, without its second array marker, is the text of its type, which is
read as that type again. -/
theorem readTypeName_dotted (known : String → Bool) (containing : Option TypeName) (name : String)
    (htick : '\x60' ∉ name.toList)
    (hplain : ((segments name.toList).getLastD []).head? ≠ some '!') :
    ∃ stem markers, name.toList = stem ++ brackets markers ∧ ¬ ['[', ']'] <:+ stem ∧
      (Unmodelled name.toList ∨ 2 < markers →
        ∃ e, readTypeName known containing name = .error e ∧ e.outcome = .unsupported) ∧
      (¬ (Unmodelled name.toList ∨ 2 < markers) →
        name = "" ∨ [] ∈ segments stem ∨ 64 < enclosingCount known (segments stem).dropLast →
        ∃ e, readTypeName known containing name = .error e ∧ e.outcome = .malformed) ∧
      (¬ (Unmodelled name.toList ∨ 2 < markers) →
        ¬ (name = "" ∨ [] ∈ segments stem ∨
          64 < enclosingCount known (segments stem).dropLast) →
        ∃ t, readTypeName known containing name = .ok t ∧ t.Bare ∧
          t.fullname = String.ofList stem ∧ t.isArray = decide (0 < markers) ∧
          t.display = t.fullname ++ (if t.isArray then "[]" else "") ∧
          ∀ scope, readTypeName known scope t.display = .ok t) := by
  obtain ⟨stem, qualifier, last, markers, htext, hstem, hparts, h⟩ := exists_dotted hplain
  have hempty : name = "" ↔ name.toList = [] := String.toList_eq_nil_iff.symm
  refine ⟨stem, markers, htext, hstem, ?_, ?_, ?_⟩
  · intro hmark
    simpa using unsupported_of_dotted h htick known containing hmark
  · intro hmark hname
    rw [hempty, hparts, List.dropLast_concat] at hname
    simpa using malformed_of_dotted h htick containing hmark hname
  · intro hmark hname
    rw [hempty, hparts, List.dropLast_concat, not_or, not_or] at hname
    obtain ⟨hne, hsegment, hlevels⟩ := hname
    have hread := accepted_of_dotted h htick containing hmark hne hsegment hlevels
    have hqualifier : ∀ part ∈ qualifier, part ≠ [] :=
      fun part hpart heq => hsegment (heq ▸ List.mem_append_left _ hpart)
    have hstem' : dotted (qualifier ++ [last]) = stem := by rw [← hparts, dotted_segments]
    have hfull := TypeName.fullname_chainOf hqualifier (namespaceCount known qualifier) last
      (0 < markers)
    rw [hstem'] at hfull
    rw [String.ofList_toList] at hread
    refine ⟨_, hread, TypeName.bare_chainOf _ _ _ _, hfull,
      TypeName.isArray_chainOf hqualifier _ _ _, ?_,
      display_of_dotted h htick hmark hsegment hlevels⟩
    rw [TypeName.display_chainOf_bare hqualifier, TypeName.isArray_chainOf hqualifier]
    rfl

theorem readTypeName_dotted_nested :
    let known : String → Bool := fun name => name == "app.Outer"
    let item := ((TypeName.topLevel "app" "Outer").nested "Item").withArray true
    readTypeName known none "app.Outer.Item[][]" = .ok item ∧
      ∀ scope, readTypeName known scope "app.Outer.Item[]" = .ok item := by
  intro known item
  have hread : readTypeName known none "app.Outer.Item[][]" = .ok item := by decide +kernel
  obtain ⟨stem, markers, -, -, hunsupported, hmalformed, haccepted⟩ :=
    readTypeName_dotted known none "app.Outer.Item[][]" (by decide) (by decide +kernel)
  have hmark : ¬ (Unmodelled "app.Outer.Item[][]".toList ∨ 2 < markers) := by
    intro hmark
    obtain ⟨e, herror, -⟩ := hunsupported hmark
    cases hread.symm.trans herror
  by_cases hname : "app.Outer.Item[][]" = "" ∨ [] ∈ segments stem ∨
      64 < enclosingCount known (segments stem).dropLast
  · obtain ⟨e, herror, -⟩ := hmalformed hmark hname
    cases hread.symm.trans herror
  · obtain ⟨t, ht, -, -, -, -, hagain⟩ := haccepted hmark hname
    obtain rfl : item = t := Except.ok.inj (hread.symm.trans ht)
    have hshown : item.display = "app.Outer.Item[]" := by decide +kernel
    rw [hshown] at hagain
    exact ⟨hread, hagain⟩

end ClrNames
