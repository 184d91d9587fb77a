import ClrNames.Proofs.InnerLists
import ClrNames.Proofs.ExpressionReading
import ClrNames.Proofs.Substitution

/-!
# Names of definitions

The mode for definitions refuses exactly the names with a plain list at the
root. `Rejected` follows that one refusal back through the routines in front of
the list: what they demand of the text is what `PlainRoot` says of it.
-/

set_option autoImplicit false

namespace ClrNames.Grammar
open Text

section
variable {α β : Type} {p : Reader α} {k : α → Reader β} {s t : State} {a : α} {e : ParseError}

def Rejected (p : Reader α) (s : State) (e : ParseError) : Prop :=
  e.cause = .instantiation ∧ ∃ t, p s = .error e t

theorem Tolerant.not_rejected (hp : Tolerant p) : ¬ Rejected p s e := by
  rintro ⟨hcause, t, hrun⟩
  exact hp s e t hrun hcause

theorem rejected_step (hp : p s = .ok a t) : Rejected (p >>= k) s e ↔ Rejected (k a) t e := by
  rw [Rejected, Rejected, bind_ok hp]

theorem rejected_bind (hp : Tolerant p) :
    Rejected (p >>= k) s e ↔ ∃ a t, p s = .ok a t ∧ Rejected (k a) t e := by
  constructor
  · rintro ⟨hcause, u, hrun⟩
    rcases bind_eq_error hrun with hrun | ⟨a, t, hok, hrun⟩
    · exact absurd hcause (hp s e u hrun)
    · exact ⟨a, t, hok, hcause, u, hrun⟩
  · rintro ⟨a, t, hok, h⟩
    exact (rejected_step hok).mpr h

theorem rejected_first (hk : ∀ a, Tolerant (k a)) :
    Rejected (p >>= k) s e ↔ Rejected p s e := by
  constructor
  · rintro ⟨hcause, u, hrun⟩
    rcases bind_eq_error hrun with hrun | ⟨a, t, -, hrun⟩
    · exact ⟨hcause, u, hrun⟩
    · exact absurd hcause (hk a t e u hrun)
  · rintro ⟨hcause, u, hrun⟩
    exact ⟨hcause, u, bind_error hrun k⟩

theorem rejected_cursor {k : Cursor → Reader β} :
    Rejected (cursor >>= k) s e ↔ Rejected (k s.cursor) s e :=
  rejected_step (cursor_pass s)

theorem rejected_peek {k : Char → Reader β} :
    Rejected (peek >>= k) s e ↔ Rejected (k s.cursor.peek) s e :=
  rejected_step rfl

theorem rejected_advance (h : Rejected (advance >>= fun _ => p) s e) :
    ∃ c after, s.cursor.rest = c :: after ∧ Rejected p (s.pass [c] after) e := by
  cases hrest : s.cursor.rest with
  | nil =>
    obtain ⟨_, t, hrun, -⟩ := (rejected_bind tolerant_advance).mp h
    rw [advance_end hrest] at hrun
    cases hrun
  | cons c after => exact ⟨c, after, rfl, (rejected_step (advance_pass hrest)).mp h⟩

theorem rejected_expectAny {candidates : List Char} {k : Nat → Reader β}
    (h : Rejected (expectAny candidates >>= k) s e) :
    ∃ taken d after, s.cursor.rest = taken ++ d :: after ∧ (∀ c ∈ taken, c ∉ candidates) ∧
      d ∈ candidates := by
  obtain ⟨stop, t, hrun, -⟩ := (rejected_bind (tolerant_expectAny _)).mp h
  rcases expectAny_cases candidates s with ⟨taken, d, after, hrest, ht, hd, -⟩ | herror
  · exact ⟨taken, d, after, hrest, ht, hd⟩
  · rw [herror] at hrun
    cases hrun

theorem rejected_check {ok : Bool} {cause : ParseError.Cause} (hcause : cause ≠ .instantiation) :
    Rejected (check ok cause >>= fun _ => p) s e ↔ ok = true ∧ Rejected p s e := by
  cases ok with
  | true => simp [rejected_step (check_pass rfl cause s)]
  | false =>
    have hrefused : ¬ Rejected (check false cause >>= fun _ => p) s e := by
      rw [rejected_bind (tolerant_check _ hcause)]
      rintro ⟨a, t, hok, -⟩
      rw [check_refused rfl] at hok
      cases hok
    simp [hrefused]

end

theorem peek_eq_iff {s : State} {c : Char} (hc : c ≠ '\x00') :
    s.cursor.peek = c ↔ s.cursor.rest.head? = some c := by
  rw [Cursor.peek, Cursor.endOfInput]
  cases s.cursor.rest with
  | nil => simp [hc.symm]
  | cons d ds => simp

theorem check_eq_ok {α : Type} {ok : Bool} {cause : ParseError.Cause} {p : Reader α} {s t : State}
    {a : α} (h : (check ok cause >>= fun _ => p) s = .ok a t) : ok = true ∧ p s = .ok a t := by
  cases ok with
  | true => exact ⟨rfl, h⟩
  | false => cases h

/-- An arity marker that is accepted has digits. -/
theorem arity_ok {s t : State} {n : Nat} (h : arity s = .ok n t) :
    ∃ more, s.cursor.rest = '\x60' :: more ∧ more.takeWhile Char.isDigit ≠ [] := by
  unfold arity at h
  by_cases hmarker : ['\x60'] <+: s.cursor.rest
  · obtain ⟨more, hmore⟩ := hmarker
    rw [bind_ok (eat_pass hmore.symm), bind_ok (cursor_pass _)] at h
    obtain ⟨-, h⟩ := check_eq_ok h
    rw [bind_ok (cursor_pass _)] at h
    obtain ⟨hdigits, -⟩ := check_eq_ok h
    exact ⟨more, hmore.symm, by simpa using hdigits⟩
  · rw [bind_ok (eat_other hmarker)] at h
    cases h

/-- All the digits behind an arity marker are read. -/
theorem arity_ok_iff {s t : State} {n : Nat} :
    arity s = .ok n t ↔ ∃ (d : Decimal) (after : List Char),
      s.cursor.rest = '\x60' :: d.digits ++ after ∧
      (∀ c, after.head? = some c → c.isDigit = false) ∧ d.value < 18446744073709551616 ∧
      n = d.value ∧ t = s.pass ('\x60' :: d.digits) after := by
  constructor
  · intro h
    obtain ⟨more, hmore, hdigits⟩ := arity_ok h
    let d : Decimal := ⟨_, hdigits, List.all_eq_true.mp List.all_takeWhile⟩
    have hrest : s.cursor.rest = '\x60' :: d.digits ++ more.dropWhile Char.isDigit := by
      rw [hmore, List.cons_append, List.takeWhile_append_dropWhile]
    have hafter : ∀ c, (more.dropWhile Char.isDigit).head? = some c → c.isDigit = false := by
      intro c hc
      have hhead := List.head?_dropWhile_not Char.isDigit more
      rw [hc] at hhead
      simpa using hhead
    have hreads := arity_reads d hrest hafter
    by_cases hlt : d.value < 18446744073709551616
    · cases (hreads.1 hlt).symm.trans h
      exact ⟨d, _, hrest, hafter, hlt, rfl, rfl⟩
    · obtain ⟨e, u, hrun, -⟩ := hreads.2 hlt
      cases hrun.symm.trans h
  · rintro ⟨d, after, hrest, hafter, hlt, rfl, rfl⟩
    exact (arity_reads d hrest hafter).1 hlt

structure NestedNames (base : TypeName) (names : List Char) : Prop where
  plain : ∀ c ∈ names, c ∉ ['\x60', '[', '<']
  nonempty : ∀ part ∈ segments names, part ≠ []
  levels : base.enclosingChain.length + (segments names).length ≤ maxNesting

/-- What is checked of the names once they are cut out. -/
theorem nestedNames_iff {base : TypeName} {names : List Char}
    (hplain : ∀ c ∈ names, c ∉ ['\x60', '[', '<']) :
    NestedNames base names ↔ (!(segments names).any List.isEmpty) = true ∧
      decide (base.enclosingChain.length + (segments names).length ≤ maxNesting) = true := by
  rw [Bool.not_eq_true', List.any_eq_false, decide_eq_true_eq]
  constructor
  · intro h
    exact ⟨fun part hpart => by simpa using h.nonempty part hpart, h.levels⟩
  · intro h
    exact ⟨hplain, fun part hpart => by simpa using h.1 part hpart, h.2⟩

theorem opens_iff {d : Char} (hd : d ∈ ['\x60', '[', '<']) :
    (d != '\x60') = true ↔ d = '[' ∨ d = '<' := by
  simp only [List.mem_cons, List.not_mem_nil, or_false] at hd
  rcases hd with rfl | rfl | rfl <;> decide

section
variable {σ : Settings} {L : ListReader} {context : ListContext} {s : State} {e : ParseError}
  {base : TypeName} {declared : Nat}

theorem nestedInGeneric_rejected :
    Rejected (nestedInGeneric L base declared context) s e ↔
      ∃ first names d more, s.cursor.rest = first :: names ++ d :: more ∧
        (d = '[' ∨ d = '<') ∧ NestedNames base names ∧
        Rejected (L base declared context) (s.pass (first :: names) (d :: more)) e := by
  have hrun {first d : Char} {names more : List Char}
      (hrest : s.cursor.rest = first :: (names ++ d :: more))
      (hplain : ∀ c ∈ names, c ∉ ['\x60', '[', '<']) (hd : d ∈ ['\x60', '[', '<']) :
      Rejected (nestedInGeneric L base declared context) s e ↔
        (d = '[' ∨ d = '<') ∧ NestedNames base names ∧
        Rejected (L base declared context) (s.pass (first :: names) (d :: more)) e := by
    have hnext : (s.pass [first] (names ++ d :: more)).cursor.rest = names ++ d :: more := rfl
    unfold nestedInGeneric checkNesting
    rw [rejected_step (advance_pass hrest), rejected_step (expectAny_pass hnext hplain hd),
      rejected_cursor, rejected_check (by nofun), rejected_step (region_pass hnext),
      rejected_check (by nofun), rejected_check (by nofun), rejected_step (seek_pass hnext),
      State.pass_pass, rejected_first fun args => tolerant_pure _]
    rw [show (s.pass [first] (names ++ d :: more)).cursor.charAt _ = d from charAt_pass hnext]
    rw [opens_iff hd, nestedNames_iff hplain, and_assoc]
    rfl
  constructor
  · intro h
    obtain ⟨first, after, hrest, hsteps⟩ := rejected_advance h
    obtain ⟨names, d, more, hafter, hplain, hd⟩ := rejected_expectAny hsteps
    rw [State.pass_rest] at hafter
    subst hafter
    exact ⟨first, names, d, more, hrest, (hrun hrest hplain hd).mp h⟩
  · rintro ⟨first, names, d, more, hrest, hd, hnames, h⟩
    have hmem : d ∈ ['\x60', '[', '<'] := by simp [hd]
    exact (hrun hrest hnames.plain hmem).mpr ⟨hd, hnames, h⟩

theorem genericTail_rejected :
    Rejected (genericTail L base declared context) s e ↔
      (s.cursor.rest.head? ≠ some '.' ∧ Rejected (L base declared context) s e) ∨
      ∃ names d more, s.cursor.rest = '.' :: names ++ d :: more ∧
        (d = '[' ∨ d = '<') ∧ NestedNames base names ∧
        Rejected (L base declared context) (s.pass ('.' :: names) (d :: more)) e := by
  unfold genericTail
  rw [rejected_peek]
  split
  next hdot =>
    rw [peek_eq_iff (by decide)] at hdot
    rw [nestedInGeneric_rejected]
    constructor
    · rintro ⟨first, names, d, more, hrest, h⟩
      obtain rfl : first = '.' := by simpa [hrest] using hdot
      exact .inr ⟨names, d, more, hrest, h⟩
    · rintro (⟨hother, -⟩ | ⟨names, d, more, h⟩)
      · exact absurd hdot hother
      · exact ⟨'.', names, d, more, h⟩
  next hdot =>
    rw [peek_eq_iff (by decide)] at hdot
    rw [rejected_first fun args => tolerant_pure _]
    constructor
    · intro h
      exact .inl ⟨hdot, h⟩
    · rintro (⟨-, h⟩ | ⟨names, d, more, hrest, -⟩)
      · exact h
      · exact absurd (by rw [hrest]; rfl) hdot

/-- At the root a list is refused for the mode as soon as it opens. -/
theorem listLevel_rejected (hbracketed : TolerantIn .bracketed L) (hplain : TolerantIn .plain L) :
    Rejected (listLevel σ L base declared .root) s e ↔
      σ.definitionsOnly = true ∧ s.cursor.rest.head? = some '<' ∧
        e = ⟨.instantiation, s.cursor.text⟩ := by
  unfold listLevel
  rw [rejected_peek, ← peek_eq_iff (by decide)]
  generalize s.cursor.peek = c
  split
  · have hlist : Tolerant (deeper (bracketedList σ L declared)) :=
      (hbracketed.bracketedList declared).deeper
    exact iff_of_false hlist.not_rejected (by simp)
  · by_cases hmode : σ.definitionsOnly = true
    · rw [if_pos ⟨rfl, hmode⟩]
      simp only [hmode, true_and]
      constructor
      · rintro ⟨-, t, ⟨⟩⟩
        rfl
      · rintro rfl
        exact ⟨rfl, s, rfl⟩
    · have hlist : Tolerant (deeper (withOwner base (plainList σ L declared))) :=
        ((hplain.plainList declared).withOwner base).deeper
      rw [if_neg fun h => hmode h.2]
      exact iff_of_false hlist.not_rejected fun h => hmode h.1
  · exact iff_of_false (tolerant_refuse (by nofun)).not_rejected (by simp)
  · next hopen _ =>
    have hother : Tolerant (cursor >>= fun c' =>
        (refuse (.unexpectedAfterArity c c'.pos) : Reader (List TypeName))) :=
      tolerant_cursor.bind fun c' => tolerant_refuse nofun
    exact iff_of_false hother.not_rejected fun h => hopen h.2.1

theorem argumentLists_rejected (levels : Nat) :
    Rejected (argumentLists σ levels base declared .root) s e ↔
      σ.definitionsOnly = true ∧ s.cursor.rest.head? = some '<' ∧
        e = ⟨.instantiation, s.cursor.text⟩ := by
  cases levels with
  | zero => exact listLevel_rejected (tolerantIn_tooDeep _) (tolerantIn_tooDeep _)
  | succ levels =>
    exact listLevel_rejected (tolerantIn_argumentLists levels (by nofun))
      (tolerantIn_argumentLists levels (by nofun))

inductive PlainSuffix (base : TypeName) : List Char → Prop
  | direct (arity : Decimal) (rest : List Char) (h : arity.value < 18446744073709551616) :
      PlainSuffix base ('\x60' :: arity.digits ++ '<' :: rest)
  | nested (arity : Decimal) (names rest : List Char) (h : arity.value < 18446744073709551616)
      (hnames : NestedNames base names) :
      PlainSuffix base ('\x60' :: arity.digits ++ '.' :: names ++ '<' :: rest)

theorem genericSuffix_rejected (levels : Nat) :
    Rejected (genericSuffix (argumentLists σ levels) base .root) s e ↔
      σ.definitionsOnly = true ∧ e = ⟨.instantiation, s.cursor.text⟩ ∧
        PlainSuffix base s.cursor.rest := by
  unfold genericSuffix
  rw [rejected_bind tolerant_arity]
  constructor
  · rintro ⟨declared, t, harity, h⟩
    obtain ⟨arity, after, hrest, -, hlt, -, rfl⟩ := arity_ok_iff.mp harity
    rw [rejected_first tolerant_arraySuffix, genericTail_rejected] at h
    rcases h with ⟨-, h⟩ | ⟨names, d, more, hafter, -, hnames, h⟩
    · obtain ⟨hmode, hopen, rfl⟩ := (argumentLists_rejected levels).mp h
      obtain ⟨rest, rfl⟩ := List.head?_eq_some_iff.mp hopen
      exact ⟨hmode, rfl, hrest ▸ .direct arity rest hlt⟩
    · obtain ⟨hmode, hopen, rfl⟩ := (argumentLists_rejected levels).mp h
      obtain rfl : d = '<' := by simpa using hopen
      rw [State.pass_rest] at hafter
      refine ⟨hmode, rfl, ?_⟩
      rw [hrest, hafter, ← List.append_assoc]
      exact .nested arity names more hlt hnames
  · rintro ⟨hmode, rfl, hsuffix⟩
    generalize hrest : s.cursor.rest = cs at hsuffix
    cases hsuffix with
    | direct arity rest hlt =>
      refine ⟨arity.value, _, arity_ok_iff.mpr ⟨arity, '<' :: rest, hrest, ?_, hlt, rfl, rfl⟩, ?_⟩
      · rintro c ⟨⟩
        decide
      · rw [rejected_first tolerant_arraySuffix, genericTail_rejected]
        refine .inl ⟨by simp, ?_⟩
        rw [argumentLists_rejected]
        exact ⟨hmode, rfl, rfl⟩
    | nested arity names rest hlt hnames =>
      rw [List.append_assoc] at hrest
      refine ⟨arity.value, _, arity_ok_iff.mpr ⟨arity, _, hrest, ?_, hlt, rfl, rfl⟩, ?_⟩
      · rintro c ⟨⟩
        decide
      · rw [rejected_first tolerant_arraySuffix, genericTail_rejected]
        refine .inr ⟨names, '<', rest, rfl, .inr rfl, hnames, ?_⟩
        rw [argumentLists_rejected]
        exact ⟨hmode, rfl, rfl⟩

end

section
variable {σ τ : Settings} {s t u : State} {base : TypeName}

theorem backReference_ok (hresolve : resolve σ.scopeRule s.cursor = resolve τ.scopeRule u.cursor)
    {token : List Char} (h : backReference σ token s = .ok base t) :
    t = s ∧ backReference τ token u = .ok base u := by
  obtain ⟨hrank, ⟨p, hp, rfl⟩, rfl⟩ := backReference_ok_iff.mp h
  exact ⟨rfl, backReference_ok_iff.mpr ⟨hrank, ⟨p, hp, by rw [hresolve]⟩, rfl⟩⟩

theorem simpleName_ok (hknown : σ.known = τ.known) {qualifier : List (List Char)}
    {simple : List Char} (h : simpleName σ qualifier simple s = .ok base t) :
    t = s ∧ simpleName τ qualifier simple u = .ok base u := by
  unfold simpleName at h ⊢
  dsimp only at h ⊢
  split at h
  · cases h
  next hrank =>
    obtain ⟨hparts, h⟩ := check_eq_ok h
    obtain ⟨hlevels, h⟩ := check_eq_ok h
    cases h
    rw [if_neg hrank, bind_ok (check_pass hparts _ u)]
    rw [hknown] at hlevels ⊢
    exact ⟨rfl, bind_ok (check_pass hlevels _ u) _⟩

/-- A base name that is accepted is accepted wherever references mean the same. -/
theorem nameOf_ok (hknown : σ.known = τ.known)
    (hresolve : resolve σ.scopeRule s.cursor = resolve τ.scopeRule u.cursor) {text : List Char}
    (h : nameOf σ text s = .ok base t) : t = s ∧ nameOf τ text u = .ok base u := by
  obtain ⟨hangle, h⟩ := check_eq_ok h
  unfold nameOf
  rw [bind_ok (check_pass hangle _ u)]
  split at h
  next hhead =>
    rw [if_pos hhead]
    exact backReference_ok hresolve h
  next hhead =>
    rw [if_neg hhead]
    exact simpleName_ok hknown h

end

end ClrNames.Grammar

namespace ClrNames
open Grammar

theorem nameOf_nil (σ : Settings) (u : State) :
    nameOf σ [] u = .error (u.cursor.refuse .emptySegment) u := rfl

/-- A text without an arity marker is read as a base name. -/
theorem readTypeName_unmarked (known : String → Bool) (containing : Option TypeName)
    {text : List Char} (htick : '\x60' ∉ text) :
    readTypeName known containing (String.ofList text) =
      if text = [] then .error ⟨.emptyName, text⟩
      else if isCompilerGenerated text then .error ⟨.compilerGenerated, text⟩
      else match nameOf (ReadOptions.settings { known, containing } false) text
          ((State.mk (.start text containing) 0).pass text []) with
        | .ok t s =>
          if s.cursor.hasMore then .error ⟨.trailingText s.cursor.rest, text⟩ else .ok t
        | .error e _ => .error e := by
  have hall : (State.mk (.start text containing) 0).cursor.rest = text ++ [] :=
    (List.append_nil text).symm
  have hname : wholeName (ReadOptions.settings { known, containing } false)
      ⟨.start text containing, 0⟩ = nameOf (ReadOptions.settings { known, containing } false) text
        ((State.mk (.start text containing) 0).pass text []) :=
    (wholeName_of_unmarked rfl rfl rfl htick).trans (baseName_pass _ hall)
  have hclosed : closeTruncated text = .ok (text, false) := if_neg fun h => htick h.2
  unfold readTypeName readName readText
  simp only [String.toList_ofList, hclosed, ← hname, List.isEmpty_iff]
  rfl

theorem readTypeName_stem {known : String → Bool} {stem : List Char} {σ : Settings} {u : State}
    {base : TypeName} (hgenerated : isCompilerGenerated stem = false) (htick : '\x60' ∉ stem)
    (hknown : σ.known = known) (hscope : scope σ.scopeRule u.cursor = none) :
    readTypeName known none (String.ofList stem) = .ok base ↔ nameOf σ stem u = .ok base u := by
  let τ : Settings := ReadOptions.settings { known } false
  let start : State := ⟨.start stem none, 0⟩
  have hresolve : resolve σ.scopeRule u.cursor =
      resolve τ.scopeRule (start.pass stem []).cursor := by
    funext p
    have hnone : scope τ.scopeRule (start.pass stem []).cursor = none := rfl
    rw [resolve, resolve, hscope, hnone]
  by_cases hempty : stem = []
  · subst hempty
    rw [nameOf_nil]
    exact iff_of_false (by rintro ⟨⟩) (by rintro ⟨⟩)
  · rw [readTypeName_unmarked known none htick, if_neg hempty, hgenerated, if_neg (by decide)]
    constructor
    · intro h
      cases hrun : nameOf τ stem (start.pass stem []) with
      | error e t =>
        rw [hrun] at h
        cases h
      | ok a t =>
        obtain ⟨rfl, hrun'⟩ := nameOf_ok (τ := σ) hknown.symm hresolve.symm hrun
        rw [hrun] at h
        cases h
        exact hrun'
    · intro h
      rw [(nameOf_ok (τ := τ) hknown hresolve h).2]
      rfl

def PlainRoot (known : String → Bool) (text : List Char) : Prop :=
  ∃ stem base suffix, text = stem ++ suffix ∧ '\x60' ∉ stem ∧
    readTypeName known none (String.ofList stem) = .ok base ∧ PlainSuffix base suffix

theorem wholeName_rejected {σ : Settings} {text : List Char} {e : ParseError}
    (hgenerated : ∀ stem, stem ++ ['\x60'] <+: text → isCompilerGenerated stem = false) :
    Rejected (wholeName σ) ⟨.start text none, 0⟩ e ↔
      σ.definitionsOnly = true ∧ e = ⟨.instantiation, text⟩ ∧ PlainRoot σ.known text := by
  have hscope (s : State) (hcontaining : s.cursor.containing = none)
      (hprogress : s.cursor.inProgress = none) : scope σ.scopeRule s.cursor = none := by
    cases hrule : σ.scopeRule <;> simp [scope, hcontaining, hprogress]
  have hmarked {stem more : List Char} (htext : text = stem ++ '\x60' :: more)
      (hstem : '\x60' ∉ stem) : Rejected (wholeName σ) ⟨.start text none, 0⟩ e ↔
        ∃ base, readTypeName σ.known none (String.ofList stem) = .ok base ∧
          σ.definitionsOnly = true ∧ e = ⟨.instantiation, text⟩ ∧
          PlainSuffix base ('\x60' :: more) := by
    have hrest : (State.mk (.start text none) 0).cursor.rest = stem ++ '\x60' :: more := htext
    have hprefix : stem ++ ['\x60'] <+: text := ⟨more, by simp [htext]⟩
    have hbase (base : TypeName) :
        readTypeName σ.known none (String.ofList stem) = .ok base ↔ nameOf σ stem
          ((State.mk (.start text none) 0).pass stem ('\x60' :: more)) = .ok base _ :=
      readTypeName_stem (hgenerated stem hprefix) hstem rfl (hscope _ rfl rfl)
    have hsteps := rejected_bind (s := ⟨.start text none, 0⟩) (e := e)
      (k := fun base => genericSuffix (argumentLists σ maxListDepth) base .root)
      (tolerant_baseName σ (0 + Text.byteLength stem))
    rw [Rejected, wholeName_of_marked hrest hstem]
    refine hsteps.trans ?_
    constructor
    · rintro ⟨base, t, hrun, h⟩
      have hname := (baseName_pass σ hrest).symm.trans hrun
      obtain ⟨rfl, -⟩ := nameOf_ok (τ := σ) rfl rfl hname
      obtain ⟨hmode, he, hsuffix⟩ := (genericSuffix_rejected _).mp h
      exact ⟨base, (hbase base).mpr hname, hmode, he, hsuffix⟩
    · rintro ⟨base, hname, hmode, he, hsuffix⟩
      exact ⟨base, _, (baseName_pass σ hrest).trans ((hbase base).mp hname),
        (genericSuffix_rejected _).mpr ⟨hmode, he, hsuffix⟩⟩
  constructor
  · intro h
    by_cases htick : '\x60' ∈ text
    · obtain ⟨stem, more, htext, hstem⟩ := List.eq_append_cons_of_mem htick
      obtain ⟨base, hbase, hmode, he, hsuffix⟩ := (hmarked htext hstem).mp h
      exact ⟨hmode, he, stem, base, _, htext, hstem, hbase, hsuffix⟩
    · rw [Rejected, wholeName_of_unmarked rfl rfl rfl htick] at h
      exact absurd h (tolerant_baseName σ _).not_rejected
  · rintro ⟨hmode, he, stem, base, suffix, htext, hstem, hbase, hsuffix⟩
    obtain ⟨more, rfl⟩ : ∃ more, suffix = '\x60' :: more := by
      cases hsuffix <;> exact ⟨_, rfl⟩
    exact (hmarked htext hstem).mpr ⟨base, hbase, hmode, he, hsuffix⟩

structure Instantiation (known : String → Bool) (name : String) (closed : List Char) : Prop where
  nonempty : name.toList ≠ []
  written : isCompilerGenerated name.toList = false
  closing : ∃ truncated, closeTruncated name.toList = .ok (closed, truncated)
  root : PlainRoot known closed

theorem isCompilerGenerated_of_prefix {stem text : List Char} (h : stem <+: text)
    (htext : isCompilerGenerated text = false) : isCompilerGenerated stem = false := by
  have hnot (piece : List Char) (hpiece : Text.occurs piece text = false) :
      Text.occurs piece stem = false := by
    rw [← Bool.not_eq_true, Text.occurs_iff] at hpiece ⊢
    exact fun hoccurs => hpiece (hoccurs.trans h.isInfix)
  rw [isCompilerGenerated, Bool.or_eq_false_iff] at htext ⊢
  exact ⟨hnot _ htext.1, hnot _ htext.2⟩

theorem closeTruncated_eq_error {text : List Char} {e : ParseError}
    (h : closeTruncated text = .error e) : e = ⟨.truncatedEarly, text⟩ := by
  unfold closeTruncated at h
  split at h
  · split at h
    · cases h
    · cases h
      rfl
  · cases h

theorem readClosed_rejected {o : ReadOptions} {name text : List Char} {truncated : Bool}
    {e : ParseError} (he : e.cause = .instantiation) :
    readClosed o name text truncated = .error e ↔
      Rejected (wholeName (o.settings truncated)) ⟨.start text o.containing, 0⟩ e := by
  rw [readClosed_eq]
  cases hrun : wholeName (o.settings truncated) ⟨.start text o.containing, 0⟩ with
  | ok t s =>
    apply iff_of_false
    · dsimp only
      split
      · rintro ⟨⟩
        cases he
      · nofun
    · rintro ⟨-, u, herror⟩
      cases hrun.symm.trans herror
  | error e' s =>
    constructor
    · rintro ⟨⟩
      exact ⟨he, s, hrun⟩
    · rintro ⟨-, u, herror⟩
      cases hrun.symm.trans herror
      rfl

/-- A reading below none is refused as an instantiation in one mode, and there for
the names that are one. -/
theorem readName_eq_instantiation {o : ReadOptions} (hcontaining : o.containing = none)
    {name : String} {e : ParseError} (he : e.cause = .instantiation) :
    readName o name = .error e ↔
      o.definitionsOnly = true ∧ Instantiation o.known name e.subject := by
  have hother {e' : ParseError} (he' : e'.cause ≠ .instantiation) :
      (Except.error e' : Except ParseError TypeName) ≠ .error e := by
    rintro ⟨⟩
    exact he' he
  unfold readName readText
  split
  next hempty =>
    refine iff_of_false (hother (by nofun)) fun h => h.2.nonempty (by simpa using hempty)
  next hempty =>
    split
    next hgenerated =>
      refine iff_of_false (hother (by nofun)) fun h => ?_
      rw [h.2.written] at hgenerated
      cases hgenerated
    next hgenerated =>
      rw [Bool.not_eq_true] at hgenerated
      cases hclose : closeTruncated name.toList with
      | error e' =>
        have hearly := closeTruncated_eq_error hclose
        refine iff_of_false (hother (by rw [hearly]; nofun)) fun h => ?_
        obtain ⟨truncated, hclosed⟩ := h.2.closing
        cases hclose.symm.trans hclosed
      | ok closing =>
        obtain ⟨closed, truncated⟩ := closing
        have hstems : ∀ stem, stem ++ ['\x60'] <+: closed → isCompilerGenerated stem = false := by
          intro stem hstem
          have hname := marked_prefix_of_closed hclose hstem
          exact isCompilerGenerated_of_prefix ((List.prefix_append _ _).trans hname) hgenerated
        refine (readClosed_rejected he).trans ?_
        rw [hcontaining, wholeName_rejected hstems]
        constructor
        · rintro ⟨hmode, rfl, hroot⟩
          exact ⟨hmode, by simpa using hempty, hgenerated, ⟨truncated, hclose⟩, hroot⟩
        · rintro ⟨hmode, h⟩
          obtain ⟨truncated', hclosed⟩ := h.closing
          have heq : e.subject = closed := by
            cases hclose.symm.trans hclosed
            rfl
          exact ⟨hmode, by rw [← he, ← heq], heq ▸ h.root⟩

/-- The mode for definitions restricts the reading of a name below none at its root list
and nowhere else: it refuses the instantiations, reads every other name as the reading
without it does, and has no say in the elements of a bracketed list. -/
theorem readDefinition_restricts (known : String → Bool) (name : String) :
    (readDefinition known name = readTypeName known none name ∨
      ∃ closed, readDefinition known name = .error ⟨.instantiation, closed⟩) ∧
    (∀ e, e.cause = .instantiation →
      (readDefinition known name = .error e ↔ Instantiation known name e.subject) ∧
      readTypeName known none name ≠ .error e) ∧
    (∀ t, readDefinition known name = .ok t → readTypeName known none name = .ok t) ∧
    ∀ (σ : Settings) (mode : Bool) (levels : Nat),
      element (σ.inMode mode) (argumentLists (σ.inMode mode) levels) =
        element σ (argumentLists σ levels) := by
  have hnever : ∀ e : ParseError, e.cause = .instantiation →
      readTypeName known none name ≠ .error e := by
    intro e he hrun
    have hmode := ((readName_eq_instantiation (o := { known }) rfl he).mp hrun).1
    cases hmode
  have hmatch : Matching (fun e => e.cause = .instantiation) (fun a b => a = b)
      (readDefinition known name) (readTypeName known none name) :=
    readText_modes { known } name.toList
  have hcases : readDefinition known name = readTypeName known none name ∨
      ∃ closed, readDefinition known name = .error ⟨.instantiation, closed⟩ := by
    generalize hdefinition : readDefinition known name = r at hmatch
    generalize hall : readTypeName known none name = r' at hmatch
    cases hmatch with
    | accepted h => exact .inl (by rw [h])
    | refused => exact .inl rfl
    | @escapedLeft e _ h => exact .inr ⟨e.subject, by rw [← h]⟩
    | escapedRight h => exact absurd hall (hnever _ h)
  refine ⟨hcases, ?_, ?_, ?_⟩
  · intro e he
    refine ⟨(readName_eq_instantiation rfl he).trans ?_, hnever e he⟩
    exact and_iff_right rfl
  · intro t ht
    rcases hcases with heq | ⟨closed, hrefused⟩
    · rw [← heq, ht]
    · rw [ht] at hrefused
      cases hrefused
  · intro σ mode levels
    exact (argumentLists_alike σ mode levels).element σ mode

theorem readDefinition_restricts_map :
    readDefinition (fun _ => false) "Map\x602.Entry<A,B>" =
        .error ⟨.instantiation, "Map\x602.Entry<A,B>".toList⟩ ∧
      Instantiation (fun _ => false) "Map\x602.Entry<A,B>" "Map\x602.Entry<A,B>".toList := by
  have hrefused : readDefinition (fun _ => false) "Map\x602.Entry<A,B>" =
      .error ⟨.instantiation, "Map\x602.Entry<A,B>".toList⟩ := by decide +kernel
  obtain ⟨-, hexactly, -⟩ := readDefinition_restricts (fun _ => false) "Map\x602.Entry<A,B>"
  exact ⟨hrefused, (hexactly _ rfl).1.mp hrefused⟩

end ClrNames
