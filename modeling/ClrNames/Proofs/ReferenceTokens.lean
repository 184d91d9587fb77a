import ClrNames.Proofs.DottedNames
import ClrNames.Proofs.ExpressionHead

/-!
# References to generic parameters

A reference is one or two exclamation marks and a number, with up to two array markers
behind it and by-reference marks on both sides of them. Nothing else that starts with an
exclamation mark is read as a name; it is not supported if it ends in more array markers,
and malformed otherwise. The number may have a plus sign in front.
-/

set_option autoImplicit false

namespace ClrNames.Text

variable {cs stem : List Char} {markers : Nat}

theorem brackets_append (m n : Nat) : brackets m ++ brackets n = brackets (m + n) := by
  rw [brackets, brackets, brackets, List.replicate_add, List.flatten_append]

theorem stripByRef_marks (cs : List Char) (k : Nat) :
    stripByRef (cs ++ List.replicate k '&') = stripByRef cs := by
  rw [stripByRef, stripByRef, List.reverse_append, List.reverse_replicate,
    List.dropWhile_append_of_pos (by simp)]

theorem stripByRef_brackets (cs : List Char) (n : Nat) :
    stripByRef (cs ++ brackets (n + 1)) = cs ++ brackets (n + 1) := by
  have hlast : cs ++ brackets (n + 1) = cs ++ brackets n ++ ['['] ++ [']'] := by
    rw [← brackets_append n 1]
    simp [brackets]
  rw [hlast, stripByRef, List.reverse_concat, List.dropWhile_cons_of_neg (by decide),
    List.reverse_cons, List.reverse_reverse]

def Overmarked (token : List Char) : Prop :=
  ∃ front byRefs, token = front ++ brackets 3 ++ List.replicate byRefs '&'

theorem overmarked_iff (token : List Char) :
    Overmarked token ↔ 2 < arrayMarkers (stripByRef token) := by
  constructor
  · rintro ⟨front, byRefs, rfl⟩
    obtain ⟨stem, markers, rfl, hstem⟩ := exists_stem front
    rw [stripByRef_marks, stripByRef_brackets, List.append_assoc, brackets_append,
      arrayMarkers_append hstem]
    omega
  · intro h
    obtain ⟨byRefs, htoken, hbyRefs⟩ := stripByRef_append token
    obtain ⟨stem, markers, hsplit, hstem⟩ := exists_stem (stripByRef token)
    rw [hsplit, arrayMarkers_append hstem] at h
    obtain ⟨more, rfl⟩ := Nat.exists_eq_add_of_le' h
    refine ⟨stem ++ brackets more, byRefs.length, ?_⟩
    rw [List.append_assoc stem, brackets_append, ← hsplit, ← List.eq_replicate_of_mem hbyRefs]
    exact htoken

end ClrNames.Text

namespace ClrNames.Grammar
open Text

def Numeral (index : Position) (number : List Char) : Prop :=
  number = index.digits ∨ number = '+' :: index.digits

theorem Numeral.isDigit {index : Position} {number : List Char} (h : Numeral index number) :
    ∀ c ∈ number, c = '+' ∨ c.isDigit = true := by
  rcases h with rfl | rfl
  · exact fun c hc => .inr (index.isDigit c hc)
  · intro c hc
    exact (List.mem_cons.mp hc).imp_right (index.isDigit c)

theorem readIndex?_plus (index : Position) :
    readIndex? ('+' :: index.digits) = readIndex? index.digits := by
  have hplus : index.digits.head? ≠ some '+' := by
    intro hhead
    exact absurd (index.isDigit '+' (List.mem_of_mem_head? hhead)) (by decide)
  have hleft : (if ('+' :: index.digits).head? = some '+' then ('+' :: index.digits).drop 1
      else '+' :: index.digits) = index.digits := if_pos rfl
  unfold readIndex?
  rw [hleft, if_neg hplus]

theorem readIndex?_eq_some_iff {cs : List Char} {i : UInt32} :
    readIndex? cs = some i ↔ ∃ index, Numeral index cs ∧ i = UInt32.ofNat index.value := by
  constructor
  · intro h
    obtain ⟨digits, hcs, hne, hdigit, hlt, rfl⟩ := readIndex?_eq_some h
    exact ⟨⟨⟨digits, hne, hdigit⟩, hlt⟩, hcs, rfl⟩
  · rintro ⟨index, rfl | rfl, rfl⟩
    · exact readIndex?_digits index
    · rw [readIndex?_plus, readIndex?_digits]

theorem readParam?_eq_some_iff {cs : List Char} {p : GenericParam} :
    readParam? ('!' :: cs) = some p ↔ ∃ index number, Numeral index number ∧
      '!' :: cs = p.kind.marks ++ number ∧ p.index = UInt32.ofNat index.value := by
  obtain ⟨i, kind⟩ := p
  by_cases hmethod : cs.head? = some '!'
  · obtain ⟨number, rfl⟩ := List.head?_eq_some_iff.mp hmethod
    show (readIndex? number).map _ = _ ↔ _
    cases kind with
    | method => simp [readIndex?_eq_some_iff, ParamKind.marks]
    | type =>
      have hnumber : ∀ index, ¬ Numeral index ('!' :: number) := fun index h =>
        absurd (h.isDigit '!' (by simp)) (by decide)
      simp [ParamKind.marks, hnumber]
  · have htype : readParam? ('!' :: cs) = (readIndex? cs).map fun i => ⟨i, .type⟩ := by
      unfold readParam?
      split
      next digits heq =>
        rw [List.cons.injEq] at heq
        simp [heq.2] at hmethod
      next => rfl
    rw [htype]
    cases kind with
    | type => simp [readIndex?_eq_some_iff, ParamKind.marks]
    | method =>
      have hother : ∀ number, cs ≠ '!' :: number := by
        rintro number rfl
        exact hmethod rfl
      simp [ParamKind.marks, hother]

def referenceText (kind : ParamKind) (number : List Char) (inner markers outer : Nat) :
    List Char :=
  kind.marks ++ number ++ List.replicate inner '&' ++ brackets markers ++
    List.replicate outer '&'

section
variable {number token : List Char} {index : Position}

theorem mem_reference {kind : ParamKind} (h : Numeral index number) {c : Char}
    (hc : c ∈ kind.marks ++ number) : c = '!' ∨ c = '+' ∨ c.isDigit = true := by
  rcases List.mem_append.mp hc with hc | hc
  · exact .inl (by cases kind <;> simpa [ParamKind.marks] using hc)
  · exact .inr (h.isDigit c hc)

/-- A reference falls into its parts again. -/
theorem referenceText_parts (kind : ParamKind) (h : Numeral index number)
    (inner markers outer : Nat) :
    arrayMarkers (stripByRef (referenceText kind number inner markers outer)) = markers ∧
      stripByRef (withoutMarkers (stripByRef (referenceText kind number inner markers outer))) =
        kind.marks ++ number := by
  have hmark : '&' ∉ kind.marks ++ number := fun hc => absurd (mem_reference h hc) (by decide)
  have hstem (k : Nat) : ¬ ['[', ']'] <:+ kind.marks ++ number ++ List.replicate k '&' := by
    apply not_marked_of_unclosed
    intro hc
    rcases List.mem_append.mp hc with hc | hc
    · exact absurd (mem_reference h hc) (by decide)
    · simp at hc
  rw [referenceText, stripByRef_marks]
  cases markers with
  | zero =>
    -- No array marker keeps the inner by-reference marks from the outer ones.
    have hnone := hstem 0
    rw [List.replicate_zero, List.append_nil] at hnone
    have hmarkers := arrayMarkers_append hnone 0
    have hwithout := withoutMarkers_append_brackets hnone 0
    rw [brackets_zero, List.append_nil] at hmarkers hwithout ⊢
    rw [stripByRef_append_marks hmark, hmarkers, hwithout, stripByRef_of_unmarked hmark]
    exact ⟨rfl, rfl⟩
  | succ markers =>
    rw [stripByRef_brackets, arrayMarkers_append (hstem inner),
      withoutMarkers_append_brackets (hstem inner), stripByRef_append_marks hmark]
    exact ⟨rfl, rfl⟩

/-- What is left of a token without its array markers and by-reference marks. -/
theorem exists_core (token : List Char) : ∃ inner outer,
    token = stripByRef (withoutMarkers (stripByRef token)) ++ List.replicate inner '&' ++
      brackets (arrayMarkers (stripByRef token)) ++ List.replicate outer '&' := by
  obtain ⟨outer, htoken, houter⟩ := stripByRef_append token
  obtain ⟨stem, markers, hstem, hunmarked⟩ := exists_stem (stripByRef token)
  obtain ⟨inner, hinner, hmarks⟩ := stripByRef_append stem
  refine ⟨inner.length, outer.length, ?_⟩
  rw [← List.eq_replicate_of_mem hmarks, ← List.eq_replicate_of_mem houter]
  rw [hstem, arrayMarkers_append hunmarked, withoutMarkers_append_brackets hunmarked, ← hinner,
    ← hstem]
  exact htoken

/-- A token refers to a parameter if and only if it is written as a reference to it. -/
theorem tokenParam?_eq_some_iff {p : GenericParam} (hhead : token.head? = some '!') :
    tokenParam? token = some p ↔ ∃ index number inner outer, Numeral index number ∧
      p.index = UInt32.ofNat index.value ∧ token = referenceText p.kind number inner
        (arrayMarkers (stripByRef token)) outer := by
  constructor
  · intro h
    obtain ⟨inner, outer, htoken⟩ := exists_core token
    rw [tokenParam?] at h
    generalize hcore : stripByRef (withoutMarkers (stripByRef token)) = core at h htoken
    cases core with
    | nil => cases h
    | cons c cs =>
      -- What is taken off stands behind the core, so that both have one head.
      obtain rfl : c = '!' := by
        rw [htoken] at hhead
        simpa using hhead
      obtain ⟨index, number, hnumber, hmarks, hindex⟩ := readParam?_eq_some_iff.mp h
      rw [hmarks] at htoken
      exact ⟨index, number, inner, outer, hnumber, hindex, htoken⟩
  · rintro ⟨index, number, inner, outer, hnumber, hindex, htoken⟩
    have hcore :=
      (referenceText_parts p.kind hnumber inner (arrayMarkers (stripByRef token)) outer).2
    rw [← htoken] at hcore
    rw [tokenParam?, hcore]
    obtain ⟨i, kind⟩ := p
    cases kind <;> exact readParam?_eq_some_iff.mpr ⟨index, number, hnumber, rfl, hindex⟩

end

def RefersTo (token : List Char) (p : GenericParam) (markers : Nat) : Prop :=
  ∃ index number inner outer, Numeral index number ∧ p.index = UInt32.ofNat index.value ∧
    markers ≤ 2 ∧ token = referenceText p.kind number inner markers outer

inductive StandsFor (containing : Option TypeName) (p : GenericParam) : TypeName → Prop
  | argument {scope t : TypeName} (hkind : p.kind = .type) (hscope : containing = some scope)
      (h : scope.effectiveArgs[p.index.toNat]? = some t) : StandsFor containing p t
  | placeholder (h : p.kind = .type → ∀ scope, containing = some scope →
      scope.effectiveArgs.length ≤ p.index.toNat) : StandsFor containing p (.placeholder p)

section
variable {containing : Option TypeName} {p : GenericParam} {token : List Char} {t : TypeName}

theorem refersTo_iff {markers : Nat} (hhead : token.head? = some '!') :
    RefersTo token p markers ↔ tokenParam? token = some p ∧
      arrayMarkers (stripByRef token) = markers ∧ ¬ Overmarked token := by
  rw [tokenParam?_eq_some_iff hhead, overmarked_iff, Nat.not_lt]
  constructor
  · rintro ⟨index, number, inner, outer, hnumber, hindex, hle, htoken⟩
    have hmarkers : arrayMarkers (stripByRef token) = markers :=
      htoken ▸ (referenceText_parts _ hnumber _ _ _).1
    exact ⟨⟨index, number, inner, outer, hnumber, hindex, hmarkers ▸ htoken⟩, hmarkers,
      hmarkers ▸ hle⟩
  · rintro ⟨⟨index, number, inner, outer, hnumber, hindex, htoken⟩, rfl, hle⟩
    exact ⟨index, number, inner, outer, hnumber, hindex, hle, htoken⟩

/-- What a parameter stands for is where a reader looks that has no list open yet. -/
theorem standsFor_iff {c : Cursor} (hcontaining : c.containing = containing)
    (hprogress : c.inProgress = none) : StandsFor containing p t ↔ t = resolve .nearest c p := by
  have hscope : scope .nearest c = containing := by simp [scope, hcontaining, hprogress]
  obtain ⟨index, kind⟩ := p
  cases kind with
  | method =>
    constructor
    · rintro (⟨⟨⟩⟩ | _)
      rfl
    · rintro rfl
      exact .placeholder nofun
  | type =>
    unfold resolve
    rw [hscope]
    cases containing with
    | none =>
      constructor
      · rintro (⟨-, ⟨⟩⟩ | _)
        rfl
      · rintro rfl
        exact .placeholder nofun
    | some outer =>
      cases harg : outer.effectiveArgs[index.toNat]? with
      | none =>
        have hlength := List.getElem?_eq_none_iff.mp harg
        constructor
        · rintro (⟨-, ⟨⟩, h⟩ | _)
          · cases harg.symm.trans h
          · simp [harg]
        · rintro rfl
          simp only [Option.map_some, Option.bind_some, harg, Option.getD_none]
          exact .placeholder fun _ _ hscope => Option.some.inj hscope ▸ hlength
      | some arg =>
        have hlength := (List.getElem?_eq_some_iff.mp harg).1
        constructor
        · rintro (⟨-, ⟨⟩, h⟩ | h)
          · cases harg.symm.trans h
            simp [harg]
          · exact absurd (h rfl outer rfl) (Nat.not_le_of_lt hlength)
        · rintro rfl
          simp only [Option.map_some, Option.bind_some, harg, Option.getD_some]
          exact .argument rfl rfl harg

end

/-- All there is to say about a token that stands alone. -/
theorem nameOf_token (σ : Settings) {token : List Char} (hhead : token.head? = some '!')
    (hdot : '.' ∉ token) (hangle : ¬ ('<' ∈ token ∨ '>' ∈ token)) (s : State) :
    nameOf σ token s =
      if 2 < arrayMarkers (stripByRef token) then
        .error ⟨.arrayRank (arrayMarkers (stripByRef token)), stripByRef token⟩ s
      else match tokenParam? token with
        | none => .error (s.cursor.refuse (.invalidReference token)) s
        | some p => .ok ((resolve σ.scopeRule s.cursor p).withArray
            (0 < arrayMarkers (stripByRef token))) s := by
  unfold nameOf
  rw [check_bind (any_angle token), if_neg hangle, segments_of_dotless hdot, List.getLastD_cons,
    List.getLastD_nil, if_pos hhead]
  exact backReference_eq σ token s

structure ReferenceToken (token : List Char) : Prop where
  head : token.head? = some '!'
  clean : ∀ c ∈ ['.', '\x60', '<', '>'], c ∉ token
  plain : ¬ "c__DisplayClass".toList <:+: token

theorem ReferenceToken.ne_nil {token : List Char} (h : ReferenceToken token) : token ≠ [] := by
  rintro rfl
  exact absurd h.head (by decide)

theorem ReferenceToken.not_generated {token : List Char} (h : ReferenceToken token) :
    isCompilerGenerated token = false := by
  have hdot : ¬ ".<>c".toList <:+: token :=
    fun hgenerated => h.clean '.' (by simp) (hgenerated.subset (by simp))
  rw [isCompilerGenerated, Bool.or_eq_false_iff, ← Bool.not_eq_true, ← Bool.not_eq_true,
    occurs_iff, occurs_iff]
  exact ⟨h.plain, hdot⟩

end ClrNames.Grammar

namespace ClrNames
open Text Grammar

section
variable (known : String → Bool) (containing : Option TypeName) {token : List Char}

theorem readTypeName_token (h : ReferenceToken token) :
    readTypeName known containing (String.ofList token) =
      if 2 < arrayMarkers (stripByRef token) then
        .error ⟨.arrayRank (arrayMarkers (stripByRef token)), stripByRef token⟩
      else match tokenParam? token with
        | none => .error ⟨.invalidReference token, token⟩
        | some p => .ok ((resolve .nearest (.start token containing) p).withArray
            (0 < arrayMarkers (stripByRef token))) := by
  have hangle : ¬ ('<' ∈ token ∨ '>' ∈ token) :=
    not_or.mpr ⟨h.clean '<' (by simp), h.clean '>' (by simp)⟩
  rw [readTypeName_unmarked known containing (h.clean '\x60' (by simp)), if_neg h.ne_nil,
    h.not_generated, if_neg (by decide), nameOf_token _ h.head (h.clean '.' (by simp)) hangle]
  by_cases hrank : 2 < arrayMarkers (stripByRef token)
  · rw [if_pos hrank, if_pos hrank]
  · rw [if_neg hrank, if_neg hrank]
    cases tokenParam? token <;> rfl

theorem readTypeName_of_refersTo (h : ReferenceToken token) {p : GenericParam} {markers : Nat}
    (hrefers : RefersTo token p markers) : ∃ node, StandsFor containing p node ∧
      readTypeName known containing (String.ofList token) = .ok (node.withArray (0 < markers)) := by
  obtain ⟨hparam, hmarkers, hover⟩ := (refersTo_iff h.head).mp hrefers
  refine ⟨_, (standsFor_iff (c := .start token containing) rfl rfl).mpr rfl, ?_⟩
  rw [readTypeName_token known containing h, if_neg (mt (overmarked_iff token).mpr hover), hparam,
    hmarkers]

theorem readTypeName_of_overmarked (h : ReferenceToken token) (hover : Overmarked token) :
    ∃ e, readTypeName known containing (String.ofList token) = .error e ∧
      e.outcome = .unsupported := by
  rw [readTypeName_token known containing h, if_pos ((overmarked_iff token).mp hover)]
  exact ⟨_, rfl, rfl⟩

theorem readTypeName_of_no_reference (h : ReferenceToken token) (hover : ¬ Overmarked token)
    (hrefers : ¬ ∃ p markers, RefersTo token p markers) :
    ∃ e, readTypeName known containing (String.ofList token) = .error e ∧
      e.outcome = .malformed := by
  have hparam : tokenParam? token = none := by
    rw [Option.eq_none_iff_forall_ne_some]
    intro p hp
    exact hrefers ⟨p, _, (refersTo_iff h.head).mpr ⟨hp, rfl, hover⟩⟩
  rw [readTypeName_token known containing h, if_neg (mt (overmarked_iff token).mpr hover), hparam]
  exact ⟨_, rfl, rfl⟩

end

/-- Which names that start with an exclamation mark are read, as what, and why the others are
refused, whatever the table and the scope are. -/
theorem readTypeName_reference (known : String → Bool) (containing : Option TypeName)
    (name : String) (h : ReferenceToken name.toList) :
    ((∃ t, readTypeName known containing name = .ok t) ↔
        ∃ p markers, RefersTo name.toList p markers) ∧
      (∀ p markers, RefersTo name.toList p markers → ∃ node, StandsFor containing p node ∧
        readTypeName known containing name = .ok (node.withArray (0 < markers))) ∧
      ((∃ e, readTypeName known containing name = .error e ∧ e.outcome = .unsupported) ↔
        Overmarked name.toList) ∧
      ((∃ e, readTypeName known containing name = .error e ∧ e.outcome = .malformed) ↔
        ¬ Overmarked name.toList ∧ ¬ ∃ p markers, RefersTo name.toList p markers) := by
  have hrefers : ∀ p markers, RefersTo name.toList p markers → ∃ node,
      StandsFor containing p node ∧
        readTypeName known containing name = .ok (node.withArray (0 < markers)) := by
    intro p markers hp
    simpa using readTypeName_of_refersTo known containing h hp
  have hover : Overmarked name.toList →
      ∃ e, readTypeName known containing name = .error e ∧ e.outcome = .unsupported := by
    intro ho
    simpa using readTypeName_of_overmarked known containing h ho
  have hneither : ¬ Overmarked name.toList →
      (¬ ∃ p markers, RefersTo name.toList p markers) →
      ∃ e, readTypeName known containing name = .error e ∧ e.outcome = .malformed := by
    intro ho hp
    simpa using readTypeName_of_no_reference known containing h ho hp
  by_cases ho : Overmarked name.toList
  · have hnone : ∀ p markers, ¬ RefersTo name.toList p markers :=
      fun p markers hp => ((refersTo_iff h.head).mp hp).2.2 ho
    obtain ⟨e, herror, houtcome⟩ := hover ho
    simp [herror, houtcome, ho, hnone]
  · by_cases hp : ∃ p markers, RefersTo name.toList p markers
    · have ⟨p, markers, hp'⟩ := hp
      obtain ⟨node, -, hread⟩ := hrefers p markers hp'
      refine ⟨⟨fun _ => hp, fun _ => ⟨_, hread⟩⟩, hrefers, ?_, ?_⟩
      · simp [hread, ho]
      · simp [hread, hp]
    · obtain ⟨e, herror, houtcome⟩ := hneither ho hp
      simp only [not_exists] at hp
      simp [herror, houtcome, ho, hp]

theorem readTypeName_reference_argument :
    let holder : TypeName := { TypeName.topLevel "" "H" with args := [.topLevel "" "c"] }
    ReferenceToken "!+0&[][]&".toList ∧ RefersTo "!+0&[][]&".toList ⟨0, .type⟩ 2 ∧
      readTypeName (fun _ => false) (some holder) "!+0&[][]&" =
        .ok ((TypeName.topLevel "" "c").withArray true) := by
  intro holder
  have htoken : ReferenceToken "!+0&[][]&".toList := ⟨by decide, by simp, by decide +kernel⟩
  have hrefers : RefersTo "!+0&[][]&".toList ⟨0, .type⟩ 2 :=
    ⟨⟨⟨['0'], by simp, by simp⟩, by decide⟩, ['+', '0'], 1, 1, .inr rfl, rfl, by decide,
      by decide⟩
  obtain ⟨node, hnode, hread⟩ :=
    (readTypeName_reference (fun _ => false) (some holder) _ htoken).2.1 _ _ hrefers
  refine ⟨htoken, hrefers, hread.trans ?_⟩
  cases hnode with
  | argument _ hscope hargument =>
    cases hscope
    cases hargument
    rfl
  | placeholder houtside => exact absurd (houtside rfl holder rfl) (by decide)

/-- A plus sign in front of the digits is read with them. -/
theorem plus_sign_read :
    ReferenceToken "!+5".toList ∧
      (∀ kind (index : Position) inner markers outer,
        "!+5".toList ≠ referenceText kind index.digits inner markers outer) ∧
      readTypeName (fun _ => false) none "!+5" = .ok (.placeholder ⟨5, .type⟩) := by
  refine ⟨⟨by decide, by simp, by decide +kernel⟩, ?_, by decide +kernel⟩
  intro kind index inner markers outer htext
  have hplus : '+' ∈ referenceText kind index.digits inner markers outer :=
    htext ▸ (by decide : '+' ∈ "!+5".toList)
  have hkind : '+' ∉ kind.marks := by cases kind <;> decide
  have hdigits : '+' ∉ index.digits := fun hc => absurd (index.isDigit '+' hc) (by decide)
  simp [referenceText, brackets, hkind, hdigits] at hplus

end ClrNames
