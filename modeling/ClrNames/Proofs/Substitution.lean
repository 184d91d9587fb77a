import ClrNames.Proofs.ReferenceScope

/-!
# References as substitution

Reading below a declaration is reading below none and then putting the arguments
of the declaration for the placeholders, once: what is put in is not searched
again. Names with a reference in front of an arity marker are left out, since
their nodes are extended after they have been resolved.
-/

set_option autoImplicit false

namespace ClrNames

namespace TypeName

def argument? (arguments : List TypeName) (p : GenericParam) : Option TypeName :=
  match p.kind with
  | .type => arguments[p.index.toNat]?
  | .method => none

mutual

def subst (arguments : List TypeName) : TypeName → TypeName
  | ⟨nspace, name, enclosing, args, isArray, some p⟩ =>
    match argument? arguments p with
    | some a => a.withArray isArray
    | none => ⟨nspace, name, enclosing, args, isArray, some p⟩
  | ⟨nspace, name, enclosing, args, isArray, none⟩ =>
    ⟨nspace, name, substEnclosing arguments enclosing, substArgs arguments args, isArray, none⟩

def substEnclosing (arguments : List TypeName) : Option TypeName → Option TypeName
  | none => none
  | some outer => some (subst arguments outer)

def substArgs (arguments : List TypeName) : List TypeName → List TypeName
  | [] => []
  | t :: ts => subst arguments t :: substArgs arguments ts

end

variable (A : List TypeName)

theorem substEnclosing_eq_map (enclosing : Option TypeName) :
    substEnclosing A enclosing = enclosing.map (subst A) := by
  cases enclosing <;> rfl

theorem substArgs_eq_map (ts : List TypeName) : substArgs A ts = ts.map (subst A) := by
  induction ts with
  | nil => rfl
  | cons t ts ih => rw [substArgs, ih, List.map_cons]

theorem subst_of_param_none {t : TypeName} (h : t.param = none) :
    subst A t = { t with enclosing := t.enclosing.map (subst A), args := t.args.map (subst A) } := by
  cases t with
  | mk nspace name enclosing args isArray param =>
    obtain rfl : param = none := h
    rw [subst, substEnclosing_eq_map, substArgs_eq_map]

theorem subst_withArgs {t : TypeName} (h : t.param = none)
    (henclosing : t.enclosing.map (subst A) = t.enclosing) (args : List TypeName) :
    subst A { t with args := args } = { t with args := args.map (subst A) } := by
  have hparam : ({ t with args := args } : TypeName).param = none := h
  rw [subst_of_param_none A hparam]
  simp only [henclosing]

theorem subst_withArray (t : TypeName) (mark : Bool) :
    subst A (t.withArray mark) = (subst A t).withArray mark := by
  cases t with
  | mk nspace name enclosing args isArray param =>
    cases param with
    | none => simp [withArray, subst]
    | some p =>
      simp only [withArray, subst]
      cases argument? A p with
      | none => rfl
      | some a => simp [Bool.or_assoc]

theorem subst_placeholder (p : GenericParam) :
    subst A (placeholder p) = (argument? A p).getD (placeholder p) := by
  rw [placeholder, subst]
  cases argument? A p with
  | none => rfl
  | some a => simp

theorem subst_topLevel (nspace name : String) :
    subst A (topLevel nspace name) = topLevel nspace name := rfl

theorem subst_nested (t : TypeName) (name : String) :
    subst A (t.nested name) = (subst A t).nested name := rfl

theorem subst_foldl_nested (t : TypeName) (names : List String) :
    subst A (names.foldl nested t) = names.foldl nested (subst A t) := by
  induction names generalizing t with
  | nil => rfl
  | cons name names ih => rw [List.foldl_cons, List.foldl_cons, ih, subst_nested]

theorem subst_ofChain (nspace name : String) (enclosing : List String) :
    subst A (ofChain nspace enclosing name) = ofChain nspace enclosing name := by
  cases enclosing with
  | nil => rfl
  | cons outermost inner => rw [ofChain, subst_nested, subst_foldl_nested, subst_topLevel]

end TypeName

namespace Grammar
open Text

def isReferenceMark (c : Char) : Bool :=
  c.isDigit || c == '!' || c == '+' || c == '&' || c == '[' || c == ']'

def TailedReference (text : List Char) : Prop :=
  ∃ before marks after, text = before ++ '!' :: marks ++ '\x60' :: after ∧
    ∀ c ∈ marks, isReferenceMark c = true

def tailedReference : List Char → Bool
  | [] => false
  | c :: cs =>
    (c == '!' && (cs.dropWhile isReferenceMark).head? == some '\x60') || tailedReference cs

theorem tailedReference_iff (text : List Char) :
    tailedReference text = true ↔ TailedReference text := by
  induction text with
  | nil => simp [tailedReference, TailedReference]
  | cons c cs ih =>
    rw [tailedReference, Bool.or_eq_true, ih, Bool.and_eq_true, beq_iff_eq, beq_iff_eq]
    constructor
    · rintro (⟨rfl, hhead⟩ | ⟨before, marks, after, rfl, hmarks⟩)
      · obtain ⟨after, hdrop⟩ := List.head?_eq_some_iff.mp hhead
        have hsplit := List.takeWhile_append_dropWhile (p := isReferenceMark) (l := cs)
        rw [hdrop] at hsplit
        exact ⟨[], cs.takeWhile isReferenceMark, after, by simp [hsplit],
          fun d hd => List.all_eq_true.mp List.all_takeWhile d hd⟩
      · exact ⟨c :: before, marks, after, rfl, hmarks⟩
    · rintro ⟨before, marks, after, htext, hmarks⟩
      cases before with
      | nil =>
        obtain ⟨rfl, rfl⟩ : c = '!' ∧ cs = marks ++ '\x60' :: after := by simpa using htext
        left
        rw [List.dropWhile_append_of_pos hmarks]
        exact ⟨rfl, rfl⟩
      | cons d before =>
        obtain ⟨rfl, rfl⟩ : c = d ∧ cs = before ++ '!' :: marks ++ '\x60' :: after := by
          simpa using htext
        exact .inr ⟨before, marks, after, rfl, hmarks⟩

instance (text : List Char) : Decidable (TailedReference text) :=
  decidable_of_iff _ (tailedReference_iff text)

theorem readIndex?_eq_some {cs : List Char} {index : UInt32} (h : readIndex? cs = some index) :
    ∃ digits, (cs = digits ∨ cs = '+' :: digits) ∧ digits ≠ [] ∧
      (∀ c ∈ digits, c.isDigit = true) ∧ Nat.ofDigitChars 10 digits 0 < 4294967296 ∧
      index = UInt32.ofNat (Nat.ofDigitChars 10 digits 0) := by
  have hdigits : ∀ ds : List Char,
      (if ds.isEmpty || !ds.all Char.isDigit then none
        else if Nat.ofDigitChars 10 ds 0 < 4294967296 then
          some (UInt32.ofNat (Nat.ofDigitChars 10 ds 0))
        else none) = some index →
      ds ≠ [] ∧ (∀ c ∈ ds, c.isDigit = true) ∧ Nat.ofDigitChars 10 ds 0 < 4294967296 ∧
        index = UInt32.ofNat (Nat.ofDigitChars 10 ds 0) := by
    intro ds hds
    split at hds
    · cases hds
    · rename_i hshape
      split at hds
      · rename_i hlt
        simp only [Bool.or_eq_true, List.isEmpty_iff, Bool.not_eq_true', not_or,
          Bool.not_eq_false] at hshape
        exact ⟨hshape.1, List.all_eq_true.mp hshape.2, hlt, (Option.some.inj hds).symm⟩
      · cases hds
  by_cases hplus : cs.head? = some '+'
  · obtain ⟨ds, rfl⟩ := List.head?_eq_some_iff.mp hplus
    exact ⟨ds, .inr rfl, hdigits ds h⟩
  · have hds : (if cs.head? = some '+' then cs.drop 1 else cs) = cs := if_neg hplus
    unfold readIndex? at h
    rw [hds] at h
    exact ⟨cs, .inl rfl, hdigits cs h⟩

theorem readIndex?_marks {cs : List Char} {index : UInt32} (h : readIndex? cs = some index) :
    ∀ c ∈ cs, isReferenceMark c = true := by
  obtain ⟨digits, hcs, -, hdigit, -⟩ := readIndex?_eq_some h
  have hmark : ∀ c ∈ digits, isReferenceMark c = true := by
    intro c hc
    simp [isReferenceMark, hdigit c hc]
  rcases hcs with rfl | rfl
  · exact hmark
  · intro c hc
    rcases List.mem_cons.mp hc with rfl | hc
    · rfl
    · exact hmark c hc

theorem readParam?_marks {cs : List Char} {p : GenericParam} (hhead : ∀ c, cs.head? = some c → c = '!')
    (h : readParam? cs = some p) : ∀ c ∈ cs, isReferenceMark c = true := by
  unfold readParam? at h
  split at h
  next digits =>
    obtain ⟨index, hindex, -⟩ := Option.map_eq_some_iff.mp h
    intro c hc
    rcases List.mem_cons.mp hc with rfl | hc
    · rfl
    · rcases List.mem_cons.mp hc with rfl | hc
      · rfl
      · exact readIndex?_marks hindex c hc
  next =>
    obtain ⟨index, hindex, -⟩ := Option.map_eq_some_iff.mp h
    cases cs with
    | nil => simp
    | cons d ds =>
      obtain rfl := hhead d rfl
      intro c hc
      rcases List.mem_cons.mp hc with rfl | hc
      · rfl
      · exact readIndex?_marks hindex c hc

/-- An accepted token holds nothing but marks. -/
theorem tokenParam?_marks {token : List Char} {p : GenericParam} (hhead : token.head? = some '!')
    (h : tokenParam? token = some p) : ∀ c ∈ token, isReferenceMark c = true := by
  obtain ⟨outer, houter, hand⟩ := stripByRef_append token
  obtain ⟨arrays, harrays, hbracket⟩ := withoutMarkers_append (stripByRef token)
  obtain ⟨inner, hinner, hand'⟩ := stripByRef_append (withoutMarkers (stripByRef token))
  have htoken : token =
      stripByRef (withoutMarkers (stripByRef token)) ++ (inner ++ (arrays ++ outer)) := by
    rw [← List.append_assoc, ← hinner, ← List.append_assoc, ← harrays, ← houter]
  have hfirst : ∀ c, (stripByRef (withoutMarkers (stripByRef token))).head? = some c → c = '!' := by
    intro c hc
    obtain ⟨cs, hcs⟩ := List.head?_eq_some_iff.mp hc
    rw [htoken, hcs] at hhead
    simpa using hhead
  intro c hc
  rw [htoken] at hc
  simp only [List.mem_append] at hc
  rcases hc with hc | hc | hc | hc
  · exact readParam?_marks hfirst h c hc
  · obtain rfl := hand' c hc
    rfl
  · rcases hbracket c hc with rfl | rfl <;> rfl
  · obtain rfl := hand c hc
    rfl

theorem resolve_below_none {f : Scopes} (h : f.containing = none) (s : State)
    (p : GenericParam) : resolve .containing (s.under f).cursor p = .placeholder p := by
  unfold resolve
  split
  · rfl
  · simp [scope, State.under, h]

theorem resolve_below {f : Scopes} {t : TypeName} (h : f.containing = some t) (s : State)
    (p : GenericParam) : resolve .containing (s.under f).cursor p =
      TypeName.subst t.effectiveArgs (.placeholder p) := by
  rw [TypeName.subst_placeholder, resolve, TypeName.argument?]
  cases p.kind with
  | method => rfl
  | type => simp [scope, State.under, h]

/-- In front of an arity marker an accepted token is a reference with a tail. -/
theorem tailed_of_token {text taken token rest : List Char} {p : GenericParam}
    (hsuffix : taken ++ rest <:+ text) (htoken : token <:+ taken) (hhead : token.head? = some '!')
    (hp : tokenParam? token = some p) (hrest : rest.head? = some '\x60') :
    TailedReference text := by
  have hmarks := tokenParam?_marks hhead hp
  obtain ⟨front, htext⟩ := hsuffix
  obtain ⟨before, htaken⟩ := htoken
  obtain ⟨marks, hmarked⟩ := List.head?_eq_some_iff.mp hhead
  obtain ⟨after, hafter⟩ := List.head?_eq_some_iff.mp hrest
  refine ⟨front ++ before, marks, after, ?_, fun c hc => hmarks c (by simp [hmarked, hc])⟩
  rw [← htext, ← htaken, hmarked, hafter]
  simp

theorem subst_chainOf (A : List TypeName) (qualifier : List (List Char)) (split : Nat)
    (name : List Char) (mark : Bool) :
    TypeName.subst A (chainOf qualifier split name mark) = chainOf qualifier split name mark := by
  rw [chainOf, TypeName.subst_withArray, TypeName.subst_ofChain]

theorem param_chainOf (qualifier : List (List Char)) (split : Nat) (name : List Char)
    (mark : Bool) : (chainOf qualifier split name mark).param = none := by
  rw [chainOf, TypeName.withArray_param, TypeName.param_ofChain]

theorem forall₂_eq_map {A : List TypeName} {as bs : List TypeName}
    (h : List.Forall₂ (fun a b => b = TypeName.subst A a) as bs) :
    bs = as.map (TypeName.subst A) := by
  induction h with
  | nil => rfl
  | cons hab _ ih => rw [hab, ih, List.map_cons]

/-- A reading below none beside one below `t`. A name in front of an arity marker
is never a reference, so the nodes that are extended hold no placeholder yet. -/
def containingSimulation (settings : Settings) (t : TypeName) (text : List Char)
    (htext : ¬ TailedReference text) :
    Simulation { settings with scopeRule := .containing }
      { settings with scopeRule := .containing } text where
  scopes f g := f.containing = none ∧ g.containing = some t
  base _ a b := b = a ∧ a.param = none ∧
    a.enclosing.map (TypeName.subst t.effectiveArgs) = a.enclosing
  node _ a b := b = TypeName.subst t.effectiveArgs a
  escapes _ := False
  truncated := rfl
  definitions := .inl rfl
  named := by
    intro f g s taken hscopes _ hsuffix _ _
    apply agree_nameOf rfl
    · intro token p mark htoken hhead hp
      rw [resolve_below_none hscopes.1, resolve_below hscopes.2, TypeName.subst_withArray]
      exact ⟨rfl, rfl, fun htick => absurd (tailed_of_token hsuffix htoken hhead hp htick) htext⟩
    · intro qualifier split name mark _ _ _
      have hchain := subst_chainOf t.effectiveArgs qualifier split name mark
      have hparam := param_chainOf qualifier split name mark
      refine ⟨rfl, hchain.symm, fun _ => ⟨rfl, hparam, ?_⟩⟩
      rw [TypeName.subst_of_param_none _ hparam] at hchain
      exact congrArg TypeName.enclosing hchain
  owners h _ := h
  levels h := .inl (by rw [h.1])
  object _ := (TypeName.subst_topLevel _ "" "object").symm
  array mark h := by rw [h, TypeName.subst_withArray]
  args := by
    intro d a b as bs hbase hargs
    obtain ⟨rfl, hparam, henclosing⟩ := hbase
    rw [forall₂_eq_map hargs, TypeName.subst_withArgs _ hparam henclosing]
  nested := by
    intro d a b as bs names hbase hargs _ _ _ _
    obtain ⟨rfl, hparam, henclosing⟩ := hbase
    rw [forall₂_eq_map hargs, TypeName.subst_foldl_nested,
      TypeName.subst_withArgs _ hparam henclosing]

end Grammar

open Grammar

theorem Text.beforeLast?_eq_some {piece cs before : List Char}
    (h : Text.beforeLast? piece cs = some before) : ∃ after, cs = before ++ piece ++ after := by
  induction cs generalizing before with
  | nil =>
    simp only [Text.beforeLast?, List.isEmpty_iff] at h
    split at h
    · rename_i hpiece
      obtain rfl := Option.some.inj h
      exact ⟨[], by simp [hpiece]⟩
    · cases h
  | cons c cs ih =>
    rw [Text.beforeLast?] at h
    split at h
    · rename_i rest hrest
      obtain rfl := Option.some.inj h
      obtain ⟨after, rfl⟩ := ih hrest
      exact ⟨after, rfl⟩
    · split at h
      · rename_i hprefix
        obtain rfl := Option.some.inj h
        obtain ⟨after, hafter⟩ := List.isPrefixOf_iff_prefix.mp hprefix
        exact ⟨after, hafter.symm⟩
      · cases h

/-- A closed text is the text itself, or the part in front of the last complete
element with the brackets that it lacks. -/
theorem closeTruncated_eq_ok {text closed : List Char} {truncated : Bool}
    (h : closeTruncated text = .ok (closed, truncated)) :
    closed = text ∨ ∃ before after, text = before ++ "],[".toList ++ after ∧
      closed = before ++ "]]".toList := by
  unfold closeTruncated at h
  split at h
  · split at h
    · rename_i before hbefore
      obtain ⟨after, hafter⟩ := Text.beforeLast?_eq_some hbefore
      cases h
      exact .inr ⟨before, after, hafter, rfl⟩
    · cases h
  · cases h
    exact .inl rfl

/-- What stands in front of an arity marker of the closed text stands in the text. -/
theorem marked_prefix_of_closed {text closed front : List Char} {truncated : Bool}
    (h : closeTruncated text = .ok (closed, truncated)) (hfront : front ++ ['\x60'] <+: closed) :
    front ++ ['\x60'] <+: text := by
  rcases closeTruncated_eq_ok h with rfl | ⟨before, after, rfl, rfl⟩
  · exact hfront
  · obtain ⟨rest, happend⟩ := hfront
    have hinside : front ++ ['\x60'] <+: before := by
      rcases List.append_eq_append_iff.mp happend.symm with ⟨more, hmore, hend⟩ | ⟨more, hmore, -⟩
      · rcases List.eq_nil_or_concat more with rfl | ⟨init, last, rfl⟩
        · exact ⟨[], by simpa using hmore⟩
        · -- the backtick would be one of the closing brackets
          have hlast : '\x60' = last := by
            rw [List.concat_eq_append, ← List.append_assoc] at hmore
            exact List.singleton_inj.mp (List.append_inj_right' hmore rfl)
          have hmem : last ∈ "]]".toList := by rw [hend]; simp
          rw [← hlast] at hmem
          exact absurd hmem (by decide)
      · exact ⟨more, hmore.symm⟩
    exact hinside.trans (by simp)

/-- Closing a text puts no reference in front of an arity marker. -/
theorem tailedReference_of_closed {text closed : List Char} {truncated : Bool}
    (h : closeTruncated text = .ok (closed, truncated)) (hclosed : TailedReference closed) :
    TailedReference text := by
  obtain ⟨front, marks, rest, hsplit, hmarks⟩ := hclosed
  have hfront : (front ++ '!' :: marks) ++ ['\x60'] <+: closed := ⟨rest, by simp [hsplit]⟩
  obtain ⟨more, hmore⟩ := marked_prefix_of_closed h hfront
  exact ⟨front, marks, more, by simpa using hmore.symm, hmarks⟩

/-- Below a declaration a name is read as below none, with the arguments that
the declaration sees put for the placeholders; both readings refuse the same
names for the same reason. -/
theorem readName_below_substitutes (known : String → Bool) (definitionsOnly : Bool)
    (t : TypeName) (name : String) (h : ¬ TailedReference name.toList) :
    readName { known, containing := some t, definitionsOnly } name =
      (readName { known, definitionsOnly } name).map (TypeName.subst t.effectiveArgs) := by
  have hrule (o : ReadOptions) : readText { o with scopeRule := .nearest } name.toList =
      readText { o with scopeRule := .containing } name.toList :=
    readText_sameRule o _ _ (.inr ⟨by decide, by decide⟩) _
  have hmatch : Matching (fun _ => False) (fun a b => b = TypeName.subst t.effectiveArgs a)
      (readText { known, definitionsOnly, scopeRule := .containing } name.toList)
      (readText { known, containing := some t, definitionsOnly, scopeRule := .containing }
        name.toList) := by
    apply readText_matching
    intro closed truncated hclose
    exact readClosed_matching { known, definitionsOnly, scopeRule := .containing }
      { known, containing := some t, definitionsOnly, scopeRule := .containing }
      (containingSimulation (ReadOptions.settings { known, definitionsOnly } truncated) t closed
        (mt (tailedReference_of_closed hclose) h))
      ⟨rfl, rfl⟩ _
  have hbelow := hrule { known, containing := some t, definitionsOnly }
  have hnone := hrule { known, definitionsOnly }
  change readText { known, containing := some t, definitionsOnly } name.toList =
    (readText { known, definitionsOnly } name.toList).map _
  rw [hbelow, hnone]
  exact hmatch.eq_map

theorem readName_below_entry :
    let holder : TypeName :=
      { nspace := "app", name := "Holder"
        args := [.placeholder ⟨1, .type⟩, .topLevel "app" "Item"] }
    ¬ TailedReference "Map\x602<!1,List\x601<!0[]>>".toList ∧
    readName { known := fun _ => false, containing := some (holder.nested "Entry") }
        "Map\x602<!1,List\x601<!0[]>>" =
      .ok { nspace := "", name := "Map"
            args := [.topLevel "app" "Item",
              { nspace := "", name := "List"
                args := [(TypeName.placeholder ⟨1, .type⟩).withArray true] }] } :=
  ⟨by decide, (readName_below_substitutes _ _ _ _ (by decide)).trans (by decide +kernel)⟩

end ClrNames
