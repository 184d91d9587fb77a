import Mathlib.Data.List.Forall2
import ClrNames.Proofs.Agreement
import ClrNames.Proofs.Segments

/-!
# Simulation of one reading by another

A `Simulation` relates the nodes of two readings that differ in settings and
scopes. Only base names have to be compared by whoever builds one: the other
routines look at no scope, so `wholeName_agree` carries the relation through
both list syntaxes and every level of nesting.
-/

set_option autoImplicit false

namespace ClrNames.Text

theorem byteLength_digits {cs : List Char} (h : ∀ c ∈ cs, c.isDigit = true) :
    byteLength cs = cs.length := by
  induction cs with
  | nil => rfl
  | cons c cs ih =>
    have hc : c.utf8Size = 1 := by
      have hdigit := h c (by simp)
      simp only [Char.isDigit, Bool.and_eq_true, decide_eq_true_eq] at hdigit
      have : c.val.toNat ≤ 57 := by simpa using UInt32.le_iff_toNat_le.mp hdigit.2
      rw [Char.utf8Size_eq_one_iff]
      exact UInt32.le_iff_toNat_le.mpr (by simpa using (by omega : c.val.toNat ≤ 127))
    rw [byteLength_cons, List.length_cons, ih (fun d hd => h d (by simp [hd])), hc]
    omega

end ClrNames.Text

namespace ClrNames.Grammar
open Text

def nameOf (settings : Settings) (text : List Char) : Reader TypeName := do
  check (!text.any fun c => c == '<' || c == '>') .argumentsWithoutArity
  if ((segments text).getLastD []).head? = some '!' then
    backReference settings ((segments text).getLastD [])
  else simpleName settings (segments text).dropLast ((segments text).getLastD [])

theorem baseName_pass (settings : Settings) {s : State} {taken after : List Char}
    (h : s.cursor.rest = taken ++ after) :
    baseName settings (s.cursor.pos + byteLength taken) s =
      nameOf settings taken (s.pass taken after) := by
  rw [baseName, bind_ok (region_pass h), bind_ok (seek_pass h)]
  rfl

theorem nameEnd?_eq_some {before : Char} {offset n : Nat} {cs : List Char}
    (h : nameEnd? before offset cs = some n) :
    ∃ taken d after, cs = taken ++ d :: after ∧ '\x60' ∉ taken ∧
      (d = '\x60' ∨ d = ',' ∨ d = ']') ∧ n = offset + byteLength taken := by
  induction cs generalizing before offset with
  | nil => simp [nameEnd?] at h
  | cons c cs ih =>
    rw [nameEnd?] at h
    split at h
    next hc =>
      refine ⟨[], c, cs, rfl, by simp, ?_, by simpa using h.symm⟩
      simp only [Bool.or_eq_true, Bool.and_eq_true, decide_eq_true_eq] at hc
      rcases hc with (hc | hc) | hc
      · exact .inl hc
      · exact .inr (.inl hc)
      · exact .inr (.inr hc.1)
    next hc =>
      obtain ⟨taken, d, after, rfl, htick, hd, rfl⟩ := ih h
      have hne : c ≠ '\x60' := fun heq => hc (by simp [heq])
      exact ⟨c :: taken, d, after, rfl, by simp [htick, hne.symm], hd,
        by rw [byteLength_cons, Nat.add_assoc]⟩

section
variable {α β : Type} {escapes : ParseError → Prop} {f g : Scopes} {s : State}

theorem agree_elementNameEnd {k : Nat → Reader α} {l : Nat → Reader β}
    {post : α → β → State → Prop}
    (h : ∀ taken d after, s.cursor.rest = taken ++ d :: after → '\x60' ∉ taken →
      Agree escapes f g s (k (s.cursor.pos + byteLength taken))
        (l (s.cursor.pos + byteLength taken)) post) :
    Agree escapes f g s (elementNameEnd >>= k) (elementNameEnd >>= l) post := by
  cases hend : nameEnd? '[' s.cursor.pos s.cursor.rest with
  | none =>
    have hrun (sc : Scopes) : elementNameEnd (s.under sc) =
        refuse (.elementUnterminated s.cursor.pos) (s.under sc) := by
      rw [elementNameEnd, bind_ok (cursor_pass _), State.under, hend]
    rw [Agree, bind_error (hrun f), bind_error (hrun g)]
    exact .refused
  | some stop =>
    have hrun (sc : Scopes) : elementNameEnd (s.under sc) = .ok stop (s.under sc) := by
      rw [elementNameEnd, bind_ok (cursor_pass _), State.under, hend]
      rfl
    obtain ⟨taken, d, after, hrest, htick, -, rfl⟩ := nameEnd?_eq_some hend
    exact Agree.stay (hrun f) (hrun g) (h taken d after hrest htick)

theorem agree_arity : Agree escapes f g s arity arity fun m n _ => m = n := by
  unfold arity
  apply agree_eat
  · intro after hrest
    apply agree_cursor
    apply agree_check
    intro _
    apply agree_cursor
    apply agree_check
    intro _
    have hsplit := (List.takeWhile_append_dropWhile (p := Char.isDigit) (l := after)).symm
    have hdigits : byteLength (after.takeWhile Char.isDigit) =
        (after.takeWhile Char.isDigit).length :=
      byteLength_digits fun c hc => List.all_eq_true.mp List.all_takeWhile c hc
    show Agree escapes f g (s.pass ['\x60'] after)
      (seek ((s.pass ['\x60'] after).cursor.pos + (after.takeWhile Char.isDigit).length) >>= _)
      (seek ((s.pass ['\x60'] after).cursor.pos + (after.takeWhile Char.isDigit).length) >>= _) _
    rw [← hdigits]
    exact agree_seek hsplit (agree_check _ _ fun _ => agree_pure rfl)
  · intro _
    apply agree_cursor
    apply agree_check
    intro h
    cases h

/-- Two counts of levels may be refused differently where that refusal escapes. -/
theorem agree_checkNesting {m n : Nat}
    (hlevels : m = n ∨
      ∀ (e : ParseError) (levels : Nat), e.cause = .nestedTooDeep levels → escapes e)
    {p : Reader α} {q : Reader β} {post : α → β → State → Prop}
    (h : m ≤ maxNesting → n ≤ maxNesting → Agree escapes f g s p q post) :
    Agree escapes f g s (checkNesting m >>= fun _ => p) (checkNesting n >>= fun _ => q) post := by
  rcases hlevels with rfl | hescape
  · exact agree_check _ _ fun hle => h (by simpa using hle) (by simpa using hle)
  · by_cases hm : m ≤ maxNesting
    · by_cases hn : n ≤ maxNesting
      · exact Agree.stay (check_pass (by simpa using hm) _ _)
          (check_pass (by simpa using hn) _ _) (h hm hn)
      · rw [Agree, checkNesting, checkNesting, bind_error (s := s.under g)
          (check_refused (by simpa using hn) _ _)]
        exact .escapedRight (hescape _ _ rfl)
    · rw [Agree, checkNesting, checkNesting, bind_error (s := s.under f)
        (check_refused (by simpa using hm) _ _)]
      exact .escapedLeft (hescape _ _ rfl)

end

def fullName (settings : Settings) (lists : ListReader) (stop : Nat) (context : ListContext) :
    Reader TypeName := do
  let base ← baseName settings stop
  if (← peek) = '\x60' then genericSuffix lists base context else pure base

theorem element_eq (settings : Settings) (lists : ListReader) :
    element settings lists = (do
      advance
      let stop ← elementNameEnd
      let t ← fullName settings lists stop .bracketed
      let close ← expectAny [']']
      seek (close + 1)
      return t) := by
  unfold element fullName
  simp only [bind_assoc]
  congr 1; funext _; congr 1; funext stop; congr 1; funext base; congr 1; funext c
  split <;> rfl

theorem plainArgument_eq (settings : Settings) (lists : ListReader) :
    plainArgument settings lists = (do
      let c ← cursor
      let stop ← expectAny ['\x60', ',', '>']
      if stop = c.pos then
        check (c.charAt stop != '\x60') .argumentWithoutName
        return .topLevel "" "object"
      else fullName settings lists stop .plain) := rfl

def CleanSegment (part : List Char) : Prop :=
  part ≠ [] ∧ '.' ∉ part ∧ '\x60' ∉ part ∧ '<' ∉ part

/-- What relates the nodes of two readings, at each depth of nested lists. The
names that are followed by an arity marker may be related more closely. -/
structure Simulation (σ τ : Settings) (text : List Char) where
  scopes : Scopes → Scopes → Prop
  base : Nat → TypeName → TypeName → Prop
  node : Nat → TypeName → TypeName → Prop
  escapes : ParseError → Prop
  truncated : σ.truncated = τ.truncated
  definitions : σ.definitionsOnly = τ.definitionsOnly ∨
    ∀ e : ParseError, e.cause = .instantiation → escapes e
  named : ∀ {f g : Scopes} {s : State} {taken : List Char}, scopes f g →
    s.cursor.text = text → taken ++ s.cursor.rest <:+ text → s.depth ≤ maxListDepth →
    '\x60' ∉ taken → Agree escapes f g s (nameOf σ taken) (nameOf τ taken) fun a b t =>
      t = s ∧ node s.depth a b ∧ (s.cursor.rest.head? = some '\x60' → base s.depth a b)
  owners : ∀ {f g : Scopes} {d : Nat} {a b : TypeName}, scopes f g → base d a b →
    scopes { f with inProgress := some a } { g with inProgress := some b }
  levels : ∀ {d : Nat} {a b : TypeName}, base d a b →
    a.enclosingChain.length = b.enclosingChain.length ∨
      ∀ (e : ParseError) (n : Nat), e.cause = .nestedTooDeep n → escapes e
  object : ∀ {d : Nat}, d ≤ maxListDepth →
    node d (.topLevel "" "object") (.topLevel "" "object")
  array : ∀ {d : Nat} {a b : TypeName} (mark : Bool), node d a b →
    node d (a.withArray mark) (b.withArray mark)
  args : ∀ {d : Nat} {a b : TypeName} {as bs : List TypeName}, base d a b →
    List.Forall₂ (node (d + 1)) as bs → node d { a with args := as } { b with args := bs }
  nested : ∀ {d : Nat} {a b : TypeName} {as bs : List TypeName} {names : List (List Char)},
    base d a b → List.Forall₂ (node (d + 1)) as bs →
    names ≠ [] → (∀ name ∈ names, CleanSegment name) →
    a.enclosingChain.length + names.length ≤ maxNesting →
    b.enclosingChain.length + names.length ≤ maxNesting →
    node d ((names.map String.ofList).foldl TypeName.nested { a with args := as })
      ((names.map String.ofList).foldl TypeName.nested { b with args := bs })

namespace Simulation

variable {σ τ : Settings} {text : List Char} (S : Simulation σ τ text)

structure At (f g : Scopes) (s : State) : Prop where
  scopes : S.scopes f g
  same : s.cursor.text = text
  suffix : s.cursor.rest <:+ text
  depth : s.depth ≤ maxListDepth

variable {S} {f g : Scopes} {s : State} {d : Nat} {a b : TypeName}

theorem At.pass (h : S.At f g s) {taken after : List Char}
    (split : s.cursor.rest = taken ++ after) : S.At f g (s.pass taken after) :=
  ⟨h.scopes, h.same, (split ▸ List.suffix_append taken after).trans h.suffix, h.depth⟩

theorem At.advance (h : S.At f g s) {c : Char} {after : List Char}
    (hrest : s.cursor.rest = c :: after) : S.At f g (s.pass [c] after) :=
  have split : s.cursor.rest = [c] ++ after := hrest
  h.pass split

theorem At.deeper (h : S.At f g s) (hd : s.depth < maxListDepth) :
    S.At f g { s with depth := s.depth + 1 } :=
  ⟨h.scopes, h.same, h.suffix, hd⟩

theorem At.owned (h : S.At f g s) (hab : S.base d a b) :
    S.At { f with inProgress := some a } { g with inProgress := some b } s :=
  ⟨S.owners h.scopes hab, h.same, h.suffix, h.depth⟩

theorem baseName_agree (h : S.At f g s) {taken after : List Char}
    (split : s.cursor.rest = taken ++ after) (htick : '\x60' ∉ taken) :
    Agree S.escapes f g s (baseName σ (s.cursor.pos + byteLength taken))
      (baseName τ (s.cursor.pos + byteLength taken)) fun a b t =>
        t = s.pass taken after ∧ S.node s.depth a b ∧
          (after.head? = some '\x60' → S.base s.depth a b) := by
  have hnamed := S.named (s := s.pass taken after) h.scopes h.same (split ▸ h.suffix) h.depth htick
  have hf : baseName σ (s.cursor.pos + byteLength taken) (s.under f) =
      nameOf σ taken ((s.pass taken after).under f) := baseName_pass σ (s := s.under f) split
  have hg : baseName τ (s.cursor.pos + byteLength taken) (s.under g) =
      nameOf τ taken ((s.pass taken after).under g) := baseName_pass τ (s := s.under g) split
  unfold Agree at hnamed ⊢
  rw [hf, hg]
  generalize nameOf σ taken ((s.pass taken after).under f) = r at hnamed
  generalize nameOf τ taken ((s.pass taken after).under g) = r' at hnamed
  cases hnamed with
  | @passed _ _ more last split' holds =>
    rw [State.pass_rest] at split'
    rw [State.pass_pass] at holds ⊢
    exact .passed (by rw [split, split', List.append_assoc]) holds
  | refused => exact .refused
  | escapedLeft h => exact .escapedLeft h
  | escapedRight h => exact .escapedRight h

def Lists (S : Simulation σ τ text) (L M : ListReader) : Prop :=
  ∀ (f g : Scopes) (s : State) (a b : TypeName) (declared : Nat) (context : ListContext),
    S.At f g s → S.base s.depth a b →
    Agree S.escapes f g s (L a declared context) (M b declared context) fun as bs _ =>
      List.Forall₂ (S.node (s.depth + 1)) as bs

variable {L M : ListReader} {declared : Nat} {context : ListContext}

theorem arraySuffix_agree (hab : S.node d a b) :
    Agree S.escapes f g s (arraySuffix a) (arraySuffix b) fun a b _ => S.node d a b := by
  have hend (mark : Bool) (t : State) : Agree S.escapes f g t
      (do check (!(← cursor).startsWith ['[', ']']) (.arrayRank (maxArrayMarkers + 1))
          return a.withArray mark)
      (do check (!(← cursor).startsWith ['[', ']']) (.arrayRank (maxArrayMarkers + 1))
          return b.withArray mark) fun a b _ => S.node d a b :=
    agree_cursor (agree_check _ _ fun _ => agree_pure (S.array mark hab))
  unfold arraySuffix
  apply agree_eat
  · intro _ _
    exact agree_eat _ (fun _ _ => hend true _) (fun _ => hend true _)
  · intro _
    exact agree_eat _ (fun _ _ => hend false _) (fun _ => hend false _)

theorem checkNesting_agree {α β : Type} (hab : S.base d a b) (count : Nat) {p : Reader α}
    {q : Reader β} {post : α → β → State → Prop}
    (h : a.enclosingChain.length + count ≤ maxNesting →
      b.enclosingChain.length + count ≤ maxNesting → Agree S.escapes f g s p q post) :
    Agree S.escapes f g s (checkNesting (a.enclosingChain.length + count) >>= fun _ => p)
      (checkNesting (b.enclosingChain.length + count) >>= fun _ => q) post := by
  apply agree_checkNesting _ h
  exact (S.levels hab).imp_left fun heq => by rw [heq]

theorem nestedInGeneric_agree (hlists : S.Lists L M) (h : S.At f g s)
    (hab : S.base s.depth a b) :
    Agree S.escapes f g s (nestedInGeneric L a declared context)
      (nestedInGeneric M b declared context) fun a b _ => S.node s.depth a b := by
  unfold nestedInGeneric
  apply agree_advance
  intro c after hrest
  apply agree_expectAny
  intro taken e more split ht he
  apply agree_cursor
  apply agree_check
  intro _
  apply agree_region split
  apply agree_check
  intro hall
  have hparts : ∀ name ∈ segments taken, CleanSegment name := by
    intro name hname
    have hmem := mem_segments hname
    constructor
    · intro hnil
      rw [Bool.not_eq_true', List.any_eq_false] at hall
      exact hall name hname (by rw [hnil]; rfl)
    · exact ⟨fun hc => (hmem _ hc).1 rfl, fun hc => ht _ (hmem _ hc).2 (by simp),
        fun hc => ht _ (hmem _ hc).2 (by simp)⟩
  apply checkNesting_agree hab
  intro ha hb
  apply agree_seek split
  have hat := (h.advance hrest).pass split
  apply Agree.bind (hlists f g _ a b declared context hat hab)
  intro as bs taken' after' _ hargs
  exact agree_pure (S.nested hab hargs (segments_ne_nil taken) hparts ha hb)

theorem genericTail_agree (hlists : S.Lists L M) (h : S.At f g s) (hab : S.base s.depth a b) :
    Agree S.escapes f g s (genericTail L a declared context)
      (genericTail M b declared context) fun a b _ => S.node s.depth a b := by
  unfold genericTail
  apply agree_peek
  split
  · exact nestedInGeneric_agree hlists h hab
  · apply Agree.bind (hlists f g s a b declared context h hab)
    intro as bs _ _ _ hargs
    exact agree_pure (S.args hab hargs)

theorem genericSuffix_agree (hlists : S.Lists L M) (h : S.At f g s) (hab : S.base s.depth a b) :
    Agree S.escapes f g s (genericSuffix L a context) (genericSuffix M b context)
      fun a b _ => S.node s.depth a b := by
  unfold genericSuffix
  apply Agree.bind agree_arity
  intro m n taken after split hmn
  subst hmn
  apply Agree.bind (genericTail_agree hlists (h.pass split) hab)
  intro a b _ _ _ hnode
  exact arraySuffix_agree hnode

theorem fullName_agree (hlists : S.Lists L M) (h : S.At f g s) {taken after : List Char}
    (split : s.cursor.rest = taken ++ after) (htick : '\x60' ∉ taken) :
    Agree S.escapes f g s (fullName σ L (s.cursor.pos + byteLength taken) context)
      (fullName τ M (s.cursor.pos + byteLength taken) context)
      fun a b _ => S.node s.depth a b := by
  unfold fullName
  apply Agree.bind (baseName_agree h split htick)
  intro a b taken' after' split' hab
  obtain ⟨ht, hnode, hbase⟩ := hab
  have hat := h.pass split'
  rw [ht] at hat ⊢
  apply agree_peek
  split
  next hpeek =>
    apply genericSuffix_agree hlists hat
    apply hbase
    cases after with
    | nil => simp [Cursor.peek, Cursor.endOfInput] at hpeek
    | cons c cs => simpa [Cursor.peek] using hpeek
  next => exact agree_pure hnode

theorem element_agree (hlists : S.Lists L M) (h : S.At f g s) :
    Agree S.escapes f g s (element σ L) (element τ M) fun a b _ => S.node s.depth a b := by
  rw [element_eq, element_eq]
  apply agree_advance
  intro c after hrest
  have hat := h.advance hrest
  apply agree_elementNameEnd
  intro taken e more split htick
  apply Agree.bind (fullName_agree hlists hat split htick)
  intro a b taken' after' _ hnode
  apply agree_expectAny
  intro noise close last hclose _ hmem
  obtain rfl : close = ']' := by simpa using hmem
  exact agree_seek_behind hclose rfl (agree_pure hnode)

theorem elements_agree (hlists : S.Lists L M) (fuel : Nat) (h : S.At f g s) :
    Agree S.escapes f g s (elements σ L fuel) (elements τ M fuel)
      fun as bs _ => List.Forall₂ (S.node s.depth) as bs := by
  induction fuel generalizing s with
  | zero => exact agree_refuse _
  | succ fuel ih =>
    unfold elements
    apply agree_peek
    apply agree_cursor
    apply agree_check
    intro _
    apply Agree.bind (element_agree hlists h)
    intro a b taken after split hnode
    have hat := h.pass split
    apply agree_peek
    split
    · apply agree_advance
      intro c rest hrest
      have hat' := hat.advance hrest
      apply agree_skipSpaces
      intro spaces rest' hspaces
      apply Agree.bind (ih (hat'.pass hspaces))
      intro as bs _ _ _ hrec
      exact agree_pure (.cons hnode hrec)
    · exact agree_advance fun c rest hrest => agree_pure (.cons hnode .nil)
    · exact agree_cursor (agree_refuse _)

theorem bracketedList_agree (hlists : S.Lists L M) (h : S.At f g s) :
    Agree S.escapes f g s (bracketedList σ L declared) (bracketedList τ M declared)
      fun as bs _ => List.Forall₂ (S.node s.depth) as bs := by
  unfold bracketedList
  apply agree_cursor
  show Agree S.escapes f g s (if s.cursor.startsWith ['[', '['] then _ else _)
    (if s.cursor.startsWith ['[', '['] then _ else _) _
  split
  · apply agree_advance
    intro c after hrest
    have hat := h.advance hrest
    apply Agree.bind (elements_agree hlists _ hat)
    intro as bs _ _ _ hargs
    rw [checkArity, checkArity, S.truncated, hargs.length_eq]
    exact agree_check _ _ fun _ => agree_pure hargs
  · apply agree_expectAny
    intro taken close after hrest _ hmem
    obtain rfl : close = ']' := by simpa using hmem
    exact agree_seek_behind hrest rfl (agree_pure .nil)

theorem plainArgument_agree (hlists : S.Lists L M) (h : S.At f g s) :
    Agree S.escapes f g s (plainArgument σ L) (plainArgument τ M)
      fun a b _ => S.node s.depth a b := by
  rw [plainArgument_eq, plainArgument_eq]
  apply agree_cursor
  apply agree_expectAny
  intro taken e after split ht _
  have htick : '\x60' ∉ taken := fun hc => ht _ hc (by simp)
  show Agree S.escapes f g s (if s.cursor.pos + byteLength taken = s.cursor.pos then _ else _)
    (if s.cursor.pos + byteLength taken = s.cursor.pos then _ else _) _
  split
  · exact agree_check _ _ fun _ => agree_pure (S.object h.depth)
  · exact fullName_agree hlists h split htick

theorem plainArguments_agree (hlists : S.Lists L M) (fuel : Nat) (h : S.At f g s) :
    Agree S.escapes f g s (plainArguments σ L fuel) (plainArguments τ M fuel)
      fun as bs _ => List.Forall₂ (S.node s.depth) as bs := by
  induction fuel generalizing s with
  | zero => exact agree_refuse _
  | succ fuel ih =>
    unfold plainArguments
    apply agree_skipSpaces
    intro spaces after hspaces
    have hat := h.pass hspaces
    apply Agree.bind (plainArgument_agree hlists hat)
    intro a b taken after' split hnode
    have hat' := hat.pass split
    apply agree_skipSpaces
    intro more last hmore
    have hat'' := hat'.pass hmore
    apply agree_peek
    split
    · apply agree_advance
      intro c rest hrest
      apply Agree.bind (ih (hat''.advance hrest))
      intro as bs _ _ _ hrec
      exact agree_pure (.cons hnode hrec)
    · exact agree_advance fun c rest hrest => agree_pure (.cons hnode .nil)
    · exact agree_refuse _
    · exact agree_cursor (agree_refuse _)

theorem plainList_agree (hlists : S.Lists L M) (h : S.At f g s) :
    Agree S.escapes f g s (plainList σ L declared) (plainList τ M declared)
      fun as bs _ => List.Forall₂ (S.node s.depth) as bs := by
  unfold plainList
  apply agree_advance
  intro c after hrest
  have hat := h.advance hrest
  apply agree_eat
  · intro _ _
    exact agree_pure .nil
  · intro _
    apply agree_cursor
    apply Agree.bind (plainArguments_agree hlists _ hat)
    intro as bs _ _ _ hargs
    rw [checkArity, checkArity, S.truncated, hargs.length_eq]
    exact agree_check _ _ fun _ => agree_pure hargs

/-- A plain list may be refused for the mode of one reading alone. -/
theorem plainBranch_agree (hlists : S.Lists L M) (h : S.At f g s) (hab : S.base s.depth a b) :
    Agree S.escapes f g s
      (if context = .root ∧ σ.definitionsOnly then refuse .instantiation
        else deeper (withOwner a (plainList σ L declared)))
      (if context = .root ∧ τ.definitionsOnly then refuse .instantiation
        else deeper (withOwner b (plainList τ M declared)))
      fun as bs _ => List.Forall₂ (S.node (s.depth + 1)) as bs := by
  have hread : Agree S.escapes f g s (deeper (withOwner a (plainList σ L declared)))
      (deeper (withOwner b (plainList τ M declared)))
      fun as bs _ => List.Forall₂ (S.node (s.depth + 1)) as bs :=
    agree_deeper fun hd => agree_withOwner a b (plainList_agree hlists ((h.deeper hd).owned hab))
  rcases S.definitions with heq | hescape
  · rw [heq]
    split
    · exact agree_refuse _
    · exact hread
  · split
    · exact .escapedLeft (hescape _ rfl)
    · split
      · exact .escapedRight (hescape _ rfl)
      · exact hread

theorem listLevel_agree (hlists : S.Lists L M) : S.Lists (listLevel σ L) (listLevel τ M) := by
  intro f g s a b declared context h hab
  unfold listLevel
  apply agree_peek
  split
  · split
    · exact agree_refuse _
    · exact agree_deeper fun hd => bracketedList_agree hlists (h.deeper hd)
  · exact plainBranch_agree hlists h hab
  · exact agree_refuse _
  · exact agree_cursor (agree_refuse _)

theorem argumentLists_agree (levels : Nat) :
    S.Lists (argumentLists σ levels) (argumentLists τ levels) := by
  induction levels with
  | zero => exact listLevel_agree fun _ _ _ _ _ _ _ _ _ => agree_refuse _
  | succ levels ih => exact listLevel_agree ih

theorem wholeName_agree (h : S.At f g s) (hpos : s.cursor.pos = 0) (hrest : s.cursor.rest = text) :
    Agree S.escapes f g s (wholeName σ) (wholeName τ) fun a b _ => S.node s.depth a b := by
  unfold wholeName
  apply agree_cursor
  have hfind (sc : Scopes) : (s.under sc).cursor.findAny? ['\x60'] =
      (findOffset? ['\x60'].contains text).map (s.cursor.pos + ·) := by rw [← hrest]; rfl
  rw [hfind, hfind]
  cases htick : findOffset? ['\x60'].contains text with
  | none =>
    have hno : '\x60' ∉ text := by
      intro hc
      simp only [findOffset?, ite_eq_right_iff, reduceCtorEq, imp_false] at htick
      exact htick (List.any_eq_true.mpr ⟨_, hc, by simp⟩)
    have hlen : (s.cursor.pos + byteLength text) = s.cursor.length := by
      rw [hpos, Cursor.length, h.same, Nat.zero_add]
    show Agree _ f g s (baseName σ s.cursor.length) (baseName τ s.cursor.length) _
    rw [← hlen]
    have split : s.cursor.rest = text ++ [] := by rw [hrest, List.append_nil]
    exact (baseName_agree h split hno).mono fun a b _ _ _ hab => hab.2.1
  | some n =>
    obtain ⟨taken, d, after, htext, hclean, hd, rfl⟩ := findOffset?_eq_some _ _ _ htick
    have hno : '\x60' ∉ taken := fun hc => by simpa using hclean _ hc
    obtain rfl : d = '\x60' := by simpa using hd
    have split : s.cursor.rest = taken ++ '\x60' :: after := by rw [hrest, htext]
    apply Agree.bind (baseName_agree h split hno)
    intro a b taken' after' split' hab
    obtain ⟨ht, -, hbase⟩ := hab
    have hat := h.pass split'
    rw [ht] at hat ⊢
    exact genericSuffix_agree (argumentLists_agree _) hat (hbase rfl)

end Simulation

end ClrNames.Grammar

namespace ClrNames
open Grammar

inductive Matching (escapes : ParseError → Prop) (node : TypeName → TypeName → Prop) :
    Except ParseError TypeName → Except ParseError TypeName → Prop
  | accepted {a b : TypeName} (h : node a b) : Matching escapes node (.ok a) (.ok b)
  | refused {e : ParseError} : Matching escapes node (.error e) (.error e)
  | escapedLeft {e : ParseError} {r : Except ParseError TypeName} (h : escapes e) :
      Matching escapes node (.error e) r
  | escapedRight {e : ParseError} {r : Except ParseError TypeName} (h : escapes e) :
      Matching escapes node r (.error e)

/-- Where nothing escapes, the second outcome is the image of the first. -/
theorem Matching.eq_map {φ : TypeName → TypeName} {r r' : Except ParseError TypeName}
    (h : Matching (fun _ => False) (fun a b => b = φ a) r r') : r' = r.map φ := by
  cases h with
  | accepted h => rw [h]; rfl
  | refused => rfl
  | escapedLeft h => exact h.elim
  | escapedRight h => exact h.elim

theorem Matching.eq {r r' : Except ParseError TypeName}
    (h : Matching (fun _ => False) (fun a b => a = b) r r') : r = r' := by
  have hflip : (fun a b : TypeName => a = b) = fun a b => b = id a := by
    ext a b
    exact eq_comm
  rw [hflip] at h
  rw [h.eq_map, Except.map_id]
  rfl

def ReadOptions.settings (o : ReadOptions) (truncated : Bool) : Settings :=
  { known := o.known, definitionsOnly := o.definitionsOnly, truncated, scopeRule := o.scopeRule }

theorem readClosed_eq (o : ReadOptions) (name text : List Char) (truncated : Bool) :
    readClosed o name text truncated =
      match wholeName (o.settings truncated) ⟨.start text o.containing, 0⟩ with
      | .ok t s => if s.cursor.hasMore then .error ⟨.trailingText s.cursor.rest, name⟩ else .ok t
      | .error e _ => .error e := rfl

theorem readClosed_matching (o o' : ReadOptions) {text : List Char} {truncated : Bool}
    (S : Simulation (o.settings truncated) (o'.settings truncated) text)
    (hscopes : S.scopes ⟨o.containing, none⟩ ⟨o'.containing, none⟩) (name : List Char) :
    Matching S.escapes (S.node 0) (readClosed o name text truncated)
      (readClosed o' name text truncated) := by
  have hagree := S.wholeName_agree (s := ⟨.start text none, 0⟩)
    ⟨hscopes, rfl, List.suffix_refl text, Nat.zero_le _⟩ rfl rfl
  unfold Agree at hagree
  rw [readClosed_eq, readClosed_eq]
  change Agrees _ _ _ _ _ (wholeName (o.settings truncated) ⟨.start text o.containing, 0⟩)
    (wholeName (o'.settings truncated) ⟨.start text o'.containing, 0⟩) at hagree
  generalize wholeName (o.settings truncated) ⟨.start text o.containing, 0⟩ = r at hagree
  generalize wholeName (o'.settings truncated) ⟨.start text o'.containing, 0⟩ = r' at hagree
  cases hagree with
  | @passed a b taken after _ holds =>
    cases after with
    | nil => exact .accepted holds
    | cons c cs => exact .refused
  | refused => exact .refused
  | escapedLeft h => exact .escapedLeft h
  | escapedRight h => exact .escapedRight h

/-- Two readings whose closed texts match do match as a whole: what comes before
the grammar looks at neither settings nor scopes. -/
theorem readText_matching {o o' : ReadOptions} {text : List Char} {escapes : ParseError → Prop}
    {node : TypeName → TypeName → Prop}
    (h : ∀ closed truncated, closeTruncated text = .ok (closed, truncated) →
      Matching escapes node (readClosed o text closed truncated)
        (readClosed o' text closed truncated)) :
    Matching escapes node (readText o text) (readText o' text) := by
  unfold readText
  split
  · exact .refused
  · split
    · exact .refused
    · cases hclose : closeTruncated text with
      | error e => exact .refused
      | ok closing => exact h closing.1 closing.2 hclose

end ClrNames
