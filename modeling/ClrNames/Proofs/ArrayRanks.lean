import ClrNames.Proofs.DottedNames
import ClrNames.Proofs.ExpressionReading

/-!
# Array markers on both sides of a list

Array markers may stand in front of an arity marker and behind the argument list. The
two places are counted by themselves: more than two markers in one of them are not
supported, and whatever stands in the other one, the type is an array if there are any.
-/

set_option autoImplicit false

namespace ClrNames

open Text Grammar

namespace Path

variable (p : Path)

theorem unreferenced : '!' ∉ p.print := by
  intro hmem
  rcases mem_dotted hmem with h | ⟨part, hpart, hc⟩
  · cases h
  · exact (p.mem_segments_unmarked hpart).2 '!' hc (by decide)

/-- A path with array markers behind it is a dotted name. -/
theorem dotted_marked (k : Nat) :
    Dotted (p.print ++ brackets k) p.qualifierChars p.name.chars k where
  split := p.segments_print_append (dot_not_mem_brackets k)
  unmarked := not_marked_of_unclosed fun hc => p.name.unmarked _ hc (by decide)
  plain := by
    intro hhead
    exact p.name.unmarked '!' (List.mem_of_mem_head? hhead) (by decide)

theorem isArray_node (known : String → Bool) : (p.node known).isArray = false :=
  TypeName.isArray_ofChain _ _ _

/-- Arguments that are put for placeholders are put for those in the arguments. -/
theorem subst_node (known : String → Bool) (A args : List TypeName) :
    TypeName.subst A { p.node known with args } =
      { p.node known with args := args.map (TypeName.subst A) } := by
  have hparam : (p.node known).param = none := TypeName.param_ofChain _ _ _
  have hnode : TypeName.subst A (p.node known) = p.node known := TypeName.subst_ofChain _ _ _ _
  rw [TypeName.subst_of_param_none _ hparam] at hnode
  exact TypeName.subst_withArgs _ hparam (congrArg TypeName.enclosing hnode) args

end Path

def Expr.Simple {l : Lists} : Expr l → Prop
  | .leaf _ _ => True
  | .reference _ _ _ _ => True
  | .generic _ _ _ _ _ => False

def Items.Simple : Items → Prop
  | .last e => e.Simple
  | .more e _ rest => e.Simple ∧ rest.Simple

def Args.Simple : Args .any → Prop
  | .empty => True
  | .plain items => items.Simple
  | .bracketed _ => False
  | .skipped _ => False

theorem Expr.Simple.unticked {l : Lists} {e : Expr l} (h : e.Simple) : '\x60' ∉ e.print := by
  intro hmem
  have hhead : '\x60' ∈ e.head := by
    cases e with
    | leaf path markers => exact hmem
    | reference kind index markers byRefs => exact hmem
    | generic base arity nested args markers => exact h.elim
  exact e.head_unmarked hhead (by decide)

theorem Items.Simple.unticked : {items : Items} → items.Simple → '\x60' ∉ items.print
  | .last _, h => Expr.Simple.unticked h
  | .more _ _ _, h => by
    simp [Items.print, Expr.Simple.unticked h.1, Items.Simple.unticked h.2]

theorem Args.Simple.unticked {args : Args .any} (h : args.Simple) : '\x60' ∉ args.print := by
  cases args with
  | empty => decide
  | plain items => simp [Args.print, Items.Simple.unticked h]
  | bracketed elements => exact h.elim
  | skipped text => exact h.elim

namespace Grammar

variable {known : String → Bool} {s : State} {after : List Char}

/-- More than two markers in front of an arity marker are not supported. -/
theorem nameOf_overmarked (σ : Settings) (p : Path) {k : Nat} (hk : 2 < k) (s : State) :
    nameOf σ (p.print ++ brackets k) s =
      .error ⟨.arrayRank k, p.name.chars ++ brackets k⟩ s := by
  have hangles : ¬ ('<' ∈ p.print ++ brackets k ∨ '>' ∈ p.print ++ brackets k) := by
    have hword {c : Char} (hc : c = '<' ∨ c = '>') : c ∉ p.print ++ brackets k := by
      intro hmem
      rcases List.mem_append.mp hmem with hmem | hmem
      · exact p.print_word hmem (by rcases hc with rfl | rfl <;> decide)
      · rcases hc with rfl | rfl <;> rcases mem_brackets hmem with h | h <;> cases h
    exact not_or.mpr ⟨hword (.inl rfl), hword (.inr rfl)⟩
  rw [nameOf_dotted σ (p.dotted_marked k), if_neg hangles, if_pos hk]

/-- Nor are they behind an argument list. -/
theorem arraySuffix_overmarked (t : TypeName) {m : Nat} (hm : 2 < m)
    (h : s.cursor.rest = brackets m ++ after) :
    ∃ u, arraySuffix t s = .error ⟨.arrayRank 3, s.cursor.text⟩ u := by
  obtain ⟨m, rfl⟩ := Nat.exists_eq_add_of_le' hm
  have hrest : s.cursor.rest =
      ['[', ']'] ++ (['[', ']'] ++ (['[', ']'] ++ (brackets m ++ after))) := by
    rw [h, brackets_succ, brackets_succ, brackets_succ]
    rfl
  have hmore (u : State) (hu : u.cursor.rest = ['[', ']'] ++ (brackets m ++ after)) :
      (!u.cursor.startsWith ['[', ']']) = false := by
    simp [Cursor.startsWith, hu]
  unfold arraySuffix
  rw [bind_ok (eat_pass hrest), bind_ok (eat_pass (State.pass_rest _ _ _)), bind_ok (cursor_pass _)]
  exact ⟨_, bind_error (check_refused (hmore _ rfl) _ _) _⟩

section
variable {base : Path} {arity : Decimal} {args : Args .any} {k m : Nat}

def markedName (base : Path) (k : Nat) (arity : Decimal) (args : Args .any) (m : Nat) : List Char :=
  base.print ++ brackets k ++ ('\x60' :: arity.digits ++ (args.print ++ brackets m))

/-- Markers behind a list change nothing in front of them. -/
theorem genericSuffix_marked (hfits : (Expr.generic base arity none args 0).Fits known 0)
    (t : TypeName) (hdepth : s.depth = 0)
    (h : s.cursor.rest = '\x60' :: arity.digits ++ (args.print ++ brackets m)) :
    genericSuffix (argumentLists (scopeless known) 64) t .root s =
      arraySuffix { t with args := args.nodes known }
        (s.pass ('\x60' :: arity.digits ++ args.print) (brackets m)) := by
  obtain ⟨-, hlt, -, hargs⟩ := hfits
  obtain ⟨c, cs, hprint, hopen⟩ := args.print_eq_cons
  have hdigit : ∀ d, (args.print ++ brackets m).head? = some d → d.isDigit = false := by
    rw [hprint]
    rintro d ⟨⟩
    rcases hopen with rfl | rfl <;> rfl
  have hlists : ArgsRead known (levelReader known 64) args 0 := args_read known args rfl
  have hroot : Lists.any = .any → ListContext.root ≠ .plain := fun _ => by decide
  have harity := (arity_reads arity h hdigit).1 hlt
  have htail := (genericTail_reads (s := s.pass ('\x60' :: arity.digits) (args.print ++ brackets m))
    hlists hroot hdepth t arity.value none rfl).1 ⟨fun h => absurd rfl h, hargs⟩
  rw [State.pass_pass] at htail
  unfold genericSuffix
  rw [bind_ok harity]
  exact bind_ok htail _

theorem marked_unticked (base : Path) (k : Nat) : '\x60' ∉ base.print ++ brackets k := by
  intro hmem
  rcases List.mem_append.mp hmem with hmem | hmem
  · exact base.print_word hmem (by decide)
  · rcases mem_brackets hmem with h | h <;> cases h

/-- Behind the list of a name with up to two markers in front of it, the markers that
follow the list are left. -/
theorem wholeName_marked (hfits : (Expr.generic base arity none args 0).Fits known 0)
    (hk : k ≤ 2) (hdepth : s.depth = 0) (h : s.cursor.rest = markedName base k arity args m) :
    ∃ u, u.cursor.text = s.cursor.text ∧ u.cursor.rest = brackets m ∧
      wholeName (scopeless known) s = arraySuffix
        { (base.node known).withArray (0 < k) with args := args.nodes known } u := by
  let tail := '\x60' :: arity.digits ++ (args.print ++ brackets m)
  let marked : State := s.pass (base.print ++ brackets k) tail
  have hpath := (nameOf_path known base ⟨k, Nat.lt_succ_of_le hk⟩ marked).1 hfits.1
  have hrest : s.cursor.rest = (base.print ++ brackets k) ++ tail := h
  have hbase := (baseName_pass (scopeless known) hrest).trans hpath
  refine ⟨marked.pass ('\x60' :: arity.digits ++ args.print) (brackets m), rfl, rfl, ?_⟩
  rw [wholeName_of_marked h (marked_unticked base k), bind_ok hbase]
  exact genericSuffix_marked hfits _ hdepth rfl

/-- More than two markers on one side are refused. -/
theorem wholeName_overmarked (hfits : (Expr.generic base arity none args 0).Fits known 0)
    (hmore : 2 < k ∨ 2 < m) (hdepth : s.depth = 0)
    (h : s.cursor.rest = markedName base k arity args m) :
    ∃ refusal u, wholeName (scopeless known) s = .error refusal u ∧
      refusal.outcome = .unsupported := by
  by_cases hk : 2 < k
  · have hbase := (baseName_pass (scopeless known) h).trans (nameOf_overmarked _ base hk _)
    rw [wholeName_of_marked h (marked_unticked base k)]
    exact ⟨_, _, bind_error hbase _, rfl⟩
  · obtain ⟨u, -, hrest, hwhole⟩ := wholeName_marked hfits (Nat.le_of_not_lt hk) hdepth h
    have hmarkers : u.cursor.rest = brackets m ++ [] := hrest.trans (List.append_nil _).symm
    obtain ⟨v, hrefused⟩ := arraySuffix_overmarked
      { (base.node known).withArray (0 < k) with args := args.nodes known }
      (hmore.resolve_left hk) hmarkers
    exact ⟨_, v, hwhole.trans hrefused, rfl⟩

end

/-- Where only one arity marker stands, and no reference in front of it. -/
theorem not_tailedReference {front rest : List Char} (hfront : '!' ∉ front) (hrest : '\x60' ∉ rest) :
    ¬ TailedReference (front ++ '\x60' :: rest) := by
  rintro ⟨before, marks, after, heq, -⟩
  rcases List.append_eq_append_iff.mp heq with ⟨more, hmore, htail⟩ | ⟨more, hmore, htail⟩
  · cases more with
    | nil => exact hfront (by rw [List.append_nil] at hmore; rw [← hmore]; simp)
    | cons c more =>
      obtain ⟨-, rfl⟩ := List.cons.inj htail
      exact hrest (by simp)
  · exact hfront (by rw [hmore]; simp)

end Grammar

/-- A text that is neither generated nor cut off is read as a whole name. -/
theorem readTypeName_eq_wholeName {known : String → Bool} {text : List Char} (hempty : text ≠ [])
    (hgenerated : isCompilerGenerated text = false) (hlength : byteLength text ≠ 1023) :
    readTypeName known none (String.ofList text) =
      match wholeName (scopeless known) ⟨.start text none, 0⟩ with
      | .ok t s => if s.cursor.hasMore then .error ⟨.trailingText s.cursor.rest, text⟩ else .ok t
      | .error e _ => .error e := by
  have hclosed : closeTruncated text = .ok (text, false) := if_neg fun h => hlength h.1
  have hrule := readText_sameRule { known } .nearest .nowhere (.inl rfl) text
  rw [readTypeName, readName, String.toList_ofList, hrule, readText, if_neg (by simpa using hempty),
    if_neg (by simp [hgenerated]), hclosed]
  rfl

/-- The arguments of a name do not change which markers it may have. -/
theorem readTypeName_marked_nowhere {known : String → Bool} {base : Path} {k : Nat}
    {arity : Decimal} {args : Args .any} {m : Nat}
    (hfits : (Expr.generic base arity none args 0).Fits known 0)
    (hgenerated : isCompilerGenerated (markedName base k arity args m) = false)
    (hlength : byteLength (markedName base k arity args m) ≠ 1023) :
    (k ≤ 2 ∧ m ≤ 2 → readTypeName known none (String.ofList (markedName base k arity args m)) =
      .ok (({ base.node known with args := args.nodes known } : TypeName).withArray (0 < k + m))) ∧
    (2 < k ∨ 2 < m → ∃ refusal,
      readTypeName known none (String.ofList (markedName base k arity args m)) = .error refusal ∧
      refusal.outcome = .unsupported) := by
  have hempty : markedName base k arity args m ≠ [] := by simp [markedName]
  rw [readTypeName_eq_wholeName hempty hgenerated hlength]
  constructor
  · rintro ⟨hk, hm⟩
    obtain ⟨u, -, hrest, hwhole⟩ := wholeName_marked hfits hk rfl
      (s := ⟨.start (markedName base k arity args m) none, 0⟩) rfl
    have hmarks := arraySuffix_pass
      { (base.node known).withArray (0 < k) with args := args.nodes known }
      ⟨m, Nat.lt_succ_of_le hm⟩ (hrest.trans (List.append_nil _).symm) (by simp)
    rw [hwhole, hmarks]
    have hmarked : (({ (base.node known).withArray (0 < k) with args := args.nodes known } :
        TypeName).withArray (0 < m)) =
        ({ base.node known with args := args.nodes known } : TypeName).withArray (0 < k + m) := by
      simp only [TypeName.withArray, Bool.or_assoc, Nat.add_pos_iff_pos_or_pos, Bool.decide_or]
    exact congrArg Except.ok hmarked
  · intro hmore
    obtain ⟨refusal, u, hwhole, hunsupported⟩ := wholeName_overmarked hfits hmore rfl
      (s := ⟨.start (markedName base k arity args m) none, 0⟩) rfl
    rw [hwhole]
    exact ⟨refusal, rfl, hunsupported⟩

/-- Array markers on both sides of a plain list are counted by themselves. With up to two
on each side the type is read, and is an array if there are any at all; with more on one
side it is not supported. -/
theorem readTypeName_marked (known : String → Bool) (containing : Option TypeName) (base : Path)
    (k : Nat) (arity : Decimal) (args : Args .any) (m : Nat) (hsimple : args.Simple)
    (hfits : (Expr.generic base arity none args 0).Fits known 0)
    (hgenerated : isCompilerGenerated (markedName base k arity args m) = false)
    (hlength : byteLength (markedName base k arity args m) ≠ 1023) :
    let name := String.ofList (markedName base k arity args m)
    let seen := containing.elim id fun t => TypeName.subst t.effectiveArgs
    let node := ({ base.node known with args := (args.nodes known).map seen } : TypeName).withArray
      (0 < k + m)
    (k ≤ 2 ∧ m ≤ 2 → readTypeName known containing name = .ok node ∧
      node.isArray = decide (0 < k + m)) ∧
    (2 < k ∨ 2 < m → ∃ refusal, readTypeName known containing name = .error refusal ∧
      refusal.outcome = .unsupported) := by
  intro name seen node
  obtain ⟨hfew, hmany⟩ := readTypeName_marked_nowhere hfits hgenerated hlength
  have harray : node.isArray = decide (0 < k + m) := by
    rw [TypeName.withArray_isArray]
    exact congrArg (· || _) (base.isArray_node known)
  cases containing with
  | none =>
    have hsame : (args.nodes known).map seen = args.nodes known := List.map_id _
    have hnode : node = ({ base.node known with args := args.nodes known } : TypeName).withArray
        (0 < k + m) := by
      show ({ base.node known with args := (args.nodes known).map seen } : TypeName).withArray _ = _
      rw [hsame]
    exact ⟨fun h => ⟨hnode ▸ hfew h, harray⟩, hmany⟩
  | some t =>
    have htailed : ¬ TailedReference name.toList := by
      have hfront : '!' ∉ base.print ++ brackets k := by
        intro hmem
        rcases List.mem_append.mp hmem with hmem | hmem
        · exact base.unreferenced hmem
        · rcases mem_brackets hmem with h | h <;> cases h
      have hrest : '\x60' ∉ arity.digits ++ (args.print ++ brackets m) := by
        have hdigits : '\x60' ∉ arity.digits := fun hmem => absurd (arity.isDigit _ hmem) (by decide)
        have hbrackets : '\x60' ∉ brackets m := by
          intro hmem
          rcases mem_brackets hmem with h | h <;> cases h
        simp [hdigits, hsimple.unticked, hbrackets]
      rw [String.toList_ofList]
      exact not_tailedReference hfront hrest
    have hbelow : readTypeName known (some t) name =
        (readTypeName known none name).map (TypeName.subst t.effectiveArgs) :=
      readName_below_substitutes known false t name htailed
    rw [hbelow]
    constructor
    · intro h
      refine ⟨?_, harray⟩
      rw [hfew h]
      show Except.ok (TypeName.subst t.effectiveArgs (TypeName.withArray _ _)) = _
      rw [TypeName.subst_withArray, base.subst_node]
      rfl
    · intro h
      obtain ⟨refusal, hrefused, hunsupported⟩ := hmany h
      rw [hrefused]
      exact ⟨refusal, rfl, hunsupported⟩

/-- Each argument of the list stands below a declaration, and both sides are marked. -/
theorem readTypeName_marked_both :
    let base : Path := ⟨[⟨['a'], by simp, by simp [grammarMarks]⟩],
      ⟨['B'], by simp, by simp [grammarMarks]⟩⟩
    let first : Position := ⟨⟨['0'], by simp, by simp⟩, by decide⟩
    let args : Args .any := .plain (.last (.reference .type first 0 0))
    let one : Decimal := ⟨['1'], by simp, by simp⟩
    let holder : TypeName := { TypeName.topLevel "" "H" with args := [.topLevel "" "c"] }
    args.Simple ∧ (Expr.generic base one none args 0).Fits (fun _ => false) 0 ∧
      isCompilerGenerated (markedName base 1 one args 2) = false ∧
      byteLength (markedName base 1 one args 2) ≠ 1023 ∧
      String.ofList (markedName base 1 one args 2) = "a.B[]\x601<!0>[][]" ∧
      readTypeName (fun _ => false) (some holder) (String.ofList (markedName base 1 one args 2)) =
        .ok (({ TypeName.topLevel "a" "B" with args := [.topLevel "" "c"] } :
          TypeName).withArray true) := by
  intro base first args one holder
  have hfits : (Expr.generic base one none args 0).Fits (fun _ => false) 0 := by decide
  have hgenerated : isCompilerGenerated (markedName base 1 one args 2) = false := by decide
  have hlength : byteLength (markedName base 1 one args 2) ≠ 1023 := by decide
  have hread := ((readTypeName_marked (fun _ => false) (some holder) base 1 one args 2 trivial hfits
    hgenerated hlength).1 ⟨by decide, by decide⟩).1
  exact ⟨trivial, hfits, hgenerated, hlength, by decide, hread.trans (by decide +kernel)⟩

/-- Three markers are read where two of them stand in front of the arity marker. -/
theorem three_markers_read :
    let base : Path := ⟨[], ⟨['b'], by simp, by simp [grammarMarks]⟩⟩
    let args : Args .any := .plain (.last (.leaf ⟨[], ⟨['c'], by simp, by simp [grammarMarks]⟩⟩ 0))
    let one : Decimal := ⟨['1'], by simp, by simp⟩
    args.Simple ∧ (Expr.generic base one none args 0).Fits (fun _ => false) 0 ∧
      isCompilerGenerated (markedName base 2 one args 1) = false ∧
      byteLength (markedName base 2 one args 1) ≠ 1023 ∧ 2 < 2 + 1 ∧
      String.ofList (markedName base 2 one args 1) = "b[][]\x601<c>[]" ∧
      readTypeName (fun _ => false) none (String.ofList (markedName base 2 one args 1)) =
        .ok (({ TypeName.topLevel "" "b" with args := [.topLevel "" "c"] } :
          TypeName).withArray true) := by
  intro base args one
  have hread : readText { known := fun _ => false } (markedName base 2 one args 1) =
      .ok (({ TypeName.topLevel "" "b" with args := [.topLevel "" "c"] } :
        TypeName).withArray true) := by decide +kernel
  refine ⟨trivial, by decide, by decide, by decide, by decide, by decide, ?_⟩
  rw [readTypeName, readName, String.toList_ofList, hread]

end ClrNames
