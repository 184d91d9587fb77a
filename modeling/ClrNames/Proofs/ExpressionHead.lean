import ClrNames.Proofs.ExpressionText
import ClrNames.Proofs.Reads
import ClrNames.Proofs.ReferenceScope

/-!
# How the head of an expression is read

Dotted names and references are read as their nodes, and what an arity marker
announces as the type with its arguments and the types nested in it, as soon as
its argument list is read as what it denotes.
-/

set_option autoImplicit false

namespace ClrNames.Grammar
open Text

def scopeless (known : String → Bool) : Settings :=
  { known, definitionsOnly := false, truncated := false, scopeRule := .nowhere }

section
variable (known : String → Bool)

theorem namespaceLength_eq (parts : List (List Char)) (count : Nat) :
    namespaceLength known parts count =
      Nat.findGreatest (fun k => known (String.ofList (dotted (parts.take k))) = false) count := by
  induction count with
  | zero => rfl
  | succ count ih =>
    rw [namespaceLength, Nat.findGreatest_succ, ih]
    cases known (String.ofList (dotted (parts.take (count + 1)))) <;> rfl

theorem rank_le (m : Markers) : ¬ maxArrayMarkers < m.val := by
  have hlt := m.isLt
  unfold maxArrayMarkers
  omega

theorem not_mem_markers {c : Char} (m : Markers) (hopen : c ≠ '[') (hclose : c ≠ ']') :
    c ∉ m.print := by
  intro hmem
  rcases mem_brackets hmem with h | h
  · exact hopen h
  · exact hclose h

theorem head_angles {l : Lists} (e : Expr l) :
    (!e.head.any fun c => c == '<' || c == '>') = true := by
  rw [Bool.not_eq_true', List.any_eq_false]
  intro c hc
  have hmark := e.head_unmarked hc
  simp only [List.mem_cons, List.not_mem_nil, or_false, not_or] at hmark
  simp [hmark]

theorem nameOf_path (p : Path) (m : Markers) (s : State) :
    Reads (nameOf (scopeless known) (p.print ++ m.print)) s (p.enclosingSize known ≤ 64)
      ((p.node known).withArray (0 < m.val)) s := by
  have hsegments := p.segments_print_append (not_mem_markers m (c := '.') (by decide) (by decide))
  have hname : (p.name.chars ++ m.print).head? ≠ some '!' := by
    obtain ⟨c, cs, hcs⟩ := List.exists_cons_of_ne_nil p.name.chars_ne
    rw [hcs]
    rintro ⟨⟩
    exact p.name.unmarked '!' (by simp [hcs]) (by decide)
  have hclose := not_marked_of_unclosed fun hc : ']' ∈ p.name.chars =>
    p.name.unmarked _ hc (by decide)
  have hparts : (!p.name.chars.isEmpty && !p.qualifierChars.any List.isEmpty) = true := by
    have hany := p.segments_any_isEmpty
    rw [Path.segments, List.any_append, Bool.or_eq_false_iff] at hany
    simp [p.name.chars_ne, hany.1]
  unfold nameOf
  apply Reads.step (check_pass (head_angles (.leaf (l := .any) p m)) _ s)
  rw [hsegments, List.getLastD_concat, List.dropLast_concat, if_neg hname]
  unfold simpleName
  rw [m.print_eq, arrayMarkers_append hclose, withoutMarkers_append_brackets hclose]
  dsimp only
  rw [if_neg (rank_le m)]
  apply Reads.step (check_pass hparts _ s)
  rw [scopeless, namespaceLength_eq]
  exact (reads_check s decide_eq_true_iff rfl).then_ok rfl

theorem nameOf_base (p : Path) (s : State) :
    Reads (nameOf (scopeless known) p.print) s (p.enclosingSize known ≤ 64) (p.node known) s := by
  have hpath := nameOf_path known p 0 s
  rwa [show Markers.print 0 = [] from rfl, List.append_nil,
    show decide (0 < (0 : Markers).val) = false from rfl, TypeName.withArray_false] at hpath

theorem readIndex?_digits (index : Position) :
    readIndex? index.digits = some (UInt32.ofNat index.value) := by
  obtain ⟨d, ds, hdigits⟩ := List.exists_cons_of_ne_nil index.digits_ne
  have hplus : index.digits.head? ≠ some '+' := by
    rw [hdigits]
    rintro ⟨⟩
    exact absurd (index.isDigit '+' (by simp [hdigits])) (by decide)
  have hshape : ¬ (index.digits.isEmpty || !index.digits.all Char.isDigit) = true := by
    simpa [index.digits_ne] using index.isDigit
  unfold readIndex?
  rw [if_neg hplus, if_neg hshape]
  exact if_pos index.value_lt

theorem readParam?_digits (kind : ParamKind) (index : Position) :
    readParam? (kind.marks ++ index.digits) = some ⟨UInt32.ofNat index.value, kind⟩ := by
  cases kind with
  | method =>
    show (readIndex? index.digits).map _ = _
    rw [readIndex?_digits]
    rfl
  | type =>
    obtain ⟨d, ds, hdigits⟩ := List.exists_cons_of_ne_nil index.digits_ne
    have hd : d ≠ '!' := by
      rintro rfl
      exact absurd (index.isDigit '!' (by simp [hdigits])) (by decide)
    have hindex := readIndex?_digits index
    rw [hdigits] at hindex ⊢
    unfold readParam?
    split
    · simp_all [ParamKind.marks]
    · rw [ParamKind.marks, List.singleton_append, List.drop_one, List.tail_cons, hindex]
      rfl

theorem nameOf_reference (kind : ParamKind) (index : Position) (m : Markers) (byRefs : Nat)
    (s : State) :
    Reads (nameOf (scopeless known)
        (kind.marks ++ index.digits ++ m.print ++ List.replicate byRefs '&')) s True
      ((TypeName.placeholder ⟨UInt32.ofNat index.value, kind⟩).withArray (0 < m.val)) s := by
  have hword (c : Char) (hne : c ≠ '!') (hdigit : c.isDigit = false) :
      c ∉ kind.marks ++ index.digits := by
    intro hc
    rcases List.mem_append.mp hc with hc | hc
    · exact hne (by cases kind <;> simpa [ParamKind.marks] using hc)
    · rw [index.isDigit c hc] at hdigit
      cases hdigit
  have hdot : '.' ∉ kind.marks ++ index.digits ++ m.print ++ List.replicate byRefs '&' := by
    simp only [List.mem_append, not_or]
    exact ⟨⟨not_or.mp (mt List.mem_append.mpr (hword '.' (by decide) (by decide))),
      not_mem_markers m (by decide) (by decide)⟩, by simp⟩
  have hmark : '&' ∉ kind.marks ++ index.digits ++ m.print := by
    rw [List.mem_append, not_or]
    exact ⟨hword '&' (by decide) (by decide), not_mem_markers m (by decide) (by decide)⟩
  have hhead : (kind.marks ++ index.digits ++ m.print ++ List.replicate byRefs '&').head? =
      some '!' := by
    cases kind <;> rfl
  have hclose := not_marked_of_unclosed (hword ']' (by decide) (by decide))
  unfold nameOf
  apply Reads.step (check_pass (head_angles (.reference (l := .any) kind index m byRefs)) _ s)
  rw [segments_of_dotless hdot, List.getLastD_cons, List.getLastD_nil, if_pos hhead]
  unfold backReference
  dsimp only
  rw [stripByRef_append_marks hmark, m.print_eq, arrayMarkers_append hclose,
    withoutMarkers_append_brackets hclose,
    stripByRef_of_unmarked (hword '&' (by decide) (by decide)), readParam?_digits, if_neg (rank_le m)]
  apply Reads.of_ok
  show EStateM.Result.ok ((resolve .nowhere s.cursor _).withArray _) s = _
  rw [resolve_nowhere]

end

section
variable {known : String → Bool} {settings : Settings} {lists : ListReader} {s : State}
  {taken after : List Char} {F : Prop} {t : TypeName} {context : ListContext}

theorem Reads.baseName (h : s.cursor.rest = taken ++ after)
    (hname : Reads (nameOf settings taken) (s.pass taken after) F t (s.pass taken after)) :
    Reads (baseName settings (s.cursor.pos + byteLength taken)) s F t (s.pass taken after) := by
  unfold Reads
  rw [baseName_pass settings h]
  exact hname

theorem arity_reads (n : Decimal) (h : s.cursor.rest = '\x60' :: n.digits ++ after)
    (hafter : ∀ c, after.head? = some c → c.isDigit = false) :
    Reads arity s (n.value < 18446744073709551616) n.value
      (s.pass ('\x60' :: n.digits) after) := by
  have htake : (n.digits ++ after).takeWhile Char.isDigit = n.digits := by
    rw [List.takeWhile_append_of_pos n.isDigit]
    cases after with
    | nil => simp
    | cons c cs => simp [hafter c rfl]
  have hshape : (!n.digits.isEmpty) = true := by simp [n.digits_ne]
  have hmarker : s.cursor.rest = ['\x60'] ++ (n.digits ++ after) := h
  unfold arity
  apply Reads.eat hmarker
  apply Reads.cursor
  apply Reads.step (check_pass rfl _ _)
  apply Reads.cursor
  simp only [State.pass_rest, htake, ← byteLength_digits n.isDigit]
  apply Reads.step (check_pass hshape _ _)
  apply Reads.step (seek_pass rfl)
  rw [State.pass_pass]
  exact (reads_check _ decide_eq_true_iff rfl).then_ok rfl

theorem arraySuffix_pass (t : TypeName) (m : Markers) (h : s.cursor.rest = m.print ++ after)
    (hafter : ¬ ['[', ']'] <+: after) :
    arraySuffix t s = .ok (t.withArray (0 < m.val)) (s.pass m.print after) := by
  have hend {u : State} (hu : u.cursor.rest = after) : ¬ ['[', ']'] <+: u.cursor.rest :=
    hu ▸ hafter
  have hfinish (mark : Bool) {u : State} (hu : u.cursor.rest = after) :
      (do check (!(← cursor).startsWith ['[', ']']) (.arrayRank (maxArrayMarkers + 1))
          return t.withArray mark : Reader TypeName) u = .ok (t.withArray mark) u := by
    have hcheck : (!u.cursor.startsWith ['[', ']']) = true := by
      rw [Cursor.startsWith, Bool.not_eq_true', ← Bool.not_eq_true, List.isPrefixOf_iff_prefix]
      exact hend hu
    exact bind_ok (check_pass hcheck _ u) _
  unfold arraySuffix
  obtain ⟨_ | _ | _ | m, hm⟩ := m
  · have hrest : s.cursor.rest = after := h
    have hpass : s.pass (Markers.print ⟨0, hm⟩) after = s := hrest ▸ State.pass_nil s
    rw [bind_ok (eat_other (hend hrest)), bind_ok (eat_other (hend hrest)), hpass]
    exact hfinish false hrest
  · have hrest : s.cursor.rest = ['[', ']'] ++ after := h
    rw [bind_ok (eat_pass hrest), bind_ok (eat_other (hend (State.pass_rest _ _ _)))]
    exact hfinish true rfl
  · have hrest : s.cursor.rest = ['[', ']'] ++ (['[', ']'] ++ after) := h
    rw [bind_ok (eat_pass hrest), bind_ok (eat_pass (State.pass_rest _ _ _)), State.pass_pass]
    exact hfinish true rfl
  · omega

end

def Delimited (after : List Char) : Prop :=
  after.head? ≠ some '[' ∧ after.head? ≠ some '\x60'

theorem not_marker_of_head? {after : List Char} (h : after.head? ≠ some '[') :
    ¬ ['[', ']'] <+: after := by
  rintro ⟨more, rfl⟩
  exact h rfl

def ArgsRead (known : String → Bool) (lists : ListReader) {l : Lists} (args : Args l)
    (depth : Nat) : Prop :=
  ∀ (owner : TypeName) (declared : Nat) (context : ListContext) (s : State) (after : List Char),
    (l = .any → context ≠ .plain) → s.depth = depth → s.cursor.rest = args.print ++ after →
    Reads (lists owner declared context) s (args.Fits known depth declared) (args.nodes known)
      (s.pass args.print after)

def ExprRead (known : String → Bool) (lists : ListReader) {l : Lists} (e : Expr l)
    (depth : Nat) : Prop :=
  ∀ (context : ListContext) (s : State) (after : List Char), (l = .any → context ≠ .plain) →
    s.depth = depth → Delimited after → s.cursor.rest = e.print ++ after →
    Reads (fullName (scopeless known) lists (s.cursor.pos + byteLength e.head) context) s
      (e.Fits known depth) (e.node known) (s.pass e.print after)

section
variable {known : String → Bool} {lists : ListReader} {l : Lists} {args : Args l} {depth : Nat}
  {s : State} {after : List Char} {context : ListContext}

theorem genericTail_reads (hargs : ArgsRead known lists args depth)
    (hcontext : l = .any → context ≠ .plain) (hdepth : s.depth = depth) (base : TypeName)
    (declared : Nat) (nested : Option Path)
    (h : s.cursor.rest = nestedPrint nested ++ (args.print ++ after)) :
    Reads (genericTail lists base declared context) s
      ((nested ≠ none → base.enclosingChain.length + (nestedSegments nested).length ≤ 64) ∧
        args.Fits known depth declared)
      (((nestedSegments nested).map String.ofList).foldl TypeName.nested
        { base with args := args.nodes known })
      (s.pass (nestedPrint nested ++ args.print) after) := by
  obtain ⟨c, cs, hprint, hopen⟩ := args.print_eq_cons
  unfold genericTail
  cases nested with
  | none =>
    have hrest : s.cursor.rest = c :: (cs ++ after) := by rw [h, hprint]; rfl
    have hdot : c ≠ '.' := by rcases hopen with rfl | rfl <;> decide
    apply Reads.peek hrest
    rw [if_neg hdot]
    apply Reads.congr (F := args.Fits known depth declared)
    · exact (hargs base declared context s after hcontext hdepth h).then_ok rfl
    · simp
  | some p =>
    have hrest : s.cursor.rest = '.' :: (p.print ++ (args.print ++ after)) := by rw [h]; rfl
    apply Reads.peek hrest
    rw [if_pos rfl]
    apply Reads.congr (F := base.enclosingChain.length + p.segments.length ≤ 64 ∧
      args.Fits known depth declared)
    · have hsplit : (s.pass ['.'] (p.print ++ (args.print ++ after))).cursor.rest =
          p.print ++ c :: (cs ++ after) := by rw [State.pass_rest, hprint]; rfl
      have hstops : ['\x60', '[', '<'] ⊆ ['\x60', '<', '>', '[', ']', ',', '&', ' '] := by decide
      have hstop : ∀ d ∈ p.print, d ∉ ['\x60', '[', '<'] :=
        fun d hd hmem => p.print_word hd (hstops hmem)
      have hopen' : c ∈ ['\x60', '[', '<'] := by rcases hopen with rfl | rfl <;> decide
      have htick : (c != '\x60') = true := by rcases hopen with rfl | rfl <;> decide
      have hnames : (!p.segments.any List.isEmpty) = true := by rw [p.segments_any_isEmpty]; rfl
      unfold nestedInGeneric
      apply Reads.advance hrest
      apply Reads.step (expectAny_pass hsplit hstop hopen')
      apply Reads.cursor
      rw [charAt_pass hsplit]
      apply Reads.step (check_pass htick _ _)
      apply Reads.step (region_pass hsplit)
      rw [p.segments_print]
      apply Reads.step (check_pass hnames _ _)
      apply Reads.bind (reads_check _ decide_eq_true_iff rfl)
      apply Reads.step (seek_pass hsplit)
      rw [State.pass_pass]
      have hlist : (s.pass (['.'] ++ p.print) (c :: (cs ++ after))).cursor.rest =
          args.print ++ after := by rw [State.pass_rest, hprint]; rfl
      have hread := hargs base declared context
        (s.pass (['.'] ++ p.print) (c :: (cs ++ after))) after hcontext hdepth hlist
      rw [State.pass_pass] at hread
      exact hread.then_ok rfl
    · simp [nestedSegments]

theorem genericSuffix_reads (hargs : ArgsRead known lists args depth)
    (hcontext : l = .any → context ≠ .plain) (hdepth : s.depth = depth) (base : TypeName)
    (arity : Decimal) (nested : Option Path) (markers : Markers) (hafter : Delimited after)
    (h : s.cursor.rest = '\x60' :: arity.digits ++
      (nestedPrint nested ++ (args.print ++ (markers.print ++ after)))) :
    Reads (genericSuffix lists base context) s
      (arity.value < 18446744073709551616 ∧
        (nested ≠ none → base.enclosingChain.length + (nestedSegments nested).length ≤ 64) ∧
        args.Fits known depth arity.value)
      ((((nestedSegments nested).map String.ofList).foldl TypeName.nested
        { base with args := args.nodes known }).withArray (0 < markers.val))
      (s.pass ('\x60' :: arity.digits ++ (nestedPrint nested ++ (args.print ++ markers.print)))
        after) := by
  obtain ⟨c, cs, hprint, hopen⟩ := args.print_eq_cons
  have hdigit : ∀ d, (nestedPrint nested ++ (args.print ++ (markers.print ++ after))).head? =
      some d → d.isDigit = false := by
    intro d hd
    cases nested with
    | none =>
      rw [hprint] at hd
      obtain rfl := Option.some.inj hd
      rcases hopen with rfl | rfl <;> rfl
    | some p =>
      obtain rfl := Option.some.inj hd
      rfl
  have hrest : (s.pass ('\x60' :: arity.digits)
      (nestedPrint nested ++ (args.print ++ (markers.print ++ after)))).cursor.rest =
      nestedPrint nested ++ (args.print ++ (markers.print ++ after)) := rfl
  have htail := genericTail_reads (s := s.pass ('\x60' :: arity.digits) _) hargs hcontext hdepth
    base arity.value nested hrest
  rw [State.pass_pass] at htail
  unfold genericSuffix
  apply Reads.bind (arity_reads arity h hdigit)
  apply htail.then_ok
  rw [arraySuffix_pass _ markers rfl (not_marker_of_head? hafter.1), State.pass_pass]
  simp only [List.append_assoc]

theorem fullName_end (t : TypeName) (hafter : after.head? ≠ some '\x60')
    (h : s.cursor.rest = after) :
    (do if (← peek) = '\x60' then genericSuffix lists t context else pure t : Reader TypeName) s =
      .ok t s := by
  have hpeek : s.cursor.peek ≠ '\x60' := by
    rw [Cursor.peek, h]
    cases after with
    | nil => decide
    | cons c cs =>
      rintro rfl
      exact hafter rfl
  show (if s.cursor.peek = '\x60' then genericSuffix lists t context else pure t) s = _
  rw [if_neg hpeek]
  rfl

theorem leaf_reads (path : Path) (markers : Markers) :
    ExprRead known lists (.leaf (l := l) path markers) depth := by
  intro context s after _ _ hafter h
  have hbase := Reads.baseName h (nameOf_path known path markers _)
  unfold fullName
  exact hbase.then_ok (fullName_end _ hafter.2 rfl)

theorem reference_reads (kind : ParamKind) (index : Position) (markers : Markers) (byRefs : Nat) :
    ExprRead known lists (.reference (l := l) kind index markers byRefs) depth := by
  intro context s after _ _ hafter h
  have hbase := Reads.baseName h (nameOf_reference known kind index markers byRefs _)
  unfold fullName
  exact hbase.then_ok (fullName_end _ hafter.2 rfl)

theorem generic_reads (base : Path) (arity : Decimal) (nested : Option Path) (markers : Markers)
    (hargs : ArgsRead known lists args depth) :
    ExprRead known lists (.generic base arity nested args markers) depth := by
  intro context s after hcontext hdepth hafter h
  have hsplit : s.cursor.rest = base.print ++ ('\x60' :: (arity.digits ++
      (nestedPrint nested ++ (args.print ++ (markers.print ++ after))))) := by
    rw [h]
    simp [Expr.print]
  have hchain : (base.node known).enclosingChain.length = base.enclosingSize known := by
    rw [Path.node, TypeName.length_enclosingChain_ofChain, List.length_map, List.length_drop,
      Path.enclosingSize]
  have hprint : base.print ++ ('\x60' :: arity.digits ++
      (nestedPrint nested ++ (args.print ++ markers.print))) =
      (Expr.generic base arity nested args markers).print := by simp [Expr.print]
  have hbase := Reads.baseName hsplit (nameOf_base known base _)
  have hsuffix := genericSuffix_reads (s := s.pass base.print _) hargs hcontext hdepth
    (base.node known) arity nested markers hafter rfl
  rw [hchain, State.pass_pass, hprint] at hsuffix
  unfold fullName
  apply Reads.congr
  · apply hbase.bind
    apply Reads.peek rfl
    rw [if_pos rfl]
    exact hsuffix
  · rw [Expr.Fits]
    cases nested with
    | none =>
      constructor
      · rintro ⟨hbase, harity, -, hfits⟩
        exact ⟨hbase, harity, hbase, hfits⟩
      · rintro ⟨hbase, harity, -, hfits⟩
        exact ⟨hbase, harity, fun h => absurd rfl h, hfits⟩
    | some p => simp

end

end ClrNames.Grammar
