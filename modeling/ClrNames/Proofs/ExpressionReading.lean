import ClrNames.Proofs.ExpressionHead

/-!
# Expressions are read as what they denote

A reading follows the syntax of the expression whose text it reads, one routine
for each kind of list. By induction on the expression it ends with the node that
is denoted, unless a limit is exceeded.
-/

set_option autoImplicit false

namespace ClrNames.Grammar
open Text

def ElementsRead (known : String → Bool) (lists : ListReader) (es : Elements) (depth : Nat) :
    Prop :=
  ∀ (fuel : Nat) (s : State) (after : List Char), s.depth = depth →
    (es.nodes known).length ≤ fuel → s.cursor.rest = es.print ++ ']' :: after →
    Reads (elements (scopeless known) lists fuel) s (es.Fits known depth) (es.nodes known)
      (s.pass (es.print ++ [']']) after)

def ItemsRead (known : String → Bool) (lists : ListReader) (items : Items) (depth : Nat) : Prop :=
  ∀ (fuel spaces : Nat) (s : State) (after : List Char), s.depth = depth →
    (items.nodes known).length ≤ fuel →
    s.cursor.rest = List.replicate spaces ' ' ++ (items.print ++ '>' :: after) →
    Reads (plainArguments (scopeless known) lists fuel) s (items.Fits known depth)
      (items.nodes known) (s.pass (List.replicate spaces ' ' ++ (items.print ++ ['>'])) after)

section
variable {known : String → Bool} {lists : ListReader} {depth : Nat} {s : State}
  {after : List Char}

theorem skipSpaces_replicate (spaces : Nat)
    (h : s.cursor.rest = List.replicate spaces ' ' ++ after) (hafter : after.head? ≠ some ' ') :
    skipSpaces s = .ok () (s.pass (List.replicate spaces ' ') after) := by
  have hstop : after.takeWhile (· == ' ') = [] ∧ after.dropWhile (· == ' ') = after := by
    cases after with
    | nil => exact ⟨rfl, rfl⟩
    | cons c cs =>
      have hc : (c == ' ') = false := by
        rw [beq_eq_false_iff_ne]
        rintro rfl
        exact hafter rfl
      exact ⟨by rw [List.takeWhile_cons, hc]; rfl, by rw [List.dropWhile_cons, hc]; rfl⟩
  have hspace : ∀ c ∈ List.replicate spaces ' ', (c == ' ') = true := by simp
  rw [skipSpaces_pass, h, List.takeWhile_append_of_pos hspace,
    List.dropWhile_append_of_pos hspace, hstop.1, hstop.2, List.append_nil]

theorem skipSpaces_none (h : s.cursor.rest.head? ≠ some ' ') : skipSpaces s = .ok () s :=
  skipSpaces_replicate 0 rfl h

theorem elementNameEnd_head {l : Lists} (e : Expr l) {d : Char} (hd : d = ',' ∨ d = ']')
    (h : s.cursor.rest = e.print ++ d :: after) :
    elementNameEnd s = .ok (s.cursor.pos + byteLength e.head) s := by
  obtain ⟨c, more, hsplit, hc⟩ := e.head_append d after
  have hstop : c = '\x60' ∨ c = ',' ∨ c = ']' := by
    rcases hc with rfl | rfl
    · exact .inl rfl
    · exact .inr hd
  rw [elementNameEnd, bind_ok (cursor_pass s), h, hsplit, nameEnd?_head e _ more hstop]
  rfl

theorem element_reads {e : Expr .any} (he : ExprRead known lists e depth) (assembly : Assembly)
    (hdepth : s.depth = depth)
    (h : s.cursor.rest = '[' :: (e.print ++ (assembly.print ++ ']' :: after))) :
    Reads (element (scopeless known) lists) s (e.Fits known depth) (e.node known)
      (s.pass ('[' :: (e.print ++ (assembly.print ++ [']']))) after) := by
  obtain ⟨d, more, hnext, hd⟩ : ∃ d more, assembly.print ++ ']' :: after = d :: more ∧
      (d = ',' ∨ d = ']') := by
    cases assembly with
    | none => exact ⟨_, _, rfl, .inr rfl⟩
    | some text _ => exact ⟨_, _, rfl, .inl rfl⟩
  have hclose : ∀ c ∈ assembly.print, c ∉ [']'] := by
    intro c hc hmem
    rw [List.mem_singleton.mp hmem] at hc
    exact assembly.print_unclosed hc
  have hdelimited : Delimited (assembly.print ++ ']' :: after) := by
    rw [hnext]
    rcases hd with rfl | rfl <;> exact ⟨by simp, by simp⟩
  rw [element_eq]
  apply Reads.advance h
  rw [hnext]
  apply Reads.step (elementNameEnd_head e hd rfl)
  rw [← hnext]
  have hexpr := he .bracketed (s.pass ['['] _) (assembly.print ++ ']' :: after) (fun _ => by simp)
    hdepth hdelimited rfl
  apply hexpr.then_ok
  rw [bind_ok (expectAny_pass (State.pass_rest _ _ _) hclose (by simp)),
    bind_ok (seek_behind (State.pass_rest _ _ _) rfl), State.pass_pass, State.pass_pass]
  rfl

theorem elements_last {e : Expr .any} (he : ExprRead known lists e depth) (assembly : Assembly) :
    ElementsRead known lists (.last e assembly) depth := by
  intro fuel s after hdepth hfuel h
  cases fuel with
  | zero => exact absurd hfuel (Nat.not_succ_le_zero _)
  | succ fuel =>
    have hfirst : s.cursor.rest = '[' :: (e.print ++ (assembly.print ++ ']' :: (']' :: after))) := by
      rw [h]
      simp [Elements.print]
    have hprint : '[' :: (e.print ++ (assembly.print ++ [']'])) ++ [']'] =
        (Elements.last e assembly).print ++ [']'] := by simp [Elements.print]
    have helement := element_reads he assembly hdepth hfirst
    unfold elements
    apply Reads.peek hfirst
    apply Reads.cursor
    apply Reads.step (check_pass rfl _ s)
    apply Reads.congr (F := e.Fits known depth ∧ True)
    · apply helement.bind
      apply Reads.peek rfl
      apply Reads.advance rfl
      rw [State.pass_pass, hprint]
      exact Reads.of_ok rfl
    · rw [and_true]
      rfl

theorem elements_more {e : Expr .any} {rest : Elements} (he : ExprRead known lists e depth)
    (hrest : ElementsRead known lists rest depth) (assembly : Assembly) (spaces : Nat) :
    ElementsRead known lists (.more e assembly spaces rest) depth := by
  intro fuel s after hdepth hfuel h
  cases fuel with
  | zero => exact absurd hfuel (Nat.not_succ_le_zero _)
  | succ fuel =>
    have hfirst : s.cursor.rest = '[' :: (e.print ++ (assembly.print ++ ']' ::
        (',' :: (List.replicate spaces ' ' ++ (rest.print ++ ']' :: after))))) := by
      rw [h]
      simp [Elements.print]
    have hprint : '[' :: (e.print ++ (assembly.print ++ [']'])) ++ [','] ++
        List.replicate spaces ' ' ++ (rest.print ++ [']']) =
        (Elements.more e assembly spaces rest).print ++ [']'] := by simp [Elements.print]
    have hspace : (rest.print ++ ']' :: after).head? ≠ some ' ' := by
      obtain ⟨cs, hcs⟩ := rest.print_eq_cons
      rw [hcs]
      simp
    have helement := element_reads he assembly hdepth hfirst
    have helements := hrest fuel (s.pass ('[' :: (e.print ++ (assembly.print ++ [']'])) ++ [','] ++
      List.replicate spaces ' ') (rest.print ++ ']' :: after)) after hdepth
      (Nat.le_of_succ_le_succ hfuel) rfl
    rw [State.pass_pass, hprint] at helements
    unfold elements
    apply Reads.peek hfirst
    apply Reads.cursor
    apply Reads.step (check_pass rfl _ s)
    apply helement.bind
    apply Reads.peek rfl
    apply Reads.advance rfl
    rw [State.pass_pass]
    apply Reads.step (skipSpaces_replicate spaces rfl hspace)
    rw [State.pass_pass]
    exact helements.then_ok rfl

theorem checkArity_reads (declared found : Nat) (s : State) :
    Reads (checkArity (scopeless known) declared found) s (found = declared) () s :=
  reads_check s (by simp [scopeless]) rfl

theorem bracketed_reads {es : Elements} (declared : Nat) (h : ElementsRead known lists es depth)
    (hdepth : s.depth = depth) (hrest : s.cursor.rest = (Args.bracketed es).print ++ after) :
    Reads (bracketedList (scopeless known) lists declared) s
      (es.Fits known depth ∧ (es.nodes known).length = declared) (es.nodes known)
      (s.pass (Args.bracketed es).print after) := by
  obtain ⟨cs, hcs⟩ := es.print_eq_cons
  have hopen : s.cursor.rest = '[' :: (es.print ++ ']' :: after) := by
    rw [hrest]
    simp [Args.print]
  have hstart : s.cursor.startsWith ['[', '['] = true := by
    rw [Cursor.startsWith, hopen, hcs]
    rfl
  have hfuel : (es.nodes known).length ≤ s.cursor.rest.length + 1 := by
    have := es.length_nodes_le known
    rw [hopen, List.length_cons, List.length_append]
    omega
  have helements := h (s.cursor.rest.length + 1) (s.pass ['['] (es.print ++ ']' :: after)) after
    hdepth hfuel rfl
  rw [State.pass_pass] at helements
  unfold bracketedList
  apply Reads.cursor
  rw [if_pos hstart]
  apply Reads.advance hopen
  apply helements.bind
  exact (checkArity_reads _ _ _).then_ok rfl

theorem skipped_reads (text : Skipped) (declared : Nat)
    (hrest : s.cursor.rest = (Args.skipped text).print ++ after) :
    bracketedList (scopeless known) lists declared s =
      .ok [] (s.pass (Args.skipped text).print after) := by
  have hopen : s.cursor.rest = ('[' :: text.chars) ++ ']' :: after := by
    rw [hrest]
    simp [Args.print]
  have hstart : ¬ s.cursor.startsWith ['[', '['] = true := by
    rw [Cursor.startsWith, List.isPrefixOf_iff_prefix, hopen, List.cons_append, doubled_iff]
    exact text.head?_append after
  have hclose : ∀ c ∈ '[' :: text.chars, c ∉ [']'] := by
    intro c hc hmem
    rw [List.mem_singleton.mp hmem] at hc
    simp [text.unclosed] at hc
  show (if s.cursor.startsWith ['[', '['] then _ else _ : Reader (List TypeName)) s = _
  rw [if_neg hstart, bind_ok (expectAny_pass hopen hclose (by simp)),
    bind_ok (seek_behind hopen rfl)]
  rfl

theorem plainArgument_reads {e : Expr .plain} (he : ExprRead known lists e depth) {d : Char}
    (hd : d = ',' ∨ d = '>') (hdepth : s.depth = depth)
    (h : s.cursor.rest = e.print ++ d :: after) :
    Reads (plainArgument (scopeless known) lists) s (e.Fits known depth) (e.node known)
      (s.pass e.print (d :: after)) := by
  obtain ⟨c, more, hsplit, hc⟩ := e.head_append d after
  have hhead : s.cursor.rest = e.head ++ c :: more := by rw [h, hsplit]
  have hstops : ['\x60', ',', '>'] ⊆ ['\x60', '<', '>', ',', ' '] := by decide
  have hclean : ∀ c ∈ e.head, c ∉ ['\x60', ',', '>'] :=
    fun c hc hmem => e.head_unmarked hc (hstops hmem)
  have hstop : c ∈ ['\x60', ',', '>'] := by
    rcases hc with rfl | rfl
    · simp
    · rcases hd with rfl | rfl <;> simp
  have hmoved : ¬ s.cursor.pos + byteLength e.head = s.cursor.pos := by
    have hle := length_le_byteLength e.head
    have hpos := List.length_pos_iff.mpr e.head_ne_nil
    omega
  have hdelimited : Delimited (d :: after) := by
    rcases hd with rfl | rfl <;> exact ⟨by simp, by simp⟩
  rw [plainArgument_eq]
  apply Reads.cursor
  apply Reads.step (expectAny_pass hhead hclean hstop)
  rw [if_neg hmoved]
  exact he .plain s (d :: after) nofun hdepth hdelimited h

theorem items_last {e : Expr .plain} (he : ExprRead known lists e depth) :
    ItemsRead known lists (.last e) depth := by
  intro fuel spaces s after hdepth hfuel h
  cases fuel with
  | zero => exact absurd hfuel (Nat.not_succ_le_zero _)
  | succ fuel =>
    have hspace := (Items.last e).print_append_head? (d := ' ') (by simp) ('>' :: after)
    have hargument := plainArgument_reads
      (s := s.pass (List.replicate spaces ' ') (e.print ++ '>' :: after)) he (.inr rfl) hdepth rfl
    have hprint : List.replicate spaces ' ' ++ e.print ++ ['>'] =
        List.replicate spaces ' ' ++ ((Items.last e).print ++ ['>']) := by simp [Items.print]
    rw [State.pass_pass] at hargument
    unfold plainArguments
    apply Reads.step (skipSpaces_replicate spaces h hspace)
    apply Reads.congr (F := e.Fits known depth ∧ True)
    · apply hargument.bind
      apply Reads.step (skipSpaces_none (by simp))
      apply Reads.peek rfl
      apply Reads.advance rfl
      rw [State.pass_pass, hprint]
      exact Reads.of_ok rfl
    · rw [and_true]
      rfl

theorem items_more {e : Expr .plain} {rest : Items} (he : ExprRead known lists e depth)
    (hrest : ItemsRead known lists rest depth) (gap : Nat) :
    ItemsRead known lists (.more e gap rest) depth := by
  intro fuel spaces s after hdepth hfuel h
  cases fuel with
  | zero => exact absurd hfuel (Nat.not_succ_le_zero _)
  | succ fuel =>
    have hspace := (Items.more e gap rest).print_append_head? (d := ' ') (by simp) ('>' :: after)
    have hlater : (Items.more e gap rest).print ++ '>' :: after =
        e.print ++ ',' :: (List.replicate gap ' ' ++ (rest.print ++ '>' :: after)) := by
      simp [Items.print]
    have hargument := plainArgument_reads (s := s.pass (List.replicate spaces ' ') (e.print ++ ',' ::
      (List.replicate gap ' ' ++ (rest.print ++ '>' :: after)))) he (.inl rfl) hdepth rfl
    have hprint : List.replicate spaces ' ' ++ e.print ++ [','] ++
        (List.replicate gap ' ' ++ (rest.print ++ ['>'])) =
        List.replicate spaces ' ' ++ ((Items.more e gap rest).print ++ ['>']) := by
      simp [Items.print]
    have hitems := hrest fuel gap (s.pass (List.replicate spaces ' ' ++ e.print ++ [','])
      (List.replicate gap ' ' ++ (rest.print ++ '>' :: after))) after hdepth
      (Nat.le_of_succ_le_succ hfuel) rfl
    rw [State.pass_pass] at hargument
    rw [State.pass_pass, hprint] at hitems
    unfold plainArguments
    apply Reads.step (skipSpaces_replicate spaces h hspace)
    rw [hlater]
    apply hargument.bind
    apply Reads.step (skipSpaces_none (by simp))
    apply Reads.peek rfl
    apply Reads.advance rfl
    rw [State.pass_pass]
    exact hitems.then_ok rfl

theorem plain_reads {items : Items} (declared : Nat) (h : ItemsRead known lists items depth)
    (hdepth : s.depth = depth) (hrest : s.cursor.rest = '<' :: (items.print ++ '>' :: after)) :
    Reads (plainList (scopeless known) lists declared) s
      (items.Fits known depth ∧ (items.nodes known).length = declared) (items.nodes known)
      (s.pass ('<' :: (items.print ++ ['>'])) after) := by
  have hfilled : ¬ ['>'] <+: (s.pass ['<'] (items.print ++ '>' :: after)).cursor.rest := by
    rintro ⟨more, hmore⟩
    apply items.print_append_head? (d := '>') (by simp) ('>' :: after)
    rw [State.pass_rest] at hmore
    rw [← hmore]
    rfl
  have hfuel : (items.nodes known).length ≤ (items.print ++ '>' :: after).length + 1 := by
    have := items.length_nodes_le known
    rw [List.length_append]
    omega
  have hitems := h ((items.print ++ '>' :: after).length + 1) 0
    (s.pass ['<'] (items.print ++ '>' :: after)) after hdepth hfuel rfl
  rw [State.pass_pass] at hitems
  unfold plainList
  apply Reads.advance hrest
  apply Reads.step (eat_other hfilled)
  rw [if_neg (by decide)]
  apply Reads.cursor
  apply hitems.bind
  exact (checkArity_reads _ _ _).then_ok rfl

theorem empty_reads (declared : Nat) (hrest : s.cursor.rest = '<' :: (['>'] ++ after)) :
    plainList (scopeless known) lists declared s = .ok [] (s.pass ['<', '>'] after) := by
  unfold plainList
  rw [bind_ok (advance_pass hrest), bind_ok (eat_pass (State.pass_rest _ _ _))]
  rfl

end

section
variable {known : String → Bool} {l : Lists} {levels depth : Nat}

def levelReader (known : String → Bool) (levels : Nat) : ListReader :=
  argumentLists (scopeless known) levels

/-- Where a list may nest deeper, the lists inside it have one level less left. -/
theorem levelReader_eq (known : String → Bool) (h : levels + depth = 64) : ∃ lists,
    levelReader known levels = listLevel (scopeless known) lists ∧
      (depth < 64 → ∃ fewer, fewer + (depth + 1) = 64 ∧ lists = levelReader known fewer) := by
  cases levels with
  | zero => exact ⟨_, rfl, fun hdepth => by omega⟩
  | succ levels => exact ⟨_, rfl, fun _ => ⟨levels, by omega, rfl⟩⟩

theorem listLevel_bracket {lists : ListReader} {owner : TypeName} {declared : Nat}
    {context : ListContext} {s t : State} {cs : List Char} {F : Prop} {as : List TypeName}
    (hcontext : context ≠ .plain) (hrest : s.cursor.rest = '[' :: cs)
    (h : s.depth < 64 → Reads (bracketedList (scopeless known) lists declared)
      { s with depth := s.depth + 1 } F as { t with depth := t.depth + 1 }) :
    Reads (listLevel (scopeless known) lists owner declared context) s (s.depth < 64 ∧ F) as t := by
  unfold listLevel
  apply Reads.peek hrest
  show Reads (if context = .plain then _ else _) s _ as t
  rw [if_neg hcontext]
  exact Reads.deeper h

theorem listLevel_angle {lists : ListReader} {owner : TypeName} {declared : Nat}
    {context : ListContext} {s : State} {taken after cs : List Char} {F : Prop}
    {as : List TypeName} (hrest : s.cursor.rest = '<' :: cs)
    (h : ∀ u : State, u.depth = s.depth + 1 → u.cursor.rest = s.cursor.rest → s.depth < 64 →
      Reads (plainList (scopeless known) lists declared) u F as (u.pass taken after)) :
    Reads (listLevel (scopeless known) lists owner declared context) s (s.depth < 64 ∧ F) as
      (s.pass taken after) := by
  unfold listLevel
  apply Reads.peek hrest
  show Reads (if context = .root ∧ (scopeless known).definitionsOnly = true then _ else _) s _ as _
  rw [if_neg (by simp [scopeless])]
  apply Reads.deeper
  intro hdepth
  exact Reads.withOwner (h _ rfl rfl hdepth)

theorem args_empty (h : levels + depth = 64) :
    ArgsRead known (levelReader known levels) (.empty (l := l)) depth := by
  intro owner declared context s after _ hdepth hrest
  subst hdepth
  obtain ⟨lists, hlists, -⟩ := levelReader_eq known h
  rw [hlists]
  apply Reads.congr (F := s.depth < 64 ∧ True)
  · apply listLevel_angle hrest
    intro u _ hsame _
    exact Reads.of_ok (empty_reads declared (hsame.trans hrest))
  · rw [and_true]
    rfl

theorem args_plain {items : Items} (h : levels + depth = 64)
    (hitems : ∀ fewer, fewer + (depth + 1) = 64 →
      ItemsRead known (levelReader known fewer) items (depth + 1)) :
    ArgsRead known (levelReader known levels) (.plain (l := l) items) depth := by
  intro owner declared context s after _ hdepth hrest
  subst hdepth
  obtain ⟨lists, hlists, hfewer⟩ := levelReader_eq known h
  have hopen : s.cursor.rest = '<' :: (items.print ++ '>' :: after) := by
    rw [hrest]
    simp [Args.print]
  rw [hlists]
  apply listLevel_angle hopen
  intro u hdepth hsame hlt
  obtain ⟨fewer, hlevels, rfl⟩ := hfewer hlt
  exact plain_reads declared (hitems fewer hlevels) hdepth (hsame.trans hopen)

theorem args_bracketed {es : Elements} (h : levels + depth = 64)
    (helements : ∀ fewer, fewer + (depth + 1) = 64 →
      ElementsRead known (levelReader known fewer) es (depth + 1)) :
    ArgsRead known (levelReader known levels) (.bracketed es) depth := by
  intro owner declared context s after hcontext hdepth hrest
  subst hdepth
  obtain ⟨lists, hlists, hfewer⟩ := levelReader_eq known h
  rw [hlists]
  apply listLevel_bracket (hcontext rfl) hrest
  intro hlt
  obtain ⟨fewer, hlevels, rfl⟩ := hfewer hlt
  exact bracketed_reads (s := { s with depth := s.depth + 1 }) declared (helements fewer hlevels)
    rfl hrest

theorem args_skipped (text : Skipped) (h : levels + depth = 64) :
    ArgsRead known (levelReader known levels) (.skipped text) depth := by
  intro owner declared context s after hcontext hdepth hrest
  subst hdepth
  obtain ⟨lists, hlists, -⟩ := levelReader_eq known h
  rw [hlists]
  apply Reads.congr (F := s.depth < 64 ∧ True)
  · apply listLevel_bracket (hcontext rfl) hrest
    intro _
    exact Reads.of_ok (skipped_reads (s := { s with depth := s.depth + 1 }) text declared hrest)
  · rw [and_true]
    rfl

end

section
variable (known : String → Bool)

mutual

theorem expr_read {l : Lists} : ∀ (e : Expr l) {levels depth : Nat}, levels + depth = 64 →
    ExprRead known (levelReader known levels) e depth
  | .leaf path markers, _, _, _ => leaf_reads path markers
  | .reference kind index markers byRefs, _, _, _ => reference_reads kind index markers byRefs
  | .generic base arity nested args markers, _, _, h =>
    generic_reads base arity nested markers (args_read args h)

theorem args_read {l : Lists} : ∀ (args : Args l) {levels depth : Nat}, levels + depth = 64 →
    ArgsRead known (levelReader known levels) args depth
  | .empty, _, _, h => args_empty h
  | .plain items, _, _, h => args_plain h fun _ hfewer => items_read items hfewer
  | .bracketed es, _, _, h => args_bracketed h fun _ hfewer => elements_read es hfewer
  | .skipped text, _, _, h => args_skipped text h

theorem items_read : ∀ (items : Items) {levels depth : Nat}, levels + depth = 64 →
    ItemsRead known (levelReader known levels) items depth
  | .last e, _, _, h => items_last (expr_read e h)
  | .more e gap rest, _, _, h => items_more (expr_read e h) (items_read rest h) gap

theorem elements_read : ∀ (es : Elements) {levels depth : Nat}, levels + depth = 64 →
    ElementsRead known (levelReader known levels) es depth
  | .last e assembly, _, _, h => elements_last (expr_read e h) assembly
  | .more e assembly spaces rest, _, _, h =>
    elements_more (expr_read e h) (elements_read rest h) assembly spaces

end

theorem wholeName_of_unmarked {settings : Settings} {s : State} {text : List Char}
    (hstart : s.cursor.pos = 0) (htext : s.cursor.text = text)
    (hrest : s.cursor.rest = text) (htick : '\x60' ∉ text) :
    wholeName settings s = baseName settings (s.cursor.pos + byteLength text) s := by
  have hfind : s.cursor.findAny? ['\x60'] = none := by
    have hany : s.cursor.rest.any ['\x60'].contains = false := by
      rw [hrest, List.any_eq_false]
      intro c hc
      have hne : c ≠ '\x60' := fun heq => htick (heq ▸ hc)
      simpa using hne
    rw [Cursor.findAny?, findOffset?, if_neg (by simp [hany]), Option.map_none]
  rw [wholeName, bind_ok (cursor_pass s), hfind, hstart, Nat.zero_add, ← htext]
  rfl

theorem wholeName_of_marked {settings : Settings} {s : State} {base more : List Char}
    (hrest : s.cursor.rest = base ++ '\x60' :: more) (htick : '\x60' ∉ base) :
    wholeName settings s = (baseName settings (s.cursor.pos + byteLength base) >>= fun t =>
      genericSuffix (argumentLists settings 64) t .root) s := by
  have hfind : s.cursor.findAny? ['\x60'] = some (s.cursor.pos + byteLength base) := by
    have hclean : ∀ c ∈ base, ['\x60'].contains c = false := by
      intro c hc
      have hne : c ≠ '\x60' := fun heq => htick (heq ▸ hc)
      simpa using hne
    rw [Cursor.findAny?, hrest, findOffset?_append _ _ _ _ hclean rfl]
    rfl
  rw [wholeName, bind_ok (cursor_pass s), hfind]
  rfl

theorem wholeName_reads (e : Expr .any) {s : State} (hstart : s.cursor.pos = 0)
    (htext : s.cursor.text = e.print) (hrest : s.cursor.rest = e.print) (hdepth : s.depth = 0) :
    Reads (wholeName (scopeless known)) s (e.Fits known 0) (e.node known) (s.pass e.print []) := by
  have hall : s.cursor.rest = e.print ++ [] := by rw [hrest, List.append_nil]
  have htick : '\x60' ∉ e.head := fun hc => e.head_unmarked hc (by simp)
  unfold Reads
  cases e with
  | leaf path markers =>
    rw [wholeName_of_unmarked hstart htext hrest htick]
    exact Reads.baseName hall (nameOf_path known path markers _)
  | reference kind index markers byRefs =>
    rw [wholeName_of_unmarked hstart htext hrest htick]
    exact Reads.baseName hall (nameOf_reference known kind index markers byRefs _)
  | generic base arity nested args markers =>
    obtain ⟨more, hmore⟩ : ∃ more, s.cursor.rest = base.print ++ '\x60' :: more :=
      ⟨_, by rw [hrest]; simp [Expr.print]; rfl⟩
    have hbase := Reads.baseName hmore (nameOf_base known base _)
    have hexpr := expr_read known (.generic base arity nested args markers) (show 64 + 0 = 64 from rfl)
      .root s [] (fun _ => by simp) hdepth ⟨by simp, by simp⟩ hall
    have hname : (baseName (scopeless known) (s.cursor.pos + byteLength base.print) >>= fun t =>
        genericSuffix (levelReader known 64) t .root) s =
        fullName (scopeless known) (levelReader known 64)
          (s.cursor.pos + byteLength base.print) .root s := by
      apply hbase.bind_eq
      rw [bind_ok (peek_pass (State.pass_rest _ _ _)), if_pos rfl]
    rw [wholeName_of_marked hmore htick]
    unfold levelReader at hname
    rw [hname]
    exact hexpr

end

end ClrNames.Grammar

namespace ClrNames
open Grammar

/-- Every expression is read as the node that it denotes below the table, as long
as it keeps the limits, and is refused as malformed otherwise. Left out are the
texts of compiler-generated types and those that count as cut off. -/
theorem readTypeName_expr (known : String → Bool) (e : Expr .any)
    (hclosure : ¬ "c__DisplayClass".toList <:+: e.print)
    (hanonymous : ¬ ".<>c".toList <:+: e.print)
    (hlength : ¬ (Text.byteLength e.print = 1023 ∧ '\x60' ∈ e.print)) :
    (e.Fits known 0 → readTypeName known none e.text = .ok (e.node known)) ∧
    (¬ e.Fits known 0 → ∃ refusal, readTypeName known none e.text = .error refusal ∧
      refusal.outcome = .malformed) := by
  have hempty : ¬ e.print.isEmpty = true := by simpa using e.print_ne_nil
  have hgenerated : ¬ isCompilerGenerated e.print = true := by
    rw [isCompilerGenerated, Bool.or_eq_true, Text.occurs_iff, Text.occurs_iff]
    exact not_or.mpr ⟨hclosure, hanonymous⟩
  have hclosed : closeTruncated e.print = .ok (e.print, false) := if_neg hlength
  have hread := wholeName_reads known e (s := ⟨.start e.print none, 0⟩) rfl rfl rfl rfl
  have hrule := readText_sameRule { known } .nearest .nowhere (.inl rfl) e.print
  have htext : readTypeName known none e.text =
      readClosed { known, scopeRule := .nowhere } e.print e.print false := by
    rw [readTypeName, readName, Expr.text, String.toList_ofList, hrule, readText, if_neg hempty,
      if_neg hgenerated, hclosed]
    rfl
  rw [htext]
  constructor
  · intro hfits
    have hrun := hread.1 hfits
    rw [scopeless] at hrun
    rw [readClosed_eq, ReadOptions.settings, hrun]
    rfl
  · intro hfits
    obtain ⟨refusal, u, herror, hmalformed⟩ := hread.2 hfits
    refine ⟨refusal, ?_, hmalformed⟩
    rw [scopeless] at herror
    rw [readClosed_eq, ReadOptions.settings, herror]

theorem readTypeName_map :
    let outer : Identifier := ⟨['O', 'u', 't', 'e', 'r'], by simp, by simp [grammarMarks]⟩
    let item : Path := ⟨[⟨['a', 'p', 'p'], by simp, by simp [grammarMarks]⟩, outer],
      ⟨['I', 't', 'e', 'm'], by simp, by simp [grammarMarks]⟩⟩
    let first : Position := ⟨⟨['0'], by simp, by simp⟩, by decide⟩
    let map : Expr .any := .generic ⟨[], ⟨['M', 'a', 'p'], by simp, by simp [grammarMarks]⟩⟩
      ⟨['2'], by simp, by simp⟩ none
      (.plain (.more (.reference .type first 1 0) 1 (.last (.leaf item 0)))) 0
    map.text = "Map\x602<!0[], app.Outer.Item>" ∧ map.Fits (· == "app.Outer") 0 ∧
    readTypeName (· == "app.Outer") none map.text =
      .ok { nspace := "", name := "Map"
            args := [(TypeName.placeholder ⟨0, .type⟩).withArray true,
              (TypeName.topLevel "app" "Outer").nested "Item"] } := by
  intro outer item first map
  have hfits : map.Fits (· == "app.Outer") 0 := by decide
  refine ⟨by decide, hfits, ?_⟩
  rw [(readTypeName_expr (· == "app.Outer") map (by decide) (by decide) (by decide)).1 hfits]
  decide

end ClrNames
