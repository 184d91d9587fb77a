import ClrNames.Proofs.Expression
import ClrNames.Proofs.Segments

/-!
# Where the parts of an expression end

The readers of the grammar find the end of a name by searching for a delimiter.
In the text of an expression they find the end of its head, which is all of it
or, for a generic type, what stands in front of the arity marker.
-/

set_option autoImplicit false

namespace ClrNames

open Text Grammar

namespace Path

variable (p : Path)

theorem mem_segments_unmarked {part : List Char} (h : part ∈ p.segments) :
    part ≠ [] ∧ ∀ c ∈ part, c ∉ grammarMarks := by
  rcases List.mem_append.mp h with h | h
  · obtain ⟨identifier, -, rfl⟩ := List.mem_map.mp h
    exact ⟨identifier.chars_ne, identifier.unmarked⟩
  · obtain rfl := List.mem_singleton.mp h
    exact ⟨p.name.chars_ne, p.name.unmarked⟩

theorem print_word {c : Char} (h : c ∈ p.print) :
    c ∉ ['\x60', '<', '>', '[', ']', ',', '&', ' '] := by
  have hmarks : ['\x60', '<', '>', '[', ']', ',', '&', ' '] ⊆ grammarMarks := by decide
  intro hmem
  rcases mem_dotted h with rfl | ⟨part, hpart, hc⟩
  · simp at hmem
  · exact (p.mem_segments_unmarked hpart).2 c hc (hmarks hmem)

theorem segments_any_isEmpty : p.segments.any List.isEmpty = false := by
  rw [List.any_eq_false]
  intro part hpart
  simpa using (p.mem_segments_unmarked hpart).1

theorem segments_dotless : ∀ part ∈ p.segments, '.' ∉ part :=
  fun _ hpart hc => (p.mem_segments_unmarked hpart).2 _ hc (by simp [grammarMarks])

theorem segments_print : Text.segments p.print = p.segments :=
  segments_dotted p.segments_dotless (by simp [Path.segments])

theorem segments_print_append {more : List Char} (h : '.' ∉ more) :
    Text.segments (p.print ++ more) = p.qualifierChars ++ [p.name.chars ++ more] :=
  segments_append p.segments_dotless h

theorem print_eq_cons : ∃ c cs, p.print = c :: cs ∧ c ∉ grammarMarks := by
  cases hparts : p.segments with
  | nil => simp [Path.segments] at hparts
  | cons part parts =>
    have hpart : part ∈ p.segments := by simp [hparts]
    obtain ⟨hne, hclean⟩ := p.mem_segments_unmarked hpart
    obtain ⟨c, cs, rfl⟩ := List.exists_cons_of_ne_nil hne
    have hc := hclean c (by simp)
    cases parts with
    | nil => exact ⟨c, cs, by simp [Path.print, hparts, dotted], hc⟩
    | cons next others =>
      refine ⟨c, cs ++ ['.'] ++ dotted (next :: others), ?_, hc⟩
      rw [Path.print, hparts, dotted, List.intercalate_cons_cons]
      rfl

end Path

theorem Assembly.print_unclosed (assembly : Assembly) : ']' ∉ assembly.print := by
  cases assembly with
  | none => simp [print]
  | some text h => simp [print, h]

theorem Markers.print_eq (m : Markers) : m.print = brackets m.val := rfl

/-- A head is a word, then array markers, then by-reference marks. -/
theorem Expr.head_eq {l : Lists} (e : Expr l) : ∃ word m k, e.head =
    word ++ brackets m ++ List.replicate k '&' ∧ word ≠ [] ∧
      ∀ c ∈ word, c ∉ ['\x60', '<', '>', '[', ']', ',', '&', ' '] := by
  have hpath (p : Path) : p.print ≠ [] ∧
      ∀ c ∈ p.print, c ∉ ['\x60', '<', '>', '[', ']', ',', '&', ' '] := by
    obtain ⟨c, cs, heq, -⟩ := p.print_eq_cons
    exact ⟨by simp [heq], fun c hc => p.print_word hc⟩
  cases e with
  | leaf path markers =>
    exact ⟨path.print, markers.val, 0, by simp [head, markers.print_eq], hpath path⟩
  | reference kind index markers byRefs =>
    refine ⟨kind.marks ++ index.digits, markers.val, byRefs, ?_, ?_, ?_⟩
    · simp [head, markers.print_eq]
    · simp [index.digits_ne]
    · intro c hc hmem
      rcases List.mem_append.mp hc with hc | hc
      · have hmark : c = '!' := by cases kind <;> simpa [ParamKind.marks] using hc
        simp [hmark] at hmem
      · have hdigit := index.isDigit c hc
        simp only [List.mem_cons, List.not_mem_nil, or_false] at hmem
        rcases hmem with rfl | rfl | rfl | rfl | rfl | rfl | rfl | rfl <;> cases hdigit
  | generic base arity nested args markers =>
    exact ⟨base.print, 0, 0, by simp [head], hpath base⟩

theorem Expr.head_ne_nil {l : Lists} (e : Expr l) : e.head ≠ [] := by
  obtain ⟨word, m, k, heq, hne, -⟩ := e.head_eq
  simp [heq, hne]

/-- Only array markers close a bracket inside of a head. -/
theorem Expr.head_unmarked {l : Lists} (e : Expr l) {c : Char} (h : c ∈ e.head) :
    c ∉ ['\x60', '<', '>', ',', ' '] := by
  obtain ⟨word, m, k, heq, -, hword⟩ := e.head_eq
  rw [heq, List.mem_append, List.mem_append] at h
  intro hmem
  rcases h with (h | h) | h
  · have hmarks : ['\x60', '<', '>', ',', ' '] ⊆
        ['\x60', '<', '>', '[', ']', ',', '&', ' '] := by decide
    exact hword c h (hmarks hmem)
  · rcases mem_brackets h with rfl | rfl <;> simp at hmem
  · obtain rfl := List.eq_of_mem_replicate h
    simp at hmem

namespace Grammar

theorem nameEnd?_word {word : List Char} (rest : List Char)
    (hword : ∀ c ∈ word, c ∉ ['\x60', ',', '[', ']']) (before : Char) (offset : Nat)
    (hbefore : word = [] → before ≠ '[') : ∃ last, last ≠ '[' ∧
      nameEnd? before offset (word ++ rest) = nameEnd? last (offset + byteLength word) rest := by
  induction word generalizing before offset with
  | nil => exact ⟨before, hbefore rfl, rfl⟩
  | cons c word ih =>
    have hc := hword c (by simp)
    simp only [List.mem_cons, List.not_mem_nil, or_false, not_or] at hc
    obtain ⟨last, hlast, heq⟩ := ih (fun d hd => hword d (by simp [hd])) c
      (offset + c.utf8Size) (fun _ => hc.2.2.1)
    refine ⟨last, hlast, ?_⟩
    rw [List.cons_append, nameEnd?, if_neg (by simp [hc]), heq, byteLength_cons, Nat.add_assoc]

theorem nameEnd?_brackets (m : Nat) (rest : List Char) (before : Char) (offset : Nat)
    (hbefore : before ≠ '[') : ∃ last, last ≠ '[' ∧
      nameEnd? before offset (brackets m ++ rest) =
        nameEnd? last (offset + byteLength (brackets m)) rest := by
  induction m generalizing before offset with
  | zero => exact ⟨before, hbefore, rfl⟩
  | succ m ih =>
    obtain ⟨last, hlast, heq⟩ := ih ']' (offset + '['.utf8Size + ']'.utf8Size) (by decide)
    refine ⟨last, hlast, ?_⟩
    rw [brackets_succ, List.cons_append, List.cons_append, nameEnd?, if_neg (by simp), nameEnd?,
      if_neg (by simp), heq, byteLength_cons, byteLength_cons]
    congr 1
    omega

/-- The name inside an element ends behind the head of the expression. -/
theorem nameEnd?_head {l : Lists} (e : Expr l) (offset : Nat) {d : Char} (more : List Char)
    (hd : d = '\x60' ∨ d = ',' ∨ d = ']') :
    nameEnd? '[' offset (e.head ++ d :: more) = some (offset + byteLength e.head) := by
  obtain ⟨word, m, k, heq, hne, hword⟩ := e.head_eq
  have hstops : ['\x60', ',', '[', ']'] ⊆ ['\x60', '<', '>', '[', ']', ',', '&', ' '] := by
    decide
  have hclean : ∀ c ∈ word, c ∉ ['\x60', ',', '[', ']'] :=
    fun c hc hmem => hword c hc (hstops hmem)
  have hmarks : ∀ c ∈ List.replicate k '&', c ∉ ['\x60', ',', '[', ']'] := by
    intro c hc
    obtain rfl := List.eq_of_mem_replicate hc
    decide
  rw [heq, List.append_assoc, List.append_assoc]
  obtain ⟨c₁, h₁, e₁⟩ := nameEnd?_word
    (brackets m ++ (List.replicate k '&' ++ d :: more)) hclean '['
    offset (fun h => absurd h hne)
  obtain ⟨c₂, h₂, e₂⟩ := nameEnd?_brackets m (List.replicate k '&' ++ d :: more) c₁
    (offset + byteLength word) h₁
  obtain ⟨c₃, h₃, e₃⟩ := nameEnd?_word (d :: more) hmarks c₂
    (offset + byteLength word + byteLength (brackets m)) (fun _ => h₂)
  rw [e₁, e₂, e₃, nameEnd?, if_pos, byteLength_append, byteLength_append]
  · simp [Nat.add_assoc]
  · rcases hd with rfl | rfl | rfl <;> simp [h₃]

end Grammar

section
variable {l : Lists} (e : Expr l) (known : String → Bool)

theorem Expr.head_prefix : e.print = e.head ∨ ∃ tail, e.print = e.head ++ '\x60' :: tail := by
  cases e with
  | leaf path markers => exact .inl rfl
  | reference kind index markers byRefs => exact .inl rfl
  | generic base arity nested args markers => exact .inr ⟨_, by simp [print, head]; rfl⟩

/-- Behind the head comes the arity marker or what follows the expression. -/
theorem Expr.head_append (d : Char) (after : List Char) : ∃ c more,
    e.print ++ d :: after = e.head ++ c :: more ∧ (c = '\x60' ∨ c = d) := by
  rcases e.head_prefix with heq | ⟨tail, heq⟩
  · exact ⟨d, after, by rw [heq], .inr rfl⟩
  · exact ⟨'\x60', tail ++ d :: after, by rw [heq, List.append_assoc]; rfl, .inl rfl⟩

theorem Elements.print_eq_cons (elements : Elements) : ∃ cs, elements.print = '[' :: cs := by
  cases elements with
  | last e assembly => exact ⟨_, rfl⟩
  | more e assembly spaces rest => exact ⟨_, rfl⟩

theorem Expr.print_append_head? {d : Char} (hd : d ∈ ['\x60', '<', '>', ',', ' '])
    (rest : List Char) : (e.print ++ rest).head? ≠ some d := by
  obtain ⟨c, cs, hhead⟩ := List.exists_cons_of_ne_nil e.head_ne_nil
  have hc : c ≠ d := by
    rintro rfl
    exact e.head_unmarked (by simp [hhead]) hd
  rcases e.head_prefix with heq | ⟨tail, heq⟩ <;> simp [heq, hhead, hc]

/-- No delimiter stands in front of an argument. -/
theorem Items.print_append_head? (items : Items) {d : Char}
    (hd : d ∈ ['\x60', '<', '>', ',', ' ']) (rest : List Char) :
    (items.print ++ rest).head? ≠ some d := by
  cases items with
  | last e => exact e.print_append_head? hd rest
  | more e spaces others =>
    rw [print, List.append_assoc, List.append_assoc]
    exact e.print_append_head? hd _

theorem Args.print_eq_cons (args : Args l) :
    ∃ c cs, args.print = c :: cs ∧ (c = '[' ∨ c = '<') := by
  cases args with
  | empty => exact ⟨_, _, rfl, .inr rfl⟩
  | plain items => exact ⟨_, _, rfl, .inr rfl⟩
  | bracketed elements => exact ⟨_, _, rfl, .inl rfl⟩
  | skipped text => exact ⟨_, _, rfl, .inl rfl⟩

theorem Expr.print_ne_nil : e.print ≠ [] := by
  rcases e.head_prefix with heq | ⟨tail, heq⟩ <;> simp [heq, e.head_ne_nil]

end

theorem Items.length_nodes_le (known : String → Bool) :
    ∀ items : Items, (items.nodes known).length ≤ items.print.length
  | .last e => List.length_pos_iff.mpr e.print_ne_nil
  | .more e spaces rest => by
    have hrest := rest.length_nodes_le known
    simp only [nodes, print, List.length_append, List.length_cons]
    omega

theorem Elements.length_nodes_le (known : String → Bool) :
    ∀ elements : Elements, (elements.nodes known).length ≤ elements.print.length
  | .last e assembly => by
    simp [nodes, print]
  | .more e assembly spaces rest => by
    have hrest := rest.length_nodes_le known
    simp only [nodes, print, List.length_append, List.length_cons]
    omega

end ClrNames
