import Mathlib.Data.List.Infix
import ClrNames.Proofs.WrittenReading

/-!
# Cut-off names with a flat list

A name that counts as cut off is closed behind the last bracket in front of `,[`. In a
list whose elements contain no brackets that is the end of an element, however the cut
falls, so that the complete elements are read and nothing else.
-/

set_option autoImplicit false

namespace ClrNames.Text

def separator : List Char := "],[".toList

def occurrences (piece cs : List Char) : Nat := cs.tails.countP piece.isPrefixOf

section
variable {word cs : List Char}

theorem occurrences_cons (piece : List Char) (c : Char) (cs : List Char) :
    occurrences piece (c :: cs) =
      occurrences piece cs + if piece.isPrefixOf (c :: cs) then 1 else 0 := by
  rw [occurrences, List.tails_cons, List.countP_cons, occurrences]

theorem separator_prefix {c : Char} (hc : c ≠ ']') : separator.isPrefixOf (c :: cs) = false := by
  rw [← Bool.not_eq_true, List.isPrefixOf_iff_prefix]
  rintro ⟨more, hmore⟩
  exact hc (List.cons.inj hmore).1.symm

theorem occurrences_word (hword : ']' ∉ word) :
    occurrences separator (word ++ cs) = occurrences separator cs := by
  induction word with
  | nil => rfl
  | cons c word ih =>
    have hc : c ≠ ']' := fun h => hword (by simp [h])
    rw [List.cons_append, occurrences_cons, separator_prefix hc]
    exact ih fun h => hword (by simp [h])

theorem beforeLast?_word (hword : ']' ∉ word) :
    beforeLast? separator (word ++ cs) = (beforeLast? separator cs).map (word ++ ·) := by
  induction word with
  | nil => simp
  | cons c word ih =>
    have hc : c ≠ ']' := fun h => hword (by simp [h])
    rw [List.cons_append, beforeLast?, ih fun h => hword (by simp [h]), separator_prefix hc]
    cases beforeLast? separator cs <;> rfl

theorem occurrences_separator :
    occurrences separator (separator ++ cs) = occurrences separator cs + 1 := by
  show occurrences separator (']' :: ([',', '['] ++ cs)) = _
  rw [occurrences_cons, occurrences_word (by decide)]
  rfl

theorem beforeLast?_separator : beforeLast? separator (separator ++ cs) =
    some ((beforeLast? separator cs).elim [] (separator ++ ·)) := by
  show beforeLast? separator (']' :: ([',', '['] ++ cs)) = _
  rw [beforeLast?, beforeLast?_word (by decide)]
  cases beforeLast? separator cs <;> rfl

theorem beforeLast?_eq_none {piece : List Char} (hpiece : piece ≠ [])
    (h : occurrences piece cs = 0) : beforeLast? piece cs = none := by
  induction cs with
  | nil => simp [beforeLast?, hpiece]
  | cons c cs ih =>
    rw [occurrences_cons, Nat.add_eq_zero_iff] at h
    rw [beforeLast?, ih h.1]
    simpa using h.2

theorem prefix_append_cases {cut word : List Char} (h : cut <+: word ++ cs) :
    cut <+: word ∨ ∃ rest, cut = word ++ rest ∧ rest <+: cs := by
  obtain ⟨after, hafter⟩ := h
  rcases List.append_eq_append_iff.mp hafter with ⟨more, hmore, -⟩ | ⟨rest, hrest, hcs⟩
  · exact .inl ⟨more, hmore.symm⟩
  · exact .inr ⟨rest, hrest, after, hcs.symm⟩

theorem cut_separator {cut : List Char} (h : cut <+: separator ++ cs) :
    occurrences separator cut = 0 ∨ ∃ rest, cut = separator ++ rest ∧ rest <+: cs := by
  have hinits : ∀ cut ∈ separator.inits, occurrences separator cut = 0 ∨ cut = separator := by
    decide
  rcases prefix_append_cases h with hshort | hlong
  · refine (hinits cut ((List.mem_inits _ _).mpr hshort)).imp_right ?_
    rintro rfl
    exact ⟨[], (List.append_nil _).symm, List.nil_prefix⟩
  · exact .inr hlong

theorem prefix_intercalate (piece : List Char) (pieces : List (List Char)) :
    piece <+: List.intercalate separator (piece :: pieces) := by
  cases pieces with
  | nil => rw [List.intercalate_singleton]
  | cons next pieces =>
    rw [List.intercalate_cons_cons, List.append_assoc]
    exact List.prefix_append _ _

theorem occurrences_inside {cut : List Char} (h : cut <+: word) (hword : ']' ∉ word) :
    occurrences separator cut = 0 := by
  rw [← List.append_nil cut, occurrences_word fun hmem => hword (h.subset hmem)]
  rfl

/-- A cut leaves as many whole pieces as there are separators in front of it. -/
theorem cut_intercalate {piece : List Char} {pieces : List (List Char)}
    (hpiece : ']' ∉ piece) (hpieces : ∀ piece ∈ pieces, ']' ∉ piece) {cut : List Char}
    (h : cut <+: List.intercalate separator (piece :: pieces) ++ [']', ']']) :
    occurrences separator cut ≤ pieces.length ∧
      (occurrences separator cut ≠ 0 → beforeLast? separator cut =
        some (List.intercalate separator ((piece :: pieces).take (occurrences separator cut)))) := by
  induction pieces generalizing piece cut with
  | nil =>
    have hends : ∀ rest ∈ [']', ']'].inits, occurrences separator rest = 0 := by decide
    have hzero : occurrences separator cut = 0 := by
      rw [List.intercalate_singleton] at h
      rcases prefix_append_cases h with hshort | ⟨rest, rfl, hrest⟩
      · exact occurrences_inside hshort hpiece
      · rw [occurrences_word hpiece, hends rest ((List.mem_inits _ _).mpr hrest)]
    exact ⟨hzero.le, fun hsome => absurd hzero hsome⟩
  | cons second pieces ih =>
    rw [List.intercalate_cons_cons, List.append_assoc, List.append_assoc] at h
    rcases prefix_append_cases h with hshort | ⟨rest, rfl, hrest⟩
    · have hzero := occurrences_inside hshort hpiece
      exact ⟨hzero.le.trans (Nat.zero_le _), fun hsome => absurd hzero hsome⟩
    · rw [occurrences_word hpiece, beforeLast?_word hpiece]
      rcases cut_separator hrest with hzero | ⟨inner, rfl, hinner⟩
      · exact ⟨hzero.le.trans (Nat.zero_le _), fun hsome => absurd hzero hsome⟩
      · obtain ⟨hsecond, hothers⟩ := List.forall_mem_cons.mp hpieces
        obtain ⟨hle, hbefore⟩ := ih hsecond hothers hinner
        rw [occurrences_separator, beforeLast?_separator]
        refine ⟨Nat.succ_le_succ hle, fun _ => ?_⟩
        cases hcount : occurrences separator inner with
        | zero =>
          rw [beforeLast?_eq_none (by decide) hcount]
          simp [List.intercalate_singleton]
        | succ count =>
          rw [hbefore (by omega), hcount]
          simp [List.intercalate_cons_cons]

end

end ClrNames.Text

namespace ClrNames.Grammar

theorem scans_word {before : Char} {word : List Char}
    (hword : ∀ c ∈ word, c ≠ '\x60' ∧ c ≠ ',' ∧ c ≠ ']') : Scans before word ',' := by
  induction word generalizing before with
  | nil => exact .inr (.inl rfl)
  | cons c word ih =>
    obtain ⟨⟨htick, hcomma, hclose⟩, hrest⟩ := List.forall_mem_cons.mp hword
    exact ⟨htick, hcomma, fun h => absurd h hclose, ih hrest⟩

end ClrNames.Grammar

namespace ClrNames
open Grammar Written Text

/-- How a name is read that counts as cut off: the part in front of the last separator,
closed, as a written name whose lists may lack arguments. -/
theorem readTypeName_cut_ok_iff {known : String → Bool} {cut before : List Char} {t : TypeName}
    (hlength : byteLength cut = 1023) (hgenerated : isCompilerGenerated cut = false)
    (hmarked : '\x60' ∈ cut) (hbefore : beforeLast? separator cut = some before) :
    readTypeName known none (String.ofList cut) = .ok t ↔ ∃ name : Name,
      name.print = before ++ [']', ']'] ∧ '\x60' ∉ name.head ∧ name.Denotes known .root 0 t := by
  have hclosed : closeTruncated cut = .ok (before ++ [']', ']'], true) := by
    have hcut : byteLength cut = truncatedLength ∧ '\x60' ∈ cut := ⟨hlength, hmarked⟩
    rw [closeTruncated, if_pos hcut, show beforeLast? "],[".toList cut = some before from hbefore]
    rfl
  have hnonempty : cut ≠ [] := by
    rintro rfl
    cases hmarked
  rw [readTypeName_ok_iff, hclosed]
  constructor
  · rintro ⟨-, -, _, _, ⟨⟩, name, hprint, hhead, hdenotes, -⟩
    exact ⟨name, hprint, hhead, hdenotes⟩
  · rintro ⟨name, hprint, hhead, hdenotes⟩
    exact ⟨hnonempty, hgenerated, _, _, rfl, name, hprint, hhead, hdenotes, nofun⟩

structure Listed where
  path : Path
  note : List Char
  bracketless : ∀ c ∈ note, c ≠ '[' ∧ c ≠ ']'

namespace Listed

def noise (e : Listed) : List Char := ',' :: ' ' :: e.note

def inner (e : Listed) : List Char := e.path.print ++ e.noise

def print (e : Listed) : List Char := '[' :: e.inner ++ [']']

theorem unclosed (e : Listed) : ']' ∉ e.inner := by
  intro hmem
  rcases List.mem_append.mp hmem with hpath | hnoise
  · exact e.path.print_word hpath (by decide)
  · simp only [noise, List.mem_cons] at hnoise
    rcases hnoise with h | h | h
    · cases h
    · cases h
    · exact (e.bracketless _ h).2 rfl

def elements : Listed → List Listed → Written.Elements
  | e, [] => .last (.simple e.path.print) e.noise
  | e, next :: rest => .more (.simple e.path.print) e.noise 0 (elements next rest)

theorem print_elements (e : Listed) (rest : List Listed) :
    (elements e rest).print = List.intercalate [','] ((e :: rest).map print) := by
  induction rest generalizing e with
  | nil => simp [elements, Written.Elements.print, Name.print, print, inner]
  | cons next rest ih =>
    rw [elements, Written.Elements.print, ih]
    simp [List.intercalate_cons_cons, print, inner, Name.print, spaces]

theorem print_elements_separated (e : Listed) (rest : List Listed) :
    (elements e rest).print =
      '[' :: List.intercalate separator ((e :: rest).map inner) ++ [']'] := by
  induction rest generalizing e with
  | nil => simp [elements, Written.Elements.print, Name.print, inner]
  | cons next rest ih =>
    rw [elements, Written.Elements.print, ih]
    simp [List.intercalate_cons_cons, inner, Name.print, spaces, separator]

theorem isElement (e : Listed) : (Name.simple e.path.print).IsElement e.noise where
  unclosed hmem := e.unclosed (List.mem_append_right _ hmem)
  ends := by simp [Name.Ends, noise]
  scanned := scans_word fun c hc => by
    have hmark := e.path.print_word hc
    simp only [List.mem_cons, not_or] at hmark
    exact ⟨hmark.1, hmark.2.2.2.2.2.1, hmark.2.2.2.2.1⟩

theorem denotes {known : String → Bool} {depth : Nat} (e : Listed) (rest : List Listed)
    (h : ∀ f ∈ e :: rest, f.path.enclosingSize known ≤ 64) :
    (elements e rest).Denotes known depth ((e :: rest).map fun e => e.path.node known) := by
  induction rest generalizing e with
  | nil =>
    exact ⟨e.isElement, _, rfl, fun s => (nameOf_base known e.path s).1 (h e (by simp))⟩
  | cons next rest ih =>
    have hrest : ∀ f ∈ next :: rest, f.path.enclosingSize known ≤ 64 :=
      fun f hf => h f (List.mem_cons_of_mem _ hf)
    exact ⟨e.isElement, _, _, rfl, fun s => (nameOf_base known e.path s).1 (h e (by simp)),
      ih next hrest⟩

end Listed

def flatName (base : Path) (arity : Decimal) (e : Listed) (rest : List Listed) : List Char :=
  base.print ++ '\x60' :: arity.digits ++
    '[' :: List.intercalate [','] ((e :: rest).map Listed.print) ++ [']']

theorem flatName_eq (base : Path) (arity : Decimal) (e : Listed) (rest : List Listed) :
    flatName base arity e rest = (Name.generic base.print
      (.mk arity none (.bracketed (e.elements rest)) 0)).print := by
  simp [flatName, Name.print, Suffix.print, ArgList.print, Listed.print_elements, nestedText,
    Markers.print]

def flatFront (base : Path) (arity : Decimal) : List Char :=
  base.print ++ '\x60' :: arity.digits ++ ['[', '[']

theorem flatName_separated (base : Path) (arity : Decimal) (e : Listed) (rest : List Listed) :
    flatName base arity e rest = List.intercalate separator
      ((flatFront base arity ++ e.inner) :: rest.map Listed.inner) ++ [']', ']'] := by
  have hfront : List.intercalate separator
      ((flatFront base arity ++ e.inner) :: rest.map Listed.inner) = flatFront base arity ++
        List.intercalate separator ((e :: rest).map Listed.inner) := by
    cases rest <;> simp [List.intercalate_cons_cons]
  rw [flatName, ← Listed.print_elements, Listed.print_elements_separated, hfront]
  simp [flatFront]

/-- A flat list that is cut off keeps its complete elements, whatever the arity is: there
are as many of them as separators are left. -/
theorem readTypeName_flat_cut (known : String → Bool) (base : Path) (arity : Decimal) (e : Listed)
    (rest : List Listed) (cut : List Char) (harity : arity.value < 18446744073709551616)
    (hbase : base.enclosingSize known ≤ 64)
    (hnames : ∀ f ∈ e :: rest, f.path.enclosingSize known ≤ 64)
    (hcut : cut <+: flatName base arity e rest) (hlength : byteLength cut = 1023)
    (hgenerated : isCompilerGenerated cut = false) (hsome : 0 < occurrences "],[".toList cut) :
    occurrences "],[".toList cut < (e :: rest).length ∧
    readTypeName known none (String.ofList cut) = .ok { base.node known with
      args := ((e :: rest).take (occurrences "],[".toList cut)).map
        fun f => f.path.node known } := by
  rw [flatName_separated] at hcut
  have hfront : ']' ∉ flatFront base arity ++ e.inner := by
    have hdigits : ']' ∉ arity.digits := fun hmem => absurd (arity.isDigit _ hmem) (by decide)
    have hbase : ']' ∉ base.print := fun hmem => base.print_word hmem (by decide)
    simp [flatFront, hdigits, hbase, e.unclosed]
  have hinner : ∀ piece ∈ rest.map Listed.inner, ']' ∉ piece := by
    intro piece hpiece
    obtain ⟨f, -, rfl⟩ := List.mem_map.mp hpiece
    exact f.unclosed
  obtain ⟨hle, hbefore⟩ := cut_intercalate hfront hinner hcut
  change 0 < occurrences separator cut at hsome
  show occurrences separator cut < _ ∧ readTypeName known none (String.ofList cut) =
    .ok { base.node known with
      args := ((e :: rest).take (occurrences separator cut)).map fun f => f.path.node known }
  have hbefore := hbefore hsome.ne'
  rw [List.length_map] at hle
  generalize occurrences separator cut = count at hsome hle hbefore ⊢
  obtain ⟨kept, rfl⟩ := Nat.exists_eq_add_one.mpr hsome
  refine ⟨Nat.lt_succ_of_le hle, ?_⟩
  have hmarked : '\x60' ∈ cut := by
    obtain ⟨after, hafter⟩ := beforeLast?_eq_some hbefore
    have hfirst := prefix_intercalate (flatFront base arity ++ e.inner)
      ((rest.map Listed.inner).take kept)
    rw [← List.take_succ_cons] at hfirst
    have hmem : '\x60' ∈ flatFront base arity ++ e.inner := by simp [flatFront]
    rw [hafter]
    exact List.mem_append_left _ (List.mem_append_left _ (hfirst.subset hmem))
  rw [readTypeName_cut_ok_iff hlength hgenerated hmarked hbefore]
  refine ⟨.generic base.print (.mk arity none (.bracketed (e.elements (rest.take kept))) 0), ?_,
    fun hmem => base.print_word hmem (by decide),
    base.node known, fun s => (nameOf_base known base s).1 hbase, harity, nofun,
    ⟨by decide, nofun⟩, _, Listed.denotes e (rest.take kept) ?_, ?_⟩
  · rw [← flatName_eq, flatName_separated, List.take_succ_cons, List.map_take]
  · intro f hf
    rcases List.mem_cons.mp hf with rfl | hf
    · exact hnames f (by simp)
    · exact hnames f (List.mem_cons_of_mem _ (List.mem_of_mem_take hf))
  · rw [List.take_succ_cons]
    exact (TypeName.withArray_false _).symm

/-- The cut falls behind the name of the third element. -/
theorem readTypeName_flat_cut_third :
    let first : Path := ⟨[⟨['a'], by simp, by simp [grammarMarks]⟩],
      ⟨['X'], by simp, by simp [grammarMarks]⟩⟩
    let second : Path := ⟨[], ⟨['Y'], by simp, by simp [grammarMarks]⟩⟩
    let third : Path := ⟨[], ⟨['Z'], by simp, by simp [grammarMarks]⟩⟩
    let base : Path := ⟨[], ⟨['B'], by simp, by simp [grammarMarks]⟩⟩
    let nine : Decimal := ⟨['9'], by simp, by simp⟩
    let e : Listed := ⟨first, ['q'], by simp⟩
    let rest : List Listed := [⟨second, List.replicate 1001 'q', fun c hc => by
      rw [List.eq_of_mem_replicate hc]; decide⟩, ⟨third, ['q'], by simp⟩]
    let cut := (flatName base nine e rest).take 1023
    nine.value < 18446744073709551616 ∧ base.enclosingSize (· == "a") ≤ 64 ∧
      first.enclosingSize (· == "a") ≤ 64 ∧ cut <+: flatName base nine e rest ∧
      byteLength cut = 1023 ∧ isCompilerGenerated cut = false ∧
      occurrences "],[".toList cut = 2 ∧
      readTypeName (· == "a") none (String.ofList cut) = .ok { TypeName.topLevel "" "B" with
        args := [(TypeName.topLevel "" "a").nested "X", .topLevel "" "Y"] } := by
  intro first second third base nine e rest cut
  have harity : nine.value < 18446744073709551616 := by decide
  have hbase : base.enclosingSize (· == "a") ≤ 64 := by decide
  have hnames : ∀ f ∈ e :: rest, f.path.enclosingSize (· == "a") ≤ 64 := by
    intro f hf
    simp only [rest, List.mem_cons, List.not_mem_nil, or_false] at hf
    rcases hf with rfl | rfl | rfl <;> decide
  have hcut : cut <+: flatName base nine e rest := List.take_prefix _ _
  have hlength : byteLength cut = 1023 := by decide +kernel
  have hgenerated : isCompilerGenerated cut = false := by decide +kernel
  have hcount : occurrences "],[".toList cut = 2 := by decide +kernel
  have hread := (readTypeName_flat_cut (· == "a") base nine e rest cut harity hbase hnames hcut
    hlength hgenerated (by omega)).2
  rw [hcount] at hread
  exact ⟨harity, hbase, hnames e (by simp), hcut, hlength, hgenerated, hcount,
    hread.trans (by decide +kernel)⟩

end ClrNames
