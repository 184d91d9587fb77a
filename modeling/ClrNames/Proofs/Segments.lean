import Mathlib.Data.List.TakeWhile
import ClrNames.Text.Segments

/-!
# Segments and array markers

A dotted name is split into its segments and put together again, and what stands
behind it belongs to the last of them. Every text is a stem with as many array markers
behind it as are counted off its end.
-/

set_option autoImplicit false

namespace ClrNames.Text

section
variable {cs part last more : List Char} {parts : List (List Char)}

theorem dotted_concat (hne : parts ≠ []) :
    dotted (parts ++ [part]) = dotted parts ++ '.' :: part := by
  induction parts with
  | nil => exact absurd rfl hne
  | cons first rest ih =>
    cases rest with
    | nil => simp [dotted, List.intercalate_cons_cons]
    | cons second rest =>
      have hrest : ['.'].intercalate (second :: rest ++ [part]) =
          ['.'].intercalate (second :: rest) ++ '.' :: part := ih (by simp)
      simp only [dotted, List.cons_append, List.intercalate_cons_cons] at hrest ⊢
      rw [hrest]
      simp

theorem dotted_append (parts : List (List Char)) (last more : List Char) :
    dotted (parts ++ [last]) ++ more = dotted (parts ++ [last ++ more]) := by
  by_cases hempty : parts = []
  · simp [hempty, dotted]
  · simp [dotted_concat hempty]

theorem dotted_append_singleton (parts : List (List Char)) (last : List Char) :
    last <:+ dotted (parts ++ [last]) := by
  by_cases hempty : parts = []
  · simp [hempty, dotted]
  · exact ⟨dotted parts ++ ['.'], by simp [dotted_concat hempty]⟩

theorem dotted_ne_nil (h : ∀ part ∈ parts, part ≠ []) (hne : parts ≠ []) : dotted parts ≠ [] := by
  cases parts with
  | nil => exact absurd rfl hne
  | cons first rest =>
    cases rest with
    | nil => simpa [dotted] using h first
    | cons second rest => simp [dotted, List.intercalate_cons_cons]

theorem mem_dotted {c : Char} (h : c ∈ dotted parts) : c = '.' ∨ ∃ part ∈ parts, c ∈ part := by
  induction parts with
  | nil => simp [dotted] at h
  | cons part parts ih =>
    cases parts with
    | nil => exact .inr ⟨part, by simp, by simpa [dotted] using h⟩
    | cons next others =>
      rw [dotted, List.intercalate_cons_cons, List.mem_append, List.mem_append] at h
      rcases h with (h | h) | h
      · exact .inr ⟨part, by simp, h⟩
      · exact .inl (List.mem_singleton.mp h)
      · rcases ih h with rfl | ⟨found, hfound, hc⟩
        · exact .inl rfl
        · exact .inr ⟨found, List.mem_cons_of_mem _ hfound, hc⟩

theorem segments_dotted (h : ∀ part ∈ parts, '.' ∉ part) (hne : parts ≠ []) :
    segments (dotted parts) = parts :=
  List.splitOn_intercalate '.' h hne

theorem segments_of_dotless (h : '.' ∉ cs) : segments cs = [cs] := by
  have hsegments := segments_dotted (fun part hpart => List.mem_singleton.mp hpart ▸ h)
    (List.cons_ne_nil cs [])
  rwa [dotted, List.intercalate_singleton] at hsegments

/-- More text behind a dotted name belongs to its last segment. -/
theorem segments_append (h : ∀ part ∈ parts ++ [last], '.' ∉ part) (hmore : '.' ∉ more) :
    segments (dotted (parts ++ [last]) ++ more) = parts ++ [last ++ more] := by
  rw [dotted_append]
  apply segments_dotted _ (by simp)
  intro part hpart hdot
  rcases List.mem_append.mp hpart with hpart | hpart
  · exact h part (List.mem_append_left _ hpart) hdot
  · rw [List.mem_singleton.mp hpart, List.mem_append] at hdot
    exact hdot.elim (h last (by simp)) hmore

theorem mem_segments {cs part : List Char} (h : part ∈ segments cs) :
    ∀ c ∈ part, c ≠ '.' ∧ c ∈ cs := by
  induction cs generalizing part with
  | nil =>
    obtain rfl : part = [] := by simpa [segments, List.splitOn_nil] using h
    simp
  | cons x xs ih =>
    rw [segments, List.splitOn_cons_eq_if_modifyHead] at h
    split at h
    next hx =>
      rcases List.mem_cons.mp h with rfl | h
      · simp
      · exact fun c hc => ⟨(ih h c hc).1, List.mem_cons_of_mem _ (ih h c hc).2⟩
    next hx =>
      cases hs : xs.splitOn '.' with
      | nil => exact absurd hs (List.splitOn_ne_nil _ _)
      | cons first others =>
        have hfirst : first ∈ segments xs := by rw [segments, hs]; simp
        rw [hs, List.modifyHead_cons] at h
        rcases List.mem_cons.mp h with rfl | h
        · intro c hc
          rcases List.mem_cons.mp hc with rfl | hc
          · exact ⟨by simpa using hx, by simp⟩
          · exact ⟨(ih hfirst c hc).1, List.mem_cons_of_mem _ (ih hfirst c hc).2⟩
        · have hpart : part ∈ segments xs := by rw [segments, hs]; simp [h]
          exact fun c hc => ⟨(ih hpart c hc).1, List.mem_cons_of_mem _ (ih hpart c hc).2⟩

/-- The last segment ends the text. -/
theorem getLastD_segments_suffix (cs : List Char) : (segments cs).getLastD [] <:+ cs := by
  have hlast : (segments cs).getLastD [] = (segments cs).getLast (segments_ne_nil cs) := by
    rw [List.getLastD_eq_getLast?, List.getLast?_eq_some_getLast (segments_ne_nil cs)]
    rfl
  have hparts := List.dropLast_concat_getLast (segments_ne_nil cs)
  have hsuffix := dotted_append_singleton (segments cs).dropLast
    ((segments cs).getLast (segments_ne_nil cs))
  rw [hparts, dotted_segments] at hsuffix
  rwa [hlast]

end

section
variable {cs stem last : List Char} {markers : Nat}

def brackets (markers : Nat) : List Char := (List.replicate markers ['[', ']']).flatten

@[simp] theorem brackets_zero : brackets 0 = [] := rfl

theorem brackets_succ (markers : Nat) : brackets (markers + 1) = '[' :: ']' :: brackets markers :=
  rfl

theorem brackets_eq_nil : brackets markers = [] ↔ markers = 0 := by
  cases markers with
  | zero => simp [brackets]
  | succ markers => simp [brackets_succ]

theorem mem_brackets {c : Char} (h : c ∈ brackets markers) : c = '[' ∨ c = ']' := by
  obtain ⟨marker, hmarker, hc⟩ := List.mem_flatten.mp h
  rw [List.eq_of_mem_replicate hmarker] at hc
  simpa using hc

theorem dot_not_mem_brackets (markers : Nat) : '.' ∉ brackets markers := by
  intro hc
  rcases mem_brackets hc with h | h <;> cases h

theorem brackets_min_one (markers : Nat) :
    ∃ more, brackets markers = brackets (min markers 1) ++ more := by
  cases markers with
  | zero => exact ⟨[], rfl⟩
  | succ markers => exact ⟨brackets markers, by rw [Nat.min_eq_right (by omega)]; rfl⟩

theorem head?_append_brackets {c : Char} (hc : c ≠ '[') (h : last.head? ≠ some c) :
    (last ++ brackets markers).head? ≠ some c := by
  cases last with
  | nil =>
    cases markers with
    | zero => nofun
    | succ markers =>
      rintro ⟨⟩
      exact hc rfl
  | cons first rest => exact h

theorem reverse_brackets (markers : Nat) :
    (brackets markers).reverse = (List.replicate markers [']', '[']).flatten := by
  induction markers with
  | zero => rfl
  | succ markers ih =>
    rw [brackets, List.replicate_succ', List.flatten_concat, List.reverse_append, ← brackets, ih,
      List.replicate_succ, List.flatten_cons]
    rfl

theorem markerCount_append (markers : Nat) (h : ¬ [']', '['] <+: cs) :
    markerCount ((List.replicate markers [']', '[']).flatten ++ cs) = markers := by
  induction markers with
  | zero =>
    show markerCount cs = 0
    unfold markerCount
    split
    next => simp at h
    next => rfl
  | succ markers ih =>
    rw [List.replicate_succ, List.flatten_cons, List.append_assoc]
    exact congrArg (· + 1) ih

theorem exists_markerCount (cs : List Char) :
    ∃ more, cs = (List.replicate (markerCount cs) [']', '[']).flatten ++ more ∧
      ¬ [']', '['] <+: more := by
  fun_induction markerCount cs with
  | case1 cs ih =>
    obtain ⟨more, hcs, hmore⟩ := ih
    refine ⟨more, ?_, hmore⟩
    rw [List.replicate_succ, List.flatten_cons, List.append_assoc, ← hcs]
    rfl
  | case2 cs h =>
    refine ⟨cs, rfl, ?_⟩
    rintro ⟨more, rfl⟩
    exact h more rfl

/-- Every text is a stem with array markers behind it. -/
theorem exists_stem (cs : List Char) :
    ∃ stem markers, cs = stem ++ brackets markers ∧ ¬ ['[', ']'] <:+ stem := by
  obtain ⟨more, hcs, hmore⟩ := exists_markerCount cs.reverse
  refine ⟨more.reverse, markerCount cs.reverse, ?_, ?_⟩
  · rw [← List.reverse_inj, List.reverse_append, reverse_brackets, List.reverse_reverse]
    exact hcs
  · rwa [← List.reverse_prefix, List.reverse_reverse]

theorem not_marked_of_unclosed (h : ']' ∉ cs) : ¬ ['[', ']'] <:+ cs :=
  fun hsuffix => h (hsuffix.subset (by simp))

theorem arrayMarkers_append (h : ¬ ['[', ']'] <:+ stem) (markers : Nat) :
    arrayMarkers (stem ++ brackets markers) = markers := by
  rw [arrayMarkers, List.reverse_append, reverse_brackets]
  exact markerCount_append markers (by rwa [← List.reverse_prefix] at h)

theorem withoutMarkers_append_brackets (h : ¬ ['[', ']'] <:+ stem) (markers : Nat) :
    withoutMarkers (stem ++ brackets markers) = stem := by
  have hlength : 2 * markers = (List.replicate markers [']', '[']).flatten.length := by
    simp [Nat.mul_comm]
  rw [withoutMarkers, arrayMarkers_append h, List.reverse_append, reverse_brackets, hlength,
    List.drop_left, List.reverse_reverse]

theorem withoutMarkers_append (cs : List Char) :
    ∃ marks, cs = withoutMarkers cs ++ marks ∧ ∀ c ∈ marks, c = '[' ∨ c = ']' := by
  obtain ⟨stem, markers, rfl, hstem⟩ := exists_stem cs
  exact ⟨brackets markers, by rw [withoutMarkers_append_brackets hstem], fun _ => mem_brackets⟩

theorem mem_of_mem_withoutMarkers {c : Char} (h : c ∈ withoutMarkers cs) : c ∈ cs := by
  obtain ⟨marks, hcs, -⟩ := withoutMarkers_append cs
  rw [hcs]
  exact List.mem_append_left _ h

theorem stripByRef_append (cs : List Char) :
    ∃ marks, cs = stripByRef cs ++ marks ∧ ∀ c ∈ marks, c = '&' := by
  refine ⟨(cs.reverse.takeWhile (· == '&')).reverse, ?_, ?_⟩
  · have hsplit := congrArg List.reverse
      (List.takeWhile_append_dropWhile (p := (· == '&')) (l := cs.reverse))
    rw [List.reverse_append, List.reverse_reverse] at hsplit
    exact hsplit.symm
  · intro c hc
    simpa using List.all_eq_true.mp List.all_takeWhile c (List.mem_reverse.mp hc)

theorem stripByRef_append_marks {cs : List Char} (h : '&' ∉ cs) (k : Nat) :
    stripByRef (cs ++ List.replicate k '&') = cs := by
  rw [stripByRef, List.reverse_append, List.reverse_replicate,
    List.dropWhile_append_of_pos (by simp)]
  have hother : cs.reverse.dropWhile (· == '&') = cs.reverse := by
    rw [List.dropWhile_eq_self_iff]
    intro hpos heq
    apply h
    rw [beq_iff_eq] at heq
    exact List.mem_reverse.mp (heq ▸ List.getElem_mem hpos)
  rw [hother, List.reverse_reverse]

theorem stripByRef_of_unmarked {cs : List Char} (h : '&' ∉ cs) : stripByRef cs = cs := by
  simpa using stripByRef_append_marks h 0

end

end ClrNames.Text
