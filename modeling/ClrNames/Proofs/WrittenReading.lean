import ClrNames.Proofs.WrittenLists

/-!
# Reading what is written

Level by level the list readers accept what is written, and so does the reading of a
whole text: in every scope, the names that are accepted are the written names that keep
the limits.
-/

set_option autoImplicit false

namespace ClrNames.Grammar
open Text Written

section
variable {known : String → Bool} {truncated : Bool} {s t : State} {node : TypeName}
  {L : ListReader} {declared : Nat} {args : List TypeName}

/-- A list is read one level deeper as it would be read here. -/
theorem deeper_list_iff {p : Reader (List TypeName)}
    (hp : s.depth < 64 → ∀ u, p { s with depth := s.depth + 1 } = .ok args u ↔ ∃ list,
      ListRead known truncated s.place.deeper declared { s with depth := s.depth + 1 } list args u) :
    deeper p s = .ok args t ↔ s.depth < 64 ∧
      ∃ list, ListRead known truncated s.place.deeper declared s list args t := by
  rw [deeper_ok_iff]
  refine and_congr_right fun hdepth => ?_
  constructor
  · rintro ⟨u, hrun, rfl⟩
    obtain ⟨list, h⟩ := (hp hdepth u).mp hrun
    refine ⟨list, ⟨h.passes.rest, ?_⟩, h.denotes, h.counted, h.inner⟩
    rw [h.passes.state]
    rfl
  · rintro ⟨list, h⟩
    refine ⟨{ t with depth := t.depth + 1 }, (hp hdepth _).mpr ⟨list, ⟨h.passes.rest, ?_⟩, h.denotes,
      h.counted, h.inner⟩, rfl⟩
    have hstate := h.passes.state
    rw [State.pass] at hstate ⊢
    rw [hstate]

/-- The type in progress has no say in what is read. -/
theorem withOwner_list_iff {p : Reader (List TypeName)} {place : Place} {owner : TypeName}
    (hp : ∀ u, p (s.owned owner) = .ok args u ↔
      ∃ list, ListRead known truncated place declared (s.owned owner) list args u) :
    withOwner owner p s = .ok args t ↔
      ∃ list, ListRead known truncated place declared s list args t := by
  rw [withOwner_ok_iff]
  constructor
  · rintro ⟨u, hrun, rfl⟩
    obtain ⟨list, h⟩ := (hp u).mp hrun
    refine ⟨list, ⟨h.passes.rest, ?_⟩, h.denotes, h.counted, h.inner⟩
    rw [h.passes.state]
    rfl
  · rintro ⟨list, h⟩
    refine ⟨t.owned owner, (hp _).mpr ⟨list, ⟨h.passes.rest, ?_⟩, h.denotes, h.counted,
      h.inner⟩, ?_⟩
    · rw [h.passes.state]
      rfl
    · rw [h.passes.state]
      rfl

theorem listLevel_ok_iff {place : Place}
    (hL : place.depth < 64 → ListsRead known truncated L place.deeper) :
    ListsRead known truncated (listLevel (contained known truncated) L) place := by
  rintro owner declared context s t args rfl
  have hhead {list : ArgList} (h : ListRead known truncated s.place.deeper declared s list args t) :
      list.print.head? = some s.cursor.peek ∧ (s.cursor.peek = '[' ∨ s.cursor.peek = '<') := by
    obtain ⟨c, more, hprint, hc⟩ := list.print_eq_cons
    have hpeek : s.cursor.peek = c := by rw [Cursor.peek, h.passes.rest, hprint]; rfl
    rw [hpeek, hprint]
    exact ⟨rfl, hc⟩
  unfold listLevel
  rw [step_ok_iff (peek_ok s)]
  generalize hfound : s.cursor.peek = found at hhead
  split
  next =>
    have hopen := (peek_eq_iff (by decide)).mp hfound
    by_cases hcontext : context = .plain
    · rw [if_pos hcontext]
      refine iff_of_false (by rintro ⟨⟩) ?_
      rintro ⟨list, hallowed, h⟩
      cases (hhead h).1.symm.trans (hallowed.angled hcontext)
    · rw [if_neg hcontext,
        deeper_list_iff fun hdepth u => bracketedList_ok_iff (hL hdepth) hopen]
      constructor
      · rintro ⟨hdepth, list, h⟩
        exact ⟨list, ⟨hdepth, fun h => absurd h hcontext⟩, h⟩
      · rintro ⟨list, hallowed, h⟩
        exact ⟨hallowed.depth_lt, list, h⟩
  next =>
    have hopen := (peek_eq_iff (by decide)).mp hfound
    have hmode : ¬ (context = .root ∧ (contained known truncated).definitionsOnly = true) :=
      fun h => Bool.false_ne_true h.2
    rw [if_neg hmode, deeper_list_iff fun hdepth u =>
      withOwner_list_iff fun v => plainList_ok_iff (hL hdepth) hopen]
    constructor
    · rintro ⟨hdepth, list, h⟩
      exact ⟨list, ⟨hdepth, fun _ => (hhead h).1⟩, h⟩
    · rintro ⟨list, hallowed, h⟩
      exact ⟨hallowed.depth_lt, list, h⟩
  next =>
    refine iff_of_false (by rintro ⟨⟩) ?_
    rintro ⟨list, -, h⟩
    rcases (hhead h).2 with h | h <;> cases h
  next hsquare hangle _ =>
    refine iff_of_false (by rintro ⟨⟩) ?_
    rintro ⟨list, -, h⟩
    rcases (hhead h).2 with h | h
    · exact hsquare h
    · exact hangle h

/-- As many levels as may still be opened are enough. -/
theorem argumentLists_ok_iff (known : String → Bool) (truncated : Bool) {levels : Nat}
    {place : Place} (h : levels + place.depth = 64) :
    ListsRead known truncated (argumentLists (contained known truncated) levels) place := by
  induction levels generalizing place with
  | zero => exact listLevel_ok_iff fun hdepth => by omega
  | succ levels ih => exact listLevel_ok_iff fun _ => ih (by rw [Place.deeper_depth]; omega)

/-- A whole name is read as a full name is, up to its first backtick. -/
theorem wholeName_eq_fullName {taken after : List Char} (hstart : s.cursor.pos = 0)
    (htext : s.cursor.text = taken ++ after) (hrest : s.cursor.rest = taken ++ after)
    (htaken : '\x60' ∉ taken) (hafter : after = [] ∨ after.head? = some '\x60') :
    wholeName (contained known truncated) s = fullName (contained known truncated)
      (argumentLists (contained known truncated) 64) (s.cursor.pos + byteLength taken) .root s := by
  have hwhole : wholeName (contained known truncated) s =
      (baseName (contained known truncated) (s.cursor.pos + byteLength taken) >>= fun t =>
        if after = [] then pure t
        else genericSuffix (argumentLists (contained known truncated) 64) t .root) s := by
    rcases hafter with rfl | hafter
    · rw [List.append_nil] at htext hrest
      exact (wholeName_of_unmarked hstart htext hrest htaken).trans (congrFun (bind_pure _).symm s)
    · obtain ⟨more, rfl⟩ := List.head?_eq_some_iff.mp hafter
      exact wholeName_of_marked hrest htaken
  have hbase := baseName_pass (contained known truncated) hrest
  rw [hwhole, fullName]
  cases hname : nameOf (contained known truncated) taken (s.pass taken after) with
  | error e t => rw [bind_error (hbase.trans hname), bind_error (hbase.trans hname)]
  | ok base t =>
    obtain ⟨-, rfl⟩ := nameOf_ok_iff.mp hname
    rw [bind_ok (hbase.trans hname), bind_ok (hbase.trans hname)]
    rcases hafter with rfl | hafter
    · rw [fullName_end base (by simp) (State.pass_rest _ _ _)]
      rfl
    · obtain ⟨more, rfl⟩ := List.head?_eq_some_iff.mp hafter
      rw [bind_ok (peek_pass (State.pass_rest _ _ _))]
      rfl

/-- A text is read to its end if it is a written name that keeps the limits. -/
theorem wholeName_ok_iff (text : List Char) (hstart : s.cursor.pos = 0)
    (htext : s.cursor.text = text) (hrest : s.cursor.rest = text) (hdepth : s.depth = 0) :
    (∃ t, wholeName (contained known truncated) s = .ok node t ∧ t.cursor.rest = []) ↔
      ∃ name : Name, name.print = text ∧ '\x60' ∉ name.head ∧
        name.DenotesIn known .root s.place node ∧ AllCounted truncated name.suffixes := by
  have hlists : ListsRead known truncated (argumentLists (contained known truncated) 64) s.place :=
    argumentLists_ok_iff known truncated (by simp [State.place, hdepth])
  subst htext
  constructor
  · rintro ⟨t, hrun, hend⟩
    obtain ⟨taken, after, hsplit, htaken, hafter⟩ : ∃ taken after, s.cursor.text = taken ++ after ∧
        '\x60' ∉ taken ∧ (after = [] ∨ after.head? = some '\x60') := by
      by_cases htick : '\x60' ∈ s.cursor.text
      · obtain ⟨taken, more, hsplit, htaken⟩ := List.eq_append_cons_of_mem htick
        exact ⟨taken, _, hsplit, htaken, .inr rfl⟩
      · exact ⟨_, [], (List.append_nil _).symm, htick, .inl rfl⟩
    have hparts := hrest.trans hsplit
    rw [wholeName_eq_fullName hstart hsplit hparts htaken hafter,
      fullName_ok_iff hlists hparts] at hrun
    obtain ⟨name, rfl, hpass, -, hdenotes, hcounted⟩ := hrun
    have hprint := hpass.rest
    rw [hend, List.append_nil, hrest] at hprint
    exact ⟨name, hprint.symm, htaken, hdenotes, hcounted⟩
  · rintro ⟨name, hprint, hhead, hdenotes, hcounted⟩
    have hsplit := hprint.symm.trans name.print_eq
    have hparts := hrest.trans hsplit
    have htail : name.tail = [] ∨ name.tail.head? = some '\x60' := by
      obtain _ | ⟨head, ⟨arity, nested, list, markers⟩⟩ := name
      · exact .inl rfl
      · exact .inr rfl
    have hpass : Passes s name.print (s.pass name.print []) :=
      passes_of (by rw [hrest, hprint, List.append_nil])
    have hends : name.Ends [] := by
      cases name with
      | simple head => nofun
      | generic head suffix => simp [Name.Ends]
    refine ⟨s.pass name.print [], ?_, rfl⟩
    rw [wholeName_eq_fullName hstart hsplit hparts hhead htail, fullName_ok_iff hlists hparts]
    exact ⟨name, rfl, hpass, hends, hdenotes, hcounted⟩

end

end ClrNames.Grammar

namespace ClrNames
open Grammar Written Text

/-- A closed text is accepted if it is a written name that keeps the limits. -/
theorem readClosed_ok_iff {known : String → Bool} {containing : Option TypeName}
    {name closed : List Char} {truncated : Bool} {t : TypeName} :
    readClosed { known, containing, scopeRule := .containing } name closed truncated = .ok t ↔
      ∃ name : Name, name.print = closed ∧ '\x60' ∉ name.head ∧
        name.DenotesIn known .root ⟨containing, 0⟩ t ∧ AllCounted truncated name.suffixes := by
  let start : State := ⟨.start closed containing, 0⟩
  have hplace : (⟨containing, 0⟩ : Place) = start.place := rfl
  have hsettings : ReadOptions.settings { known, containing, scopeRule := .containing } truncated =
      contained known truncated := rfl
  rw [hplace, ← wholeName_ok_iff closed rfl rfl rfl rfl, readClosed_eq, hsettings]
  cases wholeName (contained known truncated) ⟨.start closed containing, 0⟩ with
  | error e u => simp
  | ok u s =>
    have hmore : s.cursor.hasMore = true ↔ s.cursor.rest ≠ [] := by simp [Cursor.hasMore]
    by_cases hend : s.cursor.rest = []
    · simp [hmore, hend]
    · simp [hmore, hend]

/-- What is accepted: the written names that keep the limits, once the text is closed. -/
theorem readTypeName_scoped_ok_iff {known : String → Bool} {containing : Option TypeName}
    {text : List Char} {t : TypeName} :
    readTypeName known containing (String.ofList text) = .ok t ↔
      text ≠ [] ∧ isCompilerGenerated text = false ∧ ∃ closed truncated,
      closeTruncated text = .ok (closed, truncated) ∧ ∃ name : Name, name.print = closed ∧
      '\x60' ∉ name.head ∧ name.DenotesIn known .root ⟨containing, 0⟩ t ∧
      AllCounted truncated name.suffixes := by
  have hrule := readText_sameRule { known, containing } .nearest .containing
    (.inr ⟨by decide, by decide⟩) text
  rw [readTypeName, readName, String.toList_ofList, hrule]
  unfold readText
  by_cases hempty : text = []
  · simp [hempty]
  · by_cases hgenerated : isCompilerGenerated text = true
    · simp [hempty, hgenerated]
    · rw [if_neg (by simpa using hempty), if_neg hgenerated]
      cases hclose : closeTruncated text with
      | error e => simp [bind, Except.bind]
      | ok closing =>
        obtain ⟨closed, truncated⟩ := closing
        show readClosed _ text closed truncated = .ok t ↔ _
        rw [readClosed_ok_iff]
        constructor
        · intro h
          exact ⟨hempty, by simpa using hgenerated, closed, truncated, rfl, h⟩
        · rintro ⟨-, -, _, _, ⟨⟩, h⟩
          exact h

/-- A text of another length than the one at which names are cut off is read as it is. -/
theorem readTypeName_uncut_ok_iff {known : String → Bool} {containing : Option TypeName}
    {text : List Char} {t : TypeName} (hlength : byteLength text ≠ 1023) :
    readTypeName known containing (String.ofList text) = .ok t ↔
      text ≠ [] ∧ isCompilerGenerated text = false ∧ ∃ name : Name, name.print = text ∧
      '\x60' ∉ name.head ∧ name.DenotesIn known .root ⟨containing, 0⟩ t ∧
      AllCounted false name.suffixes := by
  have hclosed : closeTruncated text = .ok (text, false) := if_neg fun h => hlength h.1
  rw [readTypeName_scoped_ok_iff, hclosed]
  refine and_congr_right fun _ => and_congr_right fun _ => ?_
  constructor
  · rintro ⟨_, _, ⟨⟩, h⟩
    exact h
  · intro h
    exact ⟨text, false, rfl, h⟩

/-- What is accepted in no scope. -/
theorem readTypeName_ok_iff {known : String → Bool} {text : List Char} {t : TypeName} :
    readTypeName known none (String.ofList text) = .ok t ↔
      text ≠ [] ∧ isCompilerGenerated text = false ∧ ∃ closed truncated,
      closeTruncated text = .ok (closed, truncated) ∧ ∃ name : Name, name.print = closed ∧
      '\x60' ∉ name.head ∧ name.Denotes known .root 0 t ∧ AllCounted truncated name.suffixes := by
  simp only [readTypeName_scoped_ok_iff, Name.denotesIn_none]

theorem readText_of_toList {known : String → Bool} {text : List Char}
    {r : Except ParseError TypeName} (h : readText { known } text = r) :
    readTypeName known none (String.ofList text) = r := by
  rw [readTypeName, readName, String.toList_ofList, h]

end ClrNames
