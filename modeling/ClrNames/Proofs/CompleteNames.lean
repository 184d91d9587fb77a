import ClrNames.Proofs.NestedCut
import ClrNames.Proofs.WrittenExpressions

/-!
# Complete names of the length at which names are cut off

Whether a name was cut off is judged by its length alone. A complete name of that length is
closed behind its last separator all the same, so that its list loses what stands behind the
separator, and is not read at all where there is none.
-/

set_option autoImplicit false

namespace ClrNames.Text

/-- What is in front of a closing bracket is in front of a text without any. -/
theorem prefix_of_unclosed {front more before after : List Char} (hfront : ']' ∉ front)
    (h : front ++ more = before ++ ']' :: after) : front <+: before := by
  rcases List.append_eq_append_iff.mp h with
    ⟨inside, hbefore, -⟩ | ⟨_ | ⟨c, inside⟩, hclosed, hrest⟩
  · exact ⟨inside, hbefore.symm⟩
  · exact ⟨[], by simpa using hclosed⟩
  · obtain rfl := (List.cons.inj hrest).1
    exact absurd (by simp [hclosed]) hfront

end ClrNames.Text

namespace ClrNames
open Grammar Text Written

def Elements.upTo : Elements → Nat → Elements
  | .last e assembly, _ => .last e assembly
  | .more e assembly _ _, 0 => .last e assembly
  | .more e assembly gap rest, position + 1 => .more e assembly gap (rest.upTo position)

section
variable {known : String → Bool}

theorem Elements.nodes_upTo : (elements : Elements) → (position : Nat) →
    (elements.upTo position).nodes known = (elements.nodes known).take (position + 1)
  | .last _ _, _ => by simp [Elements.upTo, Elements.nodes]
  | .more _ _ _ _, 0 => rfl
  | .more e _ _ rest, position + 1 => congrArg (e.node known :: ·) (rest.nodes_upTo position)

theorem Elements.fits_upTo : (elements : Elements) → (position : Nat) → {depth : Nat} →
    elements.Fits known depth → (elements.upTo position).Fits known depth
  | .last _ _, _, _, h => h
  | .more _ _ _ _, 0, _, h => h.1
  | .more _ _ _ rest, position + 1, _, h => ⟨h.1, rest.fits_upTo position h.2⟩

/-- A list that goes on behind a text has its elements up to a position in that text. -/
theorem Elements.exists_upTo (known : String → Bool) : (elements : Elements) → {text : List Char} →
    elements.written.Starts text → ∃ position, position + 1 < (elements.nodes known).length ∧
      text = (elements.upTo position).print
  | .more e assembly gap rest, _, .first _ _ _ _ =>
    ⟨0, by cases rest <;> simp [Elements.nodes], by
      simp [Elements.upTo, Elements.print, e.print_written]⟩
  | .more e assembly gap rest, _, .next _ _ _ h => by
    obtain ⟨position, hlt, rfl⟩ := rest.exists_upTo known h
    exact ⟨position + 1, Nat.succ_lt_succ hlt, by
      simp [Elements.upTo, Elements.print, e.print_written, spaces]⟩

end

abbrev listedName (base : Path) (arity : Decimal) (args : Args .any) : Expr .any :=
  .generic base arity none args 0

section
variable {known : String → Bool} {base : Path} {arity : Decimal} {args : Args .any}
  {before : List Char} {t : TypeName}

theorem marked_listedName : '\x60' ∈ (listedName base arity args).print := by
  simp [Expr.print]

theorem unmarked_base : '\x60' ∉ base.print := fun hmem => base.print_word hmem (by decide)

/-- Closed behind the element at a position, a name is read with its elements up to that one. -/
theorem readTypeName_upTo {elements : Elements} {position : Nat}
    (hfits : (listedName base arity (.bracketed elements)).Fits known 0)
    (hgenerated : isCompilerGenerated (listedName base arity (.bracketed elements)).print = false)
    (hlength : byteLength (listedName base arity (.bracketed elements)).print = 1023)
    (hbefore : beforeLast? separator (listedName base arity (.bracketed elements)).print =
      some before)
    (hclosed : before ++ [']', ']'] =
      (listedName base arity (.bracketed (elements.upTo position))).print) :
    readTypeName known none (listedName base arity (.bracketed elements)).text =
      .ok { base.node known with args := (elements.nodes known).take (position + 1) } := by
  obtain ⟨hbase, harity, -, hdepth, helements, -⟩ := hfits
  refine (readTypeName_cut_ok_iff hlength hgenerated marked_listedName hbefore).mpr
    ⟨(listedName base arity (.bracketed (elements.upTo position))).written,
      (Expr.print_written _).trans hclosed.symm, unmarked_base, base.node known,
      named_path base hbase, harity, nofun, ⟨hdepth, nofun⟩, _,
      (elements.upTo position).written_denotes (elements.fits_upTo position helements), ?_⟩
  rw [elements.nodes_upTo]
  exact (TypeName.withArray_false _).symm

/-- Without a separator nothing is read of a name that counts as cut off. -/
theorem separated_of_read {cut : List Char} (hlength : byteLength cut = 1023)
    (hmarked : '\x60' ∈ cut) (hread : readTypeName known none (String.ofList cut) = .ok t) :
    ∃ before, beforeLast? separator cut = some before := by
  obtain ⟨-, -, closed, truncated, hclosed, -⟩ := readTypeName_ok_iff.mp hread
  have hcut : byteLength cut = truncatedLength ∧ '\x60' ∈ cut := ⟨hlength, hmarked⟩
  rw [closeTruncated, if_pos hcut] at hclosed
  cases hbefore : beforeLast? separator cut with
  | some before => exact ⟨before, rfl⟩
  | none =>
    rw [show beforeLast? "],[".toList cut = none from hbefore] at hclosed
    cases hclosed

/-- What is read of a name that counts as cut off is closed behind one of its elements. -/
theorem exists_upTo_of_read (hfits : (listedName base arity args).Fits known 0)
    (hgenerated : isCompilerGenerated (listedName base arity args).print = false)
    (hlength : byteLength (listedName base arity args).print = 1023)
    (hbefore : beforeLast? separator (listedName base arity args).print = some before)
    (hread : readTypeName known none (listedName base arity args).text = .ok t) :
    ∃ (elements : Elements) (position : Nat), args = .bracketed elements ∧
      position + 1 < (elements.nodes known).length ∧
      before ++ [']', ']'] = (listedName base arity (.bracketed (elements.upTo position))).print := by
  obtain ⟨after, hsplit⟩ := beforeLast?_eq_some hbefore
  obtain ⟨name, hprint, hhead, hdenotes⟩ :=
    (readTypeName_cut_ok_iff hlength hgenerated marked_listedName hbefore).mp hread
  have hmarked : '\x60' ∈ before := by
    have hunclosed : ']' ∉ base.print ++ ['\x60'] := by
      have hbase : ']' ∉ base.print := fun hmem => base.print_word hmem (by decide)
      simp [hbase]
    have hclose : base.print ++ ['\x60'] ++ (arity.digits ++ args.print) =
        before ++ ']' :: ([',', '['] ++ after) := by
      simpa [Expr.print, nestedPrint, Markers.print, separator] using hsplit
    exact (prefix_of_unclosed hunclosed hclose).subset (by simp)
  have hwritten : (listedName base arity args).written.print = before ++ separator ++ after :=
    (Expr.print_written _).trans hsplit
  have hnode : (Name.generic base.print (.mk arity none args.written 0)).Denotes known .root 0
      ((listedName base arity args).node known) :=
    (listedName base arity args).written_denotes (fun _ => by decide) hfits
  obtain ⟨⟨elements, text, hlist, hstarts, hfront⟩, -⟩ :=
    starts_of_closed unmarked_base hnode hwritten hmarked hhead hdenotes hprint
  cases args with
  | empty => cases hlist
  | plain items => cases hlist
  | skipped skipped => cases hlist
  | bracketed elements =>
    cases hlist
    obtain ⟨position, hlt, rfl⟩ := elements.exists_upTo known hstarts
    refine ⟨elements, position, rfl, hlt, ?_⟩
    rw [List.append_cons, hfront]
    simp [front, nestedText, Expr.print, Args.print, nestedPrint, Markers.print]

end

/-- A complete name is read as what it denotes, unless it has the length at which names are
cut off. Of that length, it is read if and only if its list goes on behind the last
separator, and then without the elements behind that. -/
theorem readTypeName_complete (known : String → Bool) (base : Path) (arity : Decimal)
    (args : Args .any) (hfits : (listedName base arity args).Fits known 0)
    (hlisted : args.nodes known ≠ [])
    (hgenerated : isCompilerGenerated (listedName base arity args).print = false) :
    (args.nodes known).length = arity.value ∧
    (byteLength (listedName base arity args).print ≠ 1023 →
      readTypeName known none (listedName base arity args).text =
        .ok { base.node known with args := args.nodes known }) ∧
    (byteLength (listedName base arity args).print = 1023 → ∀ t,
      readTypeName known none (listedName base arity args).text = .ok t ↔
        ∃ (elements : Elements) (position : Nat), args = .bracketed elements ∧
          position + 1 < arity.value ∧
          (beforeLast? "],[".toList (listedName base arity args).print).map (· ++ [']', ']']) =
            some (listedName base arity (.bracketed (elements.upTo position))).print ∧
          t = { base.node known with args := (args.nodes known).take (position + 1) }) := by
  have hcount : (args.nodes known).length = arity.value := by
    have hargs := hfits.2.2.2
    cases args with
    | empty => exact absurd rfl hlisted
    | skipped text => exact absurd rfl hlisted
    | plain items => exact hargs.2.2
    | bracketed elements => exact hargs.2.2
  refine ⟨hcount, fun hlength => ?_, fun hlength t => ⟨fun hread => ?_, ?_⟩⟩
  · have hplain := hgenerated
    rw [isCompilerGenerated, Bool.or_eq_false_iff, ← Bool.not_eq_true, ← Bool.not_eq_true,
      occurs_iff, occurs_iff] at hplain
    rw [(readTypeName_expr known _ hplain.1 hplain.2 fun h => hlength h.1).1 hfits]
    exact congrArg Except.ok (TypeName.withArray_false _)
  · obtain ⟨before, hbefore⟩ := separated_of_read hlength marked_listedName hread
    obtain ⟨elements, position, rfl, hlt, hclosed⟩ :=
      exists_upTo_of_read hfits hgenerated hlength hbefore hread
    have hkept := readTypeName_upTo hfits hgenerated hlength hbefore hclosed
    exact ⟨elements, position, rfl, hcount ▸ hlt,
      Option.map_eq_some_iff.mpr ⟨before, hbefore, hclosed⟩,
      Except.ok.inj (hread.symm.trans hkept)⟩
  · rintro ⟨elements, position, rfl, -, hclosed, rfl⟩
    obtain ⟨before, hbefore, hclosed⟩ := Option.map_eq_some_iff.mp hclosed
    exact readTypeName_upTo hfits hgenerated hlength hbefore hclosed

/-- The third of three elements is lost, with what is said about it. -/
theorem readTypeName_complete_third :
    let known : String → Bool := (· == "X")
    let base : Path := ⟨[], ⟨['B'], by simp, by simp [grammarMarks]⟩⟩
    let three : Decimal := ⟨['3'], by simp, by simp⟩
    let first : Path := ⟨[⟨['X'], by simp, by simp [grammarMarks]⟩],
      ⟨['a'], by simp, by simp [grammarMarks]⟩⟩
    let zeroth : Position := ⟨⟨['0'], by simp, by simp⟩, by decide⟩
    let last : Path := ⟨[], ⟨['c'], by simp, by simp [grammarMarks]⟩⟩
    let elements : Elements := .more (.leaf first 0) .none 0
      (.more (.reference .type zeroth 1 0) .none 0
        (.last (.leaf last 0) (.some (List.replicate 1001 'q')
          fun hmem => by cases List.eq_of_mem_replicate hmem)))
    let name := listedName base three (.bracketed elements)
    name.Fits known 0 ∧ name.node known = { TypeName.topLevel "" "B" with
      args := [(TypeName.topLevel "" "X").nested "a",
        (TypeName.placeholder ⟨0, .type⟩).withArray true, .topLevel "" "c"] } ∧
    isCompilerGenerated name.print = false ∧ byteLength name.print = 1023 ∧
    readTypeName known none name.text = .ok { TypeName.topLevel "" "B" with
      args := [(TypeName.topLevel "" "X").nested "a",
        (TypeName.placeholder ⟨0, .type⟩).withArray true] } := by
  intro known base three first zeroth last elements name
  have hfits : name.Fits known 0 := by decide
  have hgenerated : isCompilerGenerated name.print = false := by decide +kernel
  have hlength : byteLength name.print = 1023 := by decide +kernel
  have hread := ((readTypeName_complete known base three (.bracketed elements) hfits (by decide)
    hgenerated).2.2 hlength _).mpr ⟨elements, 1, rfl, by decide, by decide +kernel, rfl⟩
  exact ⟨hfits, by decide, hgenerated, hlength, hread⟩

/-- Both of the declared arguments are listed, and one of them is read. -/
theorem complete_element_lost :
    let known : String → Bool := fun _ => false
    let base : Path := ⟨[], ⟨['B'], by simp, by simp [grammarMarks]⟩⟩
    let two : Decimal := ⟨['2'], by simp, by simp⟩
    let first : Path := ⟨[], ⟨['a'], by simp, by simp [grammarMarks]⟩⟩
    let last : Path := ⟨[], ⟨['c'], by simp, by simp [grammarMarks]⟩⟩
    let elements : Elements := .more (.leaf first 0) (.some (' ' :: List.replicate 1009 'q')
      fun hmem => by cases List.eq_of_mem_replicate (List.mem_of_ne_of_mem (by decide) hmem)) 0
      (.last (.leaf last 0) .none)
    let name := listedName base two (.bracketed elements)
    name.print = "B\x602[[a, ".toList ++ List.replicate 1009 'q' ++ "],[c]]".toList ∧
    name.Fits known 0 ∧ name.node known = { TypeName.topLevel "" "B" with
      args := [.topLevel "" "a", .topLevel "" "c"] } ∧
    isCompilerGenerated name.print = false ∧ byteLength name.print = 1023 ∧
    readTypeName known none name.text = .ok { TypeName.topLevel "" "B" with
      args := [.topLevel "" "a"] } ∧
    readTypeName known none name.text ≠ .ok (name.node known) := by
  intro known base two first last elements name
  have hnode : name.node known = { TypeName.topLevel "" "B" with
      args := [.topLevel "" "a", .topLevel "" "c"] } := by decide
  have hread : readTypeName known none name.text = .ok { TypeName.topLevel "" "B" with
      args := [.topLevel "" "a"] } := readText_of_toList (by decide +kernel)
  refine ⟨by decide +kernel, by decide, hnode, by decide +kernel, by decide +kernel, hread, ?_⟩
  rw [hread, hnode]
  decide

end ClrNames
