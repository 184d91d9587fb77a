import Mathlib.Data.List.Nodup
import ClrNames.Proofs.BatchAccounting
import ClrNames.Proofs.NamespaceSplit

/-!
# The summaries that a batch keeps

A batch holds one summary at most of a key, and looking the key up finds it. Where names
that differ from a known one in the case of a letter are left out, no two of the kept
types of the namespace `via` can be told apart by the case of their first letter alone.
-/

set_option autoImplicit false

namespace ClrNames
open Text Grammar

/-! ## Lookup -/

section
variable (known : String → Bool) (options : SummaryOptions) (dump : Dump)

theorem buildWith_increasing :
    Ordered.Increasing TypeSummary.key
      (SummaryBatch.buildWith known options dump).summaries.toList :=
  (tallied_eligible known options dump).increasing (eligible_keys_nodup dump options.filter)

/-- The summaries of a batch are those of its eligible entries. -/
theorem mem_buildWith_iff (summary : TypeSummary) :
    summary ∈ (SummaryBatch.buildWith known options dump).summaries ↔
      options.filter.accepts summary.key = true ∧ ∃ entry,
        dump.get? summary.key = some entry ∧
          Becomes known options summary.key entry (.summarised summary) := by
  have haccounts := (tallied_eligible known options dump).accounts
    (eligible_keys_nodup dump options.filter)
  refine (haccounts.summarised summary).trans ?_
  simp only [Dump.eligible, Dump.toList, List.mem_filter, Dump.get?, NameMap.get?_eq_some_iff]
  constructor
  · rintro ⟨key, entry, ⟨hmem, haccepts⟩, hkept⟩
    obtain rfl : summary.key = key :=
      key_of_summarised ((verdict_eq_iff _ _ _ _ _).mpr hkept)
    exact ⟨haccepts, entry, hmem, hkept⟩
  · rintro ⟨haccepts, entry, hmem, hkept⟩
    exact ⟨summary.key, entry, ⟨hmem, haccepts⟩, hkept⟩

end

/-- Of no key there are two summaries in a batch, and looking it up answers the one that is
there, or nothing if there is none. -/
theorem get?_buildWith (known : String → Bool) (options : SummaryOptions) (dump : Dump)
    (key : String) :
    let b := SummaryBatch.buildWith known options dump
    (∀ summary, b.get? key = some summary ↔ summary ∈ b.summaries ∧ summary.key = key) ∧
      (b.get? key = none ↔ ∀ summary ∈ b.summaries, summary.key ≠ key) ∧
      b.summaries.countP (·.key = key) ≤ 1 := by
  intro b
  have hincreasing := buildWith_increasing known options dump
  have hfound (summary : TypeSummary) :
      b.get? key = some summary ↔ summary ∈ b.summaries ∧ summary.key = key :=
    Ordered.search_eq_some_iff TypeSummary.key b.summaries hincreasing key summary
  refine ⟨hfound, ?_, ?_⟩
  · rw [Option.eq_none_iff_forall_ne_some]
    simp only [ne_eq, hfound, not_and]
  · have hnodup : (b.summaries.toList.map TypeSummary.key).Nodup :=
      List.pairwise_map.mpr (hincreasing.imp String.ne_of_lt)
    have honce := List.nodup_iff_count_le_one.mp hnodup key
    rw [List.count, List.countP_map] at honce
    rw [← Array.countP_toList]
    exact honce

/-! ## Case of the first letter -/

/-- Below no declaration and outside of any list a reference is in no namespace. -/
theorem nspace_of_reference {o : ReadOptions} (hscope : o.containing = none) {name : String}
    {t : TypeName} (h : readName o name = .ok t) (htick : '\x60' ∉ name.toList)
    (hhead : ((segments name.toList).getLastD []).head? = some '!') : t.nspace = "" := by
  obtain ⟨s, hrun⟩ := nameOf_of_readName h htick
  obtain ⟨-, hrun⟩ := check_eq_ok hrun
  rw [if_pos hhead] at hrun
  obtain ⟨-, ⟨p, -, rfl⟩, -⟩ := backReference_ok_iff.mp hrun
  have hnone : scope (o.settings false).scopeRule
      ((State.mk (.start name.toList o.containing) 0).pass name.toList []).cursor = none := by
    rw [hscope]
    cases (o.settings false).scopeRule <;> rfl
  rw [TypeName.withArray_nspace, resolve, hnone]
  cases p.kind <;> rfl

/-- A name without arguments that is neither a reference nor an array is the full name of
its type. -/
theorem fullname_of_readName {o : ReadOptions} {name : String} {t : TypeName}
    (h : readName o name = .ok t) (htick : '\x60' ∉ name.toList)
    (hplain : ((segments name.toList).getLastD []).head? ≠ some '!')
    (harray : DumpFilter.isArrayName name = false) : t.fullname = name := by
  obtain ⟨qualifier, last, markers, hdotted, hparts, rfl⟩ := dotted_of_readName h htick hplain
  have htext := hdotted.text_eq
  have hmarkers : markers = 0 := by
    cases markers with
    | zero => rfl
    | succ markers =>
      have hsuffix : "[]".toList <:+ name.toList := by
        rw [htext, brackets, List.replicate_succ', List.flatten_concat, ← List.append_assoc]
        exact List.suffix_append _ _
      rw [DumpFilter.isArrayName, List.isSuffixOf_iff_suffix.mpr hsuffix] at harray
      cases harray
  rw [hmarkers, brackets_zero, List.append_nil] at htext
  rw [TypeName.fullname_chainOf fun part hpart => hparts part (List.mem_append_left _ hpart),
    ← htext, String.ofList_toList]

def TopLevelIn (nspace : String) (t : TypeName) : Prop := t.isNested = false ∧ t.nspace = nspace

theorem fullname_of_topLevelIn {nspace : String} {t : TypeName} (h : TopLevelIn nspace t) :
    t.fullname = nspacePrefix nspace ++ t.name := by
  obtain ⟨hnested, rfl⟩ := h
  cases t with
  | mk nspace name enclosing args isArray param =>
    cases enclosing with
    | none => exact TypeName.fullname_topLevel name nspace
    | some outer => cases hnested

/-- The name table of a dump knows its keys and the implicit types. -/
theorem nameTable_contains_eq (dump : Dump) : dump.nameTable.contains =
    fun name => decide (name ∈ dump.entries.names ++ Dump.implicitTypes) := by
  funext name
  rw [Bool.eq_iff_iff, Dump.nameTable, NameSet.contains_ofNames, decide_eq_true_iff]

theorem nameTable_contains_key (dump : Dump) {key : String} {entry : TypeEntry}
    (h : dump.get? key = some entry) : dump.nameTable.contains key = true := by
  have hmem : (key, entry) ∈ dump.entries.toList := (NameMap.get?_eq_some_iff _ _ _).mp h
  rw [nameTable_contains_eq, decide_eq_true_iff]
  exact List.mem_append_left _ (List.mem_map_of_mem hmem)

/-- Two types of the namespace `via` whose names differ in nothing but the case of the first
letter; the key of the one with the capital has no arity. -/
structure CaseClash (lower upper : TypeSummary) : Prop where
  lower_native : TopLevelIn "via" lower.name
  upper_native : TopLevelIn "via" upper.name
  unmarked : '\x60' ∉ upper.key.toList
  names : ∃ first rest, lower.name.name.toList = first :: rest ∧ first.isLower = true ∧
    upper.name.name.toList = first.toUpper :: rest

/-- The key of the type with the capital is what the table is asked for. -/
theorem CaseClash.shadows {lower upper : TypeSummary} (h : CaseClash lower upper)
    {known : String → Bool} (hknown : known upper.name.fullname = true) :
    shadowsNativeType known lower.name = true := by
  obtain ⟨first, rest, hlower, hcase, hupper⟩ := h.names
  have hfull : upper.name.fullname = "via." ++ String.ofList (first.toUpper :: rest) := by
    rw [fullname_of_topLevelIn h.upper_native, ← hupper, String.ofList_toList]
    rfl
  obtain ⟨hnested, hnspace⟩ := h.lower_native
  simp only [shadowsNativeType, hnested, hnspace, hlower, hcase, ← hfull, hknown]
  rfl

/-- Without arrays and shadowed types no two summaries of a batch clash. -/
theorem build_no_clash (options : SummaryOptions) (dump : Dump)
    (hshadowed : options.skipShadowed = true) (harrays : options.filter.skipArrays = true) :
    ∀ lower ∈ (SummaryBatch.build options dump).summaries,
      ∀ upper ∈ (SummaryBatch.build options dump).summaries, ¬ CaseClash lower upper := by
  intro lower hlower upper hupper hclash
  obtain ⟨-, entry, -, -, t, -, hkept, hlower⟩ := (mem_buildWith_iff _ _ _ _).mp hlower
  obtain ⟨haccepts, entry', hentry, -, t', hread, -, hupper⟩ :=
    (mem_buildWith_iff _ _ _ _).mp hupper
  obtain rfl : upper.name = t' := by rw [hupper]; rfl
  obtain rfl : lower.name = t := by rw [hlower]; rfl
  have harray : DumpFilter.isArrayName upper.key = false := by
    rw [DumpFilter.accepts, harrays] at haccepts
    simpa using (Bool.and_eq_true_iff.mp haccepts).2
  have hplain : ((segments upper.key.toList).getLastD []).head? ≠ some '!' := by
    intro hhead
    have hnspace := nspace_of_reference rfl hread hclash.unmarked hhead
    exact absurd (hclash.upper_native.2.symm.trans hnspace) (by decide)
  have hfull := fullname_of_readName hread hclash.unmarked hplain harray
  exact hkept ⟨hshadowed, hclash.shadows (hfull ▸ nameTable_contains_key dump hentry)⟩

/-- A type with a capital is kept, and of those with a small letter the one that is not
its double. -/
theorem build_no_clash_quaternion :
    let loaded : TypeEntry := { address := some "0x10" }
    let dump : Dump :=
      ⟨⟨#[("via.Quaternion", loaded), ("via.quaternion", loaded), ("via.vec3", loaded)], by
        unfold Ordered.Increasing
        decide⟩⟩
    let kept (key name : String) : TypeSummary :=
      .ofParsed dump.nameTable.contains .csharp key loaded (.topLevel "via" name)
    let b := SummaryBatch.build .csharp dump
    kept "via.vec3" "vec3" ∈ b.summaries ∧ kept "via.Quaternion" "Quaternion" ∈ b.summaries ∧
      (∀ summary ∈ b.summaries, summary.key ≠ "via.quaternion") ∧
      ¬ CaseClash (kept "via.vec3" "vec3") (kept "via.Quaternion" "Quaternion") := by
  intro loaded dump kept b
  have hkept (key name : String) (haccepts : DumpFilter.csharp.accepts key = true)
      (hentry : dump.get? key = some loaded)
      (h : Becomes dump.nameTable.contains .csharp key loaded (.summarised (kept key name))) :
      kept key name ∈ b.summaries :=
    (mem_buildWith_iff _ _ _ _).mpr ⟨haccepts, loaded, hentry, h⟩
  have hlower : kept "via.vec3" "vec3" ∈ b.summaries := by
    apply hkept _ _ (by decide) (by decide +kernel)
    simp only [kept, nameTable_contains_eq]
    decide +kernel
  have hupper : kept "via.Quaternion" "Quaternion" ∈ b.summaries := by
    apply hkept _ _ (by decide) (by decide +kernel)
    simp only [kept, nameTable_contains_eq]
    decide +kernel
  have hdropped : verdict dump.nameTable.contains .csharp "via.quaternion" loaded = .skipped := by
    rw [nameTable_contains_eq]
    decide +kernel
  refine ⟨hlower, hupper, ?_, build_no_clash .csharp dump rfl rfl _ hlower _ hupper⟩
  intro summary hmem hkey
  obtain ⟨-, entry, hentry, hbecomes⟩ := (mem_buildWith_iff _ _ _ _).mp hmem
  have hloaded : dump.get? "via.quaternion" = some loaded := by decide +kernel
  rw [hkey] at hentry hbecomes
  cases hloaded.symm.trans hentry
  cases hdropped.symm.trans ((verdict_eq_iff _ _ _ _ _).mpr hbecomes)

end ClrNames
