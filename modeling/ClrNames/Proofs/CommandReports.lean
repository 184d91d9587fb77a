import Mathlib.Data.List.Basic
import ClrNames.Proofs.BatchAccounting
import ClrNames.Proofs.ReportText

/-!
# Two reports on one dump

The list of types and the list of failures filter a dump in their own ways, and
short names, styles and shadowed names are matters of the first alone. Both count
the keys that are refused: which keys these are is told by the dump and by what
the filter keeps, and arrays are all that one filter can keep and the other not.
-/

set_option autoImplicit false

namespace ClrNames

def Refused (known : String → Bool) (outcome : Outcome) (key : String) (entry : TypeEntry) : Prop :=
  Considered key entry ∧ ∃ e, readDefinition known key = .error e ∧ e.outcome = outcome

def Outcome.verdict : Outcome → Verdict
  | .malformed => .failed
  | .unsupported => .unsupported

section
variable {known : String → Bool} {outcome : Outcome} {key : String} {entry : TypeEntry}

/-- Options have no say in what is refused. -/
theorem verdict_eq_outcome_iff (options : SummaryOptions) :
    verdict known options key entry = outcome.verdict ↔ Refused known outcome key entry := by
  rw [verdict_eq_iff]
  cases outcome with
  | malformed =>
    have hmalformed (e : ParseError) : e.outcome ≠ .unsupported ↔ e.outcome = .malformed := by
      cases e.outcome <;> simp
    simp only [Outcome.verdict, Becomes, Refused, hmalformed]
  | unsupported => rfl

instance : Decidable (Refused known outcome key entry) :=
  decidable_of_iff (verdict known {} key entry = outcome.verdict) (verdict_eq_outcome_iff {})

def refusedKeys (dump : Dump) (filter : DumpFilter) (outcome : Outcome) : List String :=
  ((dump.eligible filter).filter fun (key, entry) =>
    Refused dump.nameTable.contains outcome key entry).map Prod.fst

theorem refusedKeys_increasing (dump : Dump) (filter : DumpFilter) (outcome : Outcome) :
    (refusedKeys dump filter outcome).Pairwise (· < ·) :=
  dump.entries.names_increasing.sublist
    ((List.filter_sublist.trans List.filter_sublist).map Prod.fst)

theorem build_failures (options : SummaryOptions) (dump : Dump) :
    (SummaryBatch.build options dump).failures.names =
      refusedKeys dump options.filter .malformed := by
  have hperm := (tallied_eligible dump.nameTable.contains options dump).failures
  have hkeys : ((dump.eligible options.filter).filter fun (key, entry) =>
      verdict dump.nameTable.contains options key entry = .failed).map Prod.fst =
      refusedKeys dump options.filter .malformed := by
    simp only [refusedKeys, ← verdict_eq_outcome_iff options, Outcome.verdict]
  rw [hkeys] at hperm
  exact hperm.eq_of_pairwise (fun _ _ _ _ hab hba => absurd hab (String.lt_asymm hba))
    (NameMap.names_increasing _) (refusedKeys_increasing dump _ _)

theorem build_unsupported (options : SummaryOptions) (dump : Dump) :
    (SummaryBatch.build options dump).unsupported =
      (refusedKeys dump options.filter .unsupported).length := by
  refine (tallied_eligible dump.nameTable.contains options dump).unsupported.trans ?_
  rw [refusedKeys, List.length_map, ← List.countP_eq_length_filter]
  simp only [← verdict_eq_outcome_iff options, Outcome.verdict]

theorem accepts_skipArrays (filter : DumpFilter) (name : String) :
    DumpFilter.accepts { filter with skipArrays := true } name =
      (DumpFilter.accepts { filter with skipArrays := false } name &&
        !DumpFilter.isArrayName name) := by
  simp [DumpFilter.accepts]

/-- Skipping arrays leaves out the keys of arrays and no other. -/
theorem refusedKeys_skipArrays (dump : Dump) (filter : DumpFilter) (outcome : Outcome) :
    refusedKeys dump { filter with skipArrays := true } outcome =
      (refusedKeys dump { filter with skipArrays := false } outcome).filter
        fun key => !DumpFilter.isArrayName key := by
  simp only [refusedKeys, Dump.eligible, List.filter_map, List.filter_filter]
  congr 2
  funext entry
  rw [accepts_skipArrays]
  simp only [Function.comp_apply]
  ac_rfl

def refusedArrays (dump : Dump) (includeSystem : Bool) (outcome : Outcome) : List String :=
  (refusedKeys dump ⟨!includeSystem, false⟩ outcome).filter DumpFilter.isArrayName

theorem length_refusedKeys (dump : Dump) (includeSystem includeArrays : Bool) (outcome : Outcome) :
    (refusedKeys dump ⟨!includeSystem, !includeArrays⟩ outcome).length =
      (refusedKeys dump ⟨!includeSystem, true⟩ outcome).length +
        if includeArrays then (refusedArrays dump includeSystem outcome).length else 0 := by
  cases includeArrays with
  | false => rfl
  | true =>
    have hskip := refusedKeys_skipArrays dump ⟨!includeSystem, false⟩ outcome
    have hsplit := List.length_eq_length_filter_add DumpFilter.isArrayName
      (l := refusedKeys dump ⟨!includeSystem, false⟩ outcome)
    rw [hskip, refusedArrays, Nat.add_comm]
    exact hsplit

end

theorem NameMap.length_names {α : Type} (m : NameMap α) : m.names.length = m.size := by
  simp [names, size, toList]

namespace CommandLine

theorem loadDump_loaded {files : String → FileContent} {path : String} {dump : Dump}
    (hload : Dump.load (files path) = .ok dump) : loadDump files path = .ok dump := by
  rw [loadDump, hload]

theorem runTypes_loaded {files : String → FileContent} {path : String} {dump : Dump}
    (hload : Dump.load (files path) = .ok dump) {styleName : String} {style : Style}
    (hstyle : Style.named? styleName = some style) (json : Bool) (nspace : Option String)
    (includeSystem includeArrays : Bool) :
    let report := TypesReport.ofDump style nspace includeSystem includeArrays dump
    ∃ out, runTypes files json path nspace includeSystem includeArrays styleName =
        .ok { exitCode := 0, stdout := out } ∧
      PrintsTypes report.rows report.unsupported report.failed json out := by
  intro report
  refine ⟨_, ?_, report.prints json⟩
  simp only [runTypes, hstyle, loadDump_loaded hload]
  rfl

theorem runFailures_loaded {files : String → FileContent} {path : String} {dump : Dump}
    (hload : Dump.load (files path) = .ok dump) (json includeSystem : Bool) :
    let report := FailuresReport.ofDump includeSystem dump
    ∃ result, runFailures files json path includeSystem = .ok result ∧
      PrintsFailures report.failures report.parsed report.unsupported json result.stdout ∧
      (result.exitCode ≠ 0 ↔ report.failures ≠ []) := by
  intro report
  unfold runFailures
  rw [loadDump_loaded hload]
  simp only [bind, Except.bind]
  split
  next hnone =>
    exact ⟨_, rfl, report.prints json, by simp [Result.success, report, List.isEmpty_iff.mp hnone]⟩
  next hsome => exact ⟨_, rfl, report.prints json, by simpa using hsome⟩

theorem failures_ofDump (includeSystem : Bool) (dump : Dump) :
    (FailuresReport.ofDump includeSystem dump).failures =
      refusedKeys dump ⟨!includeSystem, true⟩ .malformed :=
  build_failures (filtered .csharp includeSystem false) dump

theorem failed_ofDump (style : Style) (nspace : Option String) (includeSystem includeArrays : Bool)
    (dump : Dump) :
    (TypesReport.ofDump style nspace includeSystem includeArrays dump).failed =
      (refusedKeys dump ⟨!includeSystem, !includeArrays⟩ .malformed).length := by
  have hkeys := build_failures (filtered style.options includeSystem includeArrays) dump
  exact (NameMap.length_names _).symm.trans (congrArg List.length hkeys)

/-- Both commands count the same refused keys of a dump, in every style and whatever
namespace is asked for, but that the list of types may be told to include arrays and then
counts the refused arrays on top. These are the numbers they print, as text and as JSON.
The failures are listed in the order of their bytes, and the command that lists them fails
if there are any. -/
theorem reports_agree (dump : Dump) (style : Style) (nspace : Option String)
    (includeSystem includeArrays : Bool) :
    let types := TypesReport.ofDump style nspace includeSystem includeArrays dump
    let failures := FailuresReport.ofDump includeSystem dump
    let malformed := refusedKeys dump ⟨!includeSystem, true⟩ .malformed
    let unsupported := refusedKeys dump ⟨!includeSystem, true⟩ .unsupported
    let arrays := fun outcome =>
      if includeArrays then (refusedArrays dump includeSystem outcome).length else 0
    types.failed = failures.failures.length + arrays .malformed ∧
      types.unsupported = failures.unsupported + arrays .unsupported ∧
      failures.failures = malformed ∧ failures.unsupported = unsupported.length ∧
      malformed.Pairwise (fun a b => a.toUTF8.toList < b.toUTF8.toList) ∧
      ∀ (files : String → FileContent) (path styleName : String) (json verbose : Bool),
        Dump.load (files path) = .ok dump → Style.named? styleName = some style →
        (∃ out, runInvocation files
            ⟨json, verbose, .types path nspace includeSystem includeArrays styleName⟩ =
            .ok { exitCode := 0, stdout := out } ∧
          PrintsTypes types.rows (unsupported.length + arrays .unsupported)
            (malformed.length + arrays .malformed) json out) ∧
        ∃ result, runInvocation files ⟨json, verbose, .failures path includeSystem⟩ = .ok result ∧
          PrintsFailures malformed failures.parsed unsupported.length json result.stdout ∧
          (result.exitCode ≠ 0 ↔ malformed ≠ []) := by
  intro types failures malformed unsupported arrays
  have hlisted : failures.failures = malformed := failures_ofDump includeSystem dump
  have hfewer : failures.unsupported = unsupported.length :=
    build_unsupported (filtered .csharp includeSystem false) dump
  have hfailed : types.failed = malformed.length + arrays .malformed :=
    (failed_ofDump style nspace includeSystem includeArrays dump).trans
      (length_refusedKeys dump includeSystem includeArrays .malformed)
  have hunsupported : types.unsupported = unsupported.length + arrays .unsupported :=
    (build_unsupported (filtered style.options includeSystem includeArrays) dump).trans
      (length_refusedKeys dump includeSystem includeArrays .unsupported)
  refine ⟨by rw [hlisted, hfailed], by rw [hfewer, hunsupported], hlisted, hfewer, ?_, ?_⟩
  · exact (refusedKeys_increasing dump _ _).imp fun hlt => (Text.toUTF8_lt_iff _ _).mpr hlt
  · intro files path styleName json verbose hload hstyle
    rw [← hunsupported, ← hfailed, ← hlisted, ← hfewer]
    exact ⟨runTypes_loaded hload hstyle json nspace includeSystem includeArrays,
      runFailures_loaded hload json includeSystem⟩

def refusingText : String :=
  "\x7b\".[]\":\x7b\"address\":\"1\"\x7d,\"B.\":\x7b\"address\":\"1\"\x7d\x7d"

def refusingDump : Dump :=
  ⟨⟨#[(".[]", { address := some "1" }), ("B.", { address := some "1" })],
    by unfold Ordered.Increasing; decide⟩⟩

theorem load_refusingText :
    Dump.load (.content refusingText.toUTF8.toList) = .ok refusingDump := by
  have hread : Dump.load (.content refusingText.toUTF8.toList) =
      .ok (.ofList [(".[]", { address := some "1" }), ("B.", { address := some "1" })]) := by
    with_unfolding_all rfl
  have hentries := NameMap.ofList_toList refusingDump.entries
  exact hread.trans (congrArg (fun entries => Except.ok (Dump.mk entries)) hentries)

theorem reports_agree_arrays :
    let files : String → FileContent := fun _ => .content refusingText.toUTF8.toList
    Dump.load (files "dump.json") = .ok refusingDump ∧ Style.named? "plain" = some .plain ∧
      (∃ out, runInvocation files
          ⟨false, false, .types "dump.json" none false true "plain"⟩ =
          .ok { exitCode := 0, stdout := out } ∧
        out = "0 type(s) listed, 0 unsupported.\n" ++
          "2 type name(s) failed to parse, see `refdump failures`.\n") ∧
      ∃ result, runInvocation files ⟨false, false, .failures "dump.json" false⟩ = .ok result ∧
        result.stdout = "B.\n\n0 parsed, 0 unsupported, 1 failed.\n" ∧ result.exitCode ≠ 0 := by
  intro files
  have hload : Dump.load (files "dump.json") = .ok refusingDump := load_refusingText
  have hstyle : Style.named? "plain" = some .plain := rfl
  have hmalformed : refusedKeys refusingDump ⟨true, true⟩ .malformed = ["B."] := by decide +kernel
  have hunsupported : refusedKeys refusingDump ⟨true, true⟩ .unsupported = [] := by decide +kernel
  have harrays : (refusedArrays refusingDump false .malformed).length = 1 ∧
      (refusedArrays refusingDump false .unsupported).length = 0 := by decide +kernel
  have hrows : (TypesReport.ofDump .plain none false true refusingDump).rows = [] := by
    decide +kernel
  have hparsed : (FailuresReport.ofDump false refusingDump).parsed = 0 := by decide +kernel
  obtain ⟨-, -, -, -, -, hruns⟩ := reports_agree refusingDump .plain none false true
  obtain ⟨⟨out, htypes, hout⟩, result, hfailures, hprinted, hexit⟩ :=
    hruns files "dump.json" "plain" false false hload hstyle
  simp only [Bool.not_false, hmalformed, hunsupported, harrays, hrows, hparsed]
    at hout hprinted hexit
  exact ⟨hload, hstyle, ⟨out, htypes, hout⟩, result, hfailures, hprinted, hexit.mpr nofun⟩

end CommandLine

end ClrNames
