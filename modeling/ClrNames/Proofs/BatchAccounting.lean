import Mathlib.Logic.Relation
import ClrNames.Proofs.Utf8
import ClrNames.Summary.Batch

/-!
# Batches in any order

Workers take the eligible entries one by one, in whatever order. Each entry ends
as a summary, as a failure, or in one of the two counts, which of them depends on
nothing but the entry, and every order ends with one and the same batch.
-/

set_option autoImplicit false

namespace ClrNames

namespace NameMap

variable {α : Type}

theorem put_perm (name : String) (value : α) (l : List (String × α))
    (h : name ∉ l.map Prod.fst) : (put name value l).Perm ((name, value) :: l) := by
  fun_induction put name value l with
  | case1 => exact .refl _
  | case2 => exact .refl _
  | case3 n v rest => simp at h
  | case4 n v rest _ _ ih =>
    rw [List.map_cons, List.mem_cons, not_or] at h
    exact ((ih h.2).cons _).trans (.swap _ _ _)

theorem names_insert_perm (m : NameMap α) (name : String) (value : α) (h : name ∉ m.names) :
    (m.insert name value).names.Perm (name :: m.names) :=
  (put_perm name value m.toList h).map Prod.fst

theorem names_increasing (m : NameMap α) : m.names.Pairwise (· < ·) :=
  List.pairwise_map.mpr m.toList_increasing

theorem names_nodup (m : NameMap α) : m.names.Nodup :=
  m.names_increasing.imp fun h => String.ne_of_lt h

end NameMap

theorem NameSet.names_inj {s t : NameSet} (h : s.names.Perm t.names) : s = t := by
  have hnames : s.names = t.names :=
    h.eq_of_pairwise (fun a b _ _ hab hba => absurd hab (String.lt_asymm hba))
      s.names_increasing t.names_increasing
  have hlist (m : NameSet) : m.toList = m.names.map fun name => (name, ()) := by
    simp [NameMap.names, Function.comp_def]
  apply NameMap.toList_inj
  rw [hlist s, hlist t, hnames]

/-! ## What becomes of an entry -/

section
variable (known : String → Bool) (options : SummaryOptions) (key : String) (entry : TypeEntry)

def Considered : Prop :=
  isGeneratedKey key = false ∧ entry.isInstantiation = false ∧ entry.hasAddress = true

/-- What becomes of an entry. It is passed over for what is known without reading its
name, or because its name differs from a known one only in the case of a letter. -/
def Becomes : Verdict → Prop
  | .skipped =>
    isGeneratedKey key = true ∨ entry.isInstantiation = true ∨ entry.hasAddress = false ∨
      ∃ t, readDefinition known key = .ok t ∧ options.skipShadowed = true ∧
        shadowsNativeType known t = true
  | .failed =>
    Considered key entry ∧ ∃ e, readDefinition known key = .error e ∧ e.outcome ≠ .unsupported
  | .unsupported =>
    Considered key entry ∧ ∃ e, readDefinition known key = .error e ∧ e.outcome = .unsupported
  | .summarised summary =>
    Considered key entry ∧ ∃ t, readDefinition known key = .ok t ∧
      ¬ (options.skipShadowed = true ∧ shadowsNativeType known t = true) ∧
      summary = .ofParsed known options.shortNames key entry t

theorem isSkipped_eq_false_iff : isSkipped key entry = false ↔ Considered key entry := by
  simp [isSkipped, Considered, and_assoc]

variable {known options key entry}

theorem verdict_of_not_considered (h : ¬ Considered key entry) :
    verdict known options key entry = .skipped := by
  have hskip : isSkipped key entry = true := by
    simpa using mt (isSkipped_eq_false_iff key entry).mp h
  rw [verdict, TypeSummary.ofEntry, if_pos hskip]

theorem skipped_of_not_considered (h : ¬ Considered key entry) :
    Becomes known options key entry .skipped := by
  unfold Becomes
  cases hkey : isGeneratedKey key with
  | true => exact .inl rfl
  | false =>
    cases hinst : entry.isInstantiation with
    | true => exact .inr (.inl rfl)
    | false =>
      cases haddress : entry.hasAddress with
      | false => exact .inr (.inr (.inl rfl))
      | true => exact absurd ⟨hkey, hinst, haddress⟩ h

theorem verdict_of_read {t : TypeName} (h : Considered key entry)
    (ht : readDefinition known key = .ok t) :
    verdict known options key entry =
      if options.skipShadowed && shadowsNativeType known t then .skipped
      else .summarised (.ofParsed known options.shortNames key entry t) := by
  rw [verdict, TypeSummary.ofEntry, (isSkipped_eq_false_iff key entry).mpr h, ht]
  rfl

theorem verdict_of_refused {e : ParseError} (h : Considered key entry)
    (he : readDefinition known key = .error e) :
    verdict known options key entry =
      if e.outcome = .unsupported then .unsupported else .failed := by
  have hentry : TypeSummary.ofEntry known options.shortNames key entry = .error e := by
    rw [TypeSummary.ofEntry, (isSkipped_eq_false_iff key entry).mpr h, he]
    rfl
  rw [verdict, hentry]
  dsimp only
  cases e.outcome <;> rfl

theorem verdict_eq_skipped_iff :
    verdict known options key entry = .skipped ↔ Becomes known options key entry .skipped := by
  by_cases h : Considered key entry
  · have hknown := h
    simp only [Considered] at hknown
    cases hread : readDefinition known key with
    | ok t =>
      rw [verdict_of_read h hread]
      simp [Becomes, hknown, hread]
    | error e =>
      rw [verdict_of_refused h hread]
      cases e.outcome <;> simp [Becomes, hknown, hread]
  · exact iff_of_true (verdict_of_not_considered h) (skipped_of_not_considered h)

/-- The two verdicts on names that are refused. -/
theorem verdict_eq_refusal_iff {v : Verdict} (hskipped : v ≠ .skipped)
    (hsummarised : ∀ summary, v ≠ .summarised summary) :
    verdict known options key entry = v ↔ Considered key entry ∧ ∃ e,
      readDefinition known key = .error e ∧
        (if e.outcome = .unsupported then Verdict.unsupported else .failed) = v := by
  by_cases h : Considered key entry
  · cases hread : readDefinition known key with
    | ok t =>
      rw [verdict_of_read h hread]
      split
      · simp [hskipped.symm]
      · simp [(hsummarised _).symm]
    | error e =>
      rw [verdict_of_refused h hread]
      simp [h]
  · rw [verdict_of_not_considered h]
    simp [h, hskipped.symm]

theorem verdict_eq_failed_iff :
    verdict known options key entry = .failed ↔ Becomes known options key entry .failed := by
  rw [verdict_eq_refusal_iff (by nofun) (by nofun)]
  simp [Becomes]

theorem verdict_eq_unsupported_iff :
    verdict known options key entry = .unsupported ↔
      Becomes known options key entry .unsupported := by
  rw [verdict_eq_refusal_iff (by nofun) (by nofun)]
  simp [Becomes]

theorem verdict_eq_summarised_iff (summary : TypeSummary) :
    verdict known options key entry = .summarised summary ↔
      Becomes known options key entry (.summarised summary) := by
  unfold Becomes
  by_cases h : Considered key entry
  · cases hread : readDefinition known key with
    | ok t =>
      rw [verdict_of_read h hread]
      by_cases hshadow : options.skipShadowed = true ∧ shadowsNativeType known t = true
      · simp [hshadow]
      · rw [if_neg (by simpa using hshadow)]
        constructor
        · intro heq
          exact ⟨h, t, rfl, hshadow, (Verdict.summarised.inj heq).symm⟩
        · rintro ⟨_, t', ht, _, rfl⟩
          cases ht
          rfl
    | error e =>
      rw [verdict_of_refused h hread]
      split <;> simp
  · rw [verdict_of_not_considered h]
    simp [h]

end

/-- The verdict of an entry is what becomes of it. -/
theorem verdict_eq_iff (known : String → Bool) (options : SummaryOptions) (key : String)
    (entry : TypeEntry) (v : Verdict) :
    verdict known options key entry = v ↔ Becomes known options key entry v := by
  cases v with
  | skipped => exact verdict_eq_skipped_iff
  | failed => exact verdict_eq_failed_iff
  | unsupported => exact verdict_eq_unsupported_iff
  | summarised summary => exact verdict_eq_summarised_iff summary

instance (known : String → Bool) (options : SummaryOptions) (key : String) (entry : TypeEntry)
    (v : Verdict) : Decidable (Becomes known options key entry v) :=
  decidable_of_iff _ (verdict_eq_iff known options key entry v)

/-! ## One entry after another -/

def Verdict.summary? : Verdict → Option TypeSummary
  | .summarised summary => some summary
  | _ => none

structure Pending where
  waiting : List (String × TypeEntry)
  tally : Tally

/-- A worker takes any one of the entries that wait and tallies it. -/
inductive Handles (known : String → Bool) (options : SummaryOptions) : Pending → Pending → Prop
  | take (before after : List (String × TypeEntry)) (key : String) (entry : TypeEntry)
      (tally : Tally) :
      Handles known options ⟨before ++ (key, entry) :: after, tally⟩
        ⟨before ++ after, tally.record key (verdict known options key entry)⟩

structure Tallied (known : String → Bool) (options : SummaryOptions)
    (handled : List (String × TypeEntry)) (t : Tally) : Prop where
  summaries : t.summaries.Perm
    (handled.filterMap fun (key, entry) => (verdict known options key entry).summary?)
  failures : t.failures.names.Perm
    ((handled.filter fun (key, entry) => verdict known options key entry = .failed).map Prod.fst)
  unsupported : t.unsupported =
    handled.countP fun (key, entry) => verdict known options key entry = .unsupported
  skipped : t.skipped =
    handled.countP fun (key, entry) => verdict known options key entry = .skipped

def Accounted (known : String → Bool) (options : SummaryOptions)
    (entries : List (String × TypeEntry)) (p : Pending) : Prop :=
  ∃ handled, (handled ++ p.waiting).Perm entries ∧ Tallied known options handled p.tally

section
variable {known : String → Bool} {options : SummaryOptions} {p q : Pending} {t u : Tally}
  {entries handled other : List (String × TypeEntry)} {key : String} {entry : TypeEntry}

theorem tallied_nil : Tallied known options [] {} := ⟨.refl _, .refl _, rfl, rfl⟩

theorem Tallied.perm (h : Tallied known options handled t) (hperm : handled.Perm other) :
    Tallied known options other t where
  summaries := h.summaries.trans (hperm.filterMap _)
  failures := h.failures.trans ((hperm.filter _).map _)
  unsupported := h.unsupported.trans (hperm.countP_eq _)
  skipped := h.skipped.trans (hperm.countP_eq _)

theorem Tallied.record (h : Tallied known options handled t) (hkey : key ∉ handled.map Prod.fst) :
    Tallied known options ((key, entry) :: handled)
      (t.record key (verdict known options key entry)) := by
  constructor
  · cases hverdict : verdict known options key entry <;>
      simpa [Tally.record, hverdict, Verdict.summary?] using h.summaries
  · cases hverdict : verdict known options key entry with
    | failed =>
      have hnew : key ∉ t.failures.names := by
        intro hmem
        obtain ⟨e, he, rfl⟩ := List.mem_map.mp (h.failures.subset hmem)
        exact hkey (List.mem_map_of_mem (List.mem_filter.mp he).1)
      have hnames := (NameMap.names_insert_perm t.failures key () hnew).trans (h.failures.cons key)
      simpa [Tally.record, hverdict] using hnames
    | _ => simpa [Tally.record, hverdict] using h.failures
  · cases hverdict : verdict known options key entry <;>
      simpa [Tally.record, hverdict] using h.unsupported
  · cases hverdict : verdict known options key entry <;>
      simpa [Tally.record, hverdict] using h.skipped

/-- Handling an entry moves it from those that wait to those that are tallied. -/
theorem Accounted.step (h : Accounted known options entries p)
    (hkeys : (entries.map Prod.fst).Nodup) (hstep : Handles known options p q) :
    Accounted known options entries q := by
  obtain ⟨handled, hperm, htally⟩ := h
  cases hstep with
  | take before after key entry tally =>
    have hmoved : ((key, entry) :: handled ++ (before ++ after)).Perm
        (handled ++ (before ++ (key, entry) :: after)) := by
      rw [← List.append_assoc handled]
      exact (List.perm_middle.trans (by simp)).symm
    have hall := hmoved.trans hperm
    have hfresh : key ∉ handled.map Prod.fst := by
      have hnodup := (hall.map Prod.fst).nodup_iff.mpr hkeys
      rw [List.map_append, List.map_cons, List.cons_append, List.nodup_cons] at hnodup
      exact fun hmem => hnodup.1 (List.mem_append_left _ hmem)
    exact ⟨(key, entry) :: handled, hall, htally.record hfresh⟩

theorem Accounted.run (h : Accounted known options entries p)
    (hkeys : (entries.map Prod.fst).Nodup)
    (hrun : Relation.ReflTransGen (Handles known options) p q) :
    Accounted known options entries q := by
  induction hrun with
  | refl => exact h
  | tail _ hstep ih => exact ih.step hkeys hstep

/-- When no entry waits any more, the tally is one of all entries. -/
theorem tallied_of_run (hkeys : (entries.map Prod.fst).Nodup)
    (hrun : Relation.ReflTransGen (Handles known options) ⟨entries, {}⟩ ⟨[], t⟩) :
    Tallied known options entries t := by
  have hstart : Accounted known options entries ⟨entries, {}⟩ := ⟨[], .refl _, tallied_nil⟩
  obtain ⟨handled, hperm, htally⟩ := hstart.run hkeys hrun
  rw [List.append_nil] at hperm
  exact htally.perm hperm

/-- Taking the entries in the order given is one of the runs. -/
theorem handles_in_order (entries : List (String × TypeEntry)) :
    Relation.ReflTransGen (Handles known options) ⟨entries, t⟩
      ⟨[], entries.foldl (fun t (key, entry) =>
        t.record key (verdict known options key entry)) t⟩ := by
  induction entries generalizing t with
  | nil => exact .refl
  | cons e entries ih => exact .head (.take [] entries e.1 e.2 t) ih

/-- Each entry adds one to one of the four. -/
theorem Tallied.total (h : Tallied known options entries t) :
    t.summaries.length + t.failures.names.length + t.unsupported + t.skipped = entries.length := by
  rw [h.summaries.length_eq, h.failures.length_eq, h.unsupported, h.skipped, List.length_map]
  clear h
  induction entries with
  | nil => rfl
  | cons e entries ih =>
    rw [List.length_cons, ← ih]
    cases hverdict : verdict known options e.1 e.2 <;>
      simp [hverdict, Verdict.summary?] <;> omega

theorem key_of_summarised {summary : TypeSummary}
    (h : verdict known options key entry = .summarised summary) : summary.key = key := by
  obtain ⟨-, t, -, -, rfl⟩ := (verdict_eq_summarised_iff summary).mp h
  rfl

theorem summary?_eq_some_iff {v : Verdict} {summary : TypeSummary} :
    v.summary? = some summary ↔ v = .summarised summary := by
  cases v <;> simp [Verdict.summary?]

theorem keys_sublist (entries : List (String × TypeEntry)) :
    ((entries.filterMap fun (key, entry) => (verdict known options key entry).summary?).map
      TypeSummary.key).Sublist (entries.map Prod.fst) := by
  induction entries with
  | nil => exact .slnil
  | cons e entries ih =>
    rw [List.map_cons, List.filterMap_cons]
    split
    next => exact ih.cons _
    next summary hsummary =>
      rw [List.map_cons, key_of_summarised (summary?_eq_some_iff.mp hsummary)]
      exact ih.cons_cons _

theorem Tallied.batch_summaries (h : Tallied known options entries t) :
    (SummaryBatch.ofTally t).summaries.toList.Perm
      (entries.filterMap fun (key, entry) => (verdict known options key entry).summary?) :=
  (List.mergeSort_perm _ _).trans h.summaries

/-- The summaries of a batch, of which no two have one key, stand in the order of
their keys. -/
theorem Tallied.increasing (h : Tallied known options entries t)
    (hkeys : (entries.map Prod.fst).Nodup) :
    Ordered.Increasing TypeSummary.key (SummaryBatch.ofTally t).summaries.toList := by
  have hle : (SummaryBatch.ofTally t).summaries.toList.Pairwise
      fun a b => decide (a.key ≤ b.key) = true := by
    apply List.pairwise_mergeSort
    · intro a b c hab hbc
      simp only [decide_eq_true_eq] at hab hbc ⊢
      exact String.le_trans hab hbc
    · intro a b
      simpa using String.le_total a.key b.key
  have hne : (SummaryBatch.ofTally t).summaries.toList.Pairwise fun a b => a.key ≠ b.key :=
    List.pairwise_map.mp ((h.batch_summaries.map TypeSummary.key).nodup_iff.mpr
      ((keys_sublist entries).nodup hkeys))
  refine (hle.and hne).imp ?_
  intro a b hab
  exact Std.lt_of_le_of_ne (by simpa using hab.1) hab.2

/-- Two tallies of the same entries make the same batch. -/
theorem Tallied.batch_eq (h : Tallied known options entries t)
    (h' : Tallied known options entries u) (hkeys : (entries.map Prod.fst).Nodup) :
    SummaryBatch.ofTally t = SummaryBatch.ofTally u := by
  have hsummaries : (SummaryBatch.ofTally t).summaries = (SummaryBatch.ofTally u).summaries :=
    Array.toList_inj.mp ((h.batch_summaries.trans h'.batch_summaries.symm).eq_of_pairwise
      (fun a b _ _ hab hba => absurd hab (String.lt_asymm hba))
      (h.increasing hkeys) (h'.increasing hkeys))
  have hfailures : t.failures = u.failures :=
    NameSet.names_inj (h.failures.trans h'.failures.symm)
  have hunsupported : t.unsupported = u.unsupported := h.unsupported.trans h'.unsupported.symm
  have hskipped : t.skipped = u.skipped := h.skipped.trans h'.skipped.symm
  rw [SummaryBatch.ofTally, SummaryBatch.ofTally] at hsummaries ⊢
  simp only [SummaryBatch.mk.injEq]
  exact ⟨hsummaries, hfailures, hunsupported, hskipped⟩

end

structure Accounts (known : String → Bool) (options : SummaryOptions)
    (entries : List (String × TypeEntry)) (b : SummaryBatch) : Prop where
  summarised : ∀ summary, summary ∈ b.summaries ↔ ∃ key entry, (key, entry) ∈ entries ∧
    Becomes known options key entry (.summarised summary)
  failed : ∀ key, b.failures.contains key = true ↔ ∃ entry, (key, entry) ∈ entries ∧
    Becomes known options key entry .failed
  unsupported : b.unsupported =
    entries.countP fun (key, entry) => Becomes known options key entry .unsupported
  skipped : b.skipped =
    entries.countP fun (key, entry) => Becomes known options key entry .skipped
  total : b.summaries.size + b.failures.size + b.unsupported + b.skipped = entries.length
  increasing : b.summaries.toList.Pairwise fun s s' => s.key.toUTF8.toList < s'.key.toUTF8.toList

theorem Tallied.accounts {known : String → Bool} {options : SummaryOptions} {t : Tally}
    {entries : List (String × TypeEntry)} (h : Tallied known options entries t)
    (hkeys : (entries.map Prod.fst).Nodup) :
    Accounts known options entries (SummaryBatch.ofTally t) where
  summarised summary := by
    rw [← Array.mem_toList_iff, h.batch_summaries.mem_iff, List.mem_filterMap]
    simp only [summary?_eq_some_iff, verdict_eq_iff, Prod.exists]
  failed key := by
    rw [NameMap.contains_iff]
    show key ∈ t.failures.names ↔ _
    rw [h.failures.mem_iff]
    simp [verdict_eq_iff]
  unsupported := by
    rw [SummaryBatch.ofTally, h.unsupported]
    simp only [verdict_eq_iff]
  skipped := by
    rw [SummaryBatch.ofTally, h.skipped]
    simp only [verdict_eq_iff]
  total := by
    have htotal := h.total
    simpa [SummaryBatch.ofTally, NameMap.names, NameMap.size, NameMap.toList] using htotal
  increasing := (h.increasing hkeys).imp fun hlt => (Text.toUTF8_lt_iff _ _).mpr hlt

theorem eligible_keys_nodup (dump : Dump) (filter : DumpFilter) :
    ((dump.eligible filter).map Prod.fst).Nodup :=
  (List.filter_sublist.map Prod.fst).nodup dump.entries.names_nodup

/-- The batch of a dump is a tally of its eligible entries. -/
theorem tallied_eligible (known : String → Bool) (options : SummaryOptions) (dump : Dump) :
    Tallied known options (dump.eligible options.filter)
      (.ofEntries known options (dump.eligible options.filter)) :=
  tallied_of_run (eligible_keys_nodup dump options.filter) (handles_in_order _)

/-- In whatever order the eligible entries of a dump are taken, the batch is the same
one. Each of them is found in one of its four parts, which one is told by the key, the
entry, the table and the options alone. -/
theorem batch_of_every_order (known : String → Bool) (options : SummaryOptions) (dump : Dump)
    (t : Tally) (hrun : Relation.ReflTransGen (Handles known options)
      ⟨dump.eligible options.filter, {}⟩ ⟨[], t⟩) :
    SummaryBatch.ofTally t = SummaryBatch.buildWith known options dump ∧
      Accounts known options (dump.eligible options.filter)
        (SummaryBatch.buildWith known options dump) ∧
      ∀ key entry, ∃ v, Becomes known options key entry v ∧
        ∀ w, Becomes known options key entry w → w = v := by
  have hkeys := eligible_keys_nodup dump options.filter
  have hbuilt : Tallied known options (dump.eligible options.filter)
      (.ofEntries known options (dump.eligible options.filter)) :=
    tallied_of_run hkeys (handles_in_order _)
  refine ⟨(tallied_of_run hkeys hrun).batch_eq hbuilt hkeys, hbuilt.accounts hkeys, ?_⟩
  intro key entry
  refine ⟨verdict known options key entry, (verdict_eq_iff _ _ _ _ _).mp rfl, ?_⟩
  intro w hw
  exact ((verdict_eq_iff _ _ _ _ _).mpr hw).symm

theorem batch_of_reversed_entries :
    let known : String → Bool := fun _ => false
    let loaded : TypeEntry := { address := some "0x10" }
    let dump : Dump :=
      ⟨⟨#[("A", loaded), ("B.", loaded), ("C\x601<A>", loaded), ("D", {})], by
        unfold Ordered.Increasing
        decide⟩⟩
    let t : Tally :=
      { summaries := [.ofParsed known .empty "A" loaded (.topLevel "" "A")]
        failures := NameMap.empty.insert "B." (), unsupported := 1, skipped := 1 }
    Relation.ReflTransGen (Handles known {}) ⟨dump.eligible {}, {}⟩ ⟨[], t⟩ ∧
      SummaryBatch.ofTally t = SummaryBatch.buildWith known {} dump ∧
      Accounts known {} (dump.eligible {}) (SummaryBatch.buildWith known {} dump) ∧
      ∀ key entry, ∃ v, Becomes known {} key entry v ∧
        ∀ w, Becomes known {} key entry w → w = v := by
  intro known loaded dump t
  have hrun : Relation.ReflTransGen (Handles known {}) ⟨dump.eligible {}, {}⟩ ⟨[], t⟩ := by
    have ht : t = (((({} : Tally).record "D" (verdict known {} "D" {})).record "C\x601<A>"
        (verdict known {} "C\x601<A>" loaded)).record "B." (verdict known {} "B." loaded)).record
        "A" (verdict known {} "A" loaded) := by decide +kernel
    have hlast (before : List (String × TypeEntry)) (key : String) (entry : TypeEntry)
        (u : Tally) : Handles known {} ⟨before ++ [(key, entry)], u⟩
          ⟨before, u.record key (verdict known {} key entry)⟩ := by
      have htake : Handles known {} ⟨before ++ (key, entry) :: [], u⟩ _ :=
        .take before [] key entry u
      rwa [List.append_nil] at htake
    have heligible : dump.eligible {} =
        [("A", loaded), ("B.", loaded), ("C\x601<A>", loaded), ("D", {})] := by decide +kernel
    rw [ht, heligible]
    exact .head (hlast [("A", loaded), ("B.", loaded), ("C\x601<A>", loaded)] "D" {} _)
      (.head (hlast [("A", loaded), ("B.", loaded)] "C\x601<A>" loaded _)
        (.head (hlast [("A", loaded)] "B." loaded _) (.head (hlast [] "A" loaded _) .refl)))
  exact ⟨hrun, batch_of_every_order known {} dump t hrun⟩

end ClrNames
