import Mathlib.Data.List.Nodup
import ClrNames.Proofs.BatchAccounting

/-!
# Members of a summary

Whether an entry is passed over, refused or summarised, and under which name, is decided
by its key and by what is known of it without its members. A summary has every field of
its entry once, in the order of declaration, with what its own type text is read as, so
that a text which cannot be read spoils no other member.
-/

set_option autoImplicit false

namespace ClrNames

namespace NameMap

variable {α : Type} {name : String} {value : α}

theorem put_of_mem {l : List (String × α)} (h : Ordered.Increasing Prod.fst l)
    (hmem : name ∈ l.map Prod.fst) :
    put name value l = l.map fun p => if p.1 = name then (name, value) else p := by
  induction l with
  | nil => simp at hmem
  | cons p l ih =>
    obtain ⟨n, v⟩ := p
    obtain ⟨hbefore, hrest⟩ := List.pairwise_cons.mp h
    rw [put, List.map_cons]
    by_cases hname : name = n
    · subst hname
      have hother : ∀ p ∈ l, p.1 ≠ name := fun p hp => (String.ne_of_lt (hbefore p hp)).symm
      have hsame : l.map (fun p => if p.1 = name then (name, value) else p) = l := by
        rw [List.map_congr_left fun p hp => if_neg (hother p hp), List.map_id']
      rw [if_neg (String.lt_irrefl name), if_pos rfl, hsame]
      simp
    · have hlater : name ∈ l.map Prod.fst := by simpa [hname] using hmem
      obtain ⟨q, hq, hqname⟩ := List.mem_map.mp hlater
      have hlt : n < name := hqname ▸ hbefore q hq
      rw [if_neg (String.lt_asymm hlt), if_neg hname, ih hrest hlater]
      simp [Ne.symm hname]

end NameMap

namespace TypeEntry

def declared (e : TypeEntry) : List (String × FieldEntry) := (e.fields.map NameMap.toList).getD []

def Precedes (a b : String × FieldEntry) : Prop :=
  a.2.order < b.2.order ∨ a.2.order = b.2.order ∧ a.1.toUTF8.toList < b.1.toUTF8.toList

section
variable {a b c : String × FieldEntry}

theorem fieldLe_iff :
    fieldLe a b = true ↔ a.2.order < b.2.order ∨ a.2.order = b.2.order ∧ a.1 ≤ b.1 := by
  simp [fieldLe]

theorem fieldLe_trans (hab : fieldLe a b = true) (hbc : fieldLe b c = true) :
    fieldLe a c = true := by
  rw [fieldLe_iff] at *
  rcases hab with hab | ⟨hab, hname⟩
  · rcases hbc with hbc | ⟨hbc, -⟩
    · exact .inl (UInt32.lt_trans hab hbc)
    · exact .inl (hbc ▸ hab)
  · rcases hbc with hbc | ⟨hbc, hname'⟩
    · exact .inl (hab ▸ hbc)
    · exact .inr ⟨hab.trans hbc, String.le_trans hname hname'⟩

theorem fieldLe_total (a b : String × FieldEntry) : (fieldLe a b || fieldLe b a) = true := by
  rw [Bool.or_eq_true, fieldLe_iff, fieldLe_iff]
  rcases Std.lt_trichotomy a.2.order b.2.order with hlt | heq | hgt
  · exact .inl (.inl hlt)
  · rcases String.le_total a.1 b.1 with hle | hle
    · exact .inl (.inr ⟨heq, hle⟩)
    · exact .inr (.inr ⟨heq.symm, hle⟩)
  · exact .inr (.inl hgt)

theorem precedes_of_fieldLe (hle : fieldLe a b = true) (hne : a.1 ≠ b.1) : Precedes a b := by
  rcases fieldLe_iff.mp hle with hlt | ⟨heq, hname⟩
  · exact .inl hlt
  · exact .inr ⟨heq, (Text.toUTF8_lt_iff _ _).mpr (Std.lt_of_le_of_ne hname hne)⟩

end

variable (e : TypeEntry)

theorem sortedFields_perm : e.sortedFields.Perm e.declared := List.mergeSort_perm _ _

theorem declared_names_nodup : (e.declared.map Prod.fst).Nodup := by
  cases hfields : e.fields with
  | none => simp [declared, hfields]
  | some fields =>
    simp only [declared, hfields]
    exact fields.names_nodup

theorem sortedFields_precedes : e.sortedFields.Pairwise Precedes := by
  have hle : e.sortedFields.Pairwise fun a b => fieldLe a b = true := by
    apply List.pairwise_mergeSort
    · intro a b c hab hbc
      exact fieldLe_trans hab hbc
    · exact fieldLe_total
  have hnames := (e.sortedFields_perm.map Prod.fst).nodup_iff.mpr e.declared_names_nodup
  have hne : e.sortedFields.Pairwise fun a b => a.1 ≠ b.1 := List.pairwise_map.mp hnames
  exact (hle.and hne).imp fun h => precedes_of_fieldLe h.1 h.2

def retype (name : String) (text : Option String) (p : String × FieldEntry) :
    String × FieldEntry :=
  if p.1 = name then (p.1, { p.2 with typeText := text }) else p

theorem fieldLe_retype (name : String) (text : Option String) (a b : String × FieldEntry) :
    fieldLe (retype name text a) (retype name text b) = fieldLe a b := by
  have hname (p : String × FieldEntry) : (retype name text p).1 = p.1 := by
    unfold retype
    split <;> rfl
  have horder (p : String × FieldEntry) : (retype name text p).2.order = p.2.order := by
    unfold retype
    split <;> rfl
  simp only [fieldLe, hname, horder]

variable {e}

/-- The type text of a field has no say in where it stands. -/
theorem sortedFields_retype {fields : NameMap FieldEntry} {name : String} {field : FieldEntry}
    (text : Option String) (hfields : e.fields = some fields)
    (hfield : fields.get? name = some field) :
    ({ e with fields := some (fields.insert name { field with typeText := text }) } :
      TypeEntry).sortedFields = e.sortedFields.map (retype name text) := by
  have hbound : (name, field) ∈ fields.toList := (fields.get?_eq_some_iff name field).mp hfield
  have hlist : (fields.insert name { field with typeText := text }).toList =
      fields.toList.map (retype name text) := by
    refine (NameMap.put_of_mem fields.increasing (List.mem_map_of_mem hbound)).trans ?_
    apply List.map_congr_left
    intro p hp
    by_cases hname : p.1 = name
    · have hvalue : fields.get? p.1 = some p.2 := (fields.get?_eq_some_iff _ _).mpr hp
      rw [hname, hfield] at hvalue
      simp [retype, hname, Option.some.inj hvalue]
    · simp [retype, hname]
  rw [sortedFields, sortedFields, hfields, List.map_mergeSort
    fun a _ b _ => (fieldLe_retype name text a b).symm]
  exact congrArg (List.mergeSort · fieldLe) hlist

end TypeEntry

inductive SameFate :
    Except ParseError (Option TypeSummary) → Except ParseError (Option TypeSummary) → Prop
  | skipped : SameFate (.ok none) (.ok none)
  | refused (e : ParseError) : SameFate (.error e) (.error e)
  | summarised {s s' : TypeSummary} (h : s.name = s'.name) :
    SameFate (.ok (some s)) (.ok (some s'))

namespace TypeSummary

variable {known : String → Bool} {shortNames : ShortNames} {key : String}
  {entry other : TypeEntry} {s : TypeSummary}

theorem isSkipped_congr (haddress : entry.hasAddress = other.hasAddress)
    (hinst : entry.isInstantiation = other.isInstantiation) :
    isSkipped key entry = isSkipped key other := by
  rw [isSkipped, isSkipped, haddress, hinst]

theorem sameFate_ofEntry (h : isSkipped key entry = isSkipped key other) :
    SameFate (ofEntry known shortNames key entry) (ofEntry known shortNames key other) := by
  unfold ofEntry
  rw [h]
  split
  · exact .skipped
  · cases readDefinition known key with
    | error e => exact .refused e
    | ok name => exact .summarised rfl

/-- A summary is made of the entry below the name that is read. -/
theorem ofEntry_eq_some_iff : ofEntry known shortNames key entry = .ok (some s) ↔
    isSkipped key entry = false ∧ readDefinition known key = .ok s.name ∧
      s = ofParsed known shortNames key entry s.name := by
  unfold ofEntry
  cases hskip : isSkipped key entry with
  | true => simp
  | false =>
    cases hread : readDefinition known key with
    | error e => simp [Except.map]
    | ok name =>
      constructor
      · rintro ⟨⟩
        exact ⟨rfl, rfl, rfl⟩
      · rintro ⟨-, hname, hs⟩
        cases hname
        exact congrArg (Except.ok ∘ some) hs.symm

/-- Another type text of one field shows in that field alone. -/
theorem ofParsed_retype {fields : NameMap FieldEntry} {name : String} {field : FieldEntry}
    (t : TypeName) (text : Option String) (hfields : entry.fields = some fields)
    (hfield : fields.get? name = some field) :
    ofParsed known shortNames key { entry with
        fields := some (fields.insert name { field with typeText := text }) } t =
      { ofParsed known shortNames key entry t with
        fields := (ofParsed known shortNames key entry t).fields.map fun shown =>
          if shown.name = name then { shown with member := .resolve known t shortNames text }
          else shown } := by
  unfold ofParsed
  rw [TypeEntry.sortedFields_retype text hfields hfield, List.map_map, List.map_map]
  congr 1
  apply List.map_congr_left
  intro p _
  by_cases hname : p.1 = name <;> simp [TypeEntry.retype, hname]

end TypeSummary

/-- The key, the address and being an instantiation decide what becomes of an entry. A
summary has the fields of its entry, each once and in the order of declaration, with what
its type text is read as below the name of the entry. Another type text of one field
changes that field of the summary and nothing else. -/
theorem ofEntry_members (known : String → Bool) (shortNames : ShortNames) (key : String)
    (entry other : TypeEntry) (haddress : entry.hasAddress = other.hasAddress)
    (hinst : entry.isInstantiation = other.isInstantiation) :
    SameFate (TypeSummary.ofEntry known shortNames key entry)
        (TypeSummary.ofEntry known shortNames key other) ∧
      ∀ s, TypeSummary.ofEntry known shortNames key entry = .ok (some s) →
        (s.parent = entry.parent.map fun parent =>
          .resolve known s.name shortNames (some parent)) ∧
        (∃ fields : List (String × FieldEntry), fields.Perm entry.declared ∧
          fields.Pairwise TypeEntry.Precedes ∧
          s.fields = fields.map fun (name, field) =>
            ⟨name, field.flags, .resolve known s.name shortNames field.typeText⟩) ∧
        ∀ fields name field text, entry.fields = some fields → fields.get? name = some field →
          TypeSummary.ofEntry known shortNames key { entry with
              fields := some (fields.insert name { field with typeText := text }) } =
            .ok (some { s with fields := s.fields.map fun shown =>
              if shown.name = name then
                { shown with member := .resolve known s.name shortNames text }
              else shown }) := by
  refine ⟨TypeSummary.sameFate_ofEntry (TypeSummary.isSkipped_congr haddress hinst), ?_⟩
  intro s hs
  obtain ⟨hskip, hread, hparsed⟩ := TypeSummary.ofEntry_eq_some_iff.mp hs
  refine ⟨congrArg TypeSummary.parent hparsed, ⟨entry.sortedFields, entry.sortedFields_perm,
    entry.sortedFields_precedes, congrArg TypeSummary.fields hparsed⟩, ?_⟩
  intro fields name field text hfields hfield
  refine TypeSummary.ofEntry_eq_some_iff.mpr ⟨hskip, hread, ?_⟩
  rw [TypeSummary.ofParsed_retype s.name text hfields hfield, ← hparsed]

/-- Base type and first field cannot be read, and a field without a position stands beside
one in the last position. -/
theorem ofEntry_members_unread :
    let known : String → Bool := fun _ => false
    let unread : FieldEntry := { typeText := some "B\x60" }
    let fields : NameMap FieldEntry :=
      ⟨#[("a", unread), ("b", { typeText := some "!0[]", id := some 4294967295 }),
        ("c", { id := some 3 })], by unfold Ordered.Increasing; decide⟩
    let entry : TypeEntry := { address := some "0x10", parent := some "A[[", fields := some fields }
    let other : TypeEntry := { address := some "0x20" }
    let name : TypeName := { TypeName.topLevel "" "A" with args := [.topLevel "" "b"] }
    let s := TypeSummary.ofParsed known .empty "A\x601[[b]]" entry name
    entry.hasAddress = other.hasAddress ∧ entry.isInstantiation = other.isInstantiation ∧
      SameFate (TypeSummary.ofEntry known .empty "A\x601[[b]]" entry)
        (TypeSummary.ofEntry known .empty "A\x601[[b]]" other) ∧
      TypeSummary.ofEntry known .empty "A\x601[[b]]" entry = .ok (some s) ∧
      fields.get? "a" = some unread ∧
      TypeSummary.ofEntry known .empty "A\x601[[b]]" { entry with
          fields := some (fields.insert "a" { unread with typeText := some "C" }) } =
        .ok (some { s with fields := s.fields.map fun shown =>
          if shown.name = "a" then
            { shown with member := .resolve known name .empty (some "C") }
          else shown }) ∧
      s.fields.map FieldSummary.name = ["c", "a", "b"] := by
  intro known unread fields entry other name s
  have hread : readDefinition known "A\x601[[b]]" = .ok name := by decide +kernel
  have hs : TypeSummary.ofEntry known .empty "A\x601[[b]]" entry = .ok (some s) :=
    TypeSummary.ofEntry_eq_some_iff.mpr ⟨by decide, hread, rfl⟩
  have hfield : fields.get? "a" = some unread := by decide
  obtain ⟨hfate, hmembers⟩ := ofEntry_members known .empty "A\x601[[b]]" entry other rfl rfl
  have hsorted : entry.sortedFields.map Prod.fst = ["c", "a", "b"] := by
    simp [TypeEntry.sortedFields, entry, fields, unread, NameMap.toList, List.mergeSort,
      TypeEntry.fieldLe, FieldEntry.order]
  have horder : s.fields.map FieldSummary.name = ["c", "a", "b"] := by
    rw [← hsorted]
    exact List.map_map
  exact ⟨rfl, rfl, hfate, hs, hfield, (hmembers s hs).2.2 fields "a" unread _ rfl hfield, horder⟩

end ClrNames
