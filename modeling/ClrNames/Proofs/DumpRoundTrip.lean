import ClrNames.Dump.Json
import ClrNames.Proofs.JsonText

/-!
# Dumps survive their documents

A dump is read from its compact document as it was. Each record reader meets its
keys in the order in which they are written, and a map is listed in order, so
what is read last for a name is all there is for it.
-/

set_option autoImplicit false

namespace ClrNames
open JsonReader

section
variable {α σ : Type} {value : JsonReader α} {member : String → σ → JsonReader σ} {j : Json}
  {rest : Bytes}

/-- A key that comes once takes the value behind its colon. -/
theorem once_readsBack {a : α} (h : ReadsBack value j a) (hrest : Closes rest) :
    Once.read none value (0x3a :: j.bytes ++ rest) = .ok (some a, rest) := by
  have hread := h rest hrest
  unfold Once.read
  rw [if_neg (by simp), List.cons_append, bind_ok (colon_cons _), bind_ok hread]
  rfl

/-- A record in its written form is an object, never an array. -/
theorem record_readsBack {s u : σ} {ms : List (String × Json)} (finish : σ → α)
    (ofArray : JsonReader α) (h : MembersReadBack member s ms u) :
    ReadsBack (do
      if (← next?) = some '[' then ofArray
      else return finish (← object member s)) (.object ms) (finish u) := by
  intro rest hrest
  have hobject := object_readsBack h rest hrest
  rw [Json.bytes_object, List.cons_append] at hobject ⊢
  rw [bind_ok (next?_cons (by decide) _), if_neg (by decide), bind_ok hobject]
  rfl

end

theorem fieldEntry_readsBack (f : FieldEntry) : ReadsBack FieldEntry.reader f.toJson f := by
  have hmembers : MembersReadBack FieldDraft.member {}
      [("type", .ofString? f.typeText), ("flags", .ofString? f.flags),
        ("id", (f.id.map fun id => Json.number id.toNat).getD .null)]
      { typeText := some f.typeText, flags := some f.flags, id := some f.id } := by
    apply MembersReadBack.cons
    · intro rest hrest
      unfold FieldDraft.member
      rw [if_pos rfl, bind_ok (once_readsBack (ofString?_readsBack _) hrest)]
      rfl
    apply MembersReadBack.cons
    · intro rest hrest
      unfold FieldDraft.member
      rw [if_neg (by decide), if_pos rfl, bind_ok (once_readsBack (ofString?_readsBack _) hrest)]
      rfl
    refine .cons ?_ (.nil _)
    intro rest hrest
    unfold FieldDraft.member
    rw [if_neg (by decide), if_neg (by decide), if_pos rfl,
      bind_ok (once_readsBack (word32?_readsBack _) hrest)]
    rfl
  exact record_readsBack FieldDraft.finish _ hmembers

/-- A map is read back as itself if its values are. -/
theorem nameMap_readsBack {α : Type} {value : JsonReader α} {toJson : α → Json}
    (h : ∀ a, ReadsBack value (toJson a) a) (m : NameMap α) :
    ReadsBack (nameMapReader value)
      (.object (m.toList.map fun (name, a) => (name, toJson a))) m := by
  have hmembers (entries pairs : List (String × α)) :
      MembersReadBack (fun name (pairs : List (String × α)) => do
        colon
        return (name, ← value) :: pairs) pairs
      (entries.map fun (name, a) => (name, toJson a)) (entries.reverse ++ pairs) := by
    induction entries generalizing pairs with
    | nil => exact .nil pairs
    | cons entry entries ih =>
      obtain ⟨name, a⟩ := entry
      rw [List.map_cons, List.reverse_cons, List.append_assoc, List.singleton_append]
      refine .cons ?_ (ih ((name, a) :: pairs))
      intro rest hrest
      rw [List.cons_append, bind_ok (colon_cons _), bind_ok (h a rest hrest)]
      rfl
  intro rest hrest
  have hobject := object_readsBack (hmembers m.toList []) rest hrest
  unfold nameMapReader
  rw [bind_ok hobject, List.append_nil, List.reverse_reverse, NameMap.ofList_toList]
  rfl

theorem fields_readsBack (fields : Option (NameMap FieldEntry)) :
    ReadsBack EntryDraft.fieldsReader ((fields.map TypeEntry.fieldsJson).getD .null) fields := by
  cases fields with
  | none => exact null_readsBack _
  | some fields =>
    exact optional_readsBack (nameMap_readsBack fieldEntry_readsBack fields)
      (Json.bytes_object _) (by decide) (by decide)

theorem typeEntry_readsBack (e : TypeEntry) : ReadsBack TypeEntry.reader e.toJson e := by
  have hmembers : MembersReadBack EntryDraft.member {}
      [("address", .ofString? e.address), ("parent", .ofString? e.parent),
        ("is_generic_type", .bool e.isGeneric),
        ("is_generic_type_definition", .bool e.isGenericDefinition),
        ("fields", (e.fields.map TypeEntry.fieldsJson).getD .null)]
      { address := some e.address, parent := some e.parent, isGeneric := some e.isGeneric
        isGenericDefinition := some e.isGenericDefinition, fields := some e.fields } := by
    apply MembersReadBack.cons
    · intro rest hrest
      unfold EntryDraft.member
      rw [if_pos rfl, bind_ok (once_readsBack (ofString?_readsBack _) hrest)]
      rfl
    apply MembersReadBack.cons
    · intro rest hrest
      unfold EntryDraft.member
      rw [if_neg (by decide), if_pos rfl, bind_ok (once_readsBack (ofString?_readsBack _) hrest)]
      rfl
    apply MembersReadBack.cons
    · intro rest hrest
      unfold EntryDraft.member
      rw [if_neg (by decide), if_neg (by decide), if_pos rfl,
        bind_ok (once_readsBack (bool_readsBack _) hrest)]
      rfl
    apply MembersReadBack.cons
    · intro rest hrest
      unfold EntryDraft.member
      rw [if_neg (by decide), if_neg (by decide), if_neg (by decide), if_pos rfl,
        bind_ok (once_readsBack (bool_readsBack _) hrest)]
      rfl
    refine .cons ?_ (.nil _)
    intro rest hrest
    unfold EntryDraft.member
    rw [if_neg (by decide), if_neg (by decide), if_neg (by decide), if_neg (by decide), if_pos rfl,
      bind_ok (once_readsBack (fields_readsBack _) hrest)]
    rfl
  exact record_readsBack EntryDraft.finish _ hmembers

/-- Whatever its names and values, a dump is read back from its document, and the
document written from that is the same one. -/
theorem Dump.ofText_toText (d : Dump) :
    Dump.ofText d.toText = .ok d ∧ (Dump.ofText d.toText).map Dump.toText = .ok d.toText := by
  have hread : Dump.ofText d.toText = .ok d := by
    have hentries := nameMap_readsBack typeEntry_readsBack d.entries [] (by rintro b ⟨⟩)
    rw [List.append_nil] at hentries
    have hdocument : document (nameMapReader TypeEntry.reader) d.toJson.bytes = .ok d.entries := by
      have hrun : (nameMapReader TypeEntry.reader).run d.toJson.bytes = .ok (d.entries, []) :=
        hentries
      rw [document, hrun]
      rfl
    have hbytes : Text.encode d.toText.toList = d.toJson.bytes := rfl
    rw [Dump.ofText, Dump.ofBytes, Text.toUTF8_toList, hbytes, hdocument]
  exact ⟨hread, by rw [hread]; rfl⟩

end ClrNames
