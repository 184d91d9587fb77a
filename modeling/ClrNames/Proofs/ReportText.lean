import Mathlib.Data.List.Forall2
import ClrNames.CommandLine.Run
import ClrNames.Proofs.JsonText

/-!
# What the reports print

A report is printed as lines or as the members of a JSON object, and its numbers stand in
both. A quoted key is told by what is read from it, so that escapes are no matter here.
-/

set_option autoImplicit false

namespace ClrNames

namespace Json

theorem prettyMembers_eq_map (indent : String) (members : List (String × Json)) :
    prettyMembers indent members =
      members.map fun (name, value) => quote name ++ ": " ++ value.pretty indent := by
  induction members with
  | nil => rfl
  | cons member members ih => rw [prettyMembers, ih, List.map_cons]

theorem prettyItems_eq_map (indent : String) (items : List Json) :
    prettyItems indent items = items.map (pretty indent) := by
  induction items with
  | nil => rfl
  | cons item items ih => rw [prettyItems, ih, List.map_cons]

/-- An object on the outside has a line for each of its members. -/
theorem pretty_object (member : String × Json) (members : List (String × Json)) :
    (object (member :: members)).pretty "" = "\x7b\n" ++
      ",\n".intercalate ((member :: members).map fun (name, value) =>
        "  " ++ quote name ++ ": " ++ value.pretty "  ") ++ "\n\x7d" := by
  have hindent : "" ++ "  " = "  " := rfl
  have hlines : (prettyMembers "  " (member :: members)).map (fun part => "  " ++ part) =
      (member :: members).map fun (name, value) =>
        "  " ++ quote name ++ ": " ++ value.pretty "  " := by
    rw [prettyMembers_eq_map, List.map_map]
    apply List.map_congr_left
    rintro ⟨name, value⟩ -
    simp [String.append_assoc]
  have hparts : (prettyMembers "  " (member :: members)).isEmpty = false := rfl
  rw [pretty, block, hindent, hparts, if_neg Bool.false_ne_true, hlines]
  simp only [String.append_assoc]
  rfl

def Quotes (key text : String) : Prop := JsonReader.text text.toUTF8.toList = .ok (key, [])

theorem quotes_quote (key : String) : Quotes key (quote key) := by
  have hread := JsonReader.text_readsBack key [] nofun
  rw [List.append_nil] at hread
  rw [Quotes, Text.toUTF8_toList]
  exact hread

theorem pretty_strings (keys : List String) :
    ∃ quoted, List.Forall₂ Quotes keys quoted ∧ (array (keys.map string)).pretty "  " =
      if quoted = [] then "[]"
      else "[\n" ++ ",\n".intercalate (quoted.map ("    " ++ ·)) ++ "\n  ]" := by
  refine ⟨keys.map quote, List.forall₂_map_right_iff.mpr
    (List.forall₂_same.mpr fun key _ => quotes_quote key), ?_⟩
  have hitems : prettyItems ("  " ++ "  ") (keys.map string) = keys.map quote := by
    rw [prettyItems_eq_map, List.map_map]
    rfl
  rw [pretty, hitems, block]
  simp only [List.isEmpty_iff]
  split
  next hnone => rfl
  next hsome =>
    have hindent (part : String) : "  " ++ "  " ++ part = "    " ++ part := rfl
    simp only [hindent, String.append_assoc]
    rfl

end Json

namespace CommandLine

def PrintsFailures (failures : List String) (parsed unsupported : Nat) : Bool → String → Prop
  | true, out => ∃ quoted, List.Forall₂ Json.Quotes failures quoted ∧
    out = "\x7b\n" ++ ",\n".intercalate [
      "  \"failures\": " ++ (if quoted = [] then "[]"
        else "[\n" ++ ",\n".intercalate (quoted.map ("    " ++ ·)) ++ "\n  ]"),
      s!"  \"count\": {failures.length}",
      s!"  \"parsed\": {parsed}",
      s!"  \"unsupported\": {unsupported}"] ++ "\n\x7d\n"
  | false, out => out = String.join ((failures ++ (if failures = [] then [] else [""]) ++
      [s!"{parsed} parsed, {unsupported} unsupported, {failures.length} failed."]).map (· ++ "\n"))

def PrintsTypes (rows : List TypeRow) (unsupported failed : Nat) : Bool → String → Prop
  | true, out => out = "\x7b\n" ++ ",\n".intercalate [
      "  \"types\": " ++ (Json.array (rows.map TypesReport.rowJson)).pretty "  ",
      s!"  \"count\": {rows.length}",
      s!"  \"unsupported\": {unsupported}",
      s!"  \"failed\": {failed}"] ++ "\n\x7d\n"
  | false, out => out = String.join ((
      (if rows = [] then []
        else tableLines [.left, .left, .right]
          (["Name", "Base", "Fields"] :: rows.map TypesReport.rowCells) ++ [""]) ++
      [s!"{rows.length} type(s) listed, {unsupported} unsupported."] ++
      (if failed = 0 then []
        else [s!"{failed} type name(s) failed to parse, see `refdump failures`."])).map (· ++ "\n"))

theorem FailuresReport.prints (r : FailuresReport) (json : Bool) :
    PrintsFailures r.failures r.parsed r.unsupported json (printed json r.toJson r.toText) := by
  cases json with
  | false =>
    simp only [PrintsFailures, printed, toText, unlines, List.isEmpty_iff]
    rfl
  | true =>
    obtain ⟨quoted, hquoted, hlist⟩ := Json.pretty_strings r.failures
    refine ⟨quoted, hquoted, ?_⟩
    show (toJson r).pretty "" ++ "\n" = _
    rw [toJson, Json.pretty_object, ← hlist, String.append_assoc]
    rfl

theorem TypesReport.prints (r : TypesReport) (json : Bool) :
    PrintsTypes r.rows r.unsupported r.failed json (printed json r.toJson r.toText) := by
  cases json with
  | false =>
    simp only [PrintsTypes, printed, toText, unlines, List.isEmpty_iff]
    rfl
  | true =>
    show (toJson r).pretty "" ++ "\n" = _
    rw [toJson, Json.pretty_object, String.append_assoc]
    rfl

end CommandLine

end ClrNames
