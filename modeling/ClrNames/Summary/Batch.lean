import ClrNames.Summary.Entry

/-!
# Summaries of a whole dump

Every eligible entry gets one verdict, which depends on nothing but the entry
itself, and a batch tallies the verdicts. The order in which entries are tallied
does not matter: summaries are put in the order of their keys at the end.
-/

set_option autoImplicit false

namespace ClrNames

structure SummaryOptions where
  filter : DumpFilter := {}
  shortNames : ShortNames := .empty
  skipShadowed : Bool := false
  deriving DecidableEq, Repr

namespace SummaryOptions

def csharp : SummaryOptions :=
  { filter := .csharp, shortNames := .csharp, skipShadowed := true }

def lua : SummaryOptions := { filter := .lua }

end SummaryOptions

inductive Verdict where
  | summarised (summary : TypeSummary)
  | skipped
  | unsupported
  | failed
  deriving DecidableEq, Repr

def verdict (known : String → Bool) (options : SummaryOptions) (key : String)
    (entry : TypeEntry) : Verdict :=
  match TypeSummary.ofEntry known options.shortNames key entry with
  | .ok none => .skipped
  | .ok (some summary) =>
    if options.skipShadowed && shadowsNativeType known summary.name then .skipped
    else .summarised summary
  | .error e =>
    match e.outcome with
    | .unsupported => .unsupported
    | .malformed => .failed

structure Tally where
  summaries : List TypeSummary := []
  failures : NameSet := .empty
  unsupported : Nat := 0
  skipped : Nat := 0
  deriving DecidableEq, Repr

namespace Tally

def record (t : Tally) (key : String) : Verdict → Tally
  | .summarised summary => { t with summaries := summary :: t.summaries }
  | .skipped => { t with skipped := t.skipped + 1 }
  | .unsupported => { t with unsupported := t.unsupported + 1 }
  | .failed => { t with failures := t.failures.insert key () }

def ofEntries (known : String → Bool) (options : SummaryOptions)
    (entries : List (String × TypeEntry)) : Tally :=
  entries.foldl (fun t (key, entry) => t.record key (verdict known options key entry)) {}

end Tally

structure SummaryBatch where
  summaries : Array TypeSummary
  failures : NameSet
  unsupported : Nat
  skipped : Nat
  deriving DecidableEq, Repr

namespace SummaryBatch

def ofTally (t : Tally) : SummaryBatch where
  summaries := (t.summaries.mergeSort fun a b => decide (a.key ≤ b.key)).toArray
  failures := t.failures
  unsupported := t.unsupported
  skipped := t.skipped

def ofEntries (known : String → Bool) (options : SummaryOptions)
    (entries : List (String × TypeEntry)) : SummaryBatch :=
  ofTally (.ofEntries known options entries)

def buildWith (known : String → Bool) (options : SummaryOptions) (dump : Dump) : SummaryBatch :=
  ofEntries known options (dump.eligible options.filter)

def build (options : SummaryOptions) (dump : Dump) : SummaryBatch :=
  buildWith dump.nameTable.contains options dump

def get? (b : SummaryBatch) (key : String) : Option TypeSummary :=
  Ordered.search TypeSummary.key b.summaries key

end SummaryBatch

end ClrNames
