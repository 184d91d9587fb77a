import ClrNames.Main
import ClrNames.Cursor.Command
import ClrNames.Proofs.Substitution
import ClrNames.Proofs.TreeShape
import ClrNames.Proofs.ExpressionReading
import ClrNames.Proofs.NameTables
import ClrNames.Proofs.DefinitionMode
import ClrNames.Proofs.DumpRoundTrip
import ClrNames.Proofs.BatchAccounting
import ClrNames.Proofs.CursorRuns
import ClrNames.Proofs.CommandReports
import ClrNames.Proofs.KeptSummaries
import ClrNames.Proofs.SlicesInBounds
import ClrNames.Proofs.PlainForm
import ClrNames.Proofs.NamespaceSplit
import ClrNames.Proofs.DeclaredArity
import ClrNames.Proofs.CompleteNames
import ClrNames.Proofs.ElementNames
import ClrNames.Proofs.ListSpaces
import ClrNames.Proofs.ArrayRanks
import ClrNames.Proofs.AliasRewrite
import ClrNames.Proofs.DisplayedPath
import ClrNames.Proofs.EntryMembers
import ClrNames.Proofs.ReferenceTokens
