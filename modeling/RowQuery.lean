import RowQuery.Repository.Basic
import RowQuery.Query.Sql
import RowQuery.Json.Reader
import RowQuery.Settings.Layers
import RowQuery.Descriptor.Reader
import RowQuery.Descriptor.Record
import RowQuery.Descriptor.Writer
import RowQuery.Proofs.Columns
import RowQuery.Proofs.Equality
import RowQuery.Proofs.Keys
import RowQuery.Proofs.Origin
import RowQuery.Proofs.Mutation
import RowQuery.Proofs.Compilation
import RowQuery.Proofs.Staging
import RowQuery.Proofs.Narrowing
import RowQuery.Proofs.NoOpEdits
import RowQuery.Proofs.Paging
import RowQuery.Proofs.Rounding
import RowQuery.Proofs.SingleTable
import RowQuery.Proofs.Increment
import RowQuery.Proofs.AssignedKeys
import RowQuery.Proofs.Ledger
import RowQuery.Proofs.LedgerRefinement
import RowQuery.Proofs.KeyedCalls
import RowQuery.Proofs.LoadTree
import RowQuery.Proofs.StableSort
import RowQuery.Proofs.RelatedRows
import RowQuery.Proofs.AddedColumns
import RowQuery.Proofs.RoundTrip
import RowQuery.Proofs.KeyedLookup
import RowQuery.Proofs.Deletion
import RowQuery.Proofs.Grammar
import RowQuery.Proofs.NullTests
import RowQuery.Proofs.Exclusion
import RowQuery.Proofs.FailedBatches
import RowQuery.Proofs.Fields
import RowQuery.Proofs.KeyedWrites
import RowQuery.Proofs.KeyColumn
import RowQuery.Proofs.KeyIntegrity
import RowQuery.Proofs.FreshKeys
import RowQuery.Proofs.LoadPaths
import RowQuery.Proofs.LoadOrder
import RowQuery.Proofs.Recoding
import RowQuery.Proofs.OrderedSelection
import RowQuery.Proofs.Upserts
import RowQuery.Proofs.LeftJoins
import RowQuery.Proofs.ComparisonLaws
import RowQuery.Proofs.Digits
import RowQuery.Proofs.Wildcards
import RowQuery.Proofs.WrittenDates
import RowQuery.Proofs.DateTests
import RowQuery.Proofs.Accessors
import RowQuery.Proofs.Literals
import RowQuery.Proofs.OutsideLiterals
import RowQuery.Proofs.OrGroups
import RowQuery.Proofs.Toggling
import RowQuery.Proofs.FilteredLookup
import RowQuery.Proofs.RepeatedIncrements
import RowQuery.Proofs.IntegerKeys
import RowQuery.Proofs.IntegerSums
import RowQuery.Proofs.Respelling
import RowQuery.Proofs.LooseDates
import RowQuery.Proofs.Separators
import RowQuery.Proofs.LoweredPatterns
import RowQuery.Proofs.FaultyParts
import RowQuery.Proofs.Regrouping
import RowQuery.Proofs.Registration
import RowQuery.Proofs.MergedTables
import RowQuery.Proofs.SettingEdits
import RowQuery.Proofs.KeyPaths
import RowQuery.Proofs.LayerKeys
import RowQuery.Proofs.Precedence
import RowQuery.Proofs.DoubleOrder
import RowQuery.Proofs.HomogeneousColumns
