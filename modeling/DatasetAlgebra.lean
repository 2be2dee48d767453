import DatasetAlgebra.Aggregation.Basic
import DatasetAlgebra.Dataset.Replay
import DatasetAlgebra.Dataset.Table
import DatasetAlgebra.Join.Basic
import DatasetAlgebra.Json.Parser
import DatasetAlgebra.Proofs.Join.Merging
import DatasetAlgebra.Proofs.SortOrder.Sorting
import DatasetAlgebra.Serial.Filter
import DatasetAlgebra.Serial.Names
import DatasetAlgebra.Proofs.Dataset.Requests
import DatasetAlgebra.Proofs.Join.Wiring
import DatasetAlgebra.Proofs.Join.RowJoin
import DatasetAlgebra.Proofs.Join.Folding
import DatasetAlgebra.Proofs.Dataset.Tables
import DatasetAlgebra.Proofs.Join.Product
import DatasetAlgebra.Proofs.Join.OfTables
import DatasetAlgebra.Proofs.Join.Honest
import DatasetAlgebra.Proofs.Aggregation.Reduction
import DatasetAlgebra.Proofs.Aggregation.Runs
import DatasetAlgebra.Proofs.Aggregation.Wiring
import DatasetAlgebra.Proofs.Aggregation.Honest
import DatasetAlgebra.Proofs.Dataset.Composed
import DatasetAlgebra.Proofs.Aggregation.OfTable
import DatasetAlgebra.Proofs.Dataset.Releases
import DatasetAlgebra.Proofs.Aggregation.Releases
import DatasetAlgebra.Proofs.Join.Releases
import DatasetAlgebra.Proofs.Stream.Uses
import DatasetAlgebra.Proofs.Dataset.Plans
import DatasetAlgebra.Proofs.Filter.Deciding
import DatasetAlgebra.Proofs.Stream.Given
import DatasetAlgebra.Proofs.Value.Equality
import DatasetAlgebra.Proofs.Dataset.Fallbacks
import DatasetAlgebra.Proofs.Filter.ByKey
import DatasetAlgebra.Proofs.Join.Filtered
import DatasetAlgebra.Proofs.Aggregation.Filtered
import DatasetAlgebra.Proofs.Dataset.Origins
import DatasetAlgebra.Proofs.Join.Agreement
import DatasetAlgebra.Proofs.Dataset.Failures
import DatasetAlgebra.Proofs.Schema.Merging
import DatasetAlgebra.Proofs.Join.Acceptance
import DatasetAlgebra.Proofs.Join.Symmetry
import DatasetAlgebra.Proofs.Join.Layout
import DatasetAlgebra.Proofs.Dataset.Offers
import DatasetAlgebra.Proofs.Join.Reordered
import DatasetAlgebra.Proofs.Aggregation.Reordered
import DatasetAlgebra.Proofs.Dataset.Unfailing
import DatasetAlgebra.Proofs.Dataset.Announcements
import DatasetAlgebra.Proofs.Join.Faults
import DatasetAlgebra.Proofs.Aggregation.Rearranged
import DatasetAlgebra.Proofs.Filter.Constants
import DatasetAlgebra.Proofs.Stream.Composition
import DatasetAlgebra.Proofs.Serial.ReadBack
import DatasetAlgebra.Proofs.Dataset.Hints
import DatasetAlgebra.Proofs.Join.Reference
import DatasetAlgebra.Proofs.Schema.Unions
import DatasetAlgebra.Proofs.Stream.Pulls
import DatasetAlgebra.Proofs.Join.Pulls
import DatasetAlgebra.Proofs.Join.Failing
import DatasetAlgebra.Proofs.Aggregation.Interrupted
import DatasetAlgebra.Proofs.Aggregation.Pulls
import DatasetAlgebra.Proofs.Schema.Fingerprints
import DatasetAlgebra.Proofs.Row.Rebinding
import DatasetAlgebra.Proofs.Filter.Kleene
import DatasetAlgebra.Proofs.Filter.Conjunction
import DatasetAlgebra.Proofs.SortOrder.Preorder
import DatasetAlgebra.Proofs.Join.Keys
import DatasetAlgebra.Proofs.SortOrder.Extension
import DatasetAlgebra.Proofs.SortOrder.Prefixes
import DatasetAlgebra.Proofs.Error.Suppression
import DatasetAlgebra.Proofs.Filter.Scope
import DatasetAlgebra.Proofs.Stream.Stacks
import DatasetAlgebra.Proofs.Stream.LifeCycle
