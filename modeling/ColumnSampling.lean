import ColumnSampling.Command.Program
import ColumnSampling.Engine
import ColumnSampling.Kzg.Bare
import ColumnSampling.Kzg.TrustedSetup
import ColumnSampling.Main
import ColumnSampling.Metrics.Report
import ColumnSampling.Proofs.Block.Binding
import ColumnSampling.Proofs.Block.Opening
import ColumnSampling.Proofs.Column.Batch
import ColumnSampling.Proofs.Column.Order
import ColumnSampling.Proofs.Column.Problems
import ColumnSampling.Proofs.Column.Recovery
import ColumnSampling.Proofs.Column.Regeneration
import ColumnSampling.Proofs.Column.Reverification
import ColumnSampling.Proofs.Column.Separate
import ColumnSampling.Proofs.Column.Sizes
import ColumnSampling.Proofs.Column.Superseded
import ColumnSampling.Proofs.Column.Transposition
import ColumnSampling.Proofs.Custody.Growth
import ColumnSampling.Proofs.Custody.Partition
import ColumnSampling.Proofs.Custody.Policy
import ColumnSampling.Proofs.Custody.Recency
import ColumnSampling.Proofs.Custody.SelfReconstruction
import ColumnSampling.Proofs.Engine.Accounting
import ColumnSampling.Proofs.Engine.Counts
import ColumnSampling.Proofs.Engine.Coverage
import ColumnSampling.Proofs.Engine.Failures
import ColumnSampling.Proofs.Engine.Faults
import ColumnSampling.Proofs.Engine.Run
import ColumnSampling.Proofs.Engine.Sampling
import ColumnSampling.Proofs.Merkle.Binding
import ColumnSampling.Proofs.Merkle.Capacity
import ColumnSampling.Proofs.Merkle.FullTree
import ColumnSampling.Proofs.Record.CustodyCount
import ColumnSampling.Proofs.Storage.ConfigFile
import ColumnSampling.Proofs.Wire.FixedBytes
import ColumnSampling.Proofs.Wire.NodeIdText
import ColumnSampling.Wire.Sidecar
