import BehaviorGraph.BitSet.Lemmas
import BehaviorGraph.Edges.Lemmas
import BehaviorGraph.Node.Text
import BehaviorGraph.Proofs.BitSet.Comparison
import BehaviorGraph.Proofs.BitSet.Enumeration
import BehaviorGraph.Proofs.Building.Indistinct
import BehaviorGraph.Proofs.Building.Recall
import BehaviorGraph.Proofs.Building.Reporting
import BehaviorGraph.Proofs.Edges.Outline
import BehaviorGraph.Proofs.NodeLog.Atomicity
import BehaviorGraph.Proofs.NodeLog.FiniteMap
import BehaviorGraph.Proofs.NodeLog.Image
import BehaviorGraph.Proofs.NodeLog.Paging
import BehaviorGraph.Proofs.NodeLog.Poisoning
import BehaviorGraph.Proofs.NodeLog.ReadPaths
import BehaviorGraph.Proofs.NodeLog.TemporaryLogs
import BehaviorGraph.Proofs.Predicate.Queries
import BehaviorGraph.Proofs.Predicate.Tiling
import BehaviorGraph.Proofs.Predicate.TrueStates
import BehaviorGraph.Proofs.Predicate.Uncommitted
import BehaviorGraph.Proofs.Record.Cutoff
import BehaviorGraph.Proofs.Record.Delivery
import BehaviorGraph.Proofs.Record.Normalization
import BehaviorGraph.Proofs.Storage.Steadiness
import BehaviorGraph.Proofs.Text.Decimal
import BehaviorGraph.Proofs.Text.Line
import BehaviorGraph.Proofs.Wire.Fields
import BehaviorGraph.Proofs.Wire.LengthCode
