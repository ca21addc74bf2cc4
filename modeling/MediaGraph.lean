import MediaGraph.Main
import MediaGraph.Proofs.Conservation
import MediaGraph.Proofs.WellFed
import MediaGraph.Storage.Tree
import MediaGraph.Proofs.Counting
import MediaGraph.Proofs.Delivery
import MediaGraph.Proofs.Endless.Activation
import MediaGraph.Proofs.Readiness
import MediaGraph.Proofs.Validity
import MediaGraph.Proofs.Chain
import MediaGraph.Proofs.Pushes
import MediaGraph.Proofs.Agreement
import MediaGraph.Proofs.Announcements
import MediaGraph.Proofs.Quiescence
import MediaGraph.Proofs.Satisfied
import MediaGraph.Proofs.Counters
import MediaGraph.Proofs.Failures
import MediaGraph.Proofs.Faithful
import MediaGraph.Proofs.Components
import MediaGraph.Proofs.Thresholds
import MediaGraph.Proofs.Retries
import MediaGraph.Proofs.RoundTrip
import MediaGraph.Proofs.Requirements
import MediaGraph.Proofs.Satisfiable
import MediaGraph.Proofs.Ledger.Rewiring
import MediaGraph.Proofs.References
import MediaGraph.Proofs.Mixing
import MediaGraph.Proofs.PoolSizes
import MediaGraph.Proofs.Spelling
import MediaGraph.Proofs.Relinking
import MediaGraph.Proofs.Fifo
import MediaGraph.Proofs.Downstream
import MediaGraph.Proofs.Verdicts
import MediaGraph.Proofs.Handouts
