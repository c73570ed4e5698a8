import FleetComposition.Describer
import FleetComposition.Json.Model
import FleetComposition.Proofs.Describer.Memory
import FleetComposition.Proofs.Describer.Transparency
import FleetComposition.Proofs.Expression.Building
import FleetComposition.Proofs.Expression.Canonical
import FleetComposition.Proofs.Expression.Defects
import FleetComposition.Proofs.Expression.Joining
import FleetComposition.Proofs.Expression.Key
import FleetComposition.Proofs.Json.RoundTrip
import FleetComposition.Proofs.Recency.Inclusion
import FleetComposition.Proofs.Recency.Sentences
import FleetComposition.Proofs.Segment.Order
import FleetComposition.Proofs.Segment.Overflow
import FleetComposition.Proofs.Segment.WellFormed
import FleetComposition.Proofs.Wording.Filling
import FleetComposition.Proofs.Wording.Meaning
import FleetComposition.Proofs.Wording.NameHistory
import FleetComposition.Proofs.Wording.Placeholders
import FleetComposition.Proofs.Wording.Splitting
import FleetComposition.Proofs.Wording.VerbLast
