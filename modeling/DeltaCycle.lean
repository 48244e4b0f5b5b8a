import DeltaCycle.Bench.Program
import DeltaCycle.NameTable
import DeltaCycle.Proofs.Arming
import DeltaCycle.Proofs.SplitRuns
import DeltaCycle.Simulation.Traced
import DeltaCycle.Value.Codec
import DeltaCycle.Proofs.Turns
import DeltaCycle.Proofs.Commits
import DeltaCycle.Proofs.Explained
import DeltaCycle.Proofs.Passage
import DeltaCycle.Proofs.Beginnings
import DeltaCycle.Proofs.History
import DeltaCycle.Proofs.WakeUps
import DeltaCycle.Proofs.Firing
import DeltaCycle.Proofs.TypeSafety
import DeltaCycle.Proofs.Inertia
import DeltaCycle.Proofs.ShadowsAtRest
import DeltaCycle.Proofs.Confluence
import DeltaCycle.Proofs.Sessions
import DeltaCycle.Proofs.Caps
import DeltaCycle.Proofs.Returning
import DeltaCycle.Proofs.BridgeProtocol
import DeltaCycle.Proofs.RegistrationOrder
import DeltaCycle.Proofs.AlwaysBlocks
import DeltaCycle.Proofs.Reuse
import DeltaCycle.Proofs.Annals
import DeltaCycle.Proofs.Freshness
import DeltaCycle.Proofs.Rejections
import DeltaCycle.Proofs.WindingDown
import DeltaCycle.Proofs.Contention
import DeltaCycle.Proofs.Audience
import DeltaCycle.Proofs.Observers
import DeltaCycle.Proofs.Limits
import DeltaCycle.Proofs.RefusedWrites
import DeltaCycle.Proofs.Ticks
import DeltaCycle.Proofs.Settling
import DeltaCycle.Proofs.Reads
import DeltaCycle.Proofs.ZeroWaits
import DeltaCycle.Proofs.Overwriting
import DeltaCycle.Proofs.Shapes
import DeltaCycle.Proofs.BitStrings
import DeltaCycle.Proofs.Coercion
import DeltaCycle.Proofs.Scripts
import DeltaCycle.Proofs.Playback
import DeltaCycle.Proofs.Recordings
import DeltaCycle.Proofs.Spellings
import DeltaCycle.Proofs.ReadValues
import DeltaCycle.Proofs.Precedence
import DeltaCycle.Proofs.Expiry
import DeltaCycle.Proofs.JoinGroups
