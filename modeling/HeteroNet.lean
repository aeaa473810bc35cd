import HeteroNet.Frontend.ModelBuilder
import HeteroNet.Frontend.Compilation
import HeteroNet.LogSettings
import HeteroNet.Main
import HeteroNet.Proofs.Frontend.Atomicity
import HeteroNet.Proofs.Frontend.Decoding
import HeteroNet.Proofs.Kernel.Casts
import HeteroNet.Proofs.Kernel.Codes
import HeteroNet.Proofs.Kernel.Joined
import HeteroNet.Proofs.Kernel.Occupied
import HeteroNet.Proofs.Machine.Latch
import HeteroNet.Proofs.Machine.Queue
import HeteroNet.Proofs.Model.Unfinished
import HeteroNet.Proofs.Model.Walked
import HeteroNet.Proofs.Overrides
import HeteroNet.Proofs.Plan.Constants
import HeteroNet.Proofs.Plan.Overwritten
import HeteroNet.Proofs.Plan.Placements
import HeteroNet.Proofs.Plan.Retries
import HeteroNet.Proofs.Plan.Tenants
import HeteroNet.Proofs.Storage.Reordered
import HeteroNet.Proofs.World.Atomic
import HeteroNet.Proofs.World.Copies
import HeteroNet.Proofs.World.Ledger
import HeteroNet.Proofs.World.Moved
import HeteroNet.Proofs.World.Phases
