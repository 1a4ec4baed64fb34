import Zinder.Canonical.ArchivePages
import Zinder.Canonical.ControlWriters
import Zinder.Canonical.Displaceable
import Zinder.Canonical.EventCodec
import Zinder.Canonical.Leases
import Zinder.ChainEvents.MintedCursors
import Zinder.ChainEvents.Stream
import Zinder.Explorer.AddressDeltas
import Zinder.Ingest.FollowConverges
import Zinder.Mempool.Overlays
import Zinder.Mempool.SnapshotWalk
import Zinder.Mempool.StagedReconciliation
import Zinder.Views.Converge
import Zinder.Views.Pauses
