import AxonCore.BlockGadget.Exactness
import AxonCore.BlockGadget.EventOrder
import AxonCore.SlotGadget.Safety
import AxonCore.SlotGadget.Order
import AxonCore.Accounts.Snapshot
import AxonCore.Attestations.Recovery
import AxonCore.Attestations.Verifier
import AxonCore.Upgrade.Recovery
import AxonCore.Notarization.Commitments
import AxonCore.Storage.Rollback
import AxonCore.Storage.CachedStore
import AxonCore.Eviction.Recovery
import AxonCore.Chains.Runs
import AxonCore.Committee.Freeze
import AxonCore.Performance.Candidates
import AxonCore.Performance.Continuation
import AxonCore.Scheduler.Safety
import AxonCore.SpendDag.CleanEviction
import AxonCore.Accounts.OrderIndependence
import AxonCore.Accounts.Membership
import AxonCore.UtxoLedger.Invariant
import AxonCore.UtxoLedger.OutputFormat
import AxonCore.ManaManager.Cache
import AxonCore.Performance.OrderIndependence
import AxonCore.MemPool.StateDiff
import AxonCore.ActivityTracker
import AxonCore.Rmc
import AxonCore.RequestHandler
import AxonCore.BlockRetainer
import AxonCore.Promise
