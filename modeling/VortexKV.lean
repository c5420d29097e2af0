import VortexKV.Proofs.AofTorn
import VortexKV.Proofs.ExecIsolation
import VortexKV.Proofs.BeforeAuth
import VortexKV.Proofs.StreamGap
import VortexKV.Proofs.FailureDetection
import VortexKV.Proofs.ConfigRoundTrip
import VortexKV.Proofs.QueuedGuards
import VortexKV.Proofs.ElectionSafety
import VortexKV.Proofs.Pending
import VortexKV.Proofs.SnapshotBytes
import VortexKV.Proofs.Restart
import VortexKV.Proofs.Crashes
import VortexKV.Proofs.CommandFrames
import VortexKV.Proofs.ExpiredUnseen
import VortexKV.Proofs.WatchCount
import VortexKV.Proofs.SetLock
import VortexKV.Proofs.MultiKey
import VortexKV.Proofs.ConcurrentCreation
import VortexKV.Proofs.Chunking
import VortexKV.Proofs.LoopSafety
import VortexKV.Proofs.Arithmetic
import VortexKV.Proofs.StreamQueries
import VortexKV.Proofs.ScoredMembers
import VortexKV.Proofs.SlotCommands
import VortexKV.Proofs.BusSafety
import VortexKV.Proofs.SkipListInv
import VortexKV.Proofs.RebalancePlans
import VortexKV.Proofs.Checksums
