import Shroot.Cgroup.History
import Shroot.Cgroup.Paths
import Shroot.FdOrigins.Refines
import Shroot.Identity.Runs
import Shroot.InodePath.Confined
import Shroot.InodeView.Collect
import Shroot.Landlock.History
import Shroot.Mapping.Observation
import Shroot.MountGraph.RoundTrip
import Shroot.MountGraph.Steady
import Shroot.MountGraph.Update
import Shroot.Network.LinkHistory
import Shroot.Network.Masters
import Shroot.Network.Policy
import Shroot.Nft.Bounded
import Shroot.Nft.RuleLists
import Shroot.PidNamespace.Exec
import Shroot.PosixAcl.Mapped
import Shroot.Semaphore.History
import Shroot.SocketFilter.Correct
import Shroot.Svc.History
import Shroot.UserNamespace.ChargeHistory
import Shroot.WatchQueue.Queue
