import ClamavDbscan.Proof.FSWatcher.BroadcastLaw
import ClamavDbscan.Proof.FSWatcher.Progress
import ClamavDbscan.Proof.FSWatcher.Unresolvable
import ClamavDbscan.Proof.FSWatcher.Containment
import ClamavDbscan.Proof.Watcher.QueueProgress
import ClamavDbscan.Proof.Watcher.TableCalls
import ClamavDbscan.Proof.Watcher.ReleasedOnce
import ClamavDbscan.Proof.Watcher.Overread
import ClamavDbscan.Proof.Watcher.SafeReadlink
import ClamavDbscan.Proof.Protocol.Messages
import ClamavDbscan.Proof.Protocol.LiveSocket
import ClamavDbscan.Proof.Protocol.RootFilter
import ClamavDbscan.Proof.Scanner.FileNames
import ClamavDbscan.Proof.Scanner.FastPath
import ClamavDbscan.Proof.Scanner.Removal
import ClamavDbscan.Proof.Scanner.StartedOnce
import ClamavDbscan.Proof.Queue.TruthfulEvent
import ClamavDbscan.Proof.Watch.WriteEvents
import ClamavDbscan.Proof.Watch.DeferredScans
import ClamavDbscan.Proof.Main.EveryFile
import ClamavDbscan.Proof.Main.WorkConserving
import ClamavDbscan.Proof.Main.CacheKeys
import ClamavDbscan.Proof.Main.OneFilesystem
import ClamavDbscan.Proof.Main.WatchedFiles
import ClamavDbscan.Proof.Scanner.QuietScan
import ClamavDbscan.Proof.Main.WholeScan
import ClamavDbscan.Proof.Main.ScanOfTree
import ClamavDbscan.Construction.Protocol.Deployment
import ClamavDbscan.Proof.Protocol.DeploymentSteps
import ClamavDbscan.Proof.Main.SecondScan
import ClamavDbscan.Proof.Main.SettledFile
import ClamavDbscan.Proof.Protocol.Conveyance
import ClamavDbscan.Proof.Protocol.WatchedChange
import ClamavDbscan.Proof.Scanner.Provenance
