import MailPush.Config
import MailPush.Ping.Run
import MailPush.Scripted
import MailPush.Store.DirectEdit
import MailPush.Store.Opening
import MailPush.Proofs.Heartbeat.Range
import MailPush.Proofs.Ping.Calls
import MailPush.Proofs.Ping.HeartbeatMoves
import MailPush.Proofs.Ping.StatusTable
import MailPush.Proofs.Ping.Restart
import MailPush.Proofs.Store.Operations
import MailPush.Proofs.Store.Requests
import MailPush.Proofs.Store.FolderRows
import MailPush.Proofs.Store.Queue
import MailPush.Proofs.Store.FolderBook
import MailPush.Proofs.Ping.Adjustments
import MailPush.Proofs.Store.Pings
import MailPush.Proofs.Store.Work
import MailPush.Proofs.Store.Heartbeats
import MailPush.Proofs.Store.Owners
import MailPush.Proofs.Accounts.Turns
import MailPush.Proofs.Accounts.Renaming
import MailPush.Proofs.Accounts.SameRuns
import MailPush.Proofs.Accounts.Independence
import MailPush.Proofs.Accounts.Durability
import MailPush.Proofs.Wire.RoundTrip
import MailPush.Proofs.Ping.CutReplies
import MailPush.Proofs.Config.Acceptance
import MailPush.Proofs.Store.Watched
import MailPush.Proofs.Heartbeat.Deadline
import MailPush.Proofs.Ping.WriteDiscipline
import MailPush.Proofs.Ping.Race
import MailPush.Proofs.Accounts.Reset
import MailPush.Proofs.Wire.Presentation
import MailPush.Proofs.Heartbeat.Convergence
import MailPush.Proofs.Ping.ChangedFolders
import MailPush.Proofs.Ping.Preparation
import MailPush.Proofs.Store.FolderIds
import MailPush.Proofs.Ping.AppliedEffects
import MailPush.Proofs.Store.CorruptRows
import MailPush.Proofs.Accounts.Containment
import MailPush.Proofs.Wire.Requests
import MailPush.Proofs.Error.Layers
import MailPush.Proofs.Ping.LogAccount
import MailPush.Proofs.Store.Locations
import MailPush.Proofs.Wire.Numbers
