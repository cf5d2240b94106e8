import Quickshare.Client.Answers
import Quickshare.Client.Backlog
import Quickshare.Client.Chunking
import Quickshare.Client.Confinement
import Quickshare.Client.Conformance
import Quickshare.Client.FieldReads
import Quickshare.Client.Finality
import Quickshare.Client.MainMenu
import Quickshare.Client.OpenFiles
import Quickshare.Client.PartialWrites
import Quickshare.Client.Progress
import Quickshare.Client.CommandLoop
import Quickshare.Client.Sending
import Quickshare.Server.Accepting
import Quickshare.Server.Cancelling
import Quickshare.Server.Conservation
import Quickshare.Server.DebugText
import Quickshare.Server.Draining
import Quickshare.Server.FreeSlots
import Quickshare.Server.Freshness
import Quickshare.Server.Identity
import Quickshare.Server.Integrity
import Quickshare.Server.Isolation
import Quickshare.Server.Leaving
import Quickshare.Server.Loop
import Quickshare.Server.Membership
import Quickshare.Server.OutputSpace
import Quickshare.Server.QueueSpace
import Quickshare.Server.Relaying
import Quickshare.Server.Sessions
import Quickshare.Server.StaleInput
import Quickshare.Server.Startup
import Quickshare.Server.Transactions
import Quickshare.Server.WriteOrder
import Quickshare.System.Delivery
