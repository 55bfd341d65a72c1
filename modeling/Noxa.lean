import Noxa.Authorization.NoEscalation
import Noxa.Authorization.Amplification
import Noxa.Authorization.AuthorityRuns
import Noxa.Authorization.TreeEdits
import Noxa.Authorization.AccessEdits
import Noxa.Authorization.ReadRevocation
import Noxa.Authorization.WellBehaved
import Noxa.Authorization.Hierarchy
import Noxa.Auth.LoginLimiter
import Noxa.State.Manager
import Noxa.Snapshot.Noninterference
import Noxa.Durable.AtMostOnce
import Noxa.Durable.RetiredMarks
import Noxa.Durable.Accounting
import Noxa.Durable.SessionLife
import Noxa.Media.RemovalBound
import Noxa.Media.RetiredEpochs
import Noxa.Media.Audience
import Noxa.Media.ReplayWindow
import Noxa.Store.ResetHistory
import Noxa.Identity.Purposes
import Noxa.Server.ChatRate
import Noxa.Server.DeviceLinks
import Noxa.Server.DirectCopies
import Noxa.Server.ConversationActivity
import Noxa.Server.DeviceEnvelopes
import Noxa.Linkpreview.JpegScans
import Noxa.Server.MediaSeats
import Noxa.Wire.Frames
import Noxa.Webrtc.ReorderRuns
import Noxa.Webrtc.SwitchTimestamps
import Noxa.Webrtc.NackGenerator
import Noxa.Webrtc.TransportFeedback
import Noxa.Webrtc.GopCache
import Noxa.Webrtc.ContextRWMutex
import Noxa.Filetransfer.Finalize
import Noxa.Mobile.Outbox
