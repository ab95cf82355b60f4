import Ruwa.Call.Pitch
import Ruwa.Call.RangeTrip
import Ruwa.Call.Relay
import Ruwa.Call.Srtp
import Ruwa.Cloud.Attribution
import Ruwa.Cloud.Broadcasts
import Ruwa.Cloud.Once
import Ruwa.Cloud.Recipient
import Ruwa.Cloud.Status
import Ruwa.Cloud.Webhook
import Ruwa.Cloud.Window
import Ruwa.Crypto.FailedDecrypt
import Ruwa.Crypto.SenderKey
import Ruwa.Crypto.SignalDelivery
import Ruwa.Crypto.SignalReplay
import Ruwa.Crypto.Vault
import Ruwa.Crypto.Xeddsa
import Ruwa.Egress.Reasoning
import Ruwa.Egress.Replies
import Ruwa.Egress.Resp
import Ruwa.Egress.RespGrammar
import Ruwa.Egress.RespSafety
import Ruwa.Library.Run
import Ruwa.Library.SetHash
import Ruwa.Media.ObjectStore
import Ruwa.Media.Ogg
import Ruwa.Protocol.Frame
import Ruwa.Protocol.JidAttr
import Ruwa.Protocol.Noise
import Ruwa.Session.Accounts
import Ruwa.Session.AppStateHash
import Ruwa.Session.AppStateMac
import Ruwa.Session.Authority
import Ruwa.Session.Consolidate
import Ruwa.Session.Content
import Ruwa.Session.Context
import Ruwa.Session.Convergence
import Ruwa.Session.Directory
import Ruwa.Session.Edits
import Ruwa.Session.FanOut
import Ruwa.Session.FirstContact
import Ruwa.Session.GroupSend
import Ruwa.Session.Healing
import Ruwa.Session.Identity
import Ruwa.Session.Inbound
import Ruwa.Session.Interleaving
import Ruwa.Session.Leasing
import Ruwa.Session.Listing
import Ruwa.Session.Logout
import Ruwa.Session.MediaCache
import Ruwa.Session.Offline
import Ruwa.Session.Pairing
import Ruwa.Session.Prekeys
import Ruwa.Session.Ready
import Ruwa.Session.Redrive
import Ruwa.Session.Replay
import Ruwa.Session.Resolve
import Ruwa.Session.Retry
import Ruwa.Session.RetryReceipt
import Ruwa.Session.Shipping
import Ruwa.Session.SyncCursor
import Ruwa.Session.SyncLoss
import Ruwa.Session.Tally
import Ruwa.Session.Updates
import Ruwa.Session.Wrappers
