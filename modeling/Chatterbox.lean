import Chatterbox.Auth.Rotation
import Chatterbox.Auth.Register
import Chatterbox.Auth.Sessions
import Chatterbox.Attachments.Orphans
import Chatterbox.Attachments.Measured
import Chatterbox.Attachments.Keys
import Chatterbox.Attachments.Instream
import Chatterbox.Messages.Cursor
import Chatterbox.Receipts.WriteOnce
import Chatterbox.Services.Unread
import Chatterbox.Services.NonInterference
import Chatterbox.Services.Summaries
import Chatterbox.Services.Recent
import Chatterbox.Services.Badges
import Chatterbox.Services.Peers
import Chatterbox.Services.Lasting
import Chatterbox.Services.Files
import Chatterbox.Client.Uploads
import Chatterbox.Services.CleanupLock
import Chatterbox.Presence.Sweep
import Chatterbox.Typing.Expiry
import Chatterbox.Realtime.Deliveries
import Chatterbox.Realtime.Heartbeat
import Chatterbox.Realtime.Sessions
import Chatterbox.Realtime.Replies
import Chatterbox.Realtime.Isolation
import Chatterbox.Realtime.FanOut
import Chatterbox.Realtime.Endpoint
import Chatterbox.Realtime.Maintenance
import Chatterbox.Realtime.RateLimit
import Chatterbox.Realtime.Malformed
import Chatterbox.Client.Order
import Chatterbox.Client.Connection
import Chatterbox.Client.Status
import Chatterbox.Client.ReceiptLabels
import Chatterbox.Client.Composer
import Chatterbox.Client.RecoveryPass
import Chatterbox.Attachments.Download
import Chatterbox.Users.Search
import Chatterbox.Realtime.ClientFrames
import Chatterbox.Realtime.Announcements
import Chatterbox.Client.LiveView
