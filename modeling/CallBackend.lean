import CallBackend.Lib.Dict
import CallBackend.Lib.Exec
import CallBackend.Lib.System
import CallBackend.Lib.Json
import CallBackend.Lib.Base64
import CallBackend.Lib.Blob
import CallBackend.Basic
import CallBackend.Call.Types
import CallBackend.Call.Message
import CallBackend.Call.Padding
import CallBackend.Call.Service
import CallBackend.Call.Effect
import CallBackend.Call.Run
import CallBackend.Call.Policy
import CallBackend.Call.Removal
import CallBackend.Call.Departure
import CallBackend.Call.Broadcast
import CallBackend.Call.Membership
import CallBackend.Call.Presence
import CallBackend.Call.Registry
import CallBackend.Call.Disclosure
import CallBackend.Call.Atomicity
import CallBackend.Call.Expiry
import CallBackend.Call.Audience
import CallBackend.Config
import CallBackend.Server.Types
import CallBackend.Server.Service
import CallBackend.Server.Credentials
import CallBackend.Server.Effect
import CallBackend.Server.Custody
import CallBackend.Server.Run
import CallBackend.Server.Links
import CallBackend.Server.Presence
import CallBackend.Server.Revocation
import CallBackend.Server.Roster
import CallBackend.Server.Index
import CallBackend.Server.Growth
import CallBackend.Server.Intake
import CallBackend.Server.Locks
import CallBackend.Lib.JsonText
import CallBackend.Lib.Positional
import CallBackend.Server.MediaGrants
import CallBackend.Files.Types
import CallBackend.Files.Batch
import CallBackend.Files.Store
import CallBackend.Files.Effect
import CallBackend.Files.Status
import CallBackend.Files.Ownership
import CallBackend.Files.Writing
import CallBackend.Files.Coalescing
import CallBackend.Files.Slots
import CallBackend.Files.NativeUpload
import CallBackend.Files.Soundness
import CallBackend.Files.Quota
import CallBackend.Files.Faults
import CallBackend.Files.Protocol
import CallBackend.Files.Integrity
import CallBackend.Files.Transfers
import CallBackend.Files.Interference
import CallBackend.Files.Forwarding
import CallBackend.Lib.Coupling
import CallBackend.Files.Envelope
import CallBackend.Lib.Framing
import CallBackend.Link.Framing
import CallBackend.Link.Parser
import CallBackend.Transport.Framing
import CallBackend.Native.Replies
import CallBackend.Native.Attachment
import CallBackend.Identity.Base58
import CallBackend.Lib.Recency
import CallBackend.Lib.Window
import CallBackend.Server.Issuing
import CallBackend.Server.Walk
import CallBackend.Server.MessageWindow
import CallBackend.Server.Admission
import CallBackend.Identity.Challenge
import CallBackend.Lib.Tally
import CallBackend.Native.Admission
import CallBackend.Media.Broker
import CallBackend.Media.Lifetime
import CallBackend.Lib.Ip
import CallBackend.Network.Reachability
import CallBackend.Identity.Binding
import CallBackend.Files.FileLocks
import CallBackend.Media.Queue
import CallBackend.Native.FrameSlots
import CallBackend.Call.Revision
import CallBackend.Call.Muting
import CallBackend.Server.Attaching
