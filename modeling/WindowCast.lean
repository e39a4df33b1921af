import WindowCast.Lib.LogTable
import WindowCast.Fec.Gf256
import WindowCast.Lib.Cauchy
import WindowCast.Lib.GaussJordan
import WindowCast.Fec.Code
import WindowCast.Fec.Recover
import WindowCast.Bud.Header
import WindowCast.Lib.InPlace
import WindowCast.Lib.SlidingWindow
import WindowCast.Bud.Replay
import WindowCast.Bud.Packet
import WindowCast.Bud.Parity
import WindowCast.Bud.Fragment
import WindowCast.Lib.Run
import WindowCast.Bud.Pending
import WindowCast.Bud.Reassembly
import WindowCast.Bud.Sent
import WindowCast.Bud.Genuine
import WindowCast.Bud.Fidelity
import WindowCast.Bud.Delivery
import WindowCast.Bud.FrameBound
import WindowCast.Lib.Runs
import WindowCast.Bud.Feedback
import WindowCast.Bud.LossDetector
import WindowCast.Bud.Refresh
import WindowCast.Bud.Isolation
import WindowCast.Bud.Nacks
import WindowCast.Host.SignIn
import WindowCast.Accounts.Policy
import WindowCast.Accounts.Oidc
import WindowCast.Files.Finish
import WindowCast.Host.Guesses
import WindowCast.Host.Lockout
import WindowCast.Lib.Text
import WindowCast.Host.Pairing
import WindowCast.Accounts.Check
import WindowCast.Host.Control
import WindowCast.Host.Served
import WindowCast.Host.Limits
import WindowCast.Host.Resume
import WindowCast.Files.Clean
import WindowCast.Lib.FileTree
import WindowCast.Files.Shares
import WindowCast.Files.Service
import WindowCast.Transport.RemoteWindow
import WindowCast.Transport.Frames
import WindowCast.Transport.Punched
import WindowCast.Transport.PunchedStream
import WindowCast.Transport.Handshake
import WindowCast.Command.Stream
import WindowCast.Command.Channel
import WindowCast.Command.Yields
import WindowCast.Command.GivenUp
import WindowCast.Stream.Serving
import WindowCast.Stream.Stopped
import WindowCast.Stream.Carriers
import WindowCast.Stream.HeldInput
import WindowCast.Lib.Owned
import WindowCast.Stream.Compatibility
import WindowCast.GameStream.Video
import WindowCast.GameStream.Frames
import WindowCast.GameStream.Reception
import WindowCast.GameStream.Crypto
import WindowCast.GameStream.Fec
import WindowCast.GameStream.Audio
import WindowCast.GameStream.Listening
import WindowCast.GameStream.Cipher
import WindowCast.GameStream.Control
import WindowCast.GameStream.Windows
import WindowCast.GameStream.Stream
import WindowCast.GameStream.Nonces
import WindowCast.GameStream.Threads
import WindowCast.GameStream.Shown
import WindowCast.Lib.Hex
import WindowCast.Rdp.HostAccounts
import WindowCast.Rdp.RemoteApps
import WindowCast.Vnc.Keys
import WindowCast.SecureHelper.Helper
import WindowCast.SecureHelper.Exchange
import WindowCast.Lib.Beside
import WindowCast.Terminal.HostKeys
import WindowCast.Identity.TrustStore
import WindowCast.Identity.Updates
import WindowCast.Files.Watch
import WindowCast.Files.Watching
import WindowCast.Bud.LossMeter
import WindowCast.Lib.Framing
import WindowCast.Pairing.Exchange
import WindowCast.Accounts.Glob
import WindowCast.Client.PumpFrames
import WindowCast.Files.Uploads
import WindowCast.Stream.DeliverInput
import WindowCast.Client.Selector
import WindowCast.Client.Shown
import WindowCast.Client.Switching
import WindowCast.Client.Promises
import WindowCast.Client.Abandoned
import WindowCast.Host.Quality
import WindowCast.Agents.Cmdline
import WindowCast.Files.Looks
import WindowCast.Rdp.Arguments
import WindowCast.Agents.EnvBlock
import WindowCast.Agents.Injector
import WindowCast.Agents.Touches
import WindowCast.Agents.Typing
import WindowCast.Lib.Marks
import WindowCast.Lib.Shell
import WindowCast.Terminal.Paste
import WindowCast.Terminal.Redraw
import WindowCast.Terminal.Ssh
import WindowCast.Agents.Seat
import WindowCast.Lib.Extent
import WindowCast.Vnc.Updates
import WindowCast.GameStream.Gamepads
import WindowCast.GameStream.HostPairing
import WindowCast.Lib.BitField
import WindowCast.Rdp.Keyboard
import WindowCast.Vnc.PixelFormat
import WindowCast.Vnc.Pointer
import WindowCast.Lib.Cursor
import WindowCast.Rdp.WindowOrders
import WindowCast.Lib.Span
import WindowCast.Rdp.WindowPictures
import WindowCast.Lib.Gather
import WindowCast.GameStream.Rtsp
import WindowCast.Agents.Posted
import WindowCast.Lib.Search
import WindowCast.GameStream.Document
import WindowCast.Lib.Codec
import WindowCast.SecureHelper.Operations
import WindowCast.SecureHelper.Sid
import WindowCast.Identity.PeerHex
import WindowCast.Lib.Buffer
import WindowCast.Host.Video
import WindowCast.Lib.Ladder
import WindowCast.Lib.Checked
import WindowCast.Host.Scaling
import WindowCast.Host.Pacer
import WindowCast.Bud.Retransmitter
import WindowCast.Lib.Descent
import WindowCast.Bud.Eviction
import WindowCast.Lib.Luhn
import WindowCast.Lib.Base32
import WindowCast.Rendezvous.DeviceId
import WindowCast.Discovery.Beacon
import WindowCast.Rendezvous.Stun
import WindowCast.GameStream.Pairings
import WindowCast.GameStream.PairClient
import WindowCast.GameStream.PairCourse
import WindowCast.Files.Transfer
import WindowCast.Files.Download
import WindowCast.Lib.RateLimit
import WindowCast.Host.Chat
import WindowCast.Bud.Conversation
import WindowCast.Lib.Percent
import WindowCast.GameStream.Http
import WindowCast.GameStream.Connection
import WindowCast.GameStream.Grants
import WindowCast.GameStream.Launching
