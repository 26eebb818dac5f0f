import FreeBox.Cli.Barrier
import FreeBox.Cli.Commands
import FreeBox.Cli.KeyRecovery
import FreeBox.Cli.Listing
import FreeBox.Cli.Names
import FreeBox.Cli.Nonces
import FreeBox.Cli.OutputPath
import FreeBox.Cli.RoundTrip
import FreeBox.Cli.Session
import FreeBox.Cli.SessionLife
import FreeBox.Cli.Transfer
import FreeBox.Cli.Upload
import FreeBox.Crypto.BundleJson
import FreeBox.Crypto.ChunkJson
import FreeBox.Crypto.Encryption
import FreeBox.Crypto.FileIntegrity
import FreeBox.Crypto.ForwardSecrecy
import FreeBox.Crypto.Keys
import FreeBox.Crypto.Ratchet
import FreeBox.Crypto.RatchetKeys
import FreeBox.Crypto.RatchetNetwork
import FreeBox.Crypto.RatchetPair
import FreeBox.Crypto.X3dh
import FreeBox.Lib.Aead
import FreeBox.Lib.Barrier
import FreeBox.Lib.Base64
import FreeBox.Lib.Bytes
import FreeBox.Lib.Double
import FreeBox.Lib.Ecma
import FreeBox.Lib.FreshKeys
import FreeBox.Lib.Interleaving
import FreeBox.Lib.Json
import FreeBox.Lib.JsonText
import FreeBox.Lib.JsonValue
import FreeBox.Lib.Paging
import FreeBox.Lib.Parallel
import FreeBox.Lib.Program
import FreeBox.Lib.ProgramLogic
import FreeBox.Lib.ReadCommitted
import FreeBox.Lib.Refinement
import FreeBox.Lib.Run
import FreeBox.Lib.Segments
import FreeBox.Lib.Sequential
import FreeBox.Lib.SlidingWindow
import FreeBox.Lib.StateExcept
import FreeBox.Lib.StrIndex
import FreeBox.Lib.Symbolic
import FreeBox.Lib.Table
import FreeBox.Lib.Text
import FreeBox.Lib.Ties
import FreeBox.Lib.Trace
import FreeBox.Lib.Trim
import FreeBox.Lib.Url
import FreeBox.Lib.Utf16
import FreeBox.Lib.Utf8
import FreeBox.Lib.Uuid
import FreeBox.Server.AccountServer
import FreeBox.Server.AccountTokens
import FreeBox.Server.Accounts
import FreeBox.Server.AuditEvents
import FreeBox.Server.Auth
import FreeBox.Server.AuthFailures
import FreeBox.Server.BlobOwners
import FreeBox.Server.ChunkAccounting
import FreeBox.Server.ConcurrentLogin
import FreeBox.Server.DeletedAccounts
import FreeBox.Server.Drive
import FreeBox.Server.DriveHistory
import FreeBox.Server.DriveRefinement
import FreeBox.Server.Error
import FreeBox.Server.FileServer
import FreeBox.Server.Files
import FreeBox.Server.Handshake
import FreeBox.Server.Http
import FreeBox.Server.Identity
import FreeBox.Server.Immutability
import FreeBox.Server.Isolation
import FreeBox.Server.KeyHandlers
import FreeBox.Server.KeyJson
import FreeBox.Server.KeyServer
import FreeBox.Server.LimiterMemory
import FreeBox.Server.Linking
import FreeBox.Server.Lockout
import FreeBox.Server.LoginAlone
import FreeBox.Server.LoginConvergence
import FreeBox.Server.Metadata
import FreeBox.Server.OAuth
import FreeBox.Server.OAuthFlow
import FreeBox.Server.Paging
import FreeBox.Server.PeerLimit
import FreeBox.Server.PrekeySupply
import FreeBox.Server.Provenance
import FreeBox.Server.PurgeAlone
import FreeBox.Server.PurgeSafety
import FreeBox.Server.RateLimit
import FreeBox.Server.Reactivation
import FreeBox.Server.Registered
import FreeBox.Server.Resume
import FreeBox.Server.Rotation
import FreeBox.Server.StateBinding
import FreeBox.Server.TokenHolders
import FreeBox.Server.TokenOrigins
import FreeBox.Server.Transactions
import FreeBox.Server.Trash
import FreeBox.Server.TrashLife
import FreeBox.Server.UnlinkAlone
import FreeBox.Server.UploadAlone
import FreeBox.Server.UploadHistory
import FreeBox.Server.Uploads
import FreeBox.Server.UserRows
import FreeBox.Storage.Buckets
import FreeBox.Storage.CreateBucket
import FreeBox.Storage.FsService
import FreeBox.Storage.Multipart
import FreeBox.Storage.OpenUploads
import FreeBox.Storage.Plugins
import FreeBox.Storage.Registry
import FreeBox.Storage.Retry
import FreeBox.Web.Accounts
import FreeBox.Web.Agreement
import FreeBox.Web.Barrier
import FreeBox.Web.Client
import FreeBox.Web.Crypto
import FreeBox.Web.Expiry
import FreeBox.Web.Interop
import FreeBox.Web.Registration
import FreeBox.Web.Upload
