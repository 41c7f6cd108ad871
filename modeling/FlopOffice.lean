import FlopOffice.Python.Basic
import FlopOffice.Python.Text
import FlopOffice.Lib.Regex
import FlopOffice.Lib.PrefixCode
import FlopOffice.Lib.Transaction
import FlopOffice.Lib.HashChain
import FlopOffice.Lib.Counter
import FlopOffice.Lib.Radix
import FlopOffice.Python.Json
import FlopOffice.Lib.Sha256
import FlopOffice.Python.Hashlib
import FlopOffice.Storage.Db
import FlopOffice.Proof.HashChain
import FlopOffice.Proof.Verify
import FlopOffice.Proof.Tamper
import FlopOffice.Tools.SecretScan
import FlopOffice.Proof.Ledger
import FlopOffice.Proof.LedgerRuns
import FlopOffice.Proof.SecretRefusal
import FlopOffice.Identity.Canonical
import FlopOffice.Identity.Did
import FlopOffice.Identity.Verifier
import FlopOffice.Identity.Capability
import FlopOffice.Identity.Nonce
import FlopOffice.Identity.Binding
import FlopOffice.Identity.Wiring
import FlopOffice.Technocore.SignedWrite
import FlopOffice.Lib.Delimiter
import FlopOffice.Python.Builtins
import FlopOffice.Technocore.Untrusted
import FlopOffice.Technocore.ReadRoom
import FlopOffice.Lib.Process
import FlopOffice.Technocore.Gate
import FlopOffice.Lib.Rounding
import FlopOffice.Python.Float
import FlopOffice.Technocore.RateLimit
import FlopOffice.Lib.Bucket
import FlopOffice.Technocore.FloatBucket
import FlopOffice.Technocore.Surroundings
import FlopOffice.Technocore.Client
import FlopOffice.Technocore.GateRuns
import FlopOffice.Technocore.Announcement
import FlopOffice.Technocore.Recorded
import FlopOffice.Technocore.PublishOnce
import FlopOffice.Technocore.Journal
import FlopOffice.Technocore.Outbound
import FlopOffice.Proof.CleanText
import FlopOffice.Python.Decoded
import FlopOffice.Technocore.Accepted
import FlopOffice.Technocore.Outcome
import FlopOffice.Technocore.OutcomeRuns
import FlopOffice.Technocore.PayloadHash
import FlopOffice.Identity.Scopes
import FlopOffice.Identity.Ceiling
import FlopOffice.Identity.PathSegment
import FlopOffice.Technocore.WritePath
import FlopOffice.Proof.FirstBreak
import FlopOffice.Proof.FileContent
import FlopOffice.Storage.Immediate
import FlopOffice.Storage.Migrations
import FlopOffice.Technocore.Reads
import FlopOffice.Technocore.Budget
import FlopOffice.Technocore.SessionRuns
import FlopOffice.Python.Pathlib
import FlopOffice.Config.Settings
import FlopOffice.Identity.Keystore
import FlopOffice.Identity.RootSigner
import FlopOffice.Technocore.NonceToken
import FlopOffice.Technocore.AnnouncementRuns
import FlopOffice.Technocore.PublishOutcome
import FlopOffice.Identity.Sweep
import FlopOffice.Identity.SignatureText
import FlopOffice.Technocore.BucketRuns
import FlopOffice.Tools.AllowMarker
import FlopOffice.Technocore.AcquireRuns
import FlopOffice.Technocore.Discovery
import FlopOffice.Technocore.Rendering
import FlopOffice.Lib.PackedSha256
import FlopOffice.Identity.Base58
import FlopOffice.Storage.Statements
import FlopOffice.Technocore.LedgerIntegrity
import FlopOffice.Lib.CounterLog
import FlopOffice.Python.Dict
import FlopOffice.Python.Unquote
import FlopOffice.Integration.FakeTechnocore
import FlopOffice.Integration.ServerRuns
import FlopOffice.Python.Decimal
import FlopOffice.Integration.Exchange
import FlopOffice.Integration.ReadBack
import FlopOffice.Lib.Embedding
import FlopOffice.Cli.PublishCommand
import FlopOffice.Tools.FileScan
import FlopOffice.Technocore.FloatBucket
