import Hanko.Framework.Prog
import Hanko.Framework.Pool
import Hanko.Framework.Refine
import Hanko.Framework.Serial
import Hanko.Framework.Balance
import Hanko.Framework.RingBuffer
import Hanko.Framework.History
import Hanko.Framework.MapRange
import Hanko.Framework.Separators
import Hanko.Framework.Utf8
import Hanko.Framework.CodePoints
import Hanko.Framework.Base64
import Hanko.Framework.Json.String
import Hanko.Framework.Json.Text
import Hanko.Framework.Json.RoundTrip
import Hanko.Framework.Json.Value
import Hanko.Framework.Json.Decode
import Hanko.Framework.Json.Jcs
import Hanko.Framework.Json.KeyOrder
import Hanko.Framework.Calendar
import Hanko.Impl.Time
import Hanko.Impl.Protocol
import Hanko.Impl.Crypto
import Hanko.Impl.Store
import Hanko.Impl.Postgres
import Hanko.Impl.Broker
import Hanko.Impl.Strings
import Hanko.Impl.Http
import Hanko.Impl.System
import Hanko.Impl.Server
import Hanko.Impl.PGStore
import Hanko.Impl.ConfigReload
import Hanko.Impl.Nats
import Hanko.Impl.Subject
import Hanko.Impl.IdpKeys
import Hanko.Impl.GoMod
import Hanko.Impl.Cdc
import Hanko.Impl.CdcChange
import Hanko.Impl.BruteForce
import Hanko.Spec.Ledger
import Hanko.Spec.GoMod
import Hanko.Proof.Time
import Hanko.Proof.Envelope
import Hanko.Proof.Wire
import Hanko.Proof.Verify
import Hanko.Proof.Runs
import Hanko.Proof.Issue
import Hanko.Proof.Verdict
import Hanko.Proof.Expiry
import Hanko.Proof.Postgres
import Hanko.Proof.Replay
import Hanko.Proof.Bootstrap
import Hanko.Proof.Policy
import Hanko.Proof.Revocation
import Hanko.Proof.Transport
import Hanko.Proof.Authenticity
import Hanko.Proof.Interchange
import Hanko.Proof.PullList
import Hanko.Proof.Accounting
import Hanko.Proof.Canonical
import Hanko.Proof.Server
import Hanko.Proof.PGStore
import Hanko.Proof.ConfigReload
import Hanko.Proof.Nats
import Hanko.Proof.NatsQueue
import Hanko.Proof.Cdc
import Hanko.Proof.CdcRedaction
import Hanko.Proof.CdcStream
import Hanko.Proof.CdcDiff
import Hanko.Proof.BruteForce
import Hanko.Proof.ClientIP
import Hanko.Proof.Subject
import Hanko.Proof.IdpKeys
import Hanko.Proof.Strings
import Hanko.Proof.GoMod
import Hanko.Framework.Fallible
import Hanko.Framework.Json.Lines
import Hanko.Framework.Json.Number
import Hanko.Framework.Obeys
import Hanko.Impl.Cli
import Hanko.Impl.Jwt
import Hanko.Impl.PGTables
import Hanko.Proof.Audit
import Hanko.Proof.Cli
import Hanko.Proof.PGTables
import Hanko.Proof.Pipeline
import Hanko.Proof.TrustChain
