import Sorofy.Foundation.History
import Sorofy.Foundation.Transaction
import Sorofy.Registry.Host
import Sorofy.Registry.Refinement
import Sorofy.Registry.Ballots
import Sorofy.Registry.Solvency
import Sorofy.Registry.Unbonding
import Sorofy.Registry.Slashing
import Sorofy.Registry.Overflow
import Sorofy.Registry.Refusal
import Sorofy.Foundation.Strikes
import Sorofy.Registry.SlashOrder
import Sorofy.Foundation.Codec
import Sorofy.Foundation.Hex
import Sorofy.Foundation.Text
import Sorofy.Registry.ClaimDigest
import Sorofy.Foundation.Fallible
import Sorofy.VerifierCore.Reproduce
import Sorofy.Api.Claim
import Sorofy.Gate.Agreement
import Sorofy.Api.PinnedImage
import Sorofy.Foundation.Keyed
import Sorofy.Foundation.Ranking
import Sorofy.Gate.Value
import Sorofy.Foundation.Base64
import Sorofy.Gate.Xdr
import Sorofy.Gate.Consensus
import Sorofy.Gate.Chain
import Sorofy.Gate.Check
import Sorofy.Gate.Events
import Sorofy.Foundation.Numeral
import Sorofy.Gate.Amount
import Sorofy.Gate.Discovery
import Sorofy.Gate.ScVal
import Sorofy.Gate.Written
import Sorofy.Foundation.Toml
import Sorofy.Foundation.TomlTree
import Sorofy.Gate.Toml
import Sorofy.Gate.TomlScan
import Sorofy.Gate.TomlLines
import Sorofy.Gate.TomlDocument
import Sorofy.Api.Db
import Sorofy.Foundation.Paging
import Sorofy.Api.Listing
import Sorofy.Foundation.Escape
import Sorofy.Api.Explorer
import Sorofy.Api.Attest
import Sorofy.Api.Server
import Sorofy.Api.Service
import Sorofy.Api.Lookup
import Sorofy.Api.Jobs
import Sorofy.Api.Outbox
import Sorofy.Api.Ledger
import Sorofy.Foundation.UnixPath
import Sorofy.VerifierCore.Staging
import Sorofy.Foundation.Traced
import Sorofy.VerifierCore.Source
import Sorofy.VerifierCore.Egress
import Sorofy.Foundation.Argv
import Sorofy.VerifierCore.CommandLine
import Sorofy.Api.CommandLine
import Sorofy.Foundation.TokenBucket
import Sorofy.Api.RateLimit
import Sorofy.Foundation.Words
import Sorofy.Api.Redaction
import Sorofy.VerifierCore.Artifact
import Sorofy.VerifierCore.Canonical
import Sorofy.Foundation.FileTree
import Sorofy.VerifierCore.Layout
import Sorofy.VerifierCore.Redirects
import Sorofy.Api.Verdict
import Sorofy.Foundation.Tasks
import Sorofy.Api.Admission
import Sorofy.Foundation.Durable
import Sorofy.Foundation.Ddl
import Sorofy.Api.Migrations
import Sorofy.Foundation.Leases
import Sorofy.VrfyToken.Contract
import Sorofy.VrfyToken.Effect
import Sorofy.VrfyToken.Run
import Sorofy.VrfyToken.Allowances
import Sorofy.VrfyToken.Consent
import Sorofy.VrfyToken.Supply
import Sorofy.VrfyToken.Deployment
import Sorofy.Foundation.Async
import Sorofy.Gate.AppRun
import Sorofy.Foundation.Custody
import Sorofy.VerifierCore.Lifecycle
import Sorofy.VerifierCore.Sandbox
import Sorofy.VerifierCore.Isolation
import Sorofy.VerifierCore.SharedDaemon
import Sorofy.VerifierCore.Answers
