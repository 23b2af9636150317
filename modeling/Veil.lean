import Veil.Field
import Veil.Hash
import Veil.Core.Transaction
import Veil.Core.Outstanding
import Veil.Core.Loop
import Veil.Core.Assoc
import Veil.Core.Paging
import Veil.Core.Bytes
import Veil.Core.Selection
import Veil.Merkle.Tree
import Veil.Merkle.Frontier
import Veil.Merkle.Sparse
import Veil.Merkle.Binding
import Veil.Merkle.Path
import Veil.Contract.MerkleWithHistory
import Veil.Contract.Allowlist
import Veil.Contract.Settle
import Veil.Contract.OneWayOut
import Veil.Contract.TreeAgreement
import Veil.Contract.Enrolment
import Veil.Contract.Solvency
import Veil.Contract.Boundary
import Veil.Contract.HostHash
import Veil.Contract.Verifier
import Veil.Contract.EmbeddedKey
import Veil.Contract.Faucet
import Veil.Contract.NoteLedger
import Veil.Circuit.Prover
import Veil.Circuit.Lifetime
import Veil.Indexer.Tree
import Veil.Indexer.MerklePath
import Veil.Indexer.SyncToTip
import Veil.Indexer.EventId
import Veil.Indexer.Rpc
import Veil.Indexer.Following
import Veil.Indexer.Verified
import Veil.Indexer.Recovery
import Veil.Indexer.SeedMark
import Veil.Indexer.EventLanguage
import Veil.Indexer.Checkpoints
import Veil.Indexer.Confluence
import Veil.Indexer.Progress
import Veil.Indexer.NoFalseAlarm
import Veil.Indexer.Mirror
import Veil.Indexer.Fleet
import Veil.Indexer.NoGaps
import Veil.Api.ServedRoots
import Veil.Api.Listings
import Veil.Api.AllowlistPath
import Veil.Api.Lookups
import Veil.Api.ServedPaths
import Veil.Api.NoteListing
import Veil.Api.PastStates
import Veil.Api.Recorded
import Veil.Api.Periodic
import Veil.Demo.NoteCrypto
import Veil.Demo.Client
import Veil.Demo.Scan
import Veil.Demo.Pay
import Veil.Demo.ExtDataHash
import Veil.Demo.Requests
import Veil.Demo.Receipt
import Veil.Demo.Honest
