import Tupelo.Infra.Quorum
import Tupelo.Infra.Lru
import Tupelo.Infra.Encoding
import Tupelo.Messages
import Tupelo.Ipld
import Tupelo.Infra.Except
import Tupelo.Sdk.Signatures
import Tupelo.Sdk.NotaryGroup
import Tupelo.Client.RoundSubscriber
import Tupelo.Client.Agreement
import Tupelo.Signer.Mempool
import Tupelo.Sdk.Proof
import Tupelo.Infra.Uvarint
import Tupelo.Signer.State
import Tupelo.Signer.Node
import Tupelo.Infra.Transition
import Tupelo.Signer.Run
import Tupelo.Signer.Refinement
import Tupelo.Signer.PublishedState
import Tupelo.Signer.ChainContinuity
import Tupelo.Signer.Resume
import Tupelo.Signer.CrashConsistency
import Tupelo.Infra.MerkleDag
import Tupelo.Infra.ObjEncoding
import Tupelo.Consensus.Dag
import Tupelo.Consensus.TokenName
import Tupelo.Consensus.TreeLedger
import Tupelo.Consensus.Transactions
import Tupelo.Consensus.TokenRecord
import Tupelo.Consensus.LedgerSpec
import Tupelo.Consensus.LedgerInvariant
import Tupelo.Consensus.MonetaryPolicy
import Tupelo.Consensus.Validators
import Tupelo.Consensus.ChainTree
import Tupelo.Consensus.Supply
import Tupelo.Consensus.Network
import Tupelo.Signer.MempoolInvariant
import Tupelo.Signer.Snowball
import Tupelo.Signer.Snowballer
import Tupelo.Consensus.Balances
import Tupelo.Consensus.ReceiveOrder
import Tupelo.Client.SubscriberState
import Tupelo.Client.Subscriptions
import Tupelo.Client.QuorumCompleteness
import Tupelo.Client.DeliveryOrder
import Tupelo.Signer.TwoViews
import Tupelo.Infra.Streak
import Tupelo.Signer.SnowballRuns
import Tupelo.Signer.SnowballSupport
import Tupelo.Signer.RequestKeys
import Tupelo.Signer.TickSafety
import Tupelo.Signer.InFlight
import Tupelo.Signer.Proposals
import Tupelo.Signer.RestoredRounds
import Tupelo.Infra.Unfold
import Tupelo.Sdk.Ownership
import Tupelo.Infra.MerkleEntry
import Tupelo.Infra.Related
import Tupelo.Consensus.Interference
import Tupelo.Infra.StoreProgram
import Tupelo.Sdk.RefTracking
import Tupelo.Client.AddBlock
import Tupelo.Signer.ValidateAbr
import Tupelo.Infra.Avoids
import Tupelo.Panic
import Tupelo.Client.SubscriberFaults
import Tupelo.Signer.TransactionGetter
import Tupelo.Consensus.Names
import Tupelo.Sdk.UnresolvedOwners
import Tupelo.Consensus.NameResolution
import Tupelo.Infra.AnyM
import Tupelo.Sdk.IsOwner
import Tupelo.Signer.AnsweringPeers
import Tupelo.Consensus.TokenPayload
import Tupelo.Consensus.TransactorFaults
import Tupelo.Signer.ValidationFaults
import Tupelo.Consensus.DecodePath
import Tupelo.Consensus.LedgerAtomicity
import Tupelo.Signer.SnowballerLoop
import Tupelo.Client.GroupInvariant
import Tupelo.Infra.FallibleStore
import Tupelo.Sdk.TrackedStore
import Tupelo.Sdk.AggregationLaws
import Tupelo.Infra.Table
import Tupelo.Signer.Tallies
import Tupelo.Signer.Burns
import Tupelo.Signer.Equivocation
import Tupelo.Client.GroupRuns
import Tupelo.Signer.SignerNetwork
import Tupelo.Client.SendCall
import Tupelo.Signer.ObjectChains
import Tupelo.Signer.Outvoting
import Tupelo.Client.RoundSubscriptions
import Tupelo.Client.DidSubscription
import Tupelo.Client.GroupAgreement
import Tupelo.Infra.Pool
import Tupelo.Signer.VoteRequests
import Tupelo.Client.SignBlock
