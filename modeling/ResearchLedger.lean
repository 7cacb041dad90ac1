import ResearchLedger.SortedMap.Lemmas
import ResearchLedger.Authority
import ResearchLedger.Digest
import ResearchLedger.Asset.Text
import ResearchLedger.Asset.Price
import ResearchLedger.SquareRoot
import ResearchLedger.Curve
import ResearchLedger.Share
import ResearchLedger.Config.Basic
import ResearchLedger.Json.Parser
import ResearchLedger.Json.Printer
import ResearchLedger.State.Basic
import ResearchLedger.Event.Basic
import ResearchLedger.Operation.Json
import ResearchLedger.Expertise.Addition
import ResearchLedger.Recovery.Request
import ResearchLedger.CommonTokens.PowerDown
import ResearchLedger.CommonTokens.Lending
import ResearchLedger.Voting.Review
import ResearchLedger.Research.Publication
import ResearchLedger.Proposal.Tally
import ResearchLedger.Account.Json
import ResearchLedger.AccountName.Text
import ResearchLedger.Block.Maintenance
import ResearchLedger.CommonTokens.Json
import ResearchLedger.Config.Json
import ResearchLedger.Config.Load
import ResearchLedger.Event.Json
import ResearchLedger.Expertise.Json
import ResearchLedger.Genesis.Basic
import ResearchLedger.Genesis.Json
import ResearchLedger.Grant.Json
import ResearchLedger.Layout.Basic
import ResearchLedger.Layout.Record
import ResearchLedger.Layout.State
import ResearchLedger.Proposal.Json
import ResearchLedger.Recovery.Json
import ResearchLedger.Research.Json
import ResearchLedger.Reward.Distribution
import ResearchLedger.Reward.Json
import ResearchLedger.Sha3.Hash
import ResearchLedger.Snapshot
import ResearchLedger.State.Json
import ResearchLedger.Transaction
import ResearchLedger.Voting.Json
import ResearchLedger.Witness.Json
import ResearchLedger.Proofs.Computation
import ResearchLedger.Proofs.Effect
import ResearchLedger.Proofs.Run
import ResearchLedger.Proofs.History
import ResearchLedger.Proofs.Footprint
import ResearchLedger.Proofs.Records
import ResearchLedger.Proofs.ActiveWeight
import ResearchLedger.Proofs.Apportionment
import ResearchLedger.Proofs.Conservation
import ResearchLedger.Proofs.Elections
import ResearchLedger.Proofs.ChainLength
import ResearchLedger.Proofs.Tallies
import ResearchLedger.Proofs.LateVotes
import ResearchLedger.Proofs.Lending
import ResearchLedger.Proofs.Consent
import ResearchLedger.Proofs.Recoveries
import ResearchLedger.Proofs.BlockEnd
import ResearchLedger.Proofs.SnapshotRoundTrip
import ResearchLedger.Proofs.Tampering
import ResearchLedger.Proofs.OperationText
import ResearchLedger.Proofs.Integrity
import ResearchLedger.Proofs.Atomicity
import ResearchLedger.Proofs.Permanence
import ResearchLedger.Proofs.Safeguards
import ResearchLedger.Proofs.Endowments
import ResearchLedger.Proofs.Disciplines
import ResearchLedger.Proofs.ReviewSums
import ResearchLedger.Proofs.Credits
import ResearchLedger.Proofs.Instalments
import ResearchLedger.Proofs.Routes
import ResearchLedger.Proofs.RewardItems
import ResearchLedger.Proofs.Escrow
import ResearchLedger.Proofs.CuratorWeights
import ResearchLedger.Proofs.PowerBudget
import ResearchLedger.Proofs.VoteOrder
import ResearchLedger.Proofs.VoteSplitting
import ResearchLedger.Proofs.Holdings
import ResearchLedger.Proofs.OwnerChanges
import ResearchLedger.Proofs.PartnerChanges
import ResearchLedger.Proofs.Pruning
import ResearchLedger.Proofs.Conversion
import ResearchLedger.Proofs.AssetText
import ResearchLedger.Proofs.Decisions
