import StakeGov.Config.Reader
import StakeGov.Engine.Block
import StakeGov.Engine.Policy
import StakeGov.InMemory.Node
import StakeGov.InMemory.SampleBlocks
import StakeGov.InMemory.SamplePolicies
import StakeGov.Metrics
import StakeGov.Proofs.AcceptedBlocks
import StakeGov.Proofs.Accessors
import StakeGov.Proofs.Ancestry
import StakeGov.Proofs.BlacklistMerge
import StakeGov.Proofs.BlockEnds
import StakeGov.Proofs.BlockFailures
import StakeGov.Proofs.BlockScript
import StakeGov.Proofs.CallData
import StakeGov.Proofs.CallDiscipline
import StakeGov.Proofs.Calls
import StakeGov.Proofs.CanonicalForms
import StakeGov.Proofs.ChainReads
import StakeGov.Proofs.CountedDeeds
import StakeGov.Proofs.Envelopes
import StakeGov.Proofs.EpochHandover
import StakeGov.Proofs.ExtraData
import StakeGov.Proofs.ExtraDataLayout
import StakeGov.Proofs.Fees
import StakeGov.Proofs.GovernanceCalls
import StakeGov.Proofs.HashedForms
import StakeGov.Proofs.Invariants
import StakeGov.Proofs.ListedRules
import StakeGov.Proofs.Lockstep
import StakeGov.Proofs.LogFilters
import StakeGov.Proofs.LookupRuns
import StakeGov.Proofs.NextValidators
import StakeGov.Proofs.NotedReads
import StakeGov.Proofs.Numerals
import StakeGov.Proofs.OutputsInStep
import StakeGov.Proofs.OwnLogs
import StakeGov.Proofs.PolicyLookups
import StakeGov.Proofs.ProducedBlocks
import StakeGov.Proofs.ProposalEffects
import StakeGov.Proofs.ProposalInvariants
import StakeGov.Proofs.ProposalQueue
import StakeGov.Proofs.Records
import StakeGov.Proofs.Residency
import StakeGov.Proofs.RotationCalls
import StakeGov.Proofs.Runs
import StakeGov.Proofs.Settlement
import StakeGov.Proofs.StrictReaders
import StakeGov.Proofs.Turns
import StakeGov.Proofs.TypedRows
import StakeGov.Proofs.UniqueForms
import StakeGov.Proofs.LongerInputs
import StakeGov.Proofs.ValueTypes
import StakeGov.Proofs.Admission
import StakeGov.Proofs.RowLayout
