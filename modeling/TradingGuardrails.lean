import TradingGuardrails.Agents.GuardedTools
import TradingGuardrails.Agents.HttpClient
import TradingGuardrails.Amounts
import TradingGuardrails.Approval.LifeCycle
import TradingGuardrails.Approval.Onboarding
import TradingGuardrails.Approval.Store
import TradingGuardrails.Approval.Transactions
import TradingGuardrails.Audit.AnchoredWriter
import TradingGuardrails.Audit.Chain
import TradingGuardrails.Audit.Migration
import TradingGuardrails.Audit.Resumption
import TradingGuardrails.Audit.SharedAnchor
import TradingGuardrails.Audit.Writer
import TradingGuardrails.BalanceDeltas
import TradingGuardrails.Binance.Client
import TradingGuardrails.Binance.Connector
import TradingGuardrails.Binance.CostBasis
import TradingGuardrails.Binance.Decimal
import TradingGuardrails.Binance.History
import TradingGuardrails.Binance.Number
import TradingGuardrails.Binance.Orders
import TradingGuardrails.Binance.Pages
import TradingGuardrails.Binance.Reconciliation
import TradingGuardrails.Binance.Records
import TradingGuardrails.Binance.Reordered
import TradingGuardrails.Binance.RiskProvider
import TradingGuardrails.Binance.Window
import TradingGuardrails.Binary64
import TradingGuardrails.Broker.Archive
import TradingGuardrails.Broker.Attempt
import TradingGuardrails.Broker.Broker
import TradingGuardrails.Broker.Custody
import TradingGuardrails.Broker.DryRun
import TradingGuardrails.Broker.FileTable
import TradingGuardrails.Broker.IdempotencyStore
import TradingGuardrails.Broker.Obedience
import TradingGuardrails.Broker.Preflight
import TradingGuardrails.Broker.Rehearsal
import TradingGuardrails.Broker.Report
import TradingGuardrails.Broker.Slots
import TradingGuardrails.Broker.Watch
import TradingGuardrails.Deltas
import TradingGuardrails.Evm.Approval
import TradingGuardrails.Evm.BalanceDelta
import TradingGuardrails.Evm.Calldata
import TradingGuardrails.Evm.Declared
import TradingGuardrails.Evm.Decoder
import TradingGuardrails.Evm.Diff
import TradingGuardrails.Evm.Effects
import TradingGuardrails.Evm.Slots
import TradingGuardrails.Evm.Trace
import TradingGuardrails.Host
import TradingGuardrails.Interleaving.Effects
import TradingGuardrails.Interleaving.Erasure
import TradingGuardrails.Interleaving.Fallible
import TradingGuardrails.Interleaving.History
import TradingGuardrails.Interleaving.Interruption
import TradingGuardrails.Interleaving.Machine
import TradingGuardrails.Interleaving.Program
import TradingGuardrails.Interleaving.Trace
import TradingGuardrails.Ledger
import TradingGuardrails.Members
import TradingGuardrails.Number
import TradingGuardrails.Operations
import TradingGuardrails.Policy.Decimal
import TradingGuardrails.Policy.Envelope
import TradingGuardrails.Policy.Export
import TradingGuardrails.Policy.Monotone
import TradingGuardrails.Policy.Onboarded
import TradingGuardrails.Policy.Rego
import TradingGuardrails.Policy.Resource
import TradingGuardrails.Policy.Rules
import TradingGuardrails.Replay
import TradingGuardrails.Reviewer.Answers
import TradingGuardrails.Reviewer.DecisionReviewer
import TradingGuardrails.Reviewer.HttpDecisionProvider
import TradingGuardrails.Risk.Checks
import TradingGuardrails.Risk.Cover
import TradingGuardrails.Risk.Engine
import TradingGuardrails.Risk.Exact
import TradingGuardrails.Risk.FailClosed
import TradingGuardrails.Runtime.Servers
import TradingGuardrails.Schemas.Audit
import TradingGuardrails.Schemas.Broker
import TradingGuardrails.Schemas.Check
import TradingGuardrails.Schemas.Common
import TradingGuardrails.Schemas.Decision
import TradingGuardrails.Schemas.Intent
import TradingGuardrails.Schemas.Reordering
import TradingGuardrails.Secrets.Redaction
import TradingGuardrails.Service.Appraisal
import TradingGuardrails.Service.Content
import TradingGuardrails.Service.Idempotency
import TradingGuardrails.Service.Obedience
import TradingGuardrails.Service.OpaTransform
import TradingGuardrails.Service.Service
import TradingGuardrails.Service.Signing
import TradingGuardrails.Signer.Answers
import TradingGuardrails.Signer.Obedience
import TradingGuardrails.Signer.Once
import TradingGuardrails.Signer.Request
import TradingGuardrails.Signer.Runtime
import TradingGuardrails.Solana.AccountState
import TradingGuardrails.Solana.BalanceDelta
import TradingGuardrails.Solana.Connector
import TradingGuardrails.Solana.Parser
import TradingGuardrails.Solana.Provider
import TradingGuardrails.System.Agreement
import TradingGuardrails.System.Authority
import TradingGuardrails.System.Backing
import TradingGuardrails.System.Canary
import TradingGuardrails.System.DailyLimits
import TradingGuardrails.System.Delivery
import TradingGuardrails.System.Discipline
import TradingGuardrails.System.DryRuns
import TradingGuardrails.System.Failure
import TradingGuardrails.System.HumanApproval
import TradingGuardrails.System.KillSwitch
import TradingGuardrails.System.OnFile
import TradingGuardrails.System.Recovery
import TradingGuardrails.System.Release
import TradingGuardrails.System.Scopes
import TradingGuardrails.System.Soundness
import TradingGuardrails.System.Stores
import TradingGuardrails.System.Submission
import TradingGuardrails.System.System
import TradingGuardrails.System.World
import TradingGuardrails.Text.Canonical
import TradingGuardrails.Text.Decimal
import TradingGuardrails.Text.DecimalOrder
import TradingGuardrails.Text.Json
import TradingGuardrails.Text.Pattern
import TradingGuardrails.Text.StableText
import TradingGuardrails.Tlv
