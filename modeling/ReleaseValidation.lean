import ReleaseValidation.Foundations.Runs
import ReleaseValidation.Foundations.Programs
import ReleaseValidation.Store.Records
import ReleaseValidation.Orchestrator.RunClosure
import ReleaseValidation.Orchestrator.StatusWriters
import ReleaseValidation.Lifecycle.System
import ReleaseValidation.Lifecycle.Invariants
import ReleaseValidation.Lifecycle.Settlement
import ReleaseValidation.Lifecycle.Completion
import ReleaseValidation.Lifecycle.OwnTests
import ReleaseValidation.SandboxManager.Pool
import ReleaseValidation.SandboxManager.QueueConsumer
import ReleaseValidation.SandboxManager.SandboxTask
import ReleaseValidation.SandboxManager.TaskEffects
import ReleaseValidation.SandboxManager.SlotRelease
import ReleaseValidation.SandboxManager.Teardown
import ReleaseValidation.SandboxManager.SandboxTask
import ReleaseValidation.Foundations.Tables
import ReleaseValidation.Store.Json
import ReleaseValidation.TestRunner.Definitions
import ReleaseValidation.TestRunner.Execution
import ReleaseValidation.TestRunner.CommandTask
import ReleaseValidation.TestRunner.CommandRows
import ReleaseValidation.TestRunner.Answers
import ReleaseValidation.TestRunner.Redelivery
import ReleaseValidation.TestRunner.CommandStages
import ReleaseValidation.Foundations.Ledgers
import ReleaseValidation.SandboxManager.Docker
import ReleaseValidation.SandboxManager.AppBuild
import ReleaseValidation.SandboxManager.Provisioner
import ReleaseValidation.SandboxManager.ProvisionCleanup
import ReleaseValidation.SandboxManager.PoolTasks
import ReleaseValidation.SandboxManager.PortOffsets
import ReleaseValidation.SandboxManager.CollectorRuns
import ReleaseValidation.Foundations.Files
import ReleaseValidation.Foundations.Parties
import ReleaseValidation.AiAgent.Sessions
import ReleaseValidation.SandboxManager.AnvilStateCache
import ReleaseValidation.AiAgent.StatusAbsorbing
import ReleaseValidation.AiAgent.Stranding
import ReleaseValidation.AiAgent.Findings
import ReleaseValidation.SandboxManager.SessionLifetime
import ReleaseValidation.SandboxManager.BuildCache
import ReleaseValidation.SandboxManager.BuildCacheValidity
import ReleaseValidation.AiAgent.Verdicts
import ReleaseValidation.AiAgent.VerdictInvariant
import ReleaseValidation.AiAgent.VerdictTrails
import ReleaseValidation.AiAgent.VerdictCounts
import ReleaseValidation.AiAgent.MissingVerdicts
import ReleaseValidation.GithubWatcher.ReleaseEvents
import ReleaseValidation.Notifier.Formatters
import ReleaseValidation.Notifier.RunEmbeds
import ReleaseValidation.Catalog.ReleaseBodies
import ReleaseValidation.Foundations.References
import ReleaseValidation.GithubWatcher.NodeReleases
import ReleaseValidation.Catalog.Schema
import ReleaseValidation.Catalog.Writers
import ReleaseValidation.Catalog.Integrity
import ReleaseValidation.Orchestrator.RunRequests
import ReleaseValidation.Catalog.Resolver
import ReleaseValidation.Catalog.Effects
import ReleaseValidation.Catalog.ToolchainLinks
import ReleaseValidation.Catalog.ToolchainPatch
import ReleaseValidation.Orchestrator.DispatchVersions
import ReleaseValidation.Orchestrator.BootstrapSessions
import ReleaseValidation.Foundations.JsonReading
import ReleaseValidation.Foundations.JsonPrefixes
import ReleaseValidation.AiAgent.AuditTexts
import ReleaseValidation.Foundations.JsonCosts
import ReleaseValidation.TestRunner.ResultTexts
import ReleaseValidation.SandboxManager.PoisonMessages
import ReleaseValidation.AiAgent.Suggestions
import ReleaseValidation.Orchestrator.SuggestionReview
import ReleaseValidation.Catalog.SdkMentions
import ReleaseValidation.Catalog.ChainMigration
import ReleaseValidation.Foundations.Fences
import ReleaseValidation.Store.Yaml
import ReleaseValidation.Orchestrator.DefinitionRows
import ReleaseValidation.TestRunner.Interpreter
import ReleaseValidation.Orchestrator.CreateDefinition
import ReleaseValidation.Orchestrator.SeedDefinitions
import ReleaseValidation.Orchestrator.DefinitionAgreement
import ReleaseValidation.Catalog.ToolchainReadBack
import ReleaseValidation.Orchestrator.LogBatches
import ReleaseValidation.AiAgent.Overrides
import ReleaseValidation.AiAgent.OverrideAgreement
import ReleaseValidation.AiAgent.OverrideFrames
import ReleaseValidation.Foundations.Polls
import ReleaseValidation.TestRunner.NodeReplies
import ReleaseValidation.TestRunner.VoucherPolls
import ReleaseValidation.TestRunner.VoucherGeneration
import ReleaseValidation.TestRunner.VoucherExecution
import ReleaseValidation.TestRunner.NoticeChecks
import ReleaseValidation.TestRunner.JsonRpcCounts
import ReleaseValidation.TestRunner.ChainReverts
import ReleaseValidation.Catalog.CliVersions
import ReleaseValidation.Catalog.ImageTags
import ReleaseValidation.Catalog.VersionTokens
import ReleaseValidation.AiAgent.AgentLoop
import ReleaseValidation.AiAgent.Conversations
import ReleaseValidation.AiAgent.ToolCallLimits
import ReleaseValidation.AiAgent.VerdictEvents
import ReleaseValidation.Foundations.Abi
import ReleaseValidation.Notifier.ClosureCounts
import ReleaseValidation.TestRunner.Calldata
import ReleaseValidation.TestRunner.CalldataRoundTrips
import ReleaseValidation.TestRunner.ParsedRuns
import ReleaseValidation.Foundations.Handovers
import ReleaseValidation.Foundations.JsonObjects
import ReleaseValidation.Foundations.Keysets
import ReleaseValidation.Foundations.Resumption
import ReleaseValidation.Foundations.Shells
import ReleaseValidation.Foundations.TextLines
import ReleaseValidation.GithubWatcher.Webhooks
import ReleaseValidation.Orchestrator.RunLogPages
import ReleaseValidation.Orchestrator.SuiteSelection
import ReleaseValidation.SandboxManager.AddressPrediction
import ReleaseValidation.SandboxManager.AnvilCacheKeys
import ReleaseValidation.SandboxManager.CacheEviction
import ReleaseValidation.SandboxManager.LogBuffer
import ReleaseValidation.SandboxManager.LogOrder
import ReleaseValidation.SandboxManager.LogStreams
import ReleaseValidation.SandboxManager.TokenDeployment
import ReleaseValidation.AiAgent.ToolResults
import ReleaseValidation.Foundations.Topics
import ReleaseValidation.Orchestrator.LiveEvents
import ReleaseValidation.Foundations.Consumers
import ReleaseValidation.Notifier.Deliveries
import ReleaseValidation.AiAgent.BootstrapRelay
import ReleaseValidation.AiAgent.CachedRequests
import ReleaseValidation.AiAgent.Compression
import ReleaseValidation.Dashboard.LogViewer
import ReleaseValidation.Foundations.Clients
import ReleaseValidation.Foundations.Separators
import ReleaseValidation.Lifecycle.Contexts
import ReleaseValidation.TestRunner.JsonPaths
import ReleaseValidation.TestRunner.PortalDeposits
import ReleaseValidation.TestRunner.SharedChain
import ReleaseValidation.SandboxManager.CrashRecovery
import ReleaseValidation.GithubWatcher.CliReleases
import ReleaseValidation.Foundations.Placeholders
import ReleaseValidation.TestRunner.ContainerCommands
