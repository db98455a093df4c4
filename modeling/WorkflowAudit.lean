import WorkflowAudit.Assoc
import WorkflowAudit.Audit.Basic
import WorkflowAudit.Audit.Indexed
import WorkflowAudit.Audit.Injection
import WorkflowAudit.Audit.PwnRequest
import WorkflowAudit.Audit.Resolution
import WorkflowAudit.Audit.Taint
import WorkflowAudit.Audit.Walk
import WorkflowAudit.Binary64.Basic
import WorkflowAudit.Binary64.Decimal
import WorkflowAudit.Classification.Job
import WorkflowAudit.Classification.Script
import WorkflowAudit.Classification.Step
import WorkflowAudit.Classification.Tables
import WorkflowAudit.CommandLine.Arguments
import WorkflowAudit.CommandLine.Options
import WorkflowAudit.CommandLine.Run
import WorkflowAudit.Configuration
import WorkflowAudit.Context.Pattern
import WorkflowAudit.Context.Scan
import WorkflowAudit.Document.Basic
import WorkflowAudit.Document.Reader
import WorkflowAudit.Evaluation.Basic
import WorkflowAudit.Evaluation.Call
import WorkflowAudit.Evaluation.Environment
import WorkflowAudit.Evaluation.Value
import WorkflowAudit.Expression.Basic
import WorkflowAudit.Expression.Parser
import WorkflowAudit.Expression.Token
import WorkflowAudit.Files.Glob
import WorkflowAudit.Files.Ignore
import WorkflowAudit.Files.Tree
import WorkflowAudit.Finding.Basic
import WorkflowAudit.Finding.Collection
import WorkflowAudit.Graph.Basic
import WorkflowAudit.Graph.Condition
import WorkflowAudit.Graph.Facts
import WorkflowAudit.Graph.Indexed
import WorkflowAudit.Graph.Node
import WorkflowAudit.Graph.Search
import WorkflowAudit.Hosting.Client
import WorkflowAudit.Hosting.Host
import WorkflowAudit.Hosting.Ingestion
import WorkflowAudit.Hosting.Slug
import WorkflowAudit.Hosting.Target
import WorkflowAudit.Inputs
import WorkflowAudit.Json.Basic
import WorkflowAudit.Json.Printer
import WorkflowAudit.Json.Reader
import WorkflowAudit.Main
import WorkflowAudit.Numeral
import WorkflowAudit.Proofs.Audit.AddedTriggers
import WorkflowAudit.Proofs.Audit.AttackPaths
import WorkflowAudit.Proofs.Audit.CallScopes
import WorkflowAudit.Proofs.Audit.CalledWorkflows
import WorkflowAudit.Proofs.Audit.CheckoutSinks
import WorkflowAudit.Proofs.Audit.DirectInjections
import WorkflowAudit.Proofs.Audit.EnvironmentChanges
import WorkflowAudit.Proofs.Audit.FailingJobs
import WorkflowAudit.Proofs.Audit.Flows
import WorkflowAudit.Proofs.Audit.InjectableSteps
import WorkflowAudit.Proofs.Audit.JobEnvironments
import WorkflowAudit.Proofs.Audit.Justification
import WorkflowAudit.Proofs.Audit.LeftJobs
import WorkflowAudit.Proofs.Audit.Reporting
import WorkflowAudit.Proofs.Audit.ResolutionRounds
import WorkflowAudit.Proofs.Audit.Roots
import WorkflowAudit.Proofs.Audit.Scopes
import WorkflowAudit.Proofs.Audit.StepEnvironments
import WorkflowAudit.Proofs.Audit.TokenSpellings
import WorkflowAudit.Proofs.Audit.Walks
import WorkflowAudit.Proofs.Classification.Coherence
import WorkflowAudit.Proofs.Classification.Extensions
import WorkflowAudit.Proofs.Classification.MatrixLabels
import WorkflowAudit.Proofs.Context.IndexSpellings
import WorkflowAudit.Proofs.Context.Interpolation
import WorkflowAudit.Proofs.Context.Offsets
import WorkflowAudit.Proofs.Context.Patterns
import WorkflowAudit.Proofs.Evaluation.Attainment
import WorkflowAudit.Proofs.Evaluation.Choice
import WorkflowAudit.Proofs.Evaluation.Comparison
import WorkflowAudit.Proofs.Evaluation.Coverage
import WorkflowAudit.Proofs.Evaluation.Failures
import WorkflowAudit.Proofs.Evaluation.Likeness
import WorkflowAudit.Proofs.Evaluation.LinearConditions
import WorkflowAudit.Proofs.Evaluation.LoginConditions
import WorkflowAudit.Proofs.Evaluation.Logins
import WorkflowAudit.Proofs.Evaluation.WorstCase
import WorkflowAudit.Proofs.Expression.Grammar
import WorkflowAudit.Proofs.Expression.Layouts
import WorkflowAudit.Proofs.Expression.Mentions
import WorkflowAudit.Proofs.Expression.Phrases
import WorkflowAudit.Proofs.Expression.Reading
import WorkflowAudit.Proofs.Expression.SpelledTrees
import WorkflowAudit.Proofs.Finding.Aggregation
import WorkflowAudit.Proofs.Finding.Gathering
import WorkflowAudit.Proofs.Graph.Additions
import WorkflowAudit.Proofs.Graph.Construction
import WorkflowAudit.Proofs.Graph.DocumentFacts
import WorkflowAudit.Proofs.Graph.DocumentPaths
import WorkflowAudit.Proofs.Graph.DocumentReach
import WorkflowAudit.Proofs.Graph.DocumentSearch
import WorkflowAudit.Proofs.Graph.EdgeKinds
import WorkflowAudit.Proofs.Graph.Environments
import WorkflowAudit.Proofs.Graph.Growth
import WorkflowAudit.Proofs.Graph.Indexes
import WorkflowAudit.Proofs.Graph.IngestionOrder
import WorkflowAudit.Proofs.Graph.NextSteps
import WorkflowAudit.Proofs.Graph.Operations
import WorkflowAudit.Proofs.Graph.OwnActions
import WorkflowAudit.Proofs.Graph.OwnEdges
import WorkflowAudit.Proofs.Graph.Reachability
import WorkflowAudit.Proofs.Graph.Rebuilding
import WorkflowAudit.Proofs.Graph.SkippedSteps
import WorkflowAudit.Proofs.Graph.StepOrder
import WorkflowAudit.Proofs.Graph.StepRows
import WorkflowAudit.Proofs.Graph.TaggedPaths
import WorkflowAudit.Proofs.Graph.Triggers
import WorkflowAudit.Proofs.Hosting.Fetches
import WorkflowAudit.Proofs.Hosting.Slugs
import WorkflowAudit.Proofs.Source.CachedLookups
import WorkflowAudit.Proofs.Text.Cuts
import WorkflowAudit.Proofs.Text.Encoding
import WorkflowAudit.Proofs.Text.LetterCase
import WorkflowAudit.Proofs.Text.Parts
import WorkflowAudit.Proofs.Uses.Clauses
import WorkflowAudit.Proofs.Uses.Patterns
import WorkflowAudit.Report.Diagnostic
import WorkflowAudit.Report.Plain
import WorkflowAudit.Report.Record
import WorkflowAudit.Source.Basic
import WorkflowAudit.Source.Cache
import WorkflowAudit.Source.Layered
import WorkflowAudit.Text.Basic
import WorkflowAudit.Text.Lowercase
import WorkflowAudit.Text.Order
import WorkflowAudit.Text.Word
import WorkflowAudit.Uses.Basic
import WorkflowAudit.Uses.Pattern
import WorkflowAudit.Yaml.Cursor
import WorkflowAudit.Yaml.Node
import WorkflowAudit.Yaml.Printer
import WorkflowAudit.Yaml.Scalar
import WorkflowAudit.Yaml.Token
import WorkflowAudit.Yaml.Value
