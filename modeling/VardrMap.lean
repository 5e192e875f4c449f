import VardrMap.Lib.Text
import VardrMap.Lib.Json
import VardrMap.Lib.Ip
import VardrMap.Lib.Url
import VardrMap.Lib.Time
import VardrMap.Lib.Sha256
import VardrMap.Lib.Csv
import VardrMap.Lib.Hmac
import VardrMap.Lib.Table
import VardrMap.Lib.Sorting
import VardrMap.Policy
import VardrMap.Policy.Inclusion
import VardrMap.Models
import VardrMap.Authority
import VardrMap.Authority.SignedHost
import VardrMap.AssessmentEvidence
import VardrMap.Assessments
import VardrMap.Assessments.Soundness
import VardrMap.AuthorizationCoverage
import VardrMap.AuthorizationCoverage.Soundness
import VardrMap.AuthorizationCoverage.RowOrder
import VardrMap.AuthorizationCoverage.Report
import VardrMap.Deps
import VardrMap.ManagedWire
import VardrMap.Lib.Runs
import VardrMap.Lib.Lockout
import VardrMap.ExecutionControl
import VardrMap.ClaimGates
import VardrMap.ManagedIssuance
import VardrMap.Jobs
import VardrMap.ManagedResults.Accepted
import VardrMap.ManagedIssuance.TrustedTime
import VardrMap.Lib.Session
import VardrMap.ManagedSessions
import VardrMap.Lib.Clients
import VardrMap.Races.Proposals
import VardrMap.Races.Listings
import VardrMap.Jobs.Accepted
import VardrMap.Changes
import VardrMap.Changes.Engagements
import VardrMap.Changes.Records
import VardrMap.Changes.Operations
import VardrMap.Changes.Sound
import VardrMap.Changes.Issuance
import VardrMap.Changes.Budgets
import VardrMap.Changes.Endings
import VardrMap.Changes.Completions
import VardrMap.Changes.Finality
import VardrMap.Changes.Leases
import VardrMap.Changes.StopWork
import VardrMap.Changes.Revision
import VardrMap.Lib.DenyOverrides
import VardrMap.Policy.RuleOrder
import VardrMap.Policy.Paths
import VardrMap.Policy.Spellings
import VardrMap.Changes.Deliveries
import VardrMap.Changes.Observing
import VardrMap.Changes.Receipts
import VardrMap.Changes.Dependencies
import VardrMap.JobConfig
import VardrMap.Changes.Ceilings
import VardrMap.Jobs.Pipelines
import VardrMap.Serializers
import VardrMap.Authorizations
import VardrMap.Assets
import VardrMap.Parsers
import VardrMap.Imports
import VardrMap.Imports.Notices
import VardrMap.Imports.Rows
import VardrMap.Imports.Matches
import VardrMap.Lib.Dedup
import VardrMap.Imports.Probes
import VardrMap.Imports.Repeats
import VardrMap.Imports.Hosts
import VardrMap.Lib.Regex
import VardrMap.Redaction
import VardrMap.Deliverables
import VardrMap.Deliverables.Revisions
import VardrMap.EvidenceRecords
import VardrMap.Deliverables.Digests
import VardrMap.TestCases
import VardrMap.TestCases.Accepted
import VardrMap.Lib.Failures
import VardrMap.TestCases.Refusals
import VardrMap.TestCases.Expectations
import VardrMap.Deliverables.Lines
import VardrMap.ApiSurface
import VardrMap.ApiSurface.Counts
import VardrMap.Lib.Asking
import VardrMap.Imports.Linking
import VardrMap.Imports.Sharing
import VardrMap.ManagedWire.Base64
import VardrMap.ManagedWire.Timestamps
import VardrMap.Policy.Totality
import VardrMap.ApiSurface.Templates
import VardrMap.ClaimGates.Origins
import VardrMap.Assessments.ReportOrder
import VardrMap.AuthorizationRelationships.Tenants
import VardrMap.Lib.JsonText
import VardrMap.Lib.JsonText.Hooks
import VardrMap.ManagedWire.Documents
import VardrMap.Parsers.Decoding
import VardrMap.ScopeImport
import VardrMap.ScopeImport.Commits
import VardrMap.ScopeImport.Sharing
import VardrMap.Radar
import VardrMap.Radar.Refreshes
import VardrMap.LocalAuth
import VardrMap.LocalAuth.Calls
import VardrMap.LocalAuth.Guessing
import VardrMap.LocalAuth.Lifetimes
import VardrMap.Tenancy
import VardrMap.Tenancy.Requests
import VardrMap.Tenancy.Managed
import VardrMap.Tenancy.Strangers
import VardrMap.Tenancy.Owners
import VardrMap.Tenancy.Access
import VardrMap.Tenancy.Grants
import VardrMap.Tenancy.Invitations
import VardrMap.Tenancy.Keys
import VardrMap.JobStreams
import VardrMap.Surface
import VardrMap.Surface.Nodes
import VardrMap.Surface.Links
import VardrMap.Surface.Edges
import VardrMap.Surface.History
