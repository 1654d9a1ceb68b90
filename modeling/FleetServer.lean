import FleetServer.Concurrency.Guarantee
import FleetServer.Concurrency.Sequence
import FleetServer.Concurrency.Trace
import FleetServer.Agent.TicketProtocol
import FleetServer.Agent.StateHash
import FleetServer.Agent.Limits
import FleetServer.Agent.Quotas
import FleetServer.Agent.RowOrder
import FleetServer.Core.HostControl
import FleetServer.Core.Selector
import FleetServer.Core.Tier
import FleetServer.Core.Import
import FleetServer.Storage.Tenants
import FleetServer.Storage.Hosts
import FleetServer.Storage.HostTags
import FleetServer.Storage.Bundles
import FleetServer.Storage.Facts
import FleetServer.Storage.ConfigSource
import FleetServer.Storage.Replace
import FleetServer.Server.Frame
import FleetServer.Server.Service
import FleetServer.Hosts.Revocation
import FleetServer.Hosts.Renewal
import FleetServer.Hosts.TierLimit
import FleetServer.Hosts.Bulk
import FleetServer.Hosts.StatusHistory
import FleetServer.Bundles.CountLimit
import FleetServer.Bundles.StoredBytes
import FleetServer.Bundles.StoredFormat
import FleetServer.Bundles.Signatures
import FleetServer.Bundles.Renamed
import FleetServer.ConfigSource.Failure
import FleetServer.ConfigSource.Interleaved
import FleetServer.Runtime.Sweep
import FleetServer.Facts.Commit
import FleetServer.Facts.Chain
import FleetServer.Facts.OnRecord
import FleetServer.Accounts.Service
import FleetServer.Transport.Rebuilds
import FleetServer.Accounts.LastAdmin
import FleetServer.Accounts.LastOwner
import FleetServer.Accounts.AllOrNothing
import FleetServer.Facts.Places
import FleetServer.Web.Sealing
import FleetServer.Web.Segments
import FleetServer.Web.EffectiveTable
import FleetServer.Web.HostConfig
import FleetServer.Core.Patch
import FleetServer.Web.Override
import FleetServer.Core.Rfc7396
import FleetServer.Core.KeyIndex
import FleetServer.Storage.AgentTags
import FleetServer.Transport.SharedSubjects
import FleetServer.Hosts.Singly
import FleetServer.Data.Visited
import FleetServer.Storage.Secrets
import FleetServer.Runtime.Rebind
import FleetServer.Runtime.Rebound
import FleetServer.Data.Gathered
import FleetServer.Facts.Catalog
import FleetServer.Facts.CatalogCounts
import FleetServer.Facts.CatalogHonest
import FleetServer.Facts.CatalogCache
import FleetServer.Bundles.Composed
import FleetServer.Facts.DiffComplete
import FleetServer.Web.IniText
import FleetServer.Web.IniObjects
import FleetServer.Web.IniWriter
import FleetServer.Web.IniRoundTrip
import FleetServer.Data.Bindings
import FleetServer.Web.IniEdits
import FleetServer.Web.IniLens
import FleetServer.Web.Fields
import FleetServer.Web.FieldReconcile
import FleetServer.Web.Csv
import FleetServer.Core.Lowercase
import FleetServer.Web.ScriptPaths
import FleetServer.Data.Decimal
import FleetServer.Web.Cells
import FleetServer.Web.Mapping
import FleetServer.Web.IniAccepts
import FleetServer.Web.IniExact
import FleetServer.Web.IniPrototype
import FleetServer.Web.IniAgain
import FleetServer.Web.IniAccepted
import FleetServer.Web.IniScanners
import FleetServer.Web.IniFormEdits
import FleetServer.Web.IniEditsAgree
import FleetServer.Bundles.BundleConfig
import FleetServer.Web.BundleZip
import FleetServer.Web.ZipNames
import FleetServer.Runtime.Contexts
import FleetServer.Core.BuiltPaths
import FleetServer.Data.DerInteger
import FleetServer.Core.Split
import FleetServer.Enrollment.Sign
import FleetServer.Transport.Leaf
import FleetServer.Runtime.AgentUrl
import FleetServer.Web.BundleSplit
import FleetServer.Storage.Versions
import FleetServer.Agent.Inputs
import FleetServer.Agent.Coherence
import FleetServer.Agent.Debts
import FleetServer.Agent.Polls
import FleetServer.Storage.ManualTags
import FleetServer.Hosts.TagEdits
import FleetServer.Concurrency.Once
import FleetServer.Accounts.Credentials
import FleetServer.Accounts.SignIn
import FleetServer.Accounts.Minting
import FleetServer.Accounts.Revoked
import FleetServer.Accounts.Origins
import FleetServer.Concurrency.Learning
import FleetServer.Accounts.Authority
import FleetServer.Storage.Owners
import FleetServer.Server.Parts
import FleetServer.Server.Tenancy
import FleetServer.Server.Isolation
