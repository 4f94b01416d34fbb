import GofrSec.Calls.Contract
import GofrSec.Repositories.InMemory
import GofrSec.Repositories.VaultClient
import GofrSec.Services.AdminGroup
import GofrSec.Services.Bootstrap
import GofrSec.Services.Runtime
import GofrSec.Services.Token
import GofrSec.Services.UserRegistration
import GofrSec.Repositories.VaultPaths
import GofrSec.Repositories.VaultCodec
import GofrSec.Repositories.VaultGroups
import GofrSec.Repositories.VaultTokens
import GofrSec.Repositories.VaultBackend
import GofrSec.Keyed
import GofrSec.Registry
import GofrSec.Repositories.InMemoryRefines
import GofrSec.Repositories.TokenIndex
import GofrSec.Repositories.VaultSpecs
import GofrSec.Repositories.VaultRefines
import GofrSec.Registry.Rules
import GofrSec.Services.MembershipSpecs
import GofrSec.Services.TokenSpecs
import GofrSec.Calls.Session
import GofrSec.Repositories.Storage
import GofrSec.Repositories.Reached
import GofrSec.Services.Operations
import GofrSec.Properties.TokenHistory
import GofrSec.Domain.Python
import GofrSec.Properties.LastAdmin
import GofrSec.Api.Routes
import GofrSec.Properties.Provenance
import GofrSec.Properties.Restart
import GofrSec.Calls.Interleave
import GofrSec.Services.Frames
import GofrSec.Services.Processes
import GofrSec.Properties.TokenProtocol
import GofrSec.Properties.Revocation
import GofrSec.Services.SharedMemberships
import GofrSec.Properties.MembershipProtocol
import GofrSec.Properties.LostUpdates
import GofrSec.Properties.TokenLifecycle
import GofrSec.Properties.WellFormed
import GofrSec.Services.AuditLog
import GofrSec.Properties.AuditTrail
import GofrSec.Properties.AuditReplay
import GofrSec.Properties.DamagedTokens
import GofrSec.Services.MintOutcomes
import GofrSec.Properties.ExactMint
import GofrSec.Properties.MintRoute
import GofrSec.Properties.GroupSpellings
import GofrSec.Properties.RevokeRetries
import GofrSec.Properties.IndexProtocol
import GofrSec.Properties.IndexEntries
import GofrSec.Properties.TokenIndexRuns
import GofrSec.Properties.FailedMint
import GofrSec.Properties.BackendEquivalence
import GofrSec.Properties.ConcurrentAdmins
import GofrSec.Properties.PathFamilies
import GofrSec.Properties.RoundTrips
import GofrSec.BigEndian
import GofrSec.Properties.PublicKeys
import GofrSec.SortedBy
import GofrSec.Properties.MembershipDocuments
import GofrSec.Properties.MembershipViews
import GofrSec.Calls.Failing
import GofrSec.Properties.FailedRegistration
import GofrSec.Properties.UpsertRetries
import GofrSec.Properties.RegistrationHistory
import GofrSec.Properties.BootstrapRetries
import GofrSec.Calls.Lasting
import GofrSec.Services.Servers
import GofrSec.Properties.Authority
import GofrSec.Properties.AuthorityCalls
import GofrSec.Properties.AuthorisedRoutes
import GofrSec.Properties.SharedAccess
import GofrSec.Properties.AccessRefinement
import GofrSec.Properties.Isolation
import GofrSec.Properties.DeployedService
import GofrSec.Properties.TokenSecrecy
import GofrSec.Properties.Serialisability
import GofrSec.Properties.RefusedRequests
import GofrSec.Properties.PublishedKeys
import GofrSec.Properties.RacingStarts
