import BlobStore.Api.Addressing
import BlobStore.Api.Anonymous
import BlobStore.Api.BlockRoundTrip
import BlobStore.Api.Head
import BlobStore.Api.ListingBodies
import BlobStore.Api.Mediation
import BlobStore.Api.QueryStrings
import BlobStore.Api.RoundTrip
import BlobStore.Api.RangeReads
import BlobStore.Api.SasBinding
import BlobStore.Api.SharedKeyBinding
import BlobStore.Api.Tenants
import BlobStore.Api.Unimplemented
import BlobStore.Auth.Bearer
import BlobStore.Auth.Verification
import BlobStore.Core.Timestamps
import BlobStore.Server.Integrity
import BlobStore.Server.Startup
import BlobStore.Storage.BlockUpload
import BlobStore.Storage.CommittedList
import BlobStore.Storage.CommittedRefs
import BlobStore.Storage.Concurrent.Commit
import BlobStore.Storage.Concurrent.Deletion
import BlobStore.Storage.Concurrent.Isolation
import BlobStore.Storage.Concurrent.Litter
import BlobStore.Storage.Concurrent.Reader
import BlobStore.Storage.Concurrent.Recreation
import BlobStore.Storage.Confinement
import BlobStore.Storage.FailedCalls
import BlobStore.Storage.Grouping
import BlobStore.Storage.Hierarchy
import BlobStore.Storage.Ledger
import BlobStore.Storage.MetadataUpdates
import BlobStore.Storage.Orphans
import BlobStore.Storage.Overwrite
import BlobStore.Storage.Recreated
import BlobStore.Storage.StagedOrder
import BlobStore.Storage.TmpNames
import BlobStore.Xml.Escaping
import BlobStore.Xml.Truncation
