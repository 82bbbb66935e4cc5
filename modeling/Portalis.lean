import Portalis.Octets
import Portalis.Prefix
import Portalis.SortedSet
import Portalis.Text
import Portalis.Json
import Portalis.JsonFiles
import Portalis.Fallible
import Portalis.RuleMachine
import Portalis.Address
import Portalis.Config
import Portalis.ConfigJson
import Portalis.SshdConfig
import Portalis.Validation
import Portalis.Kernel
import Portalis.Compile
import Portalis.Matching
import Portalis.Prerouting
import Portalis.Overlap
import Portalis.Receipt
import Portalis.Translation
import Portalis.SourceTranslation
import Portalis.Tally
import Portalis.Drift
import Portalis.UserData
import Portalis.Instant
import Portalis.Ranking
import Portalis.Database
import Portalis.Bookkeeping
import Portalis.Rfc3339
import Portalis.Store
import Portalis.Sysctl
import Portalis.SysctlConf
import Portalis.SysctlFile
import Portalis.Programs
import Portalis.Ruleset
import Portalis.Sharing
import Portalis.World
import Portalis.Handlers
import Portalis.Compensation
import Portalis.Concurrency
import Portalis.Recovery
import Portalis.Accounting
import Portalis.Reordering
import Portalis.Thinning
import Portalis.Locality
import Portalis.Families
import Portalis.Twins
import Portalis.Reuse
import Portalis.Provenance
import Portalis.Admission
import Portalis.Status
import Portalis.Exported
import Portalis.ApplyErrors
import Portalis.Backup
import Portalis.Scheduler
import Portalis.Pruning
import Portalis.RemoteBackups
import Portalis.SharedBucket
import Portalis.OverlappingUploads
import Portalis.UploadAlone
import Portalis.Retention
import Portalis.Rebuilding
import Portalis.Restoring
import Portalis.Settings
import Portalis.FailedSaves
import Portalis.Http
import Portalis.Auth
import Portalis.Gate
import Portalis.CrossSite
import Portalis.AuthStore
import Portalis.SetupToken
import Portalis.RwLock
import Portalis.Standstill
import Portalis.AuthLock
import Portalis.CommandLine
import Portalis.WebClient
import Portalis.Credentials
import Portalis.Drafts
import Portalis.RuleEditor
