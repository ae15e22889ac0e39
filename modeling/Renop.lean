import Renop.CrashProg
import Renop.ClickHouse
import Renop.ClickHouseInv
import Renop.ClickHouseRecover
import Renop.ClickHouseExec
import Renop.ClickHouseRollback
import Renop.ClickHouseCommit
import Renop.ClickHouseDurable
import Renop.ClickHouseAtomic
import Renop.Quota
import Renop.QuotaLimit
import Renop.Index
import Renop.IndexLists
import Renop.QuotaLedger
import Renop.IndexRemove
import Renop.IndexInv
import Renop.StoragePaths
import Renop.Storage
import Renop.StorageReview
import Renop.StorageUpload
import Renop.StorageWorker
import Renop.StorageWorld
import Renop.StorageEvents
import Renop.StorageQueue
import Renop.StorageEnqueue
import Renop.StorageClaims
import Renop.StorageVerified
import Renop.Cargo
import Renop.CargoIndex
import Renop.CargoManage
import Renop.CargoOwner
import Renop.CargoPublish
import Renop.Hierarchy
import Renop.Maven
import Renop.MavenLocks
import Renop.MavenNamespace
import Renop.MavenVisibility
import Renop.ReviewInv
import Renop.CargoReserve
import Renop.FileCache
import Renop.FileCacheInv
import Renop.MailQueue
import Renop.MailQueueInv
import Renop.MailQueueRuns
import Renop.Statistics
import Renop.StatisticsInv
import Renop.SuperTeamMembers
import Renop.SuperTeamOwners
import Renop.CargoDelete
import Renop.Docker
import Renop.DockerHandlers
import Renop.DockerNames
import Renop.DockerRuns
import Renop.TTLCache
import Renop.TTLCacheInv
import Renop.DockerIsolation
import Renop.DockerStored
import Renop.DockerTokens
import Renop.FileSystem
import Renop.DockerSessions
import Renop.DockerOwner
import Renop.AccountLogin
import Renop.PasswordResetRuns
import Renop.MavenHealthRuns
import Renop.NpmLocks
import Renop.Publications
import Renop.TransientAuth
import Renop.DirectoryScan
import Renop.AuthCache
import Renop.ChunkUploads
import Renop.IndexConverge
import Renop.IndexJson
import Renop.NewAccounts
import Renop.ChunkGeometry
import Renop.CompareVersions
import Renop.SanitizePath
import Renop.QuotaWindows
import Renop.WindowCounter
import Renop.MailPricing
import Renop.MailAccount
import Renop.MailAccountRuns
import Renop.RequestLimits
import Renop.PostgresRebind
import Renop.CargoReadme
import Renop.CargoWire
import Renop.CargoEdits
import Renop.ReviewKeys
import Renop.DockerTagPages
import Renop.NpmUnpublish
import Renop.NpmTarballs
