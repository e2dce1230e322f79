import Owney.Lib.Runs
import Owney.Lib.Programs
import Owney.Lib.Attempts
import Owney.Lib.Tables
import Owney.Lib.Fields
import Owney.Lib.Intervals
import Owney.Lib.SqlLexer
import Owney.Lib.SqlParser
import Owney.Lib.SqlEval
import Owney.Ids
import Owney.Transaction
import Owney.MailStore
import Owney.MailQueries
import Owney.MailSpec
import Owney.MailInvariant
import Owney.Changes
import Owney.EmailContents
import Owney.Stamps
import Owney.Modseq
import Owney.Get
import Owney.Edits
import Owney.Queue
import Owney.Worker
import Owney.SchedulingPages
import Owney.SchedulingStore
import Owney.Scheduling
import Owney.SchedulePublic
import Owney.EmailFilter
import Owney.EmailQuery
import Owney.EmailQueryAnswers
import Owney.OAuthStore
import Owney.ChallengeStore
import Owney.OidcCalls
import Owney.OidcEndpoints
import Owney.OidcSpecs
import Owney.OidcEffects
import Owney.OidcCodes
import Owney.OidcConsent
import Owney.OidcTables
import Owney.OidcScopes
import Owney.OidcRefresh
import Owney.OidcRevocation
import Owney.OidcPasskeys
import Owney.OidcDisabled
import Owney.FedRequest
import Owney.CanonicalRequest
import Owney.FederationPeers
import Owney.FederationSpecs
import Owney.FederationPins
import Owney.FederationReplay
import Owney.MirrorLifecycle
import Owney.OutboxLaws
import Owney.SharingLaws
import Owney.IdentityLaws
import Owney.JunkTraining
import Owney.AccessLaws
import Owney.JmapDispatch
import Owney.SmtpSession
import Owney.SmtpTransactions
import Owney.SmtpTls
import Owney.DeliveryTraining
import Owney.DeliveryCopies
import Owney.ScheduleQuota
import Owney.SchedulingErrors
import Owney.AccountLifecycle
import Owney.SenderAuthority
import Owney.StoredSender
import Owney.Submission
import Owney.SchemaUpgrades
import Owney.BlobLaws
import Owney.AccountDeletion
import Owney.Backup
import Owney.Lib.SoftLines
import Owney.PgpEnvelope
import Owney.Lib.Gregorian
import Owney.AcceptedDates
import Owney.SchedulePanics
import Owney.Lib.Repeats
import Owney.ScheduleGrid
import Owney.Lib.Folding
import Owney.Invites
import Owney.OidcRevoke
import Owney.OidcTokenErrors
import Owney.RetrySchedule
import Owney.FailurePolicy
import Owney.RateLimiter
import Owney.FederationClock
import Owney.ResultReferences
import Owney.GetPartition
import Owney.AuthorBinding
import Owney.FederatedShares
import Owney.MirrorRequests
import Owney.RestoreFailures
import Owney.PagePatches
import Owney.Threading
import Owney.CivilDates
import Owney.IcsLines
import Owney.BlobNames
import Owney.SpamRules
import Owney.ReceivedInvitations
import Owney.EmailCreate
import Owney.RequestTexts
import Owney.JmapBindings
import Owney.Lib.Clocks
import Owney.LocalTimes
import Owney.Writer
import Owney.Lib.Broadcast
import Owney.EventBus
