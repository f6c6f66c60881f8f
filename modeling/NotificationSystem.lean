import NotificationSystem.Answers
import NotificationSystem.AppendOnly
import NotificationSystem.BackoffText
import NotificationSystem.ContractKept
import NotificationSystem.Drain
import NotificationSystem.DuplicateBound
import NotificationSystem.FailedEvents
import NotificationSystem.Fingerprint
import NotificationSystem.Integrity
import NotificationSystem.KeyReuse
import NotificationSystem.Listing
import NotificationSystem.Locks
import NotificationSystem.LostClaims
import NotificationSystem.Materialised
import NotificationSystem.Polling
import NotificationSystem.Providers
import NotificationSystem.Reads
import NotificationSystem.Results
import NotificationSystem.RetryMessages
import NotificationSystem.RetryPayloads
import NotificationSystem.Recovery
import NotificationSystem.RetrySchedule
import NotificationSystem.Routing
import NotificationSystem.StatusPaging
import NotificationSystem.Takeovers
import NotificationSystem.Transitions
import NotificationSystem.WireRuns
