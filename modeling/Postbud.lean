import Postbud.Core.DsnParts
import Postbud.System
import Postbud.System.Outcomes
import Postbud.System.HardBounces
import Postbud.System.HandOff
import Postbud.System.Delivered
import Postbud.Lib.Processes
import Postbud.Db.BounceRetry
import Postbud.Api.Tenant
import Postbud.Api.Isolation
import Postbud.Core.QueueJson
import Postbud.Api.RelayQueue
import Postbud.Lib.Utf8
import Postbud.Core.Showq
import Postbud.Relay.QueueReport
import Postbud.System.Timed
import Postbud.System.AttemptLog
import Postbud.System.Workers
import Postbud.Relay.Build
import Postbud.System.Purge
import Postbud.System.BounceOrder
import Postbud.System.QueueIds
import Postbud.System.Grace
import Postbud.Lib.Pacing
import Postbud.Lib.RowLocks
import Postbud.Db.AdminUser
import Postbud.Db.AdminUserCall
import Postbud.Db.LastAdmin
import Postbud.Api.Admin
import Postbud.Api.Bootstrap
import Postbud.Db.Tenant
import Postbud.Db.TenantCall
import Postbud.Db.TenantLocks
import Postbud.Db.DomainHistory
import Postbud.Db.TenantKeys
import Postbud.Db.AdminUserSerial
import Postbud.Db.AdminRole
import Postbud.Db.AttachmentBatch
import Postbud.Db.Reconcile
import Postbud.Relay.Envelope
import Postbud.Relay.RetrySchedule
import Postbud.System.AttachmentBatch
import Postbud.System.SenderDomain
import Postbud.Core.Dmarc
import Postbud.Core.DnsCheck
import Postbud.Db.Dmarc
import Postbud.Db.DmarcOnce
import Postbud.Db.DmarcOverview
import Postbud.Relay.Dmarc
import Postbud.Relay.DmarcLoss
import Postbud.Db.PurgeCall
import Postbud.Db.PurgeContent
import Postbud.Core.DmarcExtract
import Postbud.Core.DmarcNumbers
import Postbud.Core.DmarcProlog
import Postbud.Core.DnsOrder
import Postbud.Core.TagLists
import Postbud.Lib.DmarcPolicy
import Postbud.Relay.DnsCheck
import Postbud.Api.Bounces
import Postbud.Core.DsnGroups
import Postbud.Core.DsnIsolation
import Postbud.Core.DsnRender
import Postbud.Core.DsnRestore
import Postbud.Api.Paging
import Postbud.Db.MessageDetail
import Postbud.Lib.JsonValue
import Postbud.Relay.DmarcCandidates
import Postbud.Relay.QueueWire
import Postbud.Api.RefreshCookie
import Postbud.Core.Rdns
import Postbud.Core.Volume
import Postbud.Db.Retention
import Postbud.Db.Volume
import Postbud.Lib.BigEndian
import Postbud.Lib.Binary64
import Postbud.Lib.JsArray
import Postbud.Lib.Sha256
import Postbud.Relay.RelayCheck
import Postbud.Ui.Oidc
import Postbud.Relay.CheckHistory
import Postbud.Api.Domains
import Postbud.Ui.SessionPages
import Postbud.Ui.SignOut
import Postbud.Relay.WakeUps
import Postbud.Api.KeyRotation
import Postbud.Api.DmarcDomain
import Postbud.Ui.Login
import Postbud.Ui.Pager
