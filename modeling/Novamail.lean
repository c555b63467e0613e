import Novamail.Core.Prog
import Novamail.Core.System
import Novamail.Model.Message
import Novamail.Model.Topology
import Novamail.Model.Platform
import Novamail.Model.Routing
import Novamail.Providers.Factory
import Novamail.Providers.Send
import Novamail.Config.Tables
import Novamail.Delivery.State
import Novamail.Ingress.Inbound
import Novamail.Delivery.Handle
import Novamail.Dsn.Handle
import Novamail.Admin.Dkim
import Novamail.Admin.Rotation
import Novamail.Admin.KeyPairs
import Novamail.Admin.Routes
import Novamail.Ingress.Session
import Novamail.Maintenance.Sweep
import Novamail.System.Task
import Novamail.System.Obeys
import Novamail.System.Cluster
import Novamail.System.Turn
import Novamail.System.Ledger
import Novamail.System.Fresh
import Novamail.System.Whole
import Novamail.Mail.Conservation
import Novamail.System.Play
import Novamail.Mail.Once
import Novamail.Mail.Rows
import Novamail.System.Keys
import Novamail.System.Custody
import Novamail.Mail.Bodies
import Novamail.Mail.Retention
import Novamail.Mail.Suppression
import Novamail.Ingress.Dialogue
import Novamail.Ingress.Recipients
import Novamail.Ingress.Reload
import Novamail.Delivery.Reload
import Novamail.Config.Convergence
import Novamail.Core.TokenBucket
import Novamail.System.Pacing
import Novamail.Mail.Statuses
import Novamail.Mail.Retries
import Novamail.System.Tally
import Novamail.Mail.Bounces
import Novamail.System.Producers
import Novamail.Mail.Requeues
import Novamail.Mail.References
import Novamail.Ingress.Suppressions
import Novamail.Core.FirstMatch
import Novamail.Ingress.Sources
import Novamail.Ingress.Revocation
import Novamail.Ingress.Transaction
import Novamail.Delivery.Settlement
import Novamail.Providers.Wire
import Novamail.Providers.Replies
import Novamail.Providers.Direct
import Novamail.Providers.Holding
import Novamail.Providers.Sockets
import Novamail.Providers.TlsPolicy
import Novamail.Delivery.Pools
import Novamail.Providers.SmtpPool
import Novamail.Core.Base64
import Novamail.Core.Mime
import Novamail.Dsn.Report
import Novamail.Model.Secrets
import Novamail.Admin.Envelopes
import Novamail.Core.Words
import Novamail.Core.CheckHost
import Novamail.Admin.Spf
import Novamail.Admin.SpfTerms
import Novamail.Admin.SpfFix
import Novamail.Admin.Tags
import Novamail.Admin.Dmarc
import Novamail.Admin.Deliverability
import Novamail.Core.Ip
import Novamail.Admin.PrivateAddr
import Novamail.Admin.Alerts
import Novamail.Admin.Replicas
import Novamail.Admin.AlertMail
import Novamail.Delivery.Precedence
import Novamail.Delivery.Tokens
import Novamail.Amqp.Conn
import Novamail.Amqp.Scene
import Novamail.Amqp.Subscriptions
import Novamail.Core.Paths
import Novamail.Core.Disk
import Novamail.Store.Path
import Novamail.Store.Files
import Novamail.Store.Refinement
import Novamail.Store.Swept
import Novamail.Admin.Published
import Novamail.Admin.Telemetry
import Novamail.Mail.Counted
import Novamail.Admin.MasterKeys
import Novamail.Admin.MapLimit
import Novamail.Admin.Statements
import Novamail.Ingress.Capture
import Novamail.Mail.Work
import Novamail.Core.Json
import Novamail.Core.Rfc3339
import Novamail.Core.Records
import Novamail.Model.JobText
import Novamail.Admin.JobText
import Novamail.Admin.Vault
import Novamail.Admin.Checks
import Novamail.Mail.Drain
import Novamail.Admin.Redial
import Novamail.Admin.Access
