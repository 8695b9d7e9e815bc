import Aegis.Agent.Delivery
import Aegis.Agent.Durability
import Aegis.Agent.Taint.Soundness
import Aegis.Agent.Disclosure
import Aegis.Agent.RequestScope
import Aegis.Agent.Verdict
import Aegis.Gateway.Acknowledgement
import Aegis.Gateway.Isolation
import Aegis.Gateway.Containment
import Aegis.Worker.Settlement
import Aegis.Worker.Retry
import Aegis.Lib.Statements
import Aegis.Access.Removal
import Aegis.Inventory.Soak
import Aegis.Inventory.Registration
import Aegis.Inventory.Configuration
import Aegis.Stream.Destination
import Aegis.Stream.AtLeastOnce
import Aegis.Worker.Ordering
import Aegis.Worker.LostUpdate
import Aegis.Lib.Reader
import Aegis.Server.Float
import Aegis.Server.Json.Dumps
import Aegis.Analysis.Prompt
import Aegis.Api.Cursor
import Aegis.Api.Listing
import Aegis.Export.Cef
import Aegis.Export.CefInjection
import Aegis.Api.FindingQueries
import Aegis.Agent.Announcements
import Aegis.Agent.Governor
import Aegis.Agent.RingBuffer
import Aegis.Inventory.Applications
import Aegis.Inventory.Licensing
import Aegis.Policy.Catalogue
import Aegis.Access.Invitations
import Aegis.Agent.AtWork
import Aegis.Agent.Concatenation
import Aegis.Agent.Handoff
import Aegis.Agent.RequestBodies
import Aegis.Lib.OrderedMap
import Aegis.Runtime.Isolation
import Aegis.Access.Authentication
import Aegis.Access.Lockout
import Aegis.Access.SessionCap
import Aegis.Agent.Fingerprint
import Aegis.Agent.SpoolNames
import Aegis.Agent.SpoolOrder
import Aegis.Api.EvidenceRate
import Aegis.Api.Identity
import Aegis.Api.Scoring
import Aegis.Api.WouldBlock
import Aegis.Worker.Broadcast
import Aegis.Access.Slugs
import Aegis.Agent.Taint.Normal
import Aegis.Agent.Tracking
import Aegis.Api.CursorErrors
import Aegis.Api.Sarif
import Aegis.Api.SarifImport
import Aegis.Dashboard.ApiClient
import Aegis.Dashboard.SingleFlight
import Aegis.Export.Webhooks
import Aegis.Gateway.Deduplication
import Aegis.Gateway.TokenBucket
import Aegis.Server.NewId
import Aegis.Access.Enumeration
import Aegis.Access.Passwords
import Aegis.Access.SessionFamilies
import Aegis.Server.Json.Places
import Aegis.Stream.FileSink
import Aegis.Access.AuditChain
import Aegis.Access.AuditHistory
import Aegis.Access.AuditNumbers
import Aegis.Access.RevokedKeys
import Aegis.Access.RoleHistory
