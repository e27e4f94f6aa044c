import Quackhole.Http.Complete
import Quackhole.Transition.Fair
import Quackhole.Dial.Client
import Quackhole.Serve.Tunnel
import Quackhole.Web.Transfer
import Quackhole.Extension.Attach
import Quackhole.Extension.Issue
import Quackhole.Http.RoundTrip
import Quackhole.Ticket.Keys
import Quackhole.Extension.Contention
import Quackhole.Serve.Session
import Quackhole.Web.Order
import Quackhole.Dial.Route
import Quackhole.Web.Reattach
import Quackhole.Web.Interleaving
import Quackhole.Dial.Eviction
import Quackhole.Serve.Sniff
import Quackhole.Http.Length
import Quackhole.Http.Chunks
import Quackhole.Compress.Cap
import Quackhole.Ticket.Find
import Quackhole.Ticket.Buffers
import Quackhole.Ticket.Handoff
import Quackhole.Ticket.Forms
import Quackhole.Ticket.Relays
import Quackhole.Extension.Status
import Quackhole.Identity.Restart
import Quackhole.Http.Bounds
import Quackhole.Site.Outcome
import Quackhole.Web.Statements
import Quackhole.Web.Readiness
import Quackhole.Npm.Cache
import Quackhole.Npm.Invitation
import Quackhole.Web.Frames
import Quackhole.Web.Setup
import Quackhole.Web.Answers
import Quackhole.Site.Wires
import Quackhole.Web.Exchange
import Quackhole.Web.Alongside
