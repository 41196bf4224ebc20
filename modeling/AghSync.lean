import AghSync.FilterSync
import AghSync.RewriteSync
import AghSync.LeaseSync
import AghSync.SingleFlight
import AghSync.Authority
import AghSync.Report
import AghSync.FailStop
import AghSync.Isolation
import AghSync.KeepGoing
import AghSync.Quiescence
import AghSync.Frame
import AghSync.FilterMove
import AghSync.ClientMove
import AghSync.Dereference
import AghSync.RewriteBalance
import AghSync.Precedence
import AghSync.MergePlans
import AghSync.DnsCompare
import AghSync.Decisions
import AghSync.Dashboard
import AghSync.Scrape
import AghSync.Endpoints
import AghSync.Schedule
import AghSync.Mask
import AghSync.PrintConfig
import AghSync.LogHistory
import AghSync.Rounds
import AghSync.Daemon
import AghSync.Fleet
import AghSync.Reload
