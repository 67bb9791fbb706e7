import AcmeGitWebhook.Library.Run
import AcmeGitWebhook.Library.Dict
import AcmeGitWebhook.Library.WallClock
import AcmeGitWebhook.Library.Replace
import AcmeGitWebhook.Library.Base64
import AcmeGitWebhook.Python
import AcmeGitWebhook.Config
import AcmeGitWebhook.Targets.Manager
import AcmeGitWebhook.Targets.Deferral
import AcmeGitWebhook.Targets.Results
import AcmeGitWebhook.Targets.F5
import AcmeGitWebhook.Targets.Profiles
import AcmeGitWebhook.Library.PowerShell
import AcmeGitWebhook.Targets.Exchange
import AcmeGitWebhook.Monitor.CertMonitor
import AcmeGitWebhook.Library.Shell
import AcmeGitWebhook.Monitor.Command
import AcmeGitWebhook.Monitor.Rearming
import AcmeGitWebhook.Openings
import AcmeGitWebhook.Overnight
import AcmeGitWebhook.Monitor.Alerts
import AcmeGitWebhook.Monitor.Overlaps
import AcmeGitWebhook.Monitor.Missed
import AcmeGitWebhook.Vault.Handler
import AcmeGitWebhook.Monitor.Check
import AcmeGitWebhook.Monitor.CheckEvents
import AcmeGitWebhook.Monitor.Metrics
import AcmeGitWebhook.Vault.Endpoints
import AcmeGitWebhook.Vault.Pairs
import AcmeGitWebhook.Vault.Routing
import AcmeGitWebhook.Library.ReadModifyWrite
import AcmeGitWebhook.Vault.Races
import AcmeGitWebhook.Vault.Updates
import AcmeGitWebhook.Vault.Renewals
import AcmeGitWebhook.Vault.Selection
import AcmeGitWebhook.Vault.Tokens
import AcmeGitWebhook.Library.RecordLock
import AcmeGitWebhook.Acme.Lock
import AcmeGitWebhook.Library.FileTree
import AcmeGitWebhook.Library.DnsName
import AcmeGitWebhook.Library.Git
import AcmeGitWebhook.Library.DnsZone
import AcmeGitWebhook.Zones.Handler
import AcmeGitWebhook.Challenge.Request
import AcmeGitWebhook.Library.Suffixes
import AcmeGitWebhook.Library.DnsSpelling
import AcmeGitWebhook.Zones.Resolution
import AcmeGitWebhook.Zones.Origins
import AcmeGitWebhook.Zones.Challenges
import AcmeGitWebhook.Challenge.Section
import AcmeGitWebhook.Challenge.Trace
import AcmeGitWebhook.Challenge.Leftovers
import AcmeGitWebhook.Challenge.Reports
import AcmeGitWebhook.Challenge.Answers
import AcmeGitWebhook.Challenge.Records
import AcmeGitWebhook.Library.IpAddress
import AcmeGitWebhook.Dns.Update
import AcmeGitWebhook.Dns.Probe
import AcmeGitWebhook.Dns.Names
import AcmeGitWebhook.Dns.Nameservers
import AcmeGitWebhook.Dns.Cleanup
import AcmeGitWebhook.Library.ZoneText
import AcmeGitWebhook.Dns.Tokens
import AcmeGitWebhook.Library.Polling
import AcmeGitWebhook.Library.Search
import AcmeGitWebhook.Dns.Propagation
import AcmeGitWebhook.Dns.Answers
import AcmeGitWebhook.Library.AddressRange
import AcmeGitWebhook.Dns.Validation
import AcmeGitWebhook.Auth
import AcmeGitWebhook.Targets.Scripts
import AcmeGitWebhook.Targets.Ivanti
import AcmeGitWebhook.Targets.Fleet
import AcmeGitWebhook.Targets.Installed
import AcmeGitWebhook.Library.Rounding
import AcmeGitWebhook.Monitor.Percentage
import AcmeGitWebhook.Vault.Board
import AcmeGitWebhook.Monitor.Board
import AcmeGitWebhook.Library.Fields
import AcmeGitWebhook.Challenge.Patterns
import AcmeGitWebhook.Challenge.Recovery
import AcmeGitWebhook.Dns.Served
import AcmeGitWebhook.Shut
import AcmeGitWebhook.Service.Deployments
import AcmeGitWebhook.Service.Origins
