import Hyoui.Protocol.Frame
import Hyoui.Daemon.Capacity
import Hyoui.Daemon.Gaps
import Hyoui.Daemon.LockHolder
import Hyoui.Daemon.LockReplies
import Hyoui.Daemon.Leadership
import Hyoui.Daemon.Exit
import Hyoui.Daemon.InputRecords
import Hyoui.Daemon.Acks
import Hyoui.Daemon.Upgrade
import Hyoui.Daemon.Resume
import Hyoui.Daemon.Tailing
import Hyoui.Daemon.Secrecy
import Hyoui.Daemon.Aborts
import Hyoui.Daemon.Output
import Hyoui.Daemon.Until
import Hyoui.Daemon.Readiness
import Hyoui.Daemon.Precedence
import Hyoui.Daemon.Gate
import Hyoui.Daemon.ExitCode
import Hyoui.Daemon.Inbox
import Hyoui.Daemon.Deadlines
import Hyoui.Sys.Owner
import Hyoui.WebDaemon.Children
import Hyoui.Strip
import Hyoui.Time
import Hyoui.Log
import Hyoui.Screen.State
import Hyoui.Screen.WaitText
import Hyoui.Screen.Sync
import Hyoui.Screen.Ansi
import Hyoui.Client.Pairing
import Hyoui.Client.Relay
import Hyoui.Client.KillWait
import Hyoui.Web.Forwarding
import Hyoui.Web.Notices
import Hyoui.Web.Answers
import Hyoui.Auth.Reuse
import Hyoui.Auth.Invitation
import Hyoui.Auth.Store
import Hyoui.Auth.Revocation
import Hyoui.Auth.Token
import Hyoui.Auth.CredentialIds
import Hyoui.Config
import Hyoui.Sys.EnvScrub
import Hyoui.Web.SingleFlight
import Hyoui.Web.Endpoint
