import HelixServer.Access.AuditPage
import HelixServer.Access.Delegation
import HelixServer.Access.Privileged
import HelixServer.Access.VcList
import HelixServer.Async.History
import HelixServer.Async.Protocol
import HelixServer.Async.Solo
import HelixServer.Custody.Sign
import HelixServer.Drivers.AccountLinks
import HelixServer.Drivers.Accounts
import HelixServer.Drivers.ForeignKeys
import HelixServer.Drivers.PrismaUpdate
import HelixServer.Drivers.RefreshTokens
import HelixServer.Entry.Authority
import HelixServer.Http.Requests
import HelixServer.Http.Sessions
import HelixServer.Identity.DidWeb
import HelixServer.Identity.Permanence
import HelixServer.Identity.Provisioning
import HelixServer.Integrity.Authentication
import HelixServer.Integrity.Confirmation
import HelixServer.Integrity.OneTime
import HelixServer.Integrity.References
import HelixServer.Integrity.Restarts
import HelixServer.Integrity.Revocation
import HelixServer.Integrity.Trail
import HelixServer.Order.Page
import HelixServer.Ownership.Attribution
import HelixServer.Ownership.Chain
import HelixServer.Ownership.Orphans
import HelixServer.Ownership.Renewal
import HelixServer.Quota.Daily
import HelixServer.Quota.Scan
import HelixServer.Server
import HelixServer.Sessions.Chains
import HelixServer.Sessions.FailedRotation
import HelixServer.Sessions.Logout
import HelixServer.Sessions.ReuseBurn
import HelixServer.Sessions.SingleUse
import HelixServer.SignIn.Binding
import HelixServer.SignIn.Race
import HelixServer.SignIn.Sequential
import HelixServer.Startup.EnvFile
import HelixServer.Startup.Issuer
import HelixServer.Tokens.AccessToken
import HelixServer.Verification.Google
import HelixServer.Verification.Pending
import HelixServer.Verification.Resend
import HelixServer.Verification.Silence
