import QAuth.Admin.Authority
import QAuth.Approvals.CanonicalForm
import QAuth.Approvals.Outcomes
import QAuth.Audit.JsonParse
import QAuth.Audit.MaskSecrets
import QAuth.Audit.Tampering
import QAuth.Authorize.LoopbackPort
import QAuth.Consents.Unions
import QAuth.Cookies.Reading
import QAuth.Delivery.Completeness
import QAuth.Delivery.Fencing
import QAuth.Delivery.Offered
import QAuth.Delivery.RunnerSlots
import QAuth.Dpop.Replays
import QAuth.Dpop.Thumbprints
import QAuth.Egress.Channel
import QAuth.Egress.PoolRuns
import QAuth.Egress.Redirects
import QAuth.Engine.FactorLoop
import QAuth.Events.AfterCommit
import QAuth.Events.Following
import QAuth.Events.PositionOrder
import QAuth.Events.ReadBack
import QAuth.Federation.EndpointBreaker
import QAuth.Federation.EstablishedStatus
import QAuth.Federation.StatusListPrefixes
import QAuth.Federation.WalletLink
import QAuth.Federation.Withheld
import QAuth.Foundation.JsonEdit
import QAuth.Grants.BulkRevocation
import QAuth.Grants.Denylist
import QAuth.Keys.Envelopes
import QAuth.Keys.KeyRotations
import QAuth.Keys.SignedListed
import QAuth.Policy.Diff
import QAuth.Policy.Layout
import QAuth.Policy.Mail
import QAuth.Policy.MailPassword
import QAuth.Policy.Store
import QAuth.Policy.Upgrades
import QAuth.Sessions.Endings
import QAuth.Sessions.Epochs
import QAuth.Sessions.Lapsed
import QAuth.SignIn.IpBucket
import QAuth.SignIn.LadderClimb
import QAuth.SignIn.MemoryLadder
import QAuth.SignIn.RecoveryCodeRuns
import QAuth.SignIn.RoundLimitRetries
import QAuth.SignIn.TotpReplays
import QAuth.Ssf.LiveRefreshTokens
import QAuth.Token.AdminTokens
import QAuth.Token.Delegation
import QAuth.Token.FamilyLifetimes
import QAuth.Token.Mechanisms
import QAuth.Wallet.Redemptions
