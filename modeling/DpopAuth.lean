import DpopAuth.Verified.AtomicRules
import DpopAuth.Verified.TtlCache
import DpopAuth.Ports.FamilyProtocol
import DpopAuth.Ports.Revocation
import DpopAuth.Ports.RefreshSound
import DpopAuth.Ports.DoubleSubmit
import DpopAuth.Ports.ConnectionPool
import DpopAuth.Ports.OutboxLease
import DpopAuth.Ports.OutboxDelivery
import DpopAuth.Ports.RegisterLogin
import DpopAuth.Ports.TwoFactorColumns
import DpopAuth.Ports.TotpReplay
import DpopAuth.Ports.AccessToken
import DpopAuth.Ports.SetupDraft
import DpopAuth.Ports.RecoveryUse
import DpopAuth.Ports.RecoveryFormat
import DpopAuth.Ports.Lifetimes
import DpopAuth.Ports.RefreshCookie
import DpopAuth.Ports.Htu
import DpopAuth.Ports.NonceGate
import DpopAuth.Ports.CacheFrame
import DpopAuth.Ports.ProofOnce
import DpopAuth.Ports.SenderConstraint
import DpopAuth.Ports.PublicKeys
import DpopAuth.Ports.EnrolmentCode
import DpopAuth.Ports.Registration
import DpopAuth.Ports.KeyHolder
import DpopAuth.Ports.ServedInOrder
import DpopAuth.Ports.TenantIsolation
