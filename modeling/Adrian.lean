import Adrian.Raft.Commit
import Adrian.Storage.Transactions
import Adrian.Storage.ObjectIsolation
import Adrian.Storage.TwoStores
import Adrian.Identity.CacheTransparency
import Adrian.Kdc.Lifetime
import Adrian.Kdc.Encryption
import Adrian.Drsuapi.RoundTrip
import Adrian.Drsuapi.GetNcChanges
import Adrian.Ldap.Search
import Adrian.Ldap.Updates
import Adrian.Ldap.Server
import Adrian.Smb.SessionGating
import Adrian.Smb.StreamFraming
import Adrian.Acme.Enrolment
import Adrian.Policy.Compile
import Adrian.Operator.Convergence
import Adrian.Raft.LogShape
import Adrian.Raft.Redelivery
import Adrian.Repl.Conflict
import Adrian.Drsuapi.UtdVector
import Adrian.Kdc.CtsConformance
import Adrian.Kdc.KeySeparation
import Adrian.Kdc.PacOverflow
import Adrian.Kdc.ReplayWindow
import Adrian.Kdc.ConcurrentRotation
import Adrian.Ldap.OrderingFilters
import Adrian.Identity.Reclaim
import Adrian.Identity.UidIndexes
import Adrian.Identity.SidText
import Adrian.Dcerpc.Transport
import Adrian.Schema.Validation
import Adrian.Smb.OpenHandles
import Adrian.Ntlm.Authenticate
import Adrian.Kdc.PrincipalStore
import Adrian.Storage.KeySpace
import Adrian.CaSerials
import Adrian.Policy.AdmxStyle
import Adrian.Metrics
