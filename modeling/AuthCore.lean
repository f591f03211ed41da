import AuthCore.Config.Writing
import AuthCore.Files.Tree
import AuthCore.Main
import AuthCore.Proofs.Cache.AddressMask
import AuthCore.Proofs.Cache.Interchangeable
import AuthCore.Proofs.Config.LayerOrder
import AuthCore.Proofs.Password.Migration
import AuthCore.Proofs.Server.Readiness
import AuthCore.Proofs.Server.Shutdown
import AuthCore.Proofs.Server.ValidatedArguments
import AuthCore.Proofs.Session.ConcurrentRevocation
import AuthCore.Proofs.Session.RenewalRace
import AuthCore.Proofs.Session.RevocationExact
import AuthCore.Proofs.Session.StoreInvariant
import AuthCore.Proofs.Session.TicketLedger
import AuthCore.Proofs.Token.IssuedToken
import AuthCore.Proofs.Cache.PatternMeaning
import AuthCore.Proofs.Session.KeyOwnership
import AuthCore.Proofs.Session.TicketPresentation
import AuthCore.Proofs.Cache.ScanPages
import AuthCore.Proofs.Signing.KeyChoice
import AuthCore.Proofs.Config.SpelledVariables
import AuthCore.Proofs.Loading.SharedLoad
import AuthCore.Proofs.Cache.HandleRuns
import AuthCore.Proofs.Signing.KeyIdentity
