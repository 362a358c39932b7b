import Abacus.Main
import Abacus.Session.Terminal
import Abacus.Proofs.Conversions
import Abacus.Proofs.Dependence
import Abacus.Proofs.Diagnostics
import Abacus.Proofs.Domain
import Abacus.Proofs.Giving
import Abacus.Proofs.Layout
import Abacus.Proofs.Legibility
import Abacus.Proofs.Naming
import Abacus.Proofs.Overlay
import Abacus.Proofs.Purity
import Abacus.Proofs.Refinement
import Abacus.Proofs.Replies
import Abacus.Proofs.Settings
import Abacus.Proofs.Substitution
import Abacus.Proofs.Truncation
import Abacus.Proofs.Variables
import Abacus.Proofs.Places
