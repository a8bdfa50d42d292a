import Qualifier.Main
import Qualifier.Proofs.Audit
import Qualifier.Proofs.ErrorPosition
import Qualifier.Proofs.FirstFault
import Qualifier.Proofs.Spelling
import Qualifier.Proofs.Grouping
import Qualifier.Proofs.PlainText
import Qualifier.Proofs.Roster
import Qualifier.Proofs.Writes
import Qualifier.Proofs.Rounding
import Qualifier.Proofs.Numerals
import Qualifier.Proofs.RoundTrip
import Qualifier.Proofs.Equalities
import Qualifier.Proofs.WrittenNumeral
import Qualifier.Proofs.Paths
import Qualifier.Proofs.Matching
