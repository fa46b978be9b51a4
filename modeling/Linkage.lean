import Linkage.ClassTable.Platform
import Linkage.Journal.Lowering
import Linkage.TypeText
import Linkage.Verification.Basic
import Linkage.Proofs.Accessibility
import Linkage.Proofs.ClassTable.Aliases
import Linkage.Proofs.ClassTable.Listed
import Linkage.Proofs.ClassTable.Locality
import Linkage.Proofs.ClassTable.Normal
import Linkage.Proofs.ClassTable.Overriding
import Linkage.Proofs.ClassTable.Sightings
import Linkage.Proofs.ClassTable.Spelling
import Linkage.Proofs.Emission.Interruption
import Linkage.Proofs.Emission.Receiver
import Linkage.Proofs.FunctionalInterface.Overlay
import Linkage.Proofs.FunctionalInterface.Remaining
import Linkage.Proofs.Lowering.BootstrapTable
import Linkage.Proofs.Lowering.History
import Linkage.Proofs.Lowering.Making
import Linkage.Proofs.Lowering.Resolved
import Linkage.Proofs.Lowering.Sharing
import Linkage.Proofs.Machine.Accounts
import Linkage.Proofs.NameSupply.Sharing
import Linkage.Proofs.Pool.Encoding
import Linkage.Proofs.Resolution.Distance
import Linkage.Proofs.Resolution.Overloads
import Linkage.Proofs.Resolution.OwnMethods
import Linkage.Proofs.Verification
import Linkage.Proofs.Verification.Closed
import Linkage.Proofs.Verification.Ending
