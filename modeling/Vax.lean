import Vax.Main
import Vax.Proofs.Listing.Targets
import Vax.Proofs.Machine.Procedure
import Vax.Proofs.Machine.Faulting
import Vax.Proofs.Machine.Dispatch
import Vax.Proofs.Machine.Logging
import Vax.Proofs.PackedDecimal.Printing
import Vax.Proofs.PackedDecimal.Conversion
import Vax.Proofs.Machine.Layout
import Vax.Proofs.Machine.CallStack
import Vax.Proofs.Machine.Diagnostics
import Vax.Proofs.Machine.Written
import Vax.Proofs.Program.Rewriting
import Vax.Proofs.Listing.Loaded
import Vax.Proofs.Checked.Step
import Vax.Proofs.PackedDecimal.Formatter
import Vax.Proofs.PackedDecimal.Formatting
import Vax.Proofs.Integer.Exact
import Vax.Proofs.Machine.Results
import Vax.Proofs.Integer.Instructions
import Vax.Proofs.BitField.Extraction
import Vax.Proofs.BitField.Branching
import Vax.Proofs.Machine.Evaluation
import Vax.Proofs.Integer.Abbreviations
import Vax.Proofs.Control.Conditions
import Vax.Proofs.Control.Loops
import Vax.Proofs.Program.Naming
import Vax.Memory.Accessors
import Vax.Proofs.CharacterString.Search
import Vax.Proofs.PackedDecimal.Termination
import Vax.Proofs.Memory.Accesses
import Vax.Proofs.Text.Entry
