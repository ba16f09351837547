import Disasm8086.Flags
import Disasm8086.Main
import Disasm8086.Reference
import Disasm8086.Proofs.Field
import Disasm8086.Proofs.Layout
import Disasm8086.Proofs.OpcodeMap
import Disasm8086.Proofs.Encoding
import Disasm8086.Proofs.Grammar
import Disasm8086.Proofs.Partition
import Disasm8086.Proofs.Numeral
import Disasm8086.Proofs.AssemblyText
import Disasm8086.Proofs.OperandKind
import Disasm8086.Proofs.Unambiguous
import Disasm8086.Proofs.Listing
import Disasm8086.Proofs.Checked
import Disasm8086.Proofs.PrefixRun
import Disasm8086.Proofs.CarryChain
import Disasm8086.Proofs.ListingText
import Disasm8086.Proofs.WellFormed
import Disasm8086.Proofs.Precedence
import Disasm8086.Proofs.IntegerMeaning
import Disasm8086.Proofs.AddressText
import Disasm8086.Proofs.Synonyms
import Disasm8086.Proofs.Direction
import Disasm8086.Proofs.Outcome
import Disasm8086.Proofs.Halves
import Disasm8086.Proofs.BranchTarget
import Disasm8086.Proofs.Comparison
import Disasm8086.Proofs.Predicates
import Disasm8086.Proofs.FirstDifference
import Disasm8086.Proofs.Restyling
import Disasm8086.Proofs.Relocation
import Disasm8086.Proofs.Session
