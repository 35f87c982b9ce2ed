import Cpu6502.Cartridge
import Cpu6502.Computer
import Cpu6502.Listing
import Cpu6502.Proofs.Step
import Cpu6502.Proofs.Journal
import Cpu6502.Proofs.Combined
import Cpu6502.Proofs.Targets
import Cpu6502.Proofs.Totality
import Cpu6502.Proofs.Writes
import Cpu6502.Proofs.Timing
import Cpu6502.Proofs.Calculation
import Cpu6502.Proofs.Arbitration
import Cpu6502.Proofs.Session
import Cpu6502.Proofs.AffectedFlags
import Cpu6502.Proofs.Footprint
import Cpu6502.Proofs.Reading
import Cpu6502.Proofs.Trace
import Cpu6502.Proofs.Banks
import Cpu6502.Proofs.Protection
import Cpu6502.Proofs.Bookkeeping
import Cpu6502.Proofs.Lifecycle
import Cpu6502.Proofs.SavedStatus
import Cpu6502.Proofs.DocumentedOnly
import Cpu6502.Proofs.CycleCount
import Cpu6502.Proofs.ImageFormat
import Cpu6502.Proofs.Installing
import Cpu6502.Proofs.Trail
import Cpu6502.Proofs.Subroutines
import Cpu6502.Proofs.LittleEndian
import Cpu6502.Proofs.LongArithmetic
import Cpu6502.Proofs.LongShifts
import Cpu6502.Proofs.Reset
import Cpu6502.Proofs.Assembler
import Cpu6502.Proofs.Columns
import Cpu6502.Proofs.Slices
import Cpu6502.Proofs.Delivery
import Cpu6502.Proofs.Loading
import Cpu6502.Proofs.StackPage
import Cpu6502.Proofs.Checks
