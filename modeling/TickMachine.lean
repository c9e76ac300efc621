import TickMachine.Assembler
import TickMachine.Embedding
import TickMachine.Main
import TickMachine.Peripherals.Recorded
import TickMachine.Proofs.Traps
import TickMachine.Proofs.Uploads
import TickMachine.Proofs.Windows
import TickMachine.Proofs.ControlFlow
import TickMachine.Proofs.FileFormat
import TickMachine.Proofs.FrameStreams
import TickMachine.Proofs.LineTexts
import TickMachine.Proofs.Listings
import TickMachine.Proofs.Directives
import TickMachine.Proofs.AssembledCode
import TickMachine.Proofs.AssembledListings
import TickMachine.Proofs.AssembledFiles
import TickMachine.Proofs.Lifecycle
import TickMachine.Proofs.Pauses
import TickMachine.Proofs.Completions
import TickMachine.Proofs.Effects
import TickMachine.Proofs.Remnants
import TickMachine.Proofs.MemoryWrites
import TickMachine.Proofs.Jumps
import TickMachine.Proofs.Arithmetic
import TickMachine.Proofs.LoadedPrograms
import TickMachine.Proofs.CommandFrames
import TickMachine.Proofs.RandomNumbers
import TickMachine.Proofs.Waves
import TickMachine.Proofs.Buffers
import TickMachine.Proofs.Addresses
