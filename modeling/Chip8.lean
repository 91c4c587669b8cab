import Chip8.Main
import Chip8.Proofs.Machine.Atomicity
import Chip8.Proofs.Machine.Faults
import Chip8.Proofs.Machine.Nesting
import Chip8.Proofs.Machine.Surroundings
import Chip8.Proofs.Machine.ListedCalls
import Chip8.Proofs.Machine.Reloading
import Chip8.Proofs.Machine.KeyWait
import Chip8.Proofs.Pacing
import Chip8.Proofs.Machine.Footprint
import Chip8.Proofs.Machine.Drawing
import Chip8.Proofs.Machine.RandomBytes
import Chip8.Proofs.Machine.KeyDelivery
import Chip8.Proofs.Machine.LastingFaults
import Chip8.Proofs.Instruction.Mnemonics
import Chip8.Proofs.Disassembly
import Chip8.Proofs.Drawing.Counting
import Chip8.Proofs.Drawing.Rotation
import Chip8.Proofs.Machine.StackLimits
import Chip8.Proofs.Machine.Timers
import Chip8.Proofs.Machine.MaskedBytes
import Chip8.Proofs.Command.Exits
import Chip8.Proofs.Machine.LogLines
import Chip8.Proofs.Machine.Slices
import Chip8.Proofs.Machine.Arithmetic
import Chip8.Proofs.Machine.Blocks
import Chip8.Proofs.Checked.Operation
import Chip8.Proofs.Checked.Screen
import Chip8.Proofs.Checked.Memory
import Chip8.Proofs.Checked.Machine
import Chip8.Proofs.Machine.Interleaving
import Chip8.Proofs.Instruction.Encoding
import Chip8.Proofs.Command.Invocation
import Chip8.Proofs.Machine.Views
import Chip8.Proofs.Disassembly.Reading
