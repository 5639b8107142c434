import Chip8.Instruction.RoundTrip
import Chip8.Machine.Event
import Chip8.Main
import Chip8.Machine.InPlace
import Chip8.Proofs.Machine.InPlace
import Chip8.Proofs.Machine.Effects
import Chip8.Proofs.Machine.Safety
import Chip8.Proofs.Instruction.Table
import Chip8.Proofs.Machine.Failure
import Chip8.Proofs.Machine.KeyWait
import Chip8.Proofs.Machine.Footprint
import Chip8.Proofs.Machine.Dependence
import Chip8.Proofs.Machine.Independence
import Chip8.Proofs.Machine.Calls
import Chip8.Proofs.Machine.ControlFlow
import Chip8.Proofs.Machine.Countdown
import Chip8.Proofs.StepBudget
import Chip8.Proofs.StepBudget.Rates
import Chip8.Proofs.Emulator.Frames
import Chip8.Proofs.Machine.Locality
import Chip8.Proofs.Machine.RandomBytes
import Chip8.Proofs.Machine.Reset
import Chip8.Proofs.Machine.Dialects
import Chip8.Proofs.Instruction.Image
import Chip8.Proofs.Machine.Arithmetic
import Chip8.Proofs.Screen.Torus
import Chip8.Proofs.Screen.Views
import Chip8.Proofs.Memory.Blocks
import Chip8.Proofs.Machine.Transfers
import Chip8.Proofs.Emulator.OneFrame
import Chip8.Proofs.Screen.Drawings
import Chip8.Proofs.CommandLine.Spelling
import Chip8.Proofs.Keypad
import Chip8.Proofs.Text.Layout
import Chip8.Proofs.Emulator.Picture
