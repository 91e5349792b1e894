import EntryCode.Assembler.Mnemonic
import EntryCode.Command.Disk
import EntryCode.Extension.Scope
import EntryCode.Interpreter.Symbol
import EntryCode.Machine.Script
import EntryCode.Main
import EntryCode.Native.Library
import EntryCode.Proofs.Assembler.Labels
import EntryCode.Proofs.Machine.Constant
import EntryCode.Proofs.Native.Delivery
import EntryCode.Proofs.Assembler.Extent
import EntryCode.Proofs.Interpreter.Activation
import EntryCode.Proofs.Interpreter.Generation
import EntryCode.Proofs.Interpreter.Beginning
import EntryCode.Proofs.Interpreter.Departure
import EntryCode.Proofs.Interpreter.Exceptions
import EntryCode.Proofs.Interpreter.Guard
import EntryCode.Proofs.Interpreter.Monitors
import EntryCode.Proofs.Interpreter.Completion
import EntryCode.Proofs.Interpreter.Protocol
import EntryCode.Proofs.Interpreter.Totality
import EntryCode.Proofs.Machine.Agreement
import EntryCode.Proofs.Native.Library
import EntryCode.Proofs.Region.Blocks
import EntryCode.Proofs.Interpreter.Enclosure
import EntryCode.Proofs.Interpreter.Gating
import EntryCode.Proofs.Image.Cache
import EntryCode.Proofs.Image.Capture
import EntryCode.Proofs.Image.Validity
import EntryCode.Proofs.Region.Executable
import EntryCode.Proofs.Machine.Offset
import EntryCode.Proofs.Assembler.Rejection
import EntryCode.Proofs.Machine.Indexed
import EntryCode.Proofs.Machine.Retargeting
import EntryCode.Proofs.Method.Scanner
import EntryCode.Proofs.Method.Encoding
import EntryCode.Proofs.Interpreter.Conversion
import EntryCode.Proofs.Interpreter.Saturation
import EntryCode.Proofs.Extension.Nesting
import EntryCode.Proofs.Manifest.Overlay
import EntryCode.Proofs.Machine.Flat
import EntryCode.Proofs.Machine.Locality
