import RiscvListing.Config.Writer
import RiscvListing.Main
import RiscvListing.Proofs.Labels.Discovery
import RiscvListing.Proofs.Text.Numeral
import RiscvListing.Proofs.Elf.Reading
import RiscvListing.Proofs.Elf.Code
import RiscvListing.Proofs.Report.CrossReference
import RiscvListing.Proofs.Elf.Content
import RiscvListing.Proofs.Elf.Layout
import RiscvListing.Proofs.Elf.RoundTrip
import RiscvListing.Proofs.Instruction.Standard
import RiscvListing.Proofs.Instruction.Divergence
import RiscvListing.Proofs.Instruction.Encode
import RiscvListing.Proofs.Instruction.Inverse
import RiscvListing.Proofs.Elf.Field
import RiscvListing.Proofs.Elf.Resolution
import RiscvListing.Proofs.Elf.Record
import RiscvListing.Proofs.Report.Failure
import RiscvListing.Proofs.Elf.ReadSet
import RiscvListing.Proofs.Report.ReadSet
import RiscvListing.Proofs.Elf.Strictness
import RiscvListing.Proofs.Report.Strictness
import RiscvListing.Proofs.Labels.Run
import RiscvListing.Proofs.Report.OnePass
import RiscvListing.Proofs.Report.Lossless
import RiscvListing.Proofs.Report.Relocation
import RiscvListing.Proofs.Elf.Diagnosis
import RiscvListing.Proofs.Report.Diagnosis
import RiscvListing.Proofs.Guarded.Machine
import RiscvListing.Proofs.Guarded.Object
import RiscvListing.Proofs.Guarded.Instruction
import RiscvListing.Proofs.Guarded.Listing
import RiscvListing.Proofs.Disk.Path
import RiscvListing.Proofs.Report.Stream
import RiscvListing.Proofs.CommandLine.Stages
import RiscvListing.Proofs.CommandLine.Session
import RiscvListing.Proofs.Elf.SymbolTable
import RiscvListing.Proofs.Instruction.Rendering
import RiscvListing.Proofs.Labels.Ambiguity
import RiscvListing.Proofs.Report.LineEnd
import RiscvListing.Proofs.Config.Reading
import RiscvListing.Proofs.Config.RoundTrip
import RiscvListing.Proofs.Report.SymbolRow
import RiscvListing.Proofs.Elf.Number
import RiscvListing.Proofs.Elf.Name
import RiscvListing.Proofs.Word.TwosComplement
