import RomKit.Main
import RomKit.Proofs.Reassembly
import RomKit.Proofs.TwoPass
import RomKit.Proofs.Lockstep
import RomKit.Proofs.Interruption
import RomKit.Proofs.Builds
import RomKit.Proofs.FileWrites
import RomKit.Proofs.SymbolFiles
import RomKit.Proofs.StrictMode
import RomKit.Proofs.Concatenation
import RomKit.Proofs.CodeListing
import RomKit.Proofs.WrittenText
import RomKit.Proofs.Numerals
import RomKit.Proofs.ReportSource
import RomKit.Proofs.ListedAddresses
import RomKit.Proofs.FailedRuns
import RomKit.Proofs.ErrorPlaces
import RomKit.Proofs.CursorMoves
import RomKit.Proofs.InertText
import RomKit.Proofs.Partition
import RomKit.Proofs.RecordingOrder
import RomKit.Proofs.Locality
import RomKit.Proofs.AddressSpellings
import RomKit.Proofs.SymbolLines
import RomKit.Proofs.Idempotence
import RomKit.Proofs.DigitRuns
import RomKit.Proofs.Progress
import RomKit.Proofs.Sessions
import RomKit.Proofs.CheckedPaths
import RomKit.Proofs.ToolWrites
import RomKit.Proofs.ExitCodes
