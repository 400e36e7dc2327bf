import ByteAsm.CommandLine.Directory
import ByteAsm.Main
import ByteAsm.Proofs.Appending
import ByteAsm.Proofs.BlankLines
import ByteAsm.Proofs.Completeness
import ByteAsm.Proofs.Decoding
import ByteAsm.Proofs.DirectEncoding
import ByteAsm.Proofs.LabelTable
import ByteAsm.Proofs.LineEndings
import ByteAsm.Proofs.Renaming
import ByteAsm.Proofs.Tiling
import ByteAsm.Session
import ByteAsm.Proofs.Unambiguity
import ByteAsm.Proofs.Comments
import ByteAsm.Proofs.LabelReferences
import ByteAsm.Proofs.Identifiers
import ByteAsm.Proofs.VisibleNames
import ByteAsm.Proofs.NumberWords
import ByteAsm.Proofs.Offsets
import ByteAsm.Proofs.StringData
import ByteAsm.Proofs.Scoping
import ByteAsm.Proofs.Opcodes
import ByteAsm.Proofs.Classification
import ByteAsm.Proofs.Scanning
import ByteAsm.Proofs.Spelling
import ByteAsm.Proofs.ExpansionLoop
import ByteAsm.Proofs.SortedEntries
import ByteAsm.Proofs.ListingLines
import ByteAsm.Proofs.Listings
