import CrateAudit.Main
import CrateAudit.Crate.Walk
import CrateAudit.Proofs.Steps
import CrateAudit.Proofs.Parts
import CrateAudit.Proofs.Lookup
import CrateAudit.Proofs.Collected
import CrateAudit.Proofs.Listing
import CrateAudit.Proofs.Loading
import CrateAudit.Proofs.Totality
import CrateAudit.Proofs.Indices
import CrateAudit.Proofs.Isolation
import CrateAudit.Proofs.Generations
import CrateAudit.Proofs.JsonText
import CrateAudit.Proofs.RecordText
import CrateAudit.Proofs.Sites
import CrateAudit.Proofs.Appending
import CrateAudit.Proofs.FirstLine
import CrateAudit.Proofs.Written
import CrateAudit.Proofs.ReadBack
import CrateAudit.Proofs.Revised
import CrateAudit.Proofs.Framing
import CrateAudit.Proofs.Lockstep
import CrateAudit.Proofs.SymbolicText
import CrateAudit.Proofs.Positions
import CrateAudit.Proofs.Latch
import CrateAudit.Proofs.BadLines
import CrateAudit.Proofs.Acceptance
import CrateAudit.Proofs.SpanText
import CrateAudit.Proofs.Occurrences
import CrateAudit.Proofs.Frames
import CrateAudit.Proofs.Brackets
import CrateAudit.Proofs.Excerpts
import CrateAudit.Proofs.Tallies
import CrateAudit.Proofs.CommandLine
