import BuildRequirements.BuildLog
import BuildRequirements.Text.Utf8
import BuildRequirements.Calendar.Clock
import BuildRequirements.Listing
import BuildRequirements.Update
import BuildRequirements.Arguments
import BuildRequirements.Diagnostics
import BuildRequirements.Settings
import BuildRequirements.Files.Access
import BuildRequirements.Discovery
import BuildRequirements.Program
import BuildRequirements.Main
import BuildRequirements.Proofs.Arguments.Words
import BuildRequirements.Proofs.Arguments.Grammar
import BuildRequirements.Proofs.Arguments.Spellings
import BuildRequirements.Proofs.Discovery.Steps
import BuildRequirements.Proofs.Discovery.Lifecycle
import BuildRequirements.Proofs.Discovery.Outcomes
import BuildRequirements.Proofs.Telling
import BuildRequirements.Proofs.BuildLogs
import BuildRequirements.Proofs.Listings
import BuildRequirements.Proofs.LineEnds
import BuildRequirements.Proofs.Updates
import BuildRequirements.Proofs.Program.Exits
import BuildRequirements.Proofs.Program.Frame
import BuildRequirements.Proofs.Program.History
import BuildRequirements.Proofs.Program.Repetition
import BuildRequirements.Proofs.Program.Classification
import BuildRequirements.Proofs.Program.Output
import BuildRequirements.Proofs.Program.Thresholds
import BuildRequirements.Proofs.Program.Appending
import BuildRequirements.Proofs.Discovery.Tolerance
import BuildRequirements.Proofs.Program.Tolerance
import BuildRequirements.Proofs.Files.Overlooking
import BuildRequirements.Proofs.Runs.Processes
import BuildRequirements.Proofs.Discovery.Processes
import BuildRequirements.Proofs.Calendar.Dates
import BuildRequirements.Proofs.Calendar.Stamps
import BuildRequirements.Proofs.DownloadCommands
import BuildRequirements.Proofs.Decisions
import BuildRequirements.Proofs.ListingTexts
import BuildRequirements.Proofs.Text.Spreads
import BuildRequirements.Proofs.Program.Executables
import BuildRequirements.Proofs.ScratchRoots
