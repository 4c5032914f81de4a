import Roster.Main
import Roster.Proofs.Methods.Agreement
import Roster.Proofs.Exhaustive.FirstChoice
import Roster.Proofs.Search.Lockstep
import Roster.Proofs.Search.Augmentation
import Roster.Proofs.Search.Equivariance
import Roster.Proofs.Search.Locality
import Roster.Proofs.Padded.Settings
import Roster.Proofs.Padded.Termination
import Roster.Proofs.Search.Prefix
import Roster.Proofs.Methods.Rounding
import Roster.Proofs.Search.Magnitude
import Roster.Proofs.Search.WholeDoubles
import Roster.Proofs.Cost.Acceptance
import Roster.Proofs.Text.Split
import Roster.Proofs.Pairing.Inside
import Roster.Proofs.Methods.Answers
import Roster.Proofs.Report.Printable
import Roster.Proofs.Program.Configured
import Roster.Proofs.Cost.Refusal
import Roster.Proofs.Methods.Sessions
import Roster.Proofs.Program.Labels
import Roster.Proofs.Benchmark.Measures
import Roster.Proofs.Report.Decoding
import Roster.Proofs.Program.Documents
import Roster.Proofs.Figure.Outlines
import Roster.Proofs.Configuration
