import LogPrune.Main
import LogPrune.Pattern.Source
import LogPrune.Progress
import LogPrune.Sample
import LogPrune.Proofs.Text.Cut
import LogPrune.Proofs.Clean.Again
import LogPrune.Proofs.Clean.CommentLines
import LogPrune.Proofs.Clean.Kept
import LogPrune.Proofs.Run.Undo
import LogPrune.Proofs.Diff.Reading
import LogPrune.Proofs.Clean.Influence
import LogPrune.Proofs.Undo.Register
import LogPrune.Proofs.Sources.Once
import LogPrune.Proofs.Config.Document
import LogPrune.Proofs.Scan.Batch
import LogPrune.Proofs.Finding.Ranking
import LogPrune.Proofs.Finding.Places
import LogPrune.Proofs.Clean.Counts
import LogPrune.Proofs.Checked.Position
import LogPrune.Proofs.Checked.Finding
import LogPrune.Proofs.Checked.Clean
import LogPrune.Proofs.Clean.Enclosed
import LogPrune.Proofs.Finding.SameLine
import LogPrune.Proofs.Clean.WholeComment
import LogPrune.Proofs.Clean.Console
import LogPrune.Proofs.Diff.Deletion
import LogPrune.Proofs.Sources.Languages
import LogPrune.Proofs.Sources.Pruning
import LogPrune.Proofs.Scan.Apply
import LogPrune.Proofs.Pattern.Comments
import LogPrune.Proofs.Pattern.Calls
