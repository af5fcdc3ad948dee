import FileAccess.Command.Run
import FileAccess.Main
import FileAccess.Path.Join
import FileAccess.Path.Normalize
import FileAccess.Proofs.Command.Agreement
import FileAccess.Proofs.Command.DefaultSettings
import FileAccess.Proofs.Command.LinesOutput
import FileAccess.Proofs.Files.Classification
import FileAccess.Proofs.Files.Policies
import FileAccess.Proofs.Files.Readers
import FileAccess.Proofs.Lines.Delimiters
import FileAccess.Proofs.Numbers.Seconds
import FileAccess.Proofs.Path.Following
import FileAccess.Proofs.Path.Layout
import FileAccess.Proofs.Path.NormalForm
import FileAccess.Proofs.Path.Reset
import FileAccess.Proofs.Session.Isolation
import FileAccess.Proofs.Session.Log
import FileAccess.Proofs.Settings.Merging
import FileAccess.Proofs.Tree.Walk
import FileAccess.Session.Run
