import LiveMarkup.Main
import LiveMarkup.Workbench.Apps
import LiveMarkup.Workbench.Watchers
import LiveMarkup.Proofs.Patch.Retext
import LiveMarkup.Proofs.App.Attempts
import LiveMarkup.Proofs.App.Rerender
import LiveMarkup.Proofs.App.ShowsData
import LiveMarkup.Proofs.Reactive.Retained
import LiveMarkup.Proofs.Reactive.UpToDate
import LiveMarkup.Proofs.CommandLine.Writes
import LiveMarkup.Proofs.Patch.Paint
import LiveMarkup.Proofs.Template.Plain
import LiveMarkup.Proofs.Template.Spans
import LiveMarkup.Proofs.Template.Foretold
import LiveMarkup.Proofs.Template.Settled
import LiveMarkup.Proofs.Template.Position
import LiveMarkup.Proofs.CommandLine.Outline
import LiveMarkup.Proofs.CommandLine.Snapshots
import LiveMarkup.Proofs.Surface.Layout
import LiveMarkup.Proofs.Data.Equality
import LiveMarkup.Proofs.Reactive.Observation
import LiveMarkup.Proofs.Reactive.Termination
import LiveMarkup.Proofs.Reactive.Discipline
import LiveMarkup.Proofs.Surface.Readers
import LiveMarkup.Proofs.Reactive.Owed
import LiveMarkup.Proofs.Reactive.Enrolment
import LiveMarkup.Proofs.Reactive.ReadOnly
import LiveMarkup.Proofs.Reactive.Readership
import LiveMarkup.Proofs.Reactive.Footprint
import LiveMarkup.Proofs.App.Career
import LiveMarkup.Proofs.CommandLine.Outcome
import LiveMarkup.Proofs.Surface.ReadBack
import LiveMarkup.Proofs.App.Loaded
import LiveMarkup.Proofs.Data.Symmetry
import LiveMarkup.Proofs.Patch.Balance
import LiveMarkup.Data.Visiting
import LiveMarkup.Proofs.Data.Display
import LiveMarkup.Markup.Position
import LiveMarkup.Proofs.Markup.Position
import LiveMarkup.Proofs.Reactive.Alone
import LiveMarkup.Proofs.Json.Finite
import LiveMarkup.Proofs.CommandLine.Paths
import LiveMarkup.Proofs.CommandLine.Agreement
import LiveMarkup.Proofs.Markup.Escape
import LiveMarkup.Proofs.Tree.Equality
