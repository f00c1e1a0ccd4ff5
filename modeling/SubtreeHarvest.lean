import SubtreeHarvest.Command.Run
import SubtreeHarvest.Main
import SubtreeHarvest.Survey
import SubtreeHarvest.Proofs.Document.Escape
import SubtreeHarvest.Proofs.Extract.Interrupted
import SubtreeHarvest.Proofs.Extract.Limits
import SubtreeHarvest.Proofs.Extract.Nested
import SubtreeHarvest.Proofs.Extract.Reread
import SubtreeHarvest.Proofs.Extract.Size
import SubtreeHarvest.Proofs.Extract.Sought
import SubtreeHarvest.Proofs.Selector.Addressed
import SubtreeHarvest.Proofs.Selector.Relaxed
import SubtreeHarvest.Proofs.Selector.Spelled
import SubtreeHarvest.Proofs.Document.Token
import SubtreeHarvest.Proofs.Document.Written
import SubtreeHarvest.Proofs.Survey.Items
import SubtreeHarvest.Proofs.Extract.Frames
import SubtreeHarvest.Proofs.Extract.Resumed
import SubtreeHarvest.Proofs.Selector.Parted
import SubtreeHarvest.Proofs.Selector.Grouped
import SubtreeHarvest.Proofs.Extract.Inserted
import SubtreeHarvest.Proofs.Selector.Tested
import SubtreeHarvest.Proofs.Plan.Conforms
import SubtreeHarvest.Proofs.Plan.Same
import SubtreeHarvest.Proofs.Survey.SelfContained
import SubtreeHarvest.Proofs.Command.Run
import SubtreeHarvest.Proofs.Extract.Topmost
import SubtreeHarvest.Proofs.Plan.Visits
import SubtreeHarvest.Proofs.Reading.Json
import SubtreeHarvest.Proofs.Command.Lines
