import DocComment.Main
import DocComment.Proofs.Block.State
import DocComment.Proofs.Block.Splice
import DocComment.Proofs.Block.Closing
import DocComment.Proofs.Token.Part
import DocComment.Proofs.Tree.Moved
import DocComment.Proofs.TypeExpr.WellNamed
import DocComment.Proofs.Tag.Method
import DocComment.Proofs.Tag.Write
import DocComment.Proofs.Tree.Placed
import DocComment.Proofs.Tree.Written
import DocComment.Proofs.Block.Edited
import DocComment.Proofs.Block.Reload
import DocComment.Proofs.Block.Canonical
import DocComment.Proofs.Tree.Continued
import DocComment.Proofs.Block.Named
import DocComment.Proofs.Block.Appended
import DocComment.Proofs.Command.RoundTrip
import DocComment.Proofs.Command.Plan
import DocComment.Proofs.Files
import DocComment.Proofs.Command.EditedFile
import DocComment.Proofs.Command.DryRun
import DocComment.Proofs.Command.BrokenOff
import DocComment.Proofs.Tree.Segmentation
import DocComment.Proofs.TypeExpr.Grammar
import DocComment.Proofs.TypeExpr.Complete
import DocComment.Proofs.Block.Rejected
import DocComment.Proofs.Source.Located
import DocComment.Proofs.Source.Rewritten
import DocComment.Proofs.Source.Comments
import DocComment.Proofs.Source.Uncovered
import DocComment.Proofs.Source.FoundAgain
import DocComment.Proofs.Token.Places
import DocComment.Proofs.TypeExpr.Levels
import DocComment.Proofs.TypeExpr.Written
import DocComment.Proofs.TypeExpr.Unread
import DocComment.Proofs.TypeExpr.Flat
import DocComment.Proofs.Tree.Fragments
import DocComment.Proofs.Tree.Recognized
import DocComment.Proofs.Tree.Payloads
import DocComment.Proofs.Block.Replaced
import DocComment.Proofs.Block.Denoted
import DocComment.Proofs.Tag.Restored
import DocComment.Proofs.Block.Retyped
import DocComment.Proofs.Block.OwnPayload
import DocComment.Proofs.TypeExpr.Respelled
import DocComment.Proofs.Block.Commuting
import DocComment.Proofs.Block.Undone
import DocComment.Proofs.Tag.Commas
import DocComment.Proofs.Tag.Covered
import DocComment.Proofs.Block.Wrapped
import DocComment.Proofs.TypeExpr.Counted
import DocComment.Proofs.Tree.Paragraph
import DocComment.Proofs.Tag.Vendors
