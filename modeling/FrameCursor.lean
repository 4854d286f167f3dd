import FrameCursor.Main
import FrameCursor.Command.Directory
import FrameCursor.Cursor.Action
import FrameCursor.Cursor.History
import FrameCursor.Cursor.Session
import FrameCursor.Cursor.Sweep
import FrameCursor.Subject.Declared
import FrameCursor.Subject.Row
import FrameCursor.Subject.Sparse
import FrameCursor.Toml.Plain
import FrameCursor.Proofs.Effect
import FrameCursor.Proofs.Reachable
import FrameCursor.Proofs.Frames
import FrameCursor.Proofs.Excerpts
import FrameCursor.Proofs.Splitting
import FrameCursor.Proofs.Interchange
import FrameCursor.Proofs.Reading
import FrameCursor.Proofs.Refusals
import FrameCursor.Proofs.Brackets
import FrameCursor.Proofs.Forgetting
import FrameCursor.Proofs.Program
import FrameCursor.Proofs.Tools
import FrameCursor.Proofs.Printing
import FrameCursor.Proofs.Verbosity
import FrameCursor.Proofs.Progress
import FrameCursor.Proofs.FrameContents
import FrameCursor.Proofs.Lookahead
import FrameCursor.Proofs.Visits
import FrameCursor.Proofs.Sweeping
import FrameCursor.Proofs.Rounds
import FrameCursor.Proofs.Boundaries
import FrameCursor.Proofs.Extraction
import FrameCursor.Proofs.Tiling
import FrameCursor.Proofs.Unframed
import FrameCursor.Proofs.Stores
import FrameCursor.Proofs.PlainLines
import FrameCursor.Proofs.PlainTables
import FrameCursor.Proofs.PlainDocuments
