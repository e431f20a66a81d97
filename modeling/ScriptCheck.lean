import ScriptCheck.Json.Printer
import ScriptCheck.Main
import ScriptCheck.Rule.Written
import ScriptCheck.Text.Showable
import ScriptCheck.Proofs.BlankEnds
import ScriptCheck.Proofs.Boundaries
import ScriptCheck.Proofs.ByteScan
import ScriptCheck.Proofs.ClosedCalls
import ScriptCheck.Proofs.Decision
import ScriptCheck.Proofs.Disabling
import ScriptCheck.Proofs.EditedLines
import ScriptCheck.Proofs.ElseBlocks
import ScriptCheck.Proofs.EndedStatements
import ScriptCheck.Proofs.KnownNames
import ScriptCheck.Proofs.MendedFiles
import ScriptCheck.Proofs.MissedBindings
import ScriptCheck.Proofs.Notifications
import ScriptCheck.Proofs.OpenEnds
import ScriptCheck.Proofs.Placement
import ScriptCheck.Proofs.PlainLines
import ScriptCheck.Proofs.Reassigned
import ScriptCheck.Proofs.Reordering
import ScriptCheck.Proofs.Respelling
import ScriptCheck.Proofs.ReturnSearch
import ScriptCheck.Proofs.ServedLines
import ScriptCheck.Proofs.SameCode
import ScriptCheck.Proofs.Settling
import ScriptCheck.Proofs.ShownLines
import ScriptCheck.Proofs.Statements
import ScriptCheck.Proofs.Tiling
import ScriptCheck.Proofs.Unfailing
import ScriptCheck.Proofs.WholeWords
import ScriptCheck.Proofs.WrappedBodies
import ScriptCheck.Proofs.Crlf.Inspection
import ScriptCheck.Proofs.Fragments
import ScriptCheck.Proofs.LineOrder
import ScriptCheck.Proofs.SameTargets
