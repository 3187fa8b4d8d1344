import DocTree.Command.Run
import DocTree.Disk.Trial
import DocTree.Json.Writer
import DocTree.Main
import DocTree.Preview.Page
import DocTree.Site.Build
import DocTree.Proofs.Frame
import DocTree.Proofs.Cell
import DocTree.Proofs.Bars
import DocTree.Proofs.TableRows
import DocTree.Proofs.OpenTag
import DocTree.Proofs.Alike
import DocTree.Proofs.Position
import DocTree.Proofs.Account
import DocTree.Proofs.Failure
import DocTree.Proofs.Diagnosis
import DocTree.Proofs.Outline
import DocTree.Proofs.Respect
import DocTree.Proofs.Separation
import DocTree.Proofs.LineEnd
import DocTree.Proofs.Blocks
import DocTree.Proofs.Letters
import DocTree.Proofs.Inlining
import DocTree.Proofs.Lookup
import DocTree.Proofs.Building
import DocTree.Proofs.PageParts
import DocTree.Proofs.Landing
import DocTree.Proofs.AnchorNames
import DocTree.Proofs.Turns
import DocTree.Proofs.Atoms
import DocTree.Proofs.Nesting
import DocTree.Proofs.Respacing
import DocTree.Proofs.JsonText
import DocTree.Proofs.NodeRecords
import DocTree.Proofs.RoundTrip
import DocTree.Proofs.ByteOrder
import DocTree.Proofs.SiteFailure
import DocTree.Proofs.Listing
import DocTree.Proofs.ItemOrder
import DocTree.Proofs.Moves
import DocTree.Proofs.BlankLines
import DocTree.Proofs.TextJoins
import DocTree.Proofs.Cleared
import DocTree.Proofs.Stripping
import DocTree.Proofs.Paths
import DocTree.Proofs.Coupling
import DocTree.Proofs.Steps
import DocTree.Proofs.Files
import DocTree.Proofs.Confinement
import DocTree.Proofs.Journal
import DocTree.Proofs.Growth
import DocTree.Proofs.PageText
import DocTree.Proofs.Plan
import DocTree.Proofs.Rebuild
import DocTree.Proofs.Ways
import DocTree.Proofs.Stages
import DocTree.Proofs.PageFiles
import DocTree.Proofs.Pruning
import DocTree.Proofs.FileOrder
import DocTree.Proofs.Rejection
import DocTree.Proofs.Foresight
import DocTree.Proofs.Strokes
import DocTree.Proofs.Congruence
import DocTree.Proofs.Indentation
import DocTree.Proofs.ItemStart
import DocTree.Proofs.Interruption
import DocTree.Proofs.ListSeparator
import DocTree.Proofs.Markup
import DocTree.Proofs.Unescape
import DocTree.Proofs.Literal
import DocTree.Proofs.TableText
import DocTree.Proofs.CodeSpan
import DocTree.Proofs.FencedCode
import DocTree.Proofs.HeadingLine
import DocTree.Proofs.Lasting
import DocTree.Proofs.Verbatim
import DocTree.Proofs.ClosingTag
import DocTree.Proofs.CodeLinks
import DocTree.Proofs.HtmlForms
import DocTree.Proofs.EmphasisText
import DocTree.Proofs.Resolution
import DocTree.Proofs.Overload
import DocTree.Proofs.OptionUse
import DocTree.Proofs.LowerCase
import DocTree.Proofs.ValidAnchors
import DocTree.Proofs.Remarks
import DocTree.Proofs.Destination
import DocTree.Proofs.RelativePath
import DocTree.Proofs.Title
import DocTree.Proofs.BodyDepth
import DocTree.Proofs.LineBreaks
import DocTree.Proofs.CommentEnd
