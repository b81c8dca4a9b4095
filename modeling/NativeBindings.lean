import NativeBindings.Main
import NativeBindings.Proofs.Comment.Place
import NativeBindings.Proofs.Comment.Carry
import NativeBindings.Proofs.Comment.Reachable
import NativeBindings.Proofs.Conditional.Division
import NativeBindings.Proofs.Conditional.Block
import NativeBindings.Proofs.Conditional.LiveComment
import NativeBindings.Proofs.Conditional.DeadLine
import NativeBindings.Proofs.Conditional.Nesting
import NativeBindings.Proofs.Conditional.Inclusion
import NativeBindings.Proofs.Conditional.Report
import NativeBindings.Proofs.Text.Collapse
import NativeBindings.Proofs.Text.Word
import NativeBindings.Proofs.Scanner.Reading
import NativeBindings.Proofs.Declaration.Level
import NativeBindings.Proofs.Declaration.Parameter
import NativeBindings.Proofs.Declaration.Head
import NativeBindings.Proofs.Scanner.Prototype
import NativeBindings.Proofs.Catalogue.Agreement
import NativeBindings.Proofs.Pass.Merge
import NativeBindings.Proofs.Scanner.Accounting
import NativeBindings.Proofs.Scanner.Move
import NativeBindings.Proofs.Scanner.LineBreak
import NativeBindings.Proofs.Catalogue.Groups
import NativeBindings.Proofs.Emission.Block
import NativeBindings.Proofs.Emission.Listing
import NativeBindings.Proofs.Emission.BrokenLine
import NativeBindings.Proofs.Emission.Appearance
import NativeBindings.Proofs.Emission.Conflict
import NativeBindings.Proofs.Scanner.Head
import NativeBindings.Proofs.Scanner.OpenList
import NativeBindings.Proofs.Scanner.Machine
import NativeBindings.Proofs.Scanner.Recovery
import NativeBindings.Proofs.CType.Qualifier
import NativeBindings.Proofs.Marshal.Tag
import NativeBindings.Proofs.Marshal.Counterpart
import NativeBindings.Proofs.Marshal.Interchange
import NativeBindings.Proofs.Marshal.Typedef
import NativeBindings.Proofs.FileTree.Change
import NativeBindings.Proofs.Path.Join
import NativeBindings.Proofs.Pass.Directory
import NativeBindings.Proofs.Conditional.Concatenation
import NativeBindings.Proofs.Scanner.Concatenation
import NativeBindings.Proofs.Generation.OneTarget
import NativeBindings.Proofs.Generation.AllTargets
import NativeBindings.Proofs.Generation.Errors
import NativeBindings.Proofs.Text.Utf8
import NativeBindings.Proofs.Fingerprint.Framing
import NativeBindings.Proofs.Emission.OneByte
import NativeBindings.Proofs.Declaration.Division
import NativeBindings.Proofs.Declaration.DefaultValue
import NativeBindings.Proofs.Scanner.Alike
import NativeBindings.Proofs.Scanner.Balance
import NativeBindings.Proofs.Scanner.DefaultValue
import NativeBindings.Proofs.Declaration.Attribute
import NativeBindings.Proofs.Scanner.Attribute
import NativeBindings.Proofs.Conditional.Grammar
import NativeBindings.Proofs.Conditional.Operand
import NativeBindings.Proofs.Marshal.OutBuffer
import NativeBindings.Proofs.Marshal.Default
import NativeBindings.Proofs.Text.Natural
import NativeBindings.Proofs.Marshal.Element
import NativeBindings.Proofs.CType.Constness
import NativeBindings.Proofs.Declaration.Token
import NativeBindings.Proofs.Declaration.Unnamed
import NativeBindings.Proofs.Declaration.TagPlace
import NativeBindings.Proofs.Declaration.Spacing
import NativeBindings.Proofs.Declaration.Respaced
import NativeBindings.Proofs.Scanner.Respaced
import NativeBindings.Proofs.Emission.Literal
import NativeBindings.Proofs.CType.Shape
import NativeBindings.Proofs.CType.OuterQualifier
import NativeBindings.Proofs.CType.Template
import NativeBindings.Proofs.CType.ConstPlace
import NativeBindings.Proofs.CType.BaseSpelling
import NativeBindings.Proofs.CType.SpelledType
import NativeBindings.Proofs.CType.RoundTrip
import NativeBindings.Proofs.Marshal.ConstPlace
import NativeBindings.Proofs.Comment.Remark
import NativeBindings.Proofs.Scanner.Completion
import NativeBindings.Proofs.Conditional.PhysicalLine
import NativeBindings.Proofs.Emission.Documentation
import NativeBindings.Proofs.Declaration.Name
import NativeBindings.Proofs.Emission.Identifier
import NativeBindings.Proofs.Path.Ancestors
import NativeBindings.Proofs.Discovery.SameProject
import NativeBindings.Proofs.Config.Imports
import NativeBindings.Proofs.Conditional.DirectiveLine
import NativeBindings.Proofs.Comment.Piece
import NativeBindings.Proofs.Comment.Kept
import NativeBindings.Proofs.Comment.Removal
import NativeBindings.Proofs.Scanner.Reachable
import NativeBindings.Proofs.Scanner.Termination
import NativeBindings.Proofs.Text.WordOffset
import NativeBindings.Proofs.Marshal.Indirection
import NativeBindings.Proofs.Declaration.NormalSpelling
