import ActionTree.Main
import ActionTree.Node.Build
import ActionTree.Node.Children
import ActionTree.Node.Dependencies
import ActionTree.Node.Equality
import ActionTree.Node.Induction
import ActionTree.Node.Traversal
import ActionTree.Value.Operation
import ActionTree.Writer.Token
import ActionTree.Proofs.Character.Directory
import ActionTree.Proofs.Character.Insertion
import ActionTree.Proofs.Character.Soundness
import ActionTree.Proofs.Command.Rendering
import ActionTree.Proofs.Constant.Compound
import ActionTree.Proofs.Constant.Effects
import ActionTree.Proofs.Constant.Folding
import ActionTree.Proofs.Constant.InPlace
import ActionTree.Proofs.Constant.NormalForm
import ActionTree.Proofs.Constant.Repeated
import ActionTree.Proofs.Constant.Visited
import ActionTree.Proofs.Decimal.ReadBack
import ActionTree.Proofs.Dependency.Collector
import ActionTree.Proofs.Dependency.Wildcard
import ActionTree.Proofs.Double.Exact
import ActionTree.Proofs.Double.Remainder
import ActionTree.Proofs.Double.Value
import ActionTree.Proofs.Duplicate.Transparency
import ActionTree.Proofs.Equality.Interchange
import ActionTree.Proofs.Image.Jpeg
import ActionTree.Proofs.Method.Batch
import ActionTree.Proofs.Method.Folding
import ActionTree.Proofs.Naming.Registers
import ActionTree.Proofs.Reading.RoundTrip
import ActionTree.Proofs.Schema.Character
import ActionTree.Proofs.Schema.Method
import ActionTree.Proofs.Text.HexNumber
import ActionTree.Proofs.Text.Literal
import ActionTree.Proofs.Text.NumberLiteral
import ActionTree.Proofs.Text.NumberTests
import ActionTree.Proofs.Text.NumberText
import ActionTree.Proofs.Text.NumericString
import ActionTree.Proofs.Text.Units
import ActionTree.Proofs.Tree.Traversal
import ActionTree.Proofs.Typing.Folding
import ActionTree.Proofs.Typing.Primitive
import ActionTree.Proofs.Value.Comparison
import ActionTree.Proofs.Value.Conversion
import ActionTree.Proofs.Writing.Assignment
import ActionTree.Proofs.Writing.Budget
import ActionTree.Proofs.Writing.Direct
import ActionTree.Proofs.Writing.Indentation
import ActionTree.Proofs.Writing.Member
import ActionTree.Proofs.Writing.Minus
import ActionTree.Proofs.Writing.Receiver
