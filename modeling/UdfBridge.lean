import UdfBridge.Query.Compile
import UdfBridge.Server
import UdfBridge.Session
import UdfBridge.Proofs.Grammar.Match
import UdfBridge.Proofs.Source.Division
import UdfBridge.Proofs.Text.Line
import UdfBridge.Proofs.Source.Undecorated
import UdfBridge.Proofs.Sql.Token
import UdfBridge.Proofs.Sql.ReadBack
import UdfBridge.Proofs.Query.Literal
import UdfBridge.Proofs.Query.Readable
import UdfBridge.Proofs.Query.Translate
import UdfBridge.Proofs.Query.Select
import UdfBridge.Proofs.Query.Condition
import UdfBridge.Proofs.Query.Alias
import UdfBridge.Proofs.Routine.DollarQuote
import UdfBridge.Proofs.Routine.Statement
import UdfBridge.Proofs.Signature.RoundTrip
import UdfBridge.Proofs.Registry.Identity
import UdfBridge.Proofs.Routine.Body
import UdfBridge.Proofs.Source.Indented
import UdfBridge.Proofs.Source.LambdaDefault
import UdfBridge.Proofs.Source.Outline
import UdfBridge.Proofs.Source.Removal
import UdfBridge.Proofs.Source.RemovalHeader
import UdfBridge.Proofs.Source.RemovalLead
import UdfBridge.Proofs.Source.Placed
import UdfBridge.Proofs.Source.Dedented
import UdfBridge.Proofs.Routine.Build
import UdfBridge.Proofs.Session.Define
import UdfBridge.Proofs.Session.Creation
import UdfBridge.Proofs.Session.Minted
import UdfBridge.Proofs.Query.Meaning
import UdfBridge.Proofs.Query.Agreement
import UdfBridge.Proofs.Query.Depth
import UdfBridge.Proofs.Query.Fault
import UdfBridge.Proofs.Query.InnerAlias
import UdfBridge.Proofs.Query.Output
import UdfBridge.Proofs.Types.Tower
import UdfBridge.Proofs.Query.Arithmetic
import UdfBridge.Proofs.Source.Heading
import UdfBridge.Proofs.Session.Variadic
import UdfBridge.Proofs.Session.Undisturbed
import UdfBridge.Proofs.Session.Bind
import UdfBridge.Proofs.Session.Workspace
import UdfBridge.Proofs.Session.Replace
import UdfBridge.Proofs.Text.Margin
import UdfBridge.Proofs.Routine.Indentation
import UdfBridge.Proofs.Grammar.First
import UdfBridge.Proofs.Text.Crlf
import UdfBridge.Proofs.Source.Scan
import UdfBridge.Proofs.Source.Follow
import UdfBridge.Proofs.Source.Literal
import UdfBridge.Proofs.Grammar.Nodes
import UdfBridge.Proofs.Source.LineEnding
import UdfBridge.Proofs.Source.Crlf
import UdfBridge.Proofs.Source.Arrangement
import UdfBridge.Proofs.Source.Name
import UdfBridge.Proofs.Routine.CallLine
import UdfBridge.Proofs.Source.Sealed
import UdfBridge.Proofs.Source.SealedHeader
import UdfBridge.Proofs.Source.OpaqueBody
import UdfBridge.Proofs.Source.Expression
import UdfBridge.Proofs.Source.Reading
import UdfBridge.Proofs.Source.Printer
import UdfBridge.Proofs.Source.Printed
import UdfBridge.Proofs.Source.KeywordLine
import UdfBridge.Proofs.Source.DecoratorLines
import UdfBridge.Proofs.Source.SameDefinition
import UdfBridge.Proofs.Source.Scanned
import UdfBridge.Proofs.Source.Swapped
import UdfBridge.Proofs.Source.OpaqueLiteral
import UdfBridge.Proofs.Source.Aligned
import UdfBridge.Proofs.Source.Remark
import UdfBridge.Proofs.Source.Interrupted
import UdfBridge.Proofs.Source.InvisibleComment
import UdfBridge.Proofs.Source.Tree
import UdfBridge.Proofs.Source.WellRead
