import EventScript.Binding.Binder
import EventScript.Binding.Calls
import EventScript.Binding.Compiling
import EventScript.Binding.Converting
import EventScript.Binding.Fault
import EventScript.Binding.MemberLookup
import EventScript.Binding.Naming
import EventScript.Binding.Operators
import EventScript.Bound
import EventScript.Bound.Printer
import EventScript.CommandLine
import EventScript.CommandLine.Arguments
import EventScript.CommandLine.Request
import EventScript.Compile
import EventScript.Conversion
import EventScript.Conversion.Resolution
import EventScript.Diagnostic
import EventScript.Diagnostic.Heading
import EventScript.Dispatch
import EventScript.Expr
import EventScript.Expr.Parser
import EventScript.Expr.Printer
import EventScript.ExtensionListing
import EventScript.FileTree
import EventScript.Host.Building
import EventScript.Host.Extensions
import EventScript.Host.Inheritance
import EventScript.Host.Members
import EventScript.Host.NamespaceTree
import EventScript.Host.Standard
import EventScript.Host.TypeTable
import EventScript.Host.TypeTree
import EventScript.Input
import EventScript.Json
import EventScript.Json.Reader
import EventScript.Main
import EventScript.NameScope
import EventScript.Numeric
import EventScript.Operator
import EventScript.Options
import EventScript.Proofs.Agreement.Binder
import EventScript.Proofs.Agreement.Calls
import EventScript.Proofs.Agreement.Compiling
import EventScript.Proofs.Agreement.Host
import EventScript.Proofs.Agreement.Naming
import EventScript.Proofs.Agreement.Script
import EventScript.Proofs.Binding.Binder
import EventScript.Proofs.Binding.Calls
import EventScript.Proofs.Binding.Choice
import EventScript.Proofs.Binding.ChosenCall
import EventScript.Proofs.Binding.Compiling
import EventScript.Proofs.Binding.Converting
import EventScript.Proofs.Binding.ImportOrder
import EventScript.Proofs.Binding.MemberAccess
import EventScript.Proofs.Binding.Naming
import EventScript.Proofs.Binding.Operators
import EventScript.Proofs.Binding.Overloads
import EventScript.Proofs.Binding.Signatures
import EventScript.Proofs.Binding.Traversal
import EventScript.Proofs.Binding.WellTyped
import EventScript.Proofs.Compile
import EventScript.Proofs.Conversion.Applicability
import EventScript.Proofs.Conversion.Modes
import EventScript.Proofs.Conversion.Null
import EventScript.Proofs.Conversion.Rules
import EventScript.Proofs.Conversion.Steadiness
import EventScript.Proofs.Conversion.Success
import EventScript.Proofs.Conversion.Undoing
import EventScript.Proofs.Conversion.Wrappers
import EventScript.Proofs.Dispatch
import EventScript.Proofs.Erasure.Binder
import EventScript.Proofs.Erasure.Calls
import EventScript.Proofs.Erasure.Compiling
import EventScript.Proofs.Erasure.Naming
import EventScript.Proofs.Erasure.Script
import EventScript.Proofs.Expr.AsOperator
import EventScript.Proofs.Expr.CastFree
import EventScript.Proofs.Expr.Closing
import EventScript.Proofs.Expr.Completeness
import EventScript.Proofs.Expr.Concrete
import EventScript.Proofs.Expr.Directives
import EventScript.Proofs.Expr.Layout
import EventScript.Proofs.Expr.Literals
import EventScript.Proofs.Expr.Nested
import EventScript.Proofs.Expr.Parts
import EventScript.Proofs.Expr.Printing
import EventScript.Proofs.Expr.Readable
import EventScript.Proofs.Expr.Reading
import EventScript.Proofs.Expr.RoundTrip
import EventScript.Proofs.Expr.Shifting
import EventScript.Proofs.Expr.Soundness
import EventScript.Proofs.Expr.TypeNames
import EventScript.Proofs.ExtensionListing
import EventScript.Proofs.ExtensionSearch
import EventScript.Proofs.Failing.Binder
import EventScript.Proofs.Failing.Calls
import EventScript.Proofs.Failing.Script
import EventScript.Proofs.Failing.Tree
import EventScript.Proofs.FullName.Resolving
import EventScript.Proofs.FullName.Search
import EventScript.Proofs.FullName.Text
import EventScript.Proofs.FullName.Words
import EventScript.Proofs.Heading
import EventScript.Proofs.Host.Assignability
import EventScript.Proofs.Host.BaseChain
import EventScript.Proofs.Host.Building
import EventScript.Proofs.Host.Extensions
import EventScript.Proofs.Host.Inheritance
import EventScript.Proofs.Host.InstanceInheritance
import EventScript.Proofs.Host.InstanceNames
import EventScript.Proofs.Host.Instantiation
import EventScript.Proofs.Host.InterfaceOrder
import EventScript.Proofs.Host.Keeping
import EventScript.Proofs.Host.MemberCalls
import EventScript.Proofs.Host.MemberSearch
import EventScript.Proofs.Host.Mirroring
import EventScript.Proofs.Host.NamedTypes
import EventScript.Proofs.Host.NamespaceNodes
import EventScript.Proofs.Host.NamespacePaths
import EventScript.Proofs.Host.OpenAssignability
import EventScript.Proofs.Host.OpenTypes
import EventScript.Proofs.Host.Parameters
import EventScript.Proofs.Host.PlacedTypes
import EventScript.Proofs.Host.Reached
import EventScript.Proofs.Host.Replacement
import EventScript.Proofs.Host.SameTypes
import EventScript.Proofs.Host.Standard
import EventScript.Proofs.Host.Substitution
import EventScript.Proofs.Host.SubstitutionAgreement
import EventScript.Proofs.Host.TypeTable
import EventScript.Proofs.Lexical.Binder
import EventScript.Proofs.Lexical.Compiling
import EventScript.Proofs.Lexical.Naming
import EventScript.Proofs.Lexical.Reference
import EventScript.Proofs.Loading
import EventScript.Proofs.MethodOwners
import EventScript.Proofs.NestedScopes
import EventScript.Proofs.OptionSpellings
import EventScript.Proofs.Placement.Binder
import EventScript.Proofs.Placement.Calls
import EventScript.Proofs.Placement.Compiling
import EventScript.Proofs.Placement.Naming
import EventScript.Proofs.Placement.Parsing
import EventScript.Proofs.Placement.Script
import EventScript.Proofs.Placement.Tokens
import EventScript.Proofs.PrivateMethods
import EventScript.Proofs.Registration
import EventScript.Proofs.Reporting.Binder
import EventScript.Proofs.Reporting.Calls
import EventScript.Proofs.Reporting.Cascades
import EventScript.Proofs.Reporting.Compiling
import EventScript.Proofs.Reporting.Naming
import EventScript.Proofs.Reporting.Script
import EventScript.Proofs.Runtime
import EventScript.Proofs.ScopeFlags
import EventScript.Proofs.Session
import EventScript.Proofs.Settling.Binder
import EventScript.Proofs.Settling.Calls
import EventScript.Proofs.Settling.Compiling
import EventScript.Proofs.Settling.Naming
import EventScript.Proofs.Settling.Script
import EventScript.Proofs.Settling.Settled
import EventScript.Proofs.Token.Coverage
import EventScript.Proofs.Token.Cutting
import EventScript.Proofs.Token.Enclosing
import EventScript.Proofs.Token.Gaps
import EventScript.Proofs.Token.Integers
import EventScript.Proofs.Token.Order
import EventScript.Proofs.Token.Reaching
import EventScript.Proofs.Token.Scanning
import EventScript.Proofs.Token.Slices
import EventScript.Proofs.Token.Spelling
import EventScript.Proofs.Token.Strings
import EventScript.Proofs.Token.Tiling
import EventScript.Proofs.Visibility
import EventScript.Real.Binary64
import EventScript.Real.Shortest
import EventScript.Report
import EventScript.Rest
import EventScript.Runtime
import EventScript.ScopeFlags
import EventScript.Span
import EventScript.SyntaxError
import EventScript.Text.Blank
import EventScript.Text.CodeRange
import EventScript.Text.Letter
import EventScript.Text.Printable
import EventScript.Text.Quoted
import EventScript.Text.Split
import EventScript.Token
import EventScript.Token.Lexer
