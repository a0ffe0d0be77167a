import UrlRouting.Json.Decoding
import UrlRouting.Pattern.Expression
import UrlRouting.Router
import UrlRouting.Template.Scanner
import UrlRouting.Proofs.RouteTable.History
import UrlRouting.Proofs.RouteTable.Consistency
import UrlRouting.Proofs.RouteTable.Outcome
import UrlRouting.Proofs.Converter.Language
import UrlRouting.Proofs.Pattern.Division
import UrlRouting.Proofs.Template.Segments
import UrlRouting.Proofs.Text.Quote
import UrlRouting.Proofs.Template.Placeholder
import UrlRouting.Proofs.Template.Grammar
import UrlRouting.Proofs.Pattern.Compile
import UrlRouting.Proofs.Converter.RoundTrip
import UrlRouting.Proofs.Pattern.Matching
import UrlRouting.Proofs.Pattern.Separation
import UrlRouting.Proofs.Pattern.Segmented
import UrlRouting.Proofs.Rule.RoundTrip
import UrlRouting.Proofs.Expression.Repetition
import UrlRouting.Proofs.Converter.Declared
import UrlRouting.Proofs.Converter.Tree
import UrlRouting.Proofs.Pattern.Search
import UrlRouting.Proofs.Expression.Reader
import UrlRouting.Proofs.Converter.Text
import UrlRouting.Proofs.Pattern.Text
import UrlRouting.Proofs.Decimal.Digits
import UrlRouting.Proofs.Decimal.Rounding
import UrlRouting.Proofs.Decimal.Shortest
import UrlRouting.Proofs.Decimal.ReadBack
import UrlRouting.Proofs.Converter.Rewriting
import UrlRouting.Proofs.Pattern.OpenSlash
import UrlRouting.Proofs.Pattern.Replacement
import UrlRouting.Proofs.Pattern.LastSlash
import UrlRouting.Proofs.Pattern.SlashPolicies
import UrlRouting.Proofs.Rule.Values
import UrlRouting.Proofs.Rule.Reading
import UrlRouting.Proofs.Rule.Rebuilding
import UrlRouting.Proofs.Rule.Following
import UrlRouting.Proofs.RouteTable.Building
import UrlRouting.Proofs.RouteTable.Overflow
import UrlRouting.Proofs.RouteTable.Redirect
import UrlRouting.Proofs.RouteTable.Following
import UrlRouting.Proofs.RouteTable.KeyedSort
import UrlRouting.Proofs.RouteTable.Delivery
import UrlRouting.Proofs.RouteTable.Insertion
import UrlRouting.Proofs.RouteTable.AutomaticHead
import UrlRouting.Proofs.RouteTable.Reordering
import UrlRouting.Proofs.RouteTable.Identity
import UrlRouting.Proofs.RouteTable.Specificity
import UrlRouting.Proofs.Router.Sealing
import UrlRouting.Proofs.RouteTable.AddedSlash
import UrlRouting.Proofs.Rule.FixedText
import UrlRouting.Proofs.Converter.DigitTexts
import UrlRouting.Proofs.Arguments.Spelling
import UrlRouting.Proofs.Arguments.Clause
import UrlRouting.Proofs.Arguments.Assignment
import UrlRouting.Proofs.Converter.Signatures
import UrlRouting.Proofs.Rule.OneVariable
import UrlRouting.Proofs.Rule.PathCover
import UrlRouting.Proofs.Decimal.Plain
import UrlRouting.Proofs.Arguments.BareItems
import UrlRouting.Proofs.Rule.Choice
import UrlRouting.Proofs.Text.Slice
import UrlRouting.Proofs.Arguments.Scanner
import UrlRouting.Proofs.Template.Scanner
import UrlRouting.Proofs.Template.Faults
import UrlRouting.Proofs.Text.Percent
import UrlRouting.Proofs.Resolver.Anchors
