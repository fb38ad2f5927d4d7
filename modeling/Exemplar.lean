import Exemplar.Json.Text
import Exemplar.Json.Reader
import Exemplar.Text.Alphanumeric
import Exemplar.Text.Quoted
import Exemplar.Iri.Resolution
import Exemplar.Rdf.Native
import Exemplar.Rdf.Graph
import Exemplar.Rdf.Store
import Exemplar.Answer
import Exemplar.Template.Folding
import Exemplar.Template.Result
import Exemplar.Context.Compaction
import Exemplar.Context.Declaration
import Exemplar.Proofs.Outcome
import Exemplar.Proofs.Template.Grouping
import Exemplar.Proofs.Template.Folding
import Exemplar.Proofs.Answer.NoMatch
import Exemplar.Proofs.Template.Rearrangement
import Exemplar.Proofs.Algebra.Meaning
import Exemplar.Proofs.Algebra.Reachability
import Exemplar.Proofs.Algebra.WellDesigned
import Exemplar.Proofs.Algebra.BottomUp
import Exemplar.Proofs.Answer.Rows
import Exemplar.Proofs.Compilation.Freshness
import Exemplar.Proofs.Compilation.Items
import Exemplar.Proofs.Compilation.Nesting
import Exemplar.Proofs.Compilation.WellDesigned
import Exemplar.Proofs.Compilation.Guards
import Exemplar.Proofs.Context.Empty
import Exemplar.Proofs.Template.Parts
import Exemplar.Proofs.Answer.Links
import Exemplar.Proofs.Compilation.NodeTemplate
import Exemplar.Proofs.Compilation.NodeOperation
import Exemplar.Proofs.Algebra.NodeMatches
import Exemplar.Proofs.Template.Completion
import Exemplar.Proofs.Answer.Arrays
import Exemplar.Proofs.Answer.Slots
import Exemplar.Proofs.Context.Absolute
import Exemplar.Proofs.Rdf.Integers
import Exemplar.Proofs.Answer.Lists
import Exemplar.Proofs.Template.Awaited
import Exemplar.Proofs.Compilation.Composition
import Exemplar.Proofs.Compilation.Awaited
import Exemplar.Proofs.Answer.Members
import Exemplar.Proofs.Template.Positions
import Exemplar.Proofs.Compilation.Projections
import Exemplar.Proofs.Json.Keys
import Exemplar.Proofs.Template.Shape
import Exemplar.Proofs.Answer.Shape
import Exemplar.Proofs.Compilation.Sharing
import Exemplar.Proofs.Template.Hygiene
import Exemplar.Proofs.Compilation.Hygiene
import Exemplar.Proofs.Json.Constants
import Exemplar.Proofs.Compilation.Settled
import Exemplar.Proofs.Compilation.Constants
import Exemplar.Proofs.Answer.Constants
import Exemplar.Proofs.Algebra.Locality
import Exemplar.Proofs.Compilation.Joins
import Exemplar.Proofs.Compilation.Levels
import Exemplar.Proofs.Answer.Tables
import Exemplar.Proofs.Answer.Meaning
import Exemplar.Proofs.Answer.Extension
import Exemplar.Proofs.Context.Alias
import Exemplar.Proofs.Compilation.Declarations
import Exemplar.Proofs.Template.Placeholders
import Exemplar.Proofs.Compilation.Placeholders
import Exemplar.Proofs.Algebra.Rounds
import Exemplar.Proofs.Compilation.Located
import Exemplar.Proofs.Algebra.PathSolutions
import Exemplar.Proofs.Context.Definitions
import Exemplar.Proofs.Context.Dependencies
import Exemplar.Proofs.Context.Order
import Exemplar.Proofs.Algebra.TripleSolutions
import Exemplar.Proofs.Template.Walks
import Exemplar.Proofs.Template.IndexedLists
import Exemplar.Proofs.Template.Batch
import Exemplar.Proofs.Context.Equations
import Exemplar.Proofs.Context.Names
import Exemplar.Proofs.Context.Compaction
import Exemplar.Proofs.Context.Keywords
import Exemplar.Proofs.Iri.Scanning
import Exemplar.Proofs.Iri.Authority
import Exemplar.Proofs.Iri.DotSegments
import Exemplar.Proofs.Iri.Parts
import Exemplar.Proofs.Iri.References
import Exemplar.Proofs.Context.BaseNames
import Exemplar.Proofs.Number.Rounding
import Exemplar.Proofs.Number.Decimals
import Exemplar.Proofs.Number.Numerals
import Exemplar.Proofs.Rdf.IntegerNumerals
import Exemplar.Proofs.Rdf.NativeValues
import Exemplar.Proofs.Algebra.Frame
import Exemplar.Proofs.Compilation.Names
