import Rebac.Main
import Rebac.Tuple
import Rebac.Proofs.Condition.Lexeme
import Rebac.Proofs.Condition.Written
import Rebac.Proofs.Dsl.Braces
import Rebac.Proofs.Relation.Printed
import Rebac.Proofs.Condition.Read
import Rebac.Proofs.Dsl.Block
import Rebac.Proofs.Dsl.Canonical
import Rebac.Proofs.Compile
import Rebac.Proofs.Validity.Complete
import Rebac.Proofs.Dsl.Remaining
import Rebac.Proofs.Source.Formats
import Rebac.Proofs.Document.Retraction
import Rebac.Proofs.Document.Shape
import Rebac.Proofs.Relation.Splitting
import Rebac.Proofs.Relation.Language
import Rebac.Proofs.Dsl.Scan
import Rebac.Proofs.Dsl.Location
import Rebac.Proofs.Validity.Search
import Rebac.Proofs.Condition.Language
import Rebac.Proofs.Condition.Scope
import Rebac.Proofs.Dsl.Layout
import Rebac.Proofs.Document.Spelled
import Rebac.Proofs.Dsl.Definition
import Rebac.Proofs.Dsl.Commented
import Rebac.Proofs.Dsl.CommentLine
import Rebac.Proofs.Dsl.Interleaving
import Rebac.Proofs.Dsl.Literal
import Rebac.Proofs.Metadata
import Rebac.Proofs.Dsl.Appended
import Rebac.Proofs.Relation.Bracketed
import Rebac.Proofs.Source.DefaultVersion
import Rebac.Proofs.Json.Budget
