import EntitySql.Json.Reader
import EntitySql.Value.Literal
import EntitySql.FieldType
import EntitySql.Dialect.Postgres
import EntitySql.Statement.Printer
import EntitySql.Repository
import EntitySql.Convention
import EntitySql.Declaration
import EntitySql.Proofs.NullSafety
import EntitySql.Proofs.Calls
import EntitySql.Proofs.Negation
import EntitySql.Proofs.Precedence
import EntitySql.Proofs.JsonPath
import EntitySql.Proofs.Assignments
import EntitySql.Proofs.KeyFilter
import EntitySql.Proofs.Writing
import EntitySql.Proofs.Repetition
import EntitySql.Proofs.Spelling
import EntitySql.Proofs.Placeholders
import EntitySql.Proofs.Independence
import EntitySql.Proofs.Inference
import EntitySql.Proofs.Bookkeeping
import EntitySql.Proofs.Computed
import EntitySql.Proofs.Columns
import EntitySql.Proofs.Conflict
import EntitySql.Proofs.Membership
import EntitySql.Proofs.Documents
import EntitySql.Proofs.Failure
import EntitySql.Proofs.Bracketing
import EntitySql.Proofs.Verbatim
import EntitySql.Proofs.Irrelevance
import EntitySql.Proofs.Capitals
import EntitySql.Proofs.Drafts
import EntitySql.Proofs.KeyChoice
import EntitySql.Proofs.Gaps
import EntitySql.Proofs.Encoding
import EntitySql.Proofs.Literals
import EntitySql.Proofs.Kinds
import EntitySql.Proofs.Derived
import EntitySql.Proofs.Edits
import EntitySql.Proofs.Search
import EntitySql.Proofs.Suffixes
