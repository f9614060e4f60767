import BoundQuery.Builder
import BoundQuery.Catalogue
import BoundQuery.Clause.Group
import BoundQuery.Clause.Order
import BoundQuery.Clause.Projection
import BoundQuery.Config
import BoundQuery.Decimal
import BoundQuery.Dialect
import BoundQuery.Error
import BoundQuery.Event
import BoundQuery.Filter.Condition
import BoundQuery.Filter.Entry
import BoundQuery.Filter.Operator
import BoundQuery.Join
import BoundQuery.Logging
import BoundQuery.Pipeline
import BoundQuery.Registry.Basic
import BoundQuery.Registry.Stock
import BoundQuery.Schema.Model
import BoundQuery.Schema.Reading
import BoundQuery.Schema.WholeNumber
import BoundQuery.Shortcut
import BoundQuery.Stage.Basic
import BoundQuery.Stage.Kind
import BoundQuery.Stage.Read
import BoundQuery.Statement.Accumulated
import BoundQuery.Statement.Aggregate
import BoundQuery.Statement.Delete
import BoundQuery.Statement.Insert
import BoundQuery.Statement.Select
import BoundQuery.Statement.Update
import BoundQuery.Text.Blank
import BoundQuery.Text.Pattern
import BoundQuery.Text.Printable
import BoundQuery.Text.Quoted
import BoundQuery.Text.Reference
import BoundQuery.Text.Upper
import BoundQuery.Value.Basic
import BoundQuery.Value.Items
import BoundQuery.Value.Json
import BoundQuery.Value.Key
import BoundQuery.Value.Show
import BoundQuery.Work
import BoundQuery.Workspace
import BoundQuery.Proofs.Names
import BoundQuery.Proofs.Placeholder
import BoundQuery.Proofs.Writing
import BoundQuery.Proofs.Alignment.Filter
import BoundQuery.Proofs.Compiled
import BoundQuery.Proofs.RawText
import BoundQuery.Proofs.Discipline.Basic
import BoundQuery.Proofs.Discipline.Filter
import BoundQuery.Proofs.Discipline.Clause
import BoundQuery.Proofs.Discipline.Statement
import BoundQuery.Proofs.Discipline.Session
import BoundQuery.Proofs.Run
import BoundQuery.Proofs.Alignment.Session
import BoundQuery.Proofs.Fragment
import BoundQuery.Proofs.Spelling
import BoundQuery.Proofs.Spelled
import BoundQuery.Proofs.Accepted
import BoundQuery.Proofs.Vacuity
import BoundQuery.Proofs.Restriction
import BoundQuery.Proofs.Reader.Token
import BoundQuery.Proofs.Reader.Condition
import BoundQuery.Proofs.Reader.Meaning
import BoundQuery.Proofs.SideBySide
import BoundQuery.Proofs.Steady
import BoundQuery.Proofs.Nesting
import BoundQuery.Proofs.Cache
import BoundQuery.Proofs.Outcome
import BoundQuery.Proofs.Edit
import BoundQuery.Proofs.FailedCall
import BoundQuery.Proofs.Alike.Filter
import BoundQuery.Proofs.Alike.Statement
import BoundQuery.Proofs.Alike.Call
import BoundQuery.Proofs.Statement.Spelling
import BoundQuery.Proofs.Statement.Spelled
import BoundQuery.Proofs.Rows
import BoundQuery.Proofs.CommonFragment
import BoundQuery.Proofs.Commuting
import BoundQuery.Proofs.Reordering
import BoundQuery.Proofs.FirstFault
import BoundQuery.Proofs.Demand
import BoundQuery.Proofs.Alignment.Handler
import BoundQuery.Proofs.Closure
import BoundQuery.Proofs.Failure
import BoundQuery.Proofs.Conjunction
import BoundQuery.Proofs.TextMap
import BoundQuery.Proofs.Registration
import BoundQuery.Proofs.Insertion
import BoundQuery.Proofs.BulkUpdate
import BoundQuery.Proofs.Elision
import BoundQuery.Proofs.Appending
import BoundQuery.Proofs.Comment
import BoundQuery.Proofs.Literal
import BoundQuery.Proofs.Qualification
import BoundQuery.Proofs.LiteralColumns
import BoundQuery.Proofs.OperatorUpdate
import BoundQuery.Proofs.Json.Reader
import BoundQuery.Proofs.Json.ReadBack
import BoundQuery.Proofs.Json.Stored
import BoundQuery.Proofs.Conjunct.Words
import BoundQuery.Proofs.Conjunct.Condition
import BoundQuery.Proofs.Conjunct.Pipeline
