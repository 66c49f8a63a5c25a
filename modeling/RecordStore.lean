import RecordStore.Clause
import RecordStore.Config
import RecordStore.Dict
import RecordStore.Document
import RecordStore.Entity
import RecordStore.Error
import RecordStore.Expression.Condition
import RecordStore.Expression.ConditionHolding
import RecordStore.Expression.ConditionReading
import RecordStore.Expression.Context
import RecordStore.Expression.Operand
import RecordStore.Expression.Scan
import RecordStore.Expression.Token
import RecordStore.Expression.Update
import RecordStore.Expression.UpdateApplying
import RecordStore.Expressions
import RecordStore.Fields
import RecordStore.Naming
import RecordStore.Number.Binary64
import RecordStore.Number.Literal
import RecordStore.Number.Shortest
import RecordStore.OrderedDict
import RecordStore.Paging
import RecordStore.Proofs.Expression.Descent
import RecordStore.Proofs.Expression.Lexemes
import RecordStore.Proofs.Expression.Spelling
import RecordStore.Repository.Basic
import RecordStore.Repository.Plan
import RecordStore.SoftDelete
import RecordStore.Step
import RecordStore.Store.Journal
import RecordStore.Store.Memory
import RecordStore.Store.Request
import RecordStore.Store.Table
import RecordStore.Text.Alphabetic
import RecordStore.Text.Class
import RecordStore.Text.Extending
import RecordStore.Text.Numeric
import RecordStore.Text.Quoted
import RecordStore.Text.Unprintable
import RecordStore.Value.Basic
import RecordStore.Value.Canonical
import RecordStore.Value.Order
import RecordStore.Value.Written
import RecordStore.Proofs.Dict
import RecordStore.Proofs.Expression.RoundTrip
import RecordStore.Proofs.Naming
import RecordStore.Proofs.Compile.Bindings
import RecordStore.Proofs.Compile.Deciding
import RecordStore.Proofs.Fields
import RecordStore.Proofs.Compile.Conditions
import RecordStore.Proofs.Compile.Actions
import RecordStore.Proofs.Compile.Requests
import RecordStore.Proofs.Store.Reading
import RecordStore.Proofs.Store.SoftDelete
import RecordStore.Proofs.Store.Reachable
import RecordStore.Proofs.Store.ReadOrder
import RecordStore.Proofs.Store.Sorting
import RecordStore.Proofs.Store.Resuming
import RecordStore.Proofs.Store.AllPages
import RecordStore.Proofs.Repository.RecursiveReads
import RecordStore.Proofs.Value.Canonical
import RecordStore.Proofs.Store.Writing
import RecordStore.Proofs.Store.KeyedMap
import RecordStore.Proofs.Store.KeyedRuns
import RecordStore.Proofs.Store.Interleaving
import RecordStore.Proofs.Repository.Guards
import RecordStore.Proofs.Repository.Operations
import RecordStore.Proofs.Repository.Timestamps
import RecordStore.Proofs.Expression.Grammar
import RecordStore.Proofs.Expression.Alternatives
import RecordStore.Proofs.Store.CallerFilters
import RecordStore.Proofs.Repository.Failures
import RecordStore.Proofs.Repository.Readable
import RecordStore.Proofs.Number.Whole
import RecordStore.Proofs.Repository.Clients
import RecordStore.Proofs.Repository.Versions
import RecordStore.Proofs.Expression.Accepting
import RecordStore.Proofs.Repository.Sums
import RecordStore.Proofs.Repository.MovedKeys
import RecordStore.Proofs.Compile.Accounts
import RecordStore.Proofs.Compile.Tables
import RecordStore.Proofs.Paging
import RecordStore.Proofs.Repository.WaysOfPaging
import RecordStore.Proofs.Store.AllRecords
import RecordStore.Proofs.Store.Ties
import RecordStore.Proofs.Store.Exhausted
import RecordStore.Proofs.Compile.ReadBack
import RecordStore.Proofs.Repository.Removing
import RecordStore.Proofs.Store.Counting
import RecordStore.Proofs.Expression.Layout
import RecordStore.Proofs.Expression.UpdateTexts
import RecordStore.Proofs.Expression.UpdateFrame
import RecordStore.Proofs.Number.Rounding
import RecordStore.Proofs.Value.Documents
import RecordStore.Proofs.Expression.Integers
import RecordStore.Proofs.Value.Order
import RecordStore.Proofs.Store.WeakOrder
import RecordStore.Proofs.Repository.Identifiers
import RecordStore.Proofs.Compile.Building
import RecordStore.Proofs.Expression.Labels
import RecordStore.Proofs.Expression.Agreement
import RecordStore.Proofs.Compile.AddedNames
import RecordStore.Proofs.Expression.Separation
import RecordStore.Proofs.Compile.Spellings
import RecordStore.Proofs.Expression.Equality
