import RecordStore.Error

/-!
# Configuration

A `Config` names the table of a repository and settles how it treats records marked as deleted.  A
`ClientConfig` describes how to reach a remote store at a stage of deployment.
-/

namespace RecordStore

/-- The settings of a repository. -/
structure Config where
  /-- The table that every request addresses. -/
  table : String := ""
  /-- What separates the type of a key from its identifier. -/
  delimiter : Char := '#'
  /-- Whether reads leave out records marked as deleted, unless a request decides otherwise. -/
  filterDeleted : Bool := true
  /-- Whether a removal only marks a record as deleted, unless a request decides otherwise. -/
  softDelete : Bool := true
deriving DecidableEq

namespace Config

/-- What is wrong with a configuration, if anything: a table name has to have a character that is not
blank, and the delimiter must not be a letter or numeral. -/
def fault? (c : Config) : Option ConfigFault :=
  if c.table.toList.all Text.isBlank then some .blankTableName
  else if Text.isAlphanumeric c.delimiter then some .alphanumericDelimiter
  else none

end Config

/-- Where a remote store runs. -/
inductive Stage where
  | local
  | production
deriving DecidableEq

/-- How to reach a remote store; what is absent is left to the client's own defaults. -/
structure ClientConfig where
  region : Option String
  endpoint : Option String
  timeoutMs : Option Nat
deriving DecidableEq

namespace ClientConfig

/-- The settings of a stage: on the own machine, a fixed address; in production, the defaults. -/
def forStage : Stage → ClientConfig
  | .local => ⟨some "local", some "http://localhost:8000", none⟩
  | .production => ⟨none, none, none⟩

/-- Settings with others over them, where those are given. -/
def override (c given : ClientConfig) : ClientConfig :=
  ⟨given.region.or c.region, given.endpoint.or c.endpoint, given.timeoutMs.or c.timeoutMs⟩

end ClientConfig

end RecordStore
