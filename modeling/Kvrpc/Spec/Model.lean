import Mathlib.Data.List.Basic

/-!
# Schema descriptors, DDL jobs and errors

The Go package `model` is not in the source. Its types are modelled from the spec
(§3) and from the fields the DDL worker and the meta store read and write. A Go
pointer that may be `nil` is an `Option`: the worker dereferences every collection
and index of a `DBInfo`, and a `nil` one panics.
-/

namespace Kvrpc

/-- Modelled from the spec: `osc` schema states. -/
inductive SchemaState
  | none
  | deleteOnly
  | writeOnly
  | writeReorganization
  | public
  deriving DecidableEq, Repr

/-- Modelled from the spec: an index descriptor. -/
structure IndexInfo where
  id : ℤ
  name : String
  state : SchemaState
  deriving DecidableEq, Repr

/-- Modelled from the spec: a collection descriptor; `indices` are pointers (`none` is `nil`). -/
structure CollectionInfo where
  id : ℤ
  name : String
  indices : List (Option IndexInfo)
  state : SchemaState
  deriving DecidableEq, Repr

/-- Modelled from the spec: a database descriptor; `collections` are pointers (`none` is `nil`). -/
structure DBInfo where
  id : ℤ
  name : String
  collections : List (Option CollectionInfo)
  state : SchemaState
  deriving DecidableEq, Repr

/-- Modelled from the spec: DDL action types. -/
inductive ActionType
  | createSchema
  | createCollection
  | addIndex
  | other (code : ℕ)
  deriving DecidableEq, Repr

/-- Modelled from the spec: DDL job states (§3). -/
inductive JobState
  | none
  | running
  | done
  | cancelled
  | cancelling
  | synced
  | rollbackDone
  deriving DecidableEq, Repr

/-- The errors of the meta store, the DDL worker, the document store, the client and the KV
substrate. -/
inductive Err
  /-- A failed KV call (`ErrTxnTooBig`, a conflict, an I/O error). -/
  | kv
  | dbNotExists
  | dbExists
  | collectionNotExists
  | collectionExists
  /-- `ErrDBAlreadyExists` of the DDL worker. -/
  | dbAlreadyExists
  /-- A `json.Unmarshal` failure. -/
  | json
  /-- `job.DecodeArg` failed. -/
  | decodeArg
  /-- `invalid ddl job type`. -/
  | invalidJobType (type : ActionType)
  /-- A list index out of range. -/
  | outOfRange
  /-- `ErrDocNotFound` of the document store. -/
  | docNotFound
  /-- `ErrDBClosed`: the DB is closed. -/
  | dbClosed
  /-- `ErrDBClosing`: the close barrier takes no more calls. -/
  | dbClosing
  /-- A `bson.Unmarshal` failure. -/
  | bson
  /-- `ErrMutateForROTxn`: a write on a read-only client transaction. -/
  | mutateForROTxn
  /-- A failed call of the RPC transport. -/
  | transport
  deriving DecidableEq, Repr

/-- Modelled from the spec: a DDL job. `errorCount` is the `int32` `ErrorCount`; `rawArg` is
the job's argument when it decodes as a `DBInfo`; `binlog` is the schema version and
database `FinishDBJob` records. -/
structure Job where
  id : ℤ
  type : ActionType
  state : JobState
  schemaState : SchemaState
  error : Option Err
  errorCount : ℤ
  rawArg : Option DBInfo
  binlog : Option (ℤ × DBInfo)
  deriving DecidableEq, Repr

namespace Job

/-- Modelled from the spec: `IsDone`. -/
def IsDone (j : Job) : Bool := j.state == .done
/-- Modelled from the spec: `IsRollbackDone`. -/
def IsRollbackDone (j : Job) : Bool := j.state == .rollbackDone
/-- Modelled from the spec: `IsCancelled`. -/
def IsCancelled (j : Job) : Bool := j.state == .cancelled
/-- Modelled from the spec: `IsSynced`. -/
def IsSynced (j : Job) : Bool := j.state == .synced
/-- Modelled from the spec: `IsFinished`: done, rolled back or cancelled. -/
def IsFinished (j : Job) : Bool := j.IsDone || j.IsRollbackDone || j.IsCancelled

/-- Modelled from the spec: `FinishDBJob(state, schemaState, version, dbInfo)`. -/
def finishDBJob (j : Job) (state : JobState) (schemaState : SchemaState) (ver : ℤ)
    (db : DBInfo) : Job :=
  { j with state, schemaState, binlog := some (ver, db) }

end Job

/-- Modelled from the spec: a `SchemaDiff`. -/
structure SchemaDiff where
  version : ℤ
  type : ActionType
  collectionIDs : List ℤ
  arg : Option DBInfo
  deriving DecidableEq, Repr

end Kvrpc
