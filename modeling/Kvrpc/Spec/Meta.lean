import Kvrpc.Spec.Structure

/-!
# The meta store

`document/meta/meta.go`: the schema registry on the structured encoding, in one meta
transaction. The `dbs` hash maps `db:<id>` to a database's JSON; the hash `db:<id>` holds
`collection:<cid>` (a collection's JSON) and `collectionAutoID:<cid>` (its counter).

The DDL queue operations of `Meta` are not in the source; they are modelled from the
spec (§4.3) on the default job list, the only one the worker reads. The history is kept
in archiving order, one entry per job id, as the `DDLJobHistory` hash keyed by id is.

`json.Marshal` of a descriptor never fails, so its error branch is left out. The `int64`
loop of `GenGlobalIDs` is given an explicit number of passes.
-/

namespace Kvrpc

open Go Tx WTx

/-- The JSON codecs of the schema descriptors. -/
structure Codecs where
  db : Json DBInfo
  coll : Json CollectionInfo

/-- `dbsKey`. -/
def dbsKey : String := "dbs"
/-- `nextGlobalIDKey`. -/
def nextGlobalIDKey : String := "nextGlobalID"
/-- `schemaVersionKey`. -/
def schemaVersionKey : String := "schemaVersion"
/-- `dbPrefix`. -/
def dbPrefix : String := "db"
/-- `collectionPrefix`. -/
def collectionPrefix : String := "collection"
/-- `collectionAutoIDPrefix`. -/
def collectionAutoIDPrefix : String := "collectionAutoID"

/-- `bytes.HasPrefix`. -/
def hasPrefix (s pre : String) : Bool := pre.data.isPrefixOf s.data

namespace Meta

variable (J : Codecs)

/-- `GenGlobalID`. -/
def genGlobalID : Tx ℤ := inc nextGlobalIDKey 1

/-- The loop of `GenGlobalIDs`, `for i := origID + 1; i <= newID; i++ { ids = append(ids, i) }`
over `int64`, given at most `fuel` passes: `none` when it has not ended by then. -/
def genGlobalIDsLoop (newID : ℤ) : ℕ → ℤ → List ℤ → Option (List ℤ)
  | 0, i, ids => if i ≤ newID then none else some ids
  | fuel + 1, i, ids =>
    if i ≤ newID then genGlobalIDsLoop newID fuel (toInt64 (i + 1)) (ids ++ [i]) else some ids

/-- `GenGlobalIDs(n)`, with its loop given at most `fuel` passes (`none` when it has not
ended by then). `make([]int64, 0, n)` panics on a negative `n`. -/
def genGlobalIDs (fuel : ℕ) (n : ℤ) : Tx (Option (List ℤ)) := do
  let newID ← inc nextGlobalIDKey n
  let origID := toInt64 (newID - n)
  if n < 0 then panic
  return genGlobalIDsLoop newID fuel (toInt64 (origID + 1)) []

/-- `GetGlobalID`. -/
def getGlobalID : Tx ℤ := getInt64Key nextGlobalIDKey

/-- `dbKey`. -/
def dbKey (dbID : ℤ) : String := fmtKey dbPrefix dbID

/-- `collectionKey`. -/
def collectionKey (collectionID : ℤ) : String := fmtKey collectionPrefix collectionID

/-- `collectionAutoIncrementIDKey`. -/
def collectionAutoIncrementIDKey (collectionID : ℤ) : String :=
  fmtKey collectionAutoIDPrefix collectionID

/-- `checkDBExists`. -/
def checkDBExists (dbKey : String) : Tx Unit := do
  match ← hget dbsKey dbKey with
  | none => throw .dbNotExists
  | some _ => pure ()

/-- `checkDBNotExists`. -/
def checkDBNotExists (dbKey : String) : Tx Unit := do
  match ← hget dbsKey dbKey with
  | none => pure ()
  | some _ => throw .dbExists

/-- `checkCollectionExists`. -/
def checkCollectionExists (dbKey collectionKey : String) : Tx Unit := do
  match ← hget dbKey collectionKey with
  | none => throw .collectionNotExists
  | some _ => pure ()

/-- `checkCollectionNotExists`. -/
def checkCollectionNotExists (dbKey collectionKey : String) : Tx Unit := do
  match ← hget dbKey collectionKey with
  | none => pure ()
  | some _ => throw .collectionExists

/-- `GenAutoCollectionID`: adds `step` to the collection's counter and returns the sum. -/
def genAutoCollectionID (dbID collectionID step : ℤ) : Tx ℤ := do
  checkDBExists (dbKey dbID)
  checkCollectionExists (dbKey dbID) (collectionKey collectionID)
  hinc (dbKey dbID) (collectionAutoIncrementIDKey collectionID) step

/-- `GetAutoCollectionID`. -/
def getAutoCollectionID (dbID collectionID : ℤ) : Tx ℤ :=
  hgetInt64 (dbKey dbID) (collectionAutoIncrementIDKey collectionID)

/-- `GetSchemaVersion`. -/
def getSchemaVersion : Tx ℤ := getInt64Key schemaVersionKey

/-- `GenSchemaVersion`. -/
def genSchemaVersion : Tx ℤ := inc schemaVersionKey 1

/-- `CreateDatabase`. -/
def createDatabase (dbInfo : DBInfo) : Tx Unit := do
  checkDBNotExists (dbKey dbInfo.id)
  hset dbsKey (dbKey dbInfo.id) (J.db.marshal dbInfo)

/-- `UpdateDatabase`. -/
def updateDatabase (dbInfo : DBInfo) : Tx Unit := do
  checkDBExists (dbKey dbInfo.id)
  hset dbsKey (dbKey dbInfo.id) (J.db.marshal dbInfo)

/-- `CreateCollection`. -/
def createCollection (dbID : ℤ) (collectionInfo : CollectionInfo) : Tx Unit := do
  checkDBExists (dbKey dbID)
  checkCollectionNotExists (dbKey dbID) (collectionKey collectionInfo.id)
  hset (dbKey dbID) (collectionKey collectionInfo.id) (J.coll.marshal collectionInfo)

/-- `DropDatabase`. -/
def dropDatabase (dbID : ℤ) : Tx Unit := do
  checkDBExists (dbKey dbID)
  hclear (dbKey dbID)
  hdel dbsKey (dbKey dbID)

/-- `DropCollection`; the counter goes too if `delAutoID`. -/
def dropCollection (dbID collectionID : ℤ) (delAutoID : Bool) : Tx Unit := do
  checkDBExists (dbKey dbID)
  checkCollectionExists (dbKey dbID) (collectionKey collectionID)
  hdel (dbKey dbID) (collectionKey collectionID)
  if delAutoID then
    hdel (dbKey dbID) (collectionAutoIncrementIDKey collectionID)

/-- `UpdateCollection`. -/
def updateCollection (dbID : ℤ) (collectionInfo : CollectionInfo) : Tx Unit := do
  checkDBExists (dbKey dbID)
  checkCollectionExists (dbKey dbID) (collectionKey collectionInfo.id)
  hset (dbKey dbID) (collectionKey collectionInfo.id) (J.coll.marshal collectionInfo)

/-- The loop of `ListCollections`: every field with the prefix `collection` is decoded. -/
def decodeCollections : List (String × Bytes) → Tx (List CollectionInfo)
  | [] => pure []
  | (f, v) :: rest =>
    if hasPrefix f collectionPrefix then
      match J.coll.unmarshal v with
      | none => throw .json
      | some c => do return c :: (← decodeCollections rest)
    else decodeCollections rest

/-- `ListCollections`. -/
def listCollections (dbID : ℤ) : Tx (List CollectionInfo) := do
  checkDBExists (dbKey dbID)
  decodeCollections J (← hgetAll (dbKey dbID))

/-- The loop of `ListDatabases`. -/
def decodeDatabases : List (String × Bytes) → Tx (List DBInfo)
  | [] => pure []
  | (_, v) :: rest =>
    match J.db.unmarshal v with
    | none => throw .json
    | some d => do return d :: (← decodeDatabases rest)

/-- `ListDatabases`. -/
def listDatabases : Tx (List DBInfo) := do
  decodeDatabases J (← hgetAll dbsKey)

/-- `GetDatabase`. -/
def getDatabase (dbID : ℤ) : Tx DBInfo := do
  match ← hget dbsKey (dbKey dbID) with
  | none => throw .dbNotExists
  | some v =>
    match J.db.unmarshal v with
    | none => throw .json
    | some d => pure d

/-- `GetCollection`. -/
def getCollection (dbID collectionID : ℤ) : Tx CollectionInfo := do
  checkDBExists (dbKey dbID)
  match ← hget (dbKey dbID) (collectionKey collectionID) with
  | none => throw .collectionNotExists
  | some v =>
    match J.coll.unmarshal v with
    | none => throw .json
    | some c => pure c

/-! ### The DDL queue (modelled from the spec) -/

/-- Modelled from the spec: archive a job: the entry with its id is replaced, or the job
goes last. -/
def putHistory (job : Job) (history : List Job) : List Job :=
  if history.any (·.id == job.id) then history.map fun j => if j.id = job.id then job else j
  else history ++ [job]

/-- Modelled from the spec: `EnQueueDDLJob`: push at the tail. -/
def enQueueDDLJob (job : Job) : WTx Unit := do
  lift kv
  modifyQueue fun q => { q with jobs := q.jobs ++ [job] }

/-- Modelled from the spec: `DeQueueDDLJob`: pop the head. -/
def deQueueDDLJob : WTx (Option Job) := do
  lift kv
  match (← getQueue).jobs with
  | [] => pure none
  | j :: js => do
    modifyQueue fun q => { q with jobs := js }
    pure (some j)

/-- Modelled from the spec: `GetDDLJobByIdx`: `nil` past the end. -/
def getDDLJobByIdx (i : ℕ) : WTx (Option Job) := do
  lift kv
  return (← getQueue).jobs.get? i

/-- Modelled from the spec: `UpdateDDLJob`: rewrite the job at index `i`. -/
def updateDDLJob (i : ℕ) (job : Job) : WTx Unit := do
  lift kv
  if i < (← getQueue).jobs.length then
    modifyQueue fun q => { q with jobs := q.jobs.set i job }
  else throw .outOfRange

/-- Modelled from the spec: `AddHistoryDDLJob`. -/
def addHistoryDDLJob (job : Job) : WTx Unit := do
  lift kv
  modifyQueue fun q => { q with history := putHistory job q.history }

/-- Modelled from the spec: `GetHistoryDDLJob`. -/
def getHistoryDDLJob (id : ℤ) : WTx (Option Job) := do
  lift kv
  return (← getQueue).history.find? (·.id = id)

/-- Modelled from the spec: `SetSchemaDiff`: one diff per version. -/
def setSchemaDiff (diff : SchemaDiff) : Tx Unit := do
  kv
  modifyMeta fun m => { m with diffs := m.diffs.filter (·.version ≠ diff.version) ++ [diff] }

end Meta

/-! ### Calls of a client -/

/-- A call of the schema registry, with its arguments. -/
inductive MetaCall
  | createDatabase (dbInfo : DBInfo)
  | updateDatabase (dbInfo : DBInfo)
  | dropDatabase (dbID : ℤ)
  | createCollection (dbID : ℤ) (collectionInfo : CollectionInfo)
  | updateCollection (dbID : ℤ) (collectionInfo : CollectionInfo)
  | dropCollection (dbID collectionID : ℤ) (delAutoID : Bool)
  | genAutoCollectionID (dbID collectionID step : ℤ)
  | getAutoCollectionID (dbID collectionID : ℤ)
  | getDatabase (dbID : ℤ)
  | getCollection (dbID collectionID : ℤ)
  deriving DecidableEq, Repr

/-- What a registry call returns. -/
inductive Ret
  | unit
  | id (v : ℤ)
  | db (d : DBInfo)
  | coll (c : CollectionInfo)
  deriving DecidableEq, Repr

variable (J : Codecs)

/-- The method a call invokes. -/
def MetaCall.exec : MetaCall → Tx Ret
  | .createDatabase d => do Meta.createDatabase J d; return .unit
  | .updateDatabase d => do Meta.updateDatabase J d; return .unit
  | .dropDatabase i => do Meta.dropDatabase i; return .unit
  | .createCollection i c => do Meta.createCollection J i c; return .unit
  | .updateCollection i c => do Meta.updateCollection J i c; return .unit
  | .dropCollection i c del => do Meta.dropCollection i c del; return .unit
  | .genAutoCollectionID i c step => do return .id (← Meta.genAutoCollectionID i c step)
  | .getAutoCollectionID i c => do return .id (← Meta.getAutoCollectionID i c)
  | .getDatabase i => do return .db (← Meta.getDatabase J i)
  | .getCollection i c => do return .coll (← Meta.getCollection J i c)

/-- Calls one after another on one meta store, with the result of each; an error does
not stop the calls after it. -/
def runCalls : List MetaCall → Ctx → List (Res Ret) × Ctx
  | [], c => ([], c)
  | op :: ops, c =>
    let (r, c) := op.exec J c
    let (rs, c) := runCalls ops c
    (r :: rs, c)

/-! ### Calls of the global id allocator -/

/-- A call of the global id allocator: `GenGlobalID`, or `GenGlobalIDs(n)`. -/
inductive IDCall
  | one
  | many (n : ℕ)
  deriving DecidableEq, Repr

/-- How many ids a call asks for. -/
def IDCall.count : IDCall → ℕ
  | .one => 1
  | .many n => n

/-- The ids a call hands out, with the loop of `GenGlobalIDs` given `fuel` passes (`none`
when it has not ended by then). -/
def IDCall.exec (fuel : ℕ) : IDCall → Tx (Option (List ℤ))
  | .one => do return some [← Meta.genGlobalID]
  | .many n => Meta.genGlobalIDs fuel n

/-- Calls one after another on one meta store, each in a transaction that commits: the ids
they hand out, in order, or `none` once a call has not returned. -/
def IDCall.run (fuel : ℕ) : List IDCall → Tx (Option (List ℤ))
  | [] => pure (some [])
  | x :: xs => do
    match ← x.exec fuel with
    | none => pure none
    | some ids => return (← IDCall.run fuel xs).map (ids ++ ·)

end Kvrpc
