import Hanko.Impl.Cdc

/-!
# Row changes (`internal/observability/cdc.go`)

What `dispatch` does with a message of the replication stream: the decoder maps
the columns of a tuple to their names, and the publisher redacts the change and
publishes it. A `range` over a map is a question, answered by the entries of the
map in any order.
-/

namespace Hanko

open Bytes Interact

/-- A `map[string]string`. -/
abbrev StringMap := Finmap fun _ : Bytes => Bytes

/-! ## Changes and events -/

/-- `CDCOp`. -/
inductive CDCOp where
  | insert
  | update
  | delete
  | other (op : Bytes)
deriving DecidableEq

def CDCOp.string : CDCOp → Bytes
  | .insert => lit "insert"
  | .update => lit "update"
  | .delete => lit "delete"
  | .other op => op

def CDCOp.action : CDCOp → String
  | .insert => "audit_row_inserted"
  | .update => "audit_row_updated"
  | .delete => "audit_row_deleted"
  | .other _ => "audit_row_unknown"

/-- `CDCChange`. A map that is `nil` is `none`. -/
structure CDCChange where
  op : CDCOp
  table : Bytes
  rowID : Bytes
  fields : Option StringMap := none
  old : Option StringMap := none
  commitTime : Time := Time.zero

structure CDCEvent where
  ts : Bytes
  corrID : Bytes
  workspaceID : Bytes
  table : Bytes
  rowID : Bytes
  op : Bytes
  fieldsHashed : Option StringMap := none
  diffSummary : List Bytes := []
  tombstoneReason : Bytes := []

/-- A map as a JSON object, in the order of its keys. -/
def StringMap.json (m : StringMap) : Json :=
  .obj ((m.keys.sort (· ≤ ·)).map fun k => (k, .str ((m.lookup k).getD [])))

/-- A member that is left out if it is empty (`omitempty`). -/
def omitempty (empty : Bool) (name : String) (v : Json) : List (Bytes × Json) := if empty then [] else [(lit name, v)]

/-- `json.Marshal` of an event. -/
def CDCEvent.marshal (ev : CDCEvent) : Bytes :=
  let fields := ev.fieldsHashed.getD ∅
  Json.print Json.compact 0 (Json.mapStr Json.quote (.obj (
    [(lit "ts", .str ev.ts), (lit "corr_id", .str ev.corrID), (lit "workspace_id", .str ev.workspaceID),
      (lit "table", .str ev.table), (lit "row_id", .str ev.rowID), (lit "op", .str ev.op)] ++
    omitempty (fields.keys = ∅) "fields_hashed" fields.json ++
    omitempty ev.diffSummary.isEmpty "diff_summary" (.arr (ev.diffSummary.map .str)) ++
    omitempty ev.tombstoneReason.isEmpty "tombstone_reason" (.str ev.tombstoneReason))))

def cdcSubject : Bytes → String → Bytes → NATSSubject := brokerSubject "cdc"

/-! ## The surroundings -/

inductive CDCHostOp where
  | timeNow
  /-- `newCorrID`. -/
  | newCorrID
  /-- The entries of a map, in the order of one `range` over it. -/
  | range (m : StringMap)
  /-- The keys of a `map[string]bool`. -/
  | rangeKeys (s : Finset Bytes)
  | publish (subject : NATSSubject) (ev : CDCEvent)
  /-- `SetCDCLagSeconds`. The seconds are given in nanoseconds. -/
  | setCDCLagSeconds (table : Bytes) (lag : Duration)

abbrev CDCHostOp.Ans : CDCHostOp → Type
  | .timeNow => Time
  | .newCorrID => Bytes
  | .range m => { es : List (Sigma fun _ : Bytes => Bytes) // (es : Multiset _) = m.entries }
  | .rangeKeys s => { ks : List Bytes // (ks : Multiset Bytes) = s.val }
  | .publish .. => Unit
  | .setCDCLagSeconds .. => Unit

abbrev CDCSig : Sig := ⟨CDCHostOp, CDCHostOp.Ans⟩

def askCDC (o : CDCHostOp) : Prog CDCSig o.Ans := .call (S := CDCSig) o

@[simp] theorem askCDC_eq (o : CDCHostOp) : askCDC o = .ask (S := CDCSig) o .ret := rfl

/-! ## Messages of the stream -/

/-- `pglogrepl.RelationMessage`, with the names of its columns. -/
structure RelationMessage where
  relationID : UInt32
  relationName : Bytes
  columns : List Bytes

/-- `pglogrepl.TupleDataColumn`. -/
structure TupleDataColumn where
  dataType : UInt8
  data : Bytes
deriving DecidableEq

/-- The columns of a `*pglogrepl.TupleData`, or `nil`. -/
abbrev TupleData := Option (List TupleDataColumn)

structure InsertMessage where
  relationID : UInt32
  tuple : TupleData

structure UpdateMessage where
  relationID : UInt32
  oldTuple : TupleData
  newTuple : TupleData

structure DeleteMessage where
  relationID : UInt32
  oldTuple : TupleData

/-- A message of the stream, as `pglogrepl.Parse` returns it. -/
inductive LogicalMessage where
  | relation (m : RelationMessage)
  | insert (m : InsertMessage)
  | update (m : UpdateMessage)
  | delete (m : DeleteMessage)
  /-- A message of another type. -/
  | other

/-! ## Publishing -/

/-- `CDCPublisher`, with the library functions it calls. -/
structure CDCPublisher where
  workspaceID : Bytes
  /-- Whether a Prometheus surface is attached. -/
  metrics : Bool
  sha256 : Bytes → Bytes
  /-- `pglogrepl.Parse`: nothing if it returns an error. -/
  parse : Bytes → Option LogicalMessage

namespace CDCPublisher

variable (c : CDCPublisher)

def hashField (v : Bytes) : Bytes := hexEncode (c.sha256 v)

def hashFields : Option StringMap → Prog CDCSig (Option StringMap)
  | none => return none
  | some m => do
    let es ← askCDC (.range m)
    return some (es.val.foldl (fun out e => out.insert e.1 (c.hashField e.2)) ∅)

/-- `diffColumns`. -/
def diffColumns (old new : StringMap) : Prog CDCSig (List Bytes) := do
  let es ← askCDC (.range new)
  let changed : Finset Bytes := es.val.foldl (fun changed e =>
    if old.lookup e.1 = some e.2 then changed else insert e.1 changed) ∅
  let es ← askCDC (.range old)
  let changed := es.val.foldl (fun changed e =>
    if (new.lookup e.1).isSome then changed else insert e.1 changed) changed
  let ks ← askCDC (.rangeKeys changed)
  return ks.val.insertionSort (· ≤ ·)

/-- The fields of an event that depend on the operation. -/
def redact (ch : CDCChange) (ev : CDCEvent) : Prog CDCSig CDCEvent :=
  match ch.op with
  | .insert => do
    let fieldsHashed ← c.hashFields ch.fields
    return { ev with fieldsHashed }
  | .update => do
    let fieldsHashed ← c.hashFields ch.fields
    let diffSummary ← diffColumns (ch.old.getD ∅) (ch.fields.getD ∅)
    return { ev with fieldsHashed, diffSummary }
  | .delete => do
    let fieldsHashed ← c.hashFields ch.old
    return { ev with tombstoneReason := lit "row_deleted", fieldsHashed }
  | .other _ => return ev

/-- `PublishChange`. -/
def publishChange (corrID : Bytes) (ch : CDCChange) : Prog CDCSig Unit := do
  let now ← askCDC .timeNow
  let ev ← c.redact ch
    { ts := now.utc.format, corrID, workspaceID := c.workspaceID, table := ch.table, rowID := ch.rowID,
      op := ch.op.string }
  askCDC (.publish (cdcSubject c.workspaceID ch.op.action corrID) ev)
  if c.metrics ∧ ch.commitTime.nanos ≠ Time.zero.nanos then do
    let now ← askCDC .timeNow
    askCDC (.setCDCLagSeconds ch.table (max 0 (now.nanos - ch.commitTime.nanos)))

end CDCPublisher

/-! ## Decoding -/

/-- The loop of `tupleToMap` over the columns of a tuple, with the names of the
relation's columns from the same place on. -/
def mapColumns (out : StringMap) : List Bytes → List TupleDataColumn → StringMap
  | name :: names, col :: cols =>
    let out :=
      if col.dataType = 116 then out.insert name col.data
      else if col.dataType = 110 then out.insert name []
      else out
    mapColumns out names cols
  | _, _ => out

/-- `tupleToMap`. -/
def tupleToMap (rel : RelationMessage) : TupleData → StringMap
  | none => ∅
  | some cols => mapColumns ∅ rel.columns cols

/-- `rowID`. -/
def rowID (fields : StringMap) : Bytes := (fields.lookup (lit "id")).getD []

/-- `CDCDecoder`. -/
structure CDCDecoder where
  relations : UInt32 → Option RelationMessage

namespace CDCDecoder

/-- `NewCDCDecoder`. -/
def new : CDCDecoder := ⟨fun _ => none⟩

def handleRelation (d : CDCDecoder) (rel : RelationMessage) : CDCDecoder :=
  ⟨Function.update d.relations rel.relationID (some rel)⟩

def handleInsert (d : CDCDecoder) (m : InsertMessage) : Option CDCChange := do
  let rel ← d.relations m.relationID
  let fields := tupleToMap rel m.tuple
  return { op := .insert, table := rel.relationName, rowID := rowID fields, fields := some fields }

def handleUpdate (d : CDCDecoder) (m : UpdateMessage) : Option CDCChange := do
  let rel ← d.relations m.relationID
  let newFields := tupleToMap rel m.newTuple
  let oldFields := tupleToMap rel m.oldTuple
  let id := if rowID newFields = [] then rowID oldFields else rowID newFields
  return { op := .update, table := rel.relationName, rowID := id, fields := some newFields, old := some oldFields }

def handleDelete (d : CDCDecoder) (m : DeleteMessage) : Option CDCChange := do
  let rel ← d.relations m.relationID
  let oldFields := tupleToMap rel m.oldTuple
  return { op := .delete, table := rel.relationName, rowID := rowID oldFields, old := some oldFields }

end CDCDecoder

namespace CDCPublisher

variable (c : CDCPublisher)

/-- The end of `dispatch`: the change that was decoded is published if it is in
the audited table. -/
def publishAudited : Option CDCChange → Prog CDCSig Unit
  | none => return ()
  | some ch =>
    if ch.table ≠ cdcAuditTable then return ()
    else do
      let corrID ← askCDC .newCorrID
      c.publishChange corrID ch

/-- `dispatch`: the decoder after it. -/
def dispatch (dec : CDCDecoder) (walData : Bytes) : Prog CDCSig CDCDecoder :=
  match c.parse walData with
  | none => return dec
  | some (.relation m) => return dec.handleRelation m
  | some (.insert m) => do
    c.publishAudited (dec.handleInsert m)
    return dec
  | some (.update m) => do
    c.publishAudited (dec.handleUpdate m)
    return dec
  | some (.delete m) => do
    c.publishAudited (dec.handleDelete m)
    return dec
  | some .other => return dec

/-- `dispatch` on one message after the other. -/
def dispatchAll (dec : CDCDecoder) : List Bytes → Prog CDCSig CDCDecoder
  | [] => return dec
  | walData :: rest => do
    let dec ← c.dispatch dec walData
    dispatchAll dec rest

end CDCPublisher

end Hanko
