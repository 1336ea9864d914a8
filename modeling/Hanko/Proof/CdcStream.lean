import Hanko.Proof.CdcRedaction

/-!
# Decoding the stream

What is published of a stream of messages (`audited`): one event for each
message about a row of the audited table, in their order, its columns named by
the last description of the relation (`cdc_stream_decoded`).
-/

namespace Hanko

open Bytes Interact

/-! ## Tuples -/

/-- The text of a column, if it has one: null is the empty text, and a column
that is not sent has none. -/
def TupleDataColumn.text (col : TupleDataColumn) : Option Bytes :=
  if col.dataType = 116 then some col.data else if col.dataType = 110 then some [] else none

/-- The text of a column by name: the last one that is sent under the name. -/
def columnText (rel : RelationMessage) (tuple : TupleData) (name : Bytes) : Option Bytes :=
  ((rel.columns.zip (tuple.getD [])).filterMap fun col => if col.1 = name then col.2.text else none).getLast?

theorem lookup_setColumn (out : StringMap) (n name : Bytes) (col : TupleDataColumn) :
    (if col.dataType = 116 then out.insert n col.data
      else if col.dataType = 110 then out.insert n [] else out).lookup name =
      (if n = name then col.text else none).or (out.lookup name) := by
  by_cases hn : n = name
  · subst hn
    rw [if_pos rfl, TupleDataColumn.text]
    split_ifs <;> simp
  · rw [if_neg hn]
    split_ifs <;> simp [Finmap.lookup_insert_of_ne _ (Ne.symm hn)]

theorem lookup_mapColumns (out : StringMap) (names : List Bytes) (cols : List TupleDataColumn) (name : Bytes) :
    (mapColumns out names cols).lookup name =
      ((names.zip cols).filterMap fun col => if col.1 = name then col.2.text else none).getLast?.or
        (out.lookup name) := by
  induction names generalizing out cols with
  | nil => simp [mapColumns]
  | cons n names ih =>
    cases cols with
    | nil => simp [mapColumns]
    | cons col cols =>
      -- what is set here stays unless a later column has the same name
      rw [mapColumns, ih, lookup_setColumn, List.zip_cons_cons, List.filterMap_cons]
      cases if n = name then col.text else none with
      | none => rfl
      | some v =>
        dsimp only
        rw [List.getLast?_cons]
        cases ((names.zip cols).filterMap fun col => if col.1 = name then col.2.text else none).getLast? <;> rfl

theorem lookup_tupleToMap (rel : RelationMessage) (tuple : TupleData) (name : Bytes) :
    (tupleToMap rel tuple).lookup name = columnText rel tuple name := by
  cases tuple with
  | none => simp [tupleToMap, columnText]
  | some cols => simp [tupleToMap, columnText, lookup_mapColumns]

/-! ## The stream -/

/-- A message about a row: an insert has no old tuple, a delete no new one. -/
structure RowMessage where
  relationID : UInt32
  op : CDCOp
  new : TupleData
  old : TupleData

/-- The message as one about a row. -/
def LogicalMessage.row : LogicalMessage → Option RowMessage
  | .insert m => some ⟨m.relationID, .insert, m.tuple, none⟩
  | .update m => some ⟨m.relationID, .update, m.newTuple, m.oldTuple⟩
  | .delete m => some ⟨m.relationID, .delete, none, m.oldTuple⟩
  | .relation _ => none
  | .other => none

/-- The message as one that describes the relation `id`. -/
def LogicalMessage.relationOf (id : UInt32) : LogicalMessage → Option RelationMessage
  | .relation m => if m.relationID = id then some m else none
  | _ => none

/-- The last description of a relation. -/
def registered (msgs : List LogicalMessage) (id : UInt32) : Option RelationMessage :=
  (msgs.filterMap (LogicalMessage.relationOf id)).getLast?

/-- A message about a row of the audited table, and the relation it is in. -/
def auditedRow (before : List LogicalMessage) (m : LogicalMessage) : Option (RelationMessage × RowMessage) := do
  let row ← m.row
  let rel ← registered before row.relationID
  if rel.relationName = lit "hanko_audit" then some (rel, row) else none

/-- The messages about rows of the audited table, each with the relation as it
was described last. -/
def audited (before : List LogicalMessage) : List LogicalMessage → List (RelationMessage × RowMessage)
  | [] => []
  | m :: msgs => (auditedRow before m).toList ++ audited (before ++ [m]) msgs

/-- The text of the column `id`, and the empty text if there is none. -/
def idText (rel : RelationMessage) (tuple : TupleData) : Bytes := (columnText rel tuple (lit "id")).getD []

/-- The words for a change to a row: the op of its event, and the action in its subject. -/
inductive Worded : CDCOp → Bytes → Bytes → Prop
  | insert : Worded .insert (lit "insert") (lit "audit_row_inserted")
  | update : Worded .update (lit "update") (lit "audit_row_updated")
  | delete : Worded .delete (lit "delete") (lit "audit_row_deleted")

theorem Worded.words {op : CDCOp} {word action : Bytes} (h : Worded op word action) :
    word = op.string ∧ action = lit op.action := by
  cases h <;> exact ⟨rfl, rfl⟩

/-- What an event says of a message about a row. -/
structure Describes (c : CDCPublisher) (row : RelationMessage × RowMessage) (e : NATSSubject × CDCEvent) : Prop where
  subject : e.1 = ⟨c.workspaceID, lit "broker", lit "hanko", lit "cdc", e.1.action, e.2.corrID⟩
  workspaceID : e.2.workspaceID = c.workspaceID
  table : e.2.table = lit "hanko_audit"
  words : Worded row.2.op e.2.op e.1.action
  rowID : e.2.rowID = if idText row.1 row.2.new = [] then idText row.1 row.2.old else idText row.1 row.2.new
  /-- The digests of the columns of the new tuple, and for a delete the old one. -/
  columns : ∀ name, (e.2.fieldsHashed.getD ∅).lookup name =
    (columnText row.1 (if row.2.op = .delete then row.2.old else row.2.new) name).map c.hashField
  /-- For an update, the columns whose text differs between the tuples. -/
  diff : ∀ name, name ∈ e.2.diffSummary ↔
    row.2.op = .update ∧ columnText row.1 row.2.old name ≠ columnText row.1 row.2.new name

/-- The change that a message about a row is decoded to. -/
def RowMessage.change (row : RowMessage) (rel : RelationMessage) : CDCChange :=
  { op := row.op
    table := rel.relationName
    rowID := if idText rel row.new = [] then idText rel row.old else idText rel row.new
    fields := if row.op = .delete then none else some (tupleToMap rel row.new)
    old := if row.op = .insert then none else some (tupleToMap rel row.old) }

theorem rowID_tupleToMap (rel : RelationMessage) (tuple : TupleData) :
    rowID (tupleToMap rel tuple) = idText rel tuple := by
  rw [rowID, lookup_tupleToMap, idText]

theorem idText_none (rel : RelationMessage) : idText rel none = [] := by
  simp [idText, columnText]

namespace CDCDecoder

theorem handleInsert_eq (d : CDCDecoder) (m : InsertMessage) :
    d.handleInsert m = (d.relations m.relationID).map (RowMessage.change ⟨m.relationID, .insert, m.tuple, none⟩) := by
  rw [handleInsert]
  cases d.relations m.relationID with
  | none => rfl
  | some rel => simp [RowMessage.change, rowID_tupleToMap, idText_none, eq_comm]

theorem handleUpdate_eq (d : CDCDecoder) (m : UpdateMessage) :
    d.handleUpdate m =
      (d.relations m.relationID).map (RowMessage.change ⟨m.relationID, .update, m.newTuple, m.oldTuple⟩) := by
  rw [handleUpdate]
  cases d.relations m.relationID with
  | none => rfl
  | some rel => simp [RowMessage.change, rowID_tupleToMap]

theorem handleDelete_eq (d : CDCDecoder) (m : DeleteMessage) :
    d.handleDelete m =
      (d.relations m.relationID).map (RowMessage.change ⟨m.relationID, .delete, none, m.oldTuple⟩) := by
  rw [handleDelete]
  cases d.relations m.relationID with
  | none => rfl
  | some rel => simp [RowMessage.change, rowID_tupleToMap, idText_none]

/-- The decoder knows the relations as the messages described them. -/
def Knows (d : CDCDecoder) (msgs : List LogicalMessage) : Prop := ∀ id, d.relations id = registered msgs id

theorem Knows.relation {d : CDCDecoder} {msgs : List LogicalMessage} (h : d.Knows msgs) (m : RelationMessage) :
    (d.handleRelation m).Knows (msgs ++ [.relation m]) := by
  intro id
  rw [registered, List.filterMap_append, handleRelation]
  by_cases hid : m.relationID = id
  · simp [LogicalMessage.relationOf, hid]
  · simp [LogicalMessage.relationOf, hid, Function.update_of_ne (Ne.symm hid), h id, registered]

theorem Knows.other {d : CDCDecoder} {msgs : List LogicalMessage} (h : d.Knows msgs) {m : LogicalMessage}
    (hm : ∀ id, m.relationOf id = none) : d.Knows (msgs ++ [m]) := by
  intro id
  rw [registered, List.filterMap_append, h id]
  simp [hm id, registered]

end CDCDecoder

namespace CDCPublisher

variable {c : CDCPublisher}

/-- The event of a decoded change describes the message. -/
theorem Redacts.describes {corrID : Bytes} {rel : RelationMessage} {row : RowMessage} {ev : CDCEvent}
    (h : c.Redacts corrID (row.change rel) ev) (htable : rel.relationName = lit "hanko_audit")
    (hop : ∀ op, row.op ≠ .other op) :
    Describes c (rel, row) (cdcSubject c.workspaceID row.op.action corrID, ev) where
  subject := by
    rw [h.corrID]
    rfl
  workspaceID := h.workspaceID
  table := h.table.trans htable
  words := by
    rw [h.op, show (row.change rel).op = row.op from rfl]
    cases hrow : row.op with
    | other op => exact absurd hrow (hop op)
    | insert => exact .insert
    | update => exact .update
    | delete => exact .delete
  rowID := h.rowID
  columns name := by
    rw [h.fields, hashedColumns]
    cases hrow : row.op with
    | other op => exact absurd hrow (hop op)
    | insert => simp [RowMessage.change, hrow, lookup_tupleToMap]
    | update => simp [RowMessage.change, hrow, lookup_tupleToMap]
    | delete => simp [RowMessage.change, hrow, lookup_tupleToMap]
  diff name := by
    have hdiff := h.diff
    rw [show (row.change rel).op = row.op from rfl] at hdiff
    by_cases hupdate : row.op = .update
    · rw [if_pos hupdate] at hdiff
      simp [hdiff.mem, RowMessage.change, hupdate, lookup_tupleToMap]
    · rw [if_neg hupdate] at hdiff
      simp [hdiff, hupdate]

/-- A message about a row is published if the relation is known under the name
of the audited table. -/
theorem publishAudited_ends {rel : Option RelationMessage} {row : RowMessage} {es : List (Event CDCSig)}
    (hop : ∀ op, row.op ≠ .other op) (h : (c.publishAudited (rel.map row.change)).Ends es ()) :
    List.Forall₂ (Describes c)
      (rel.bind fun rel => if rel.relationName = lit "hanko_audit" then some (rel, row) else none).toList
      (es.filterMap cdcPublication) := by
  cases rel with
  | none =>
    obtain ⟨rfl, -⟩ := ends_ret.mp h
    exact .nil
  | some rel =>
    rw [Option.map_some, publishAudited, show (row.change rel).table = rel.relationName from rfl, cdcAuditTable] at h
    by_cases htable : rel.relationName = lit "hanko_audit"
    · rw [if_neg (not_not.mpr htable)] at h
      simp only [askCDC_eq, Prog.bind_eq, Prog.ask_bind, Prog.ret_bind, ends_ask] at h
      obtain ⟨corrID, es', rfl, hends⟩ := h
      obtain ⟨ev, hpub, hev⟩ := publishChange_ends hends
      rw [Option.bind_some, if_pos htable, List.filterMap_cons_none rfl, hpub]
      exact .cons (hev.describes htable hop) .nil
    · rw [if_pos htable] at h
      obtain ⟨rfl, -⟩ := ends_ret.mp h
      rw [Option.bind_some, if_neg htable]
      exact .nil

/-- What `dispatch` does with a message about a row. -/
theorem dispatch_row {dec : CDCDecoder} {walData : Bytes} {m : LogicalMessage} {row : RowMessage}
    (hparse : c.parse walData = some m) (hrow : m.row = some row) :
    c.dispatch dec walData =
      (c.publishAudited ((dec.relations row.relationID).map row.change)).bind fun _ => .ret dec := by
  rw [dispatch, hparse]
  cases m with
  | relation => cases hrow
  | other => cases hrow
  | insert m =>
    cases hrow
    rw [← CDCDecoder.handleInsert_eq]
    rfl
  | update m =>
    cases hrow
    rw [← CDCDecoder.handleUpdate_eq]
    rfl
  | delete m =>
    cases hrow
    rw [← CDCDecoder.handleDelete_eq]
    rfl

theorem relationOf_of_row {m : LogicalMessage} {row : RowMessage} (h : m.row = some row) :
    (∀ id, m.relationOf id = none) ∧ ∀ op, row.op ≠ .other op := by
  cases m with
  | relation => cases h
  | other => cases h
  | insert | update | delete =>
    cases h
    exact ⟨fun _ => rfl, fun _ => nofun⟩

/-- One message: what is published, and what the decoder knows afterwards. -/
theorem dispatch_ends {dec dec' : CDCDecoder} {walData : Bytes} {before : List LogicalMessage}
    {es : List (Event CDCSig)} (hdec : dec.Knows before) (h : (c.dispatch dec walData).Ends es dec') :
    List.Forall₂ (Describes c) (audited before (c.parse walData).toList) (es.filterMap cdcPublication) ∧
      dec'.Knows (before ++ (c.parse walData).toList) := by
  cases hparse : c.parse walData with
  | none =>
    rw [dispatch, hparse] at h
    obtain ⟨rfl, rfl⟩ := ends_ret.mp h
    exact ⟨.nil, by simpa using hdec⟩
  | some m =>
    cases hrow : m.row with
    | some row =>
      obtain ⟨hrelation, hop⟩ := relationOf_of_row hrow
      rw [dispatch_row hparse hrow, hdec] at h
      obtain ⟨es₁, es₂, _, rfl, hpub, hret⟩ := ends_bind.mp h
      obtain ⟨rfl, rfl⟩ := ends_ret.mp hret
      refine ⟨?_, hdec.other hrelation⟩
      simpa [audited, auditedRow, hrow] using publishAudited_ends hop hpub
    | none =>
      rw [dispatch, hparse] at h
      cases m with
      | insert => cases hrow
      | update => cases hrow
      | delete => cases hrow
      | relation m =>
        obtain ⟨rfl, rfl⟩ := ends_ret.mp h
        exact ⟨by simp [audited, auditedRow, hrow], hdec.relation m⟩
      | other =>
        obtain ⟨rfl, rfl⟩ := ends_ret.mp h
        exact ⟨by simp [audited, auditedRow, hrow], hdec.other fun _ => rfl⟩

theorem audited_append (before msgs msgs' : List LogicalMessage) :
    audited before (msgs ++ msgs') = audited before msgs ++ audited (before ++ msgs) msgs' := by
  induction msgs generalizing before with
  | nil => simp [audited]
  | cons m msgs ih => simp [audited, ih]

theorem dispatchAll_ends {dec dec' : CDCDecoder} {wal : List Bytes} {before : List LogicalMessage}
    {es : List (Event CDCSig)} (hdec : dec.Knows before) (h : (c.dispatchAll dec wal).Ends es dec') :
    List.Forall₂ (Describes c) (audited before (wal.filterMap c.parse)) (es.filterMap cdcPublication) := by
  -- by induction on the messages, for whatever the decoder knows already
  induction wal generalizing dec before es with
  | nil =>
    obtain ⟨rfl, -⟩ := ends_ret.mp h
    exact .nil
  | cons walData wal ih =>
    obtain ⟨es₁, es₂, dec₁, rfl, hone, hrest⟩ := ends_bind.mp h
    obtain ⟨hpub, hdec₁⟩ := dispatch_ends hdec hone
    have hmsgs : (walData :: wal).filterMap c.parse = (c.parse walData).toList ++ wal.filterMap c.parse := by
      rw [List.filterMap_cons]
      cases c.parse walData <;> rfl
    rw [hmsgs, audited_append, List.filterMap_append]
    exact List.rel_append hpub (ih hdec₁ hrest)

/-- From an empty decoder, what is published are the messages about rows of the
audited table, one event for each and in their order. -/
theorem cdc_stream_decoded (c : CDCPublisher) (wal : List Bytes) (es : List (Event CDCSig)) (dec : CDCDecoder)
    (h : (c.dispatchAll .new wal).Ends es dec) :
    List.Forall₂ (Describes c) (audited [] (wal.filterMap c.parse)) (es.filterMap cdcPublication) :=
  dispatchAll_ends (fun _ => rfl) h

def Sample.relation : RelationMessage := ⟨7, lit "hanko_audit", [lit "id", lit "note"]⟩

/-- An insert, an update that does not send the new id, and a delete of a described table. -/
theorem cdc_stream_sample :
    ∃ es dec, (Sample.cdc.dispatchAll .new [lit "D", lit "R", lit "I", lit "U", lit "D"]).Ends es dec ∧
      (es.filterMap cdcPublication).map (fun e => (e.2.op, e.1.action, e.2.rowID)) =
        [(lit "insert", lit "audit_row_inserted", lit "row-1"), (lit "update", lit "audit_row_updated", lit "row-1"),
          (lit "delete", lit "audit_row_deleted", lit "row-1")] := by
  obtain ⟨es, dec, h⟩ := exists_ends cdcAns_nonempty
    (Sample.cdc.dispatchAll .new [lit "D", lit "R", lit "I", lit "U", lit "D"])
  have hevents := cdc_stream_decoded Sample.cdc [lit "D", lit "R", lit "I", lit "U", lit "D"] es dec h
  refine ⟨es, dec, h, ?_⟩
  have hrows : audited [] ([lit "D", lit "R", lit "I", lit "U", lit "D"].filterMap Sample.cdc.parse) =
      [(Sample.relation, ⟨7, .insert, some [⟨116, lit "row-1"⟩, ⟨116, lit "secret"⟩], none⟩),
        (Sample.relation, ⟨7, .update, some [⟨117, []⟩, ⟨116, lit "public"⟩],
          some [⟨116, lit "row-1"⟩, ⟨116, lit "secret"⟩]⟩),
        (Sample.relation, ⟨7, .delete, none, some [⟨116, lit "row-1"⟩, ⟨110, []⟩]⟩)] := rfl
  rw [hrows] at hevents
  generalize es.filterMap cdcPublication = events at hevents ⊢
  obtain ⟨⟩ | @⟨_, e₁, _, _, h₁, hevents⟩ := hevents
  obtain ⟨⟩ | @⟨_, e₂, _, _, h₂, hevents⟩ := hevents
  obtain ⟨⟩ | @⟨_, e₃, _, _, h₃, hevents⟩ := hevents
  obtain ⟨⟩ := hevents
  rw [List.map_cons, List.map_cons, List.map_cons, List.map_nil, h₁.words.words.1, h₁.words.words.2, h₁.rowID,
    h₂.words.words.1, h₂.words.words.2, h₂.rowID, h₃.words.words.1, h₃.words.words.2, h₃.rowID]
  rfl

end CDCPublisher

end Hanko
