import Hanko.Framework.MapRange
import Hanko.Impl.CdcChange

/-!
# Redaction of row changes

A run of `PublishChange` publishes one event (`publishChange_ends`), and what it
says of the change does not depend on the order in which maps are gone through
(`Redacts`). The values of columns are published through their digests only
(`cdc_redaction_noninterfering`).
-/

namespace Hanko

open Bytes Interact

/-! ## One run -/

/-- The event that a question publishes. -/
def cdcPublication : Event CDCSig → Option (NATSSubject × CDCEvent)
  | ⟨.publish subject ev, _⟩ => some (subject, ev)
  | _ => none

theorem cdcAns_nonempty (o : CDCHostOp) : Nonempty o.Ans := by
  cases o with
  | timeNow => exact ⟨Time.zero⟩
  | newCorrID => exact ⟨[]⟩
  | range m => exact ⟨⟨m.entries.toList, Multiset.coe_toList _⟩⟩
  | rangeKeys s => exact ⟨⟨s.toList, Finset.coe_toList _⟩⟩
  | publish => exact ⟨()⟩
  | setCDCLagSeconds => exact ⟨()⟩

/-- A publisher that parses four messages: one that describes the audited table, an
insert, an update that does not send the new id, and a delete. -/
def Sample.cdc : CDCPublisher where
  workspaceID := lit "ws"
  metrics := false
  sha256 := fun _ => List.replicate 32 0
  parse walData :=
    if walData = lit "R" then some (.relation ⟨7, cdcAuditTable, [lit "id", lit "note"]⟩)
    else if walData = lit "I" then some (.insert ⟨7, some [⟨116, lit "row-1"⟩, ⟨116, lit "secret"⟩]⟩)
    else if walData = lit "U" then
      some (.update ⟨7, some [⟨116, lit "row-1"⟩, ⟨116, lit "secret"⟩], some [⟨117, []⟩, ⟨116, lit "public"⟩]⟩)
    else if walData = lit "D" then some (.delete ⟨7, some [⟨116, lit "row-1"⟩, ⟨110, []⟩]⟩)
    else none

/-- A row with one column, inserted. -/
def Sample.inserted (note : Bytes) : CDCChange :=
  { op := .insert, table := cdcAuditTable, rowID := lit "row-1", fields := some (Finmap.singleton (lit "note") note) }

namespace CDCPublisher

variable {c : CDCPublisher}

theorem hashFields_ends {m : Option StringMap} {es : List (Event CDCSig)} {out : Option StringMap}
    (h : (c.hashFields m).Ends es out) :
    es.filterMap cdcPublication = [] ∧
      ∀ k, (out.getD ∅).lookup k = ((m.getD ∅).lookup k).map c.hashField := by
  cases m with
  | none =>
    obtain ⟨rfl, rfl⟩ := ends_ret.mp h
    exact ⟨rfl, fun k => by simp⟩
  | some m =>
    simp only [hashFields, askCDC_eq, Prog.bind_eq, Prog.ask_bind, Prog.ret_bind, Prog.pure_eq, ends_ask,
      ends_ret] at h
    obtain ⟨es', _, rfl, rfl, rfl⟩ := h
    exact ⟨rfl, MapRange.lookup_foldl_insert c.hashField es'.property⟩

/-- The columns that differ, in order. -/
structure Differ (old new : StringMap) (columns : List Bytes) : Prop where
  sorted : columns.Pairwise (· ≤ ·)
  nodup : columns.Nodup
  mem : ∀ k, k ∈ columns ↔ old.lookup k ≠ new.lookup k

theorem diffColumns_ends {old new : StringMap} {es : List (Event CDCSig)} {out : List Bytes}
    (h : (diffColumns old new).Ends es out) : es.filterMap cdcPublication = [] ∧ Differ old new out := by
  simp only [diffColumns, askCDC_eq, Prog.bind_eq, Prog.ask_bind, Prog.ret_bind, Prog.pure_eq, ends_ask,
    ends_ret] at h
  obtain ⟨news, _, rfl, olds, _, rfl, ks, _, rfl, rfl, rfl⟩ := h
  refine ⟨rfl, List.pairwise_insertionSort _ _, ?_, fun k => ?_⟩
  · rw [(List.perm_insertionSort _ _).nodup_iff, ← Multiset.coe_nodup, ks.property]
    exact Finset.nodup _
  · rw [List.mem_insertionSort, ← Multiset.mem_coe, ks.property, Finset.mem_val, MapRange.mem_foldl_insert,
      MapRange.mem_foldl_insert]
    simp only [MapRange.mem_iff news.property, MapRange.mem_iff olds.property, Finset.notMem_empty, false_or]
    cases old.lookup k <;> cases new.lookup k <;> simp [eq_comm]

/-- The columns whose digests are published. -/
def hashedColumns (ch : CDCChange) : StringMap :=
  match ch.op with
  | .insert => ch.fields.getD ∅
  | .update => ch.fields.getD ∅
  | .delete => ch.old.getD ∅
  | .other _ => ∅

/-- What an event says of a change. -/
structure Redacts (c : CDCPublisher) (corrID : Bytes) (ch : CDCChange) (ev : CDCEvent) : Prop where
  corrID : ev.corrID = corrID
  workspaceID : ev.workspaceID = c.workspaceID
  table : ev.table = ch.table
  rowID : ev.rowID = ch.rowID
  op : ev.op = ch.op.string
  fields : ∀ k, (ev.fieldsHashed.getD ∅).lookup k = ((hashedColumns ch).lookup k).map c.hashField
  diff : if ch.op = .update then Differ (ch.old.getD ∅) (ch.fields.getD ∅) ev.diffSummary else ev.diffSummary = []
  tombstone : ev.tombstoneReason = if ch.op = .delete then lit "row_deleted" else []

/-- The event of a change before the fields that depend on the operation. -/
def header (c : CDCPublisher) (now : Time) (corrID : Bytes) (ch : CDCChange) : CDCEvent :=
  { ts := now.utc.format, corrID, workspaceID := c.workspaceID, table := ch.table, rowID := ch.rowID,
    op := ch.op.string }

theorem redact_ends {now : Time} {corrID : Bytes} {ch : CDCChange} {es : List (Event CDCSig)} {ev : CDCEvent}
    (h : (c.redact ch (c.header now corrID ch)).Ends es ev) :
    es.filterMap cdcPublication = [] ∧ c.Redacts corrID ch ev := by
  rw [redact] at h
  split at h
  next hop =>
    obtain ⟨_, _, fields, rfl, hfields, hrest⟩ := ends_bind.mp h
    obtain ⟨rfl, rfl⟩ := ends_ret.mp hrest
    obtain ⟨hpub, hlookup⟩ := hashFields_ends hfields
    refine ⟨by simpa using hpub, rfl, rfl, rfl, rfl, rfl, ?_, by simp [hop, header], by simp [hop, header]⟩
    simpa [hashedColumns, hop] using hlookup
  next hop =>
    obtain ⟨_, _, fields, rfl, hfields, hrest⟩ := ends_bind.mp h
    obtain ⟨_, _, diff, rfl, hdiff, hrest⟩ := ends_bind.mp hrest
    obtain ⟨rfl, rfl⟩ := ends_ret.mp hrest
    obtain ⟨hpub, hlookup⟩ := hashFields_ends hfields
    obtain ⟨hpub', hdiffer⟩ := diffColumns_ends hdiff
    refine ⟨by simp [hpub, hpub'], rfl, rfl, rfl, rfl, rfl, ?_, by simpa [hop] using hdiffer, by simp [hop, header]⟩
    simpa [hashedColumns, hop] using hlookup
  next hop =>
    obtain ⟨_, _, fields, rfl, hfields, hrest⟩ := ends_bind.mp h
    obtain ⟨rfl, rfl⟩ := ends_ret.mp hrest
    obtain ⟨hpub, hlookup⟩ := hashFields_ends hfields
    refine ⟨by simpa using hpub, rfl, rfl, rfl, rfl, rfl, ?_, by simp [hop, header], by simp [hop]⟩
    simpa [hashedColumns, hop] using hlookup
  next hop =>
    obtain ⟨rfl, rfl⟩ := ends_ret.mp h
    exact ⟨rfl, rfl, rfl, rfl, rfl, rfl, by simp [hashedColumns, hop, header], by simp [hop, header],
      by simp [hop, header]⟩

/-- A change is published once. -/
theorem publishChange_ends {corrID : Bytes} {ch : CDCChange} {es : List (Event CDCSig)}
    (h : (c.publishChange corrID ch).Ends es ()) :
    ∃ ev, es.filterMap cdcPublication = [(cdcSubject c.workspaceID ch.op.action corrID, ev)] ∧
      c.Redacts corrID ch ev := by
  simp only [publishChange, askCDC_eq, Prog.bind_eq, Prog.ask_bind, Prog.ret_bind, ends_ask] at h
  obtain ⟨now, _, rfl, hbind⟩ := h
  obtain ⟨es₁, _, ev, rfl, hredact, hpublish⟩ := ends_bind.mp hbind
  obtain ⟨hpub, hev⟩ := redact_ends hredact
  obtain ⟨_, es₂, rfl, hlag⟩ := ends_ask.mp hpublish
  -- the gauge is set after the event
  have hrest : es₂.filterMap cdcPublication = [] := by
    split at hlag
    · simp only [ends_ask, ends_ret] at hlag
      obtain ⟨_, _, rfl, _, _, rfl, rfl, -⟩ := hlag
      rfl
    · obtain ⟨rfl, -⟩ := ends_ret.mp hlag
      rfl
  refine ⟨ev, ?_, hev⟩
  rw [List.filterMap_cons_none rfl, List.filterMap_append, hpub, List.nil_append, List.filterMap_cons, hrest]
  rfl

/-! ## Two runs -/

theorem Differ.unique {old new old' new' : StringMap} {cols cols' : List Bytes} (h : Differ old new cols)
    (h' : Differ old' new' cols') (heq : ∀ k, old.lookup k = new.lookup k ↔ old'.lookup k = new'.lookup k) :
    cols = cols' := by
  have hperm : cols.Perm cols' := (List.perm_ext_iff_of_nodup h.nodup h'.nodup).mpr fun k => by
    rw [h.mem, h'.mem, ne_eq, ne_eq, heq]
  exact hperm.eq_of_pairwise (fun _ _ _ _ => List.le_antisymm) h.sorted h'.sorted

/-- Two changes that differ in the values of columns only, and neither in the
digest of a value nor in which columns differ between the tuples. -/
structure SameDigests (c : CDCPublisher) (ch ch' : CDCChange) : Prop where
  op : ch.op = ch'.op
  table : ch.table = ch'.table
  rowID : ch.rowID = ch'.rowID
  fields : ∀ k, ((ch.fields.getD ∅).lookup k).map c.sha256 = ((ch'.fields.getD ∅).lookup k).map c.sha256
  old : ∀ k, ((ch.old.getD ∅).lookup k).map c.sha256 = ((ch'.old.getD ∅).lookup k).map c.sha256
  differ : ∀ k, (ch.old.getD ∅).lookup k = (ch.fields.getD ∅).lookup k ↔
    (ch'.old.getD ∅).lookup k = (ch'.fields.getD ∅).lookup k

theorem SameDigests.hashedColumns {ch ch' : CDCChange} (h : c.SameDigests ch ch') (k : Bytes) :
    ((CDCPublisher.hashedColumns ch).lookup k).map c.sha256 =
      ((CDCPublisher.hashedColumns ch').lookup k).map c.sha256 := by
  rw [CDCPublisher.hashedColumns, CDCPublisher.hashedColumns, ← h.op]
  cases ch.op with
  | insert => exact h.fields k
  | update => exact h.fields k
  | delete => exact h.old k
  | other => rfl

theorem SameDigests.fieldsHashed {corrID : Bytes} {ch ch' : CDCChange} {ev ev' : CDCEvent} (h : c.SameDigests ch ch')
    (hev : c.Redacts corrID ch ev) (hev' : c.Redacts corrID ch' ev') :
    ev.fieldsHashed.getD ∅ = ev'.fieldsHashed.getD ∅ := by
  refine Finmap.ext_lookup fun k => ?_
  have hdigest := congrArg (Option.map hexEncode) (h.hashedColumns k)
  rw [Option.map_map, Option.map_map] at hdigest
  rw [hev.fields, hev'.fields]
  exact hdigest

theorem SameDigests.diffSummary {corrID : Bytes} {ch ch' : CDCChange} {ev ev' : CDCEvent} (h : c.SameDigests ch ch')
    (hev : c.Redacts corrID ch ev) (hev' : c.Redacts corrID ch' ev') : ev.diffSummary = ev'.diffSummary := by
  have hdiff := hev.diff
  have hdiff' := hev'.diff
  rw [← h.op] at hdiff'
  split at hdiff
  next hop =>
    rw [if_pos hop] at hdiff'
    exact hdiff.unique hdiff' h.differ
  next hop =>
    rw [if_neg hop] at hdiff'
    rw [hdiff, hdiff']

/-- Two changes with the same digests are published alike: the same subject and,
at the same time, the same payload. -/
theorem cdc_redaction_noninterfering (c : CDCPublisher) (corrID : Bytes) (ch ch' : CDCChange)
    (hsame : c.SameDigests ch ch') (es es' : List (Event CDCSig)) (h : (c.publishChange corrID ch).Ends es ())
    (h' : (c.publishChange corrID ch').Ends es' ()) :
    ∃ subject ev subject' ev', es.filterMap cdcPublication = [(subject, ev)] ∧
      es'.filterMap cdcPublication = [(subject', ev')] ∧
      (ev.ts = ev'.ts → subject = subject' ∧ ev.marshal = ev'.marshal) := by
  obtain ⟨ev, hpub, hev⟩ := publishChange_ends h
  obtain ⟨ev', hpub', hev'⟩ := publishChange_ends h'
  refine ⟨_, ev, _, ev', hpub, hpub', fun hts => ⟨by rw [hsame.op], ?_⟩⟩
  rw [CDCEvent.marshal, CDCEvent.marshal, hts, hev.corrID, hev'.corrID, hev.workspaceID, hev'.workspaceID,
    hev.table, hev'.table, hsame.table, hev.rowID, hev'.rowID, hsame.rowID, hev.op, hev'.op, hev.tombstone,
    hev'.tombstone, hsame.op, hsame.fieldsHashed hev hev', hsame.diffSummary hev hev']

theorem cdc_redaction_sample :
    ∃ es es' subject ev subject' ev',
      (Sample.cdc.publishChange (lit "corr") (Sample.inserted (lit "secret"))).Ends es () ∧
      (Sample.cdc.publishChange (lit "corr") (Sample.inserted (lit "public"))).Ends es' () ∧
      es.filterMap cdcPublication = [(subject, ev)] ∧ es'.filterMap cdcPublication = [(subject', ev')] ∧
      (ev.ts = ev'.ts → subject = subject' ∧ ev.marshal = ev'.marshal) := by
  have hsame : Sample.cdc.SameDigests (Sample.inserted (lit "secret")) (Sample.inserted (lit "public")) := by
    have hlookup : ∀ note k, (Finmap.singleton (lit "note") note : StringMap).lookup k =
        if k = lit "note" then some note else none := by
      intro note k
      split
      next hk => rw [hk, Finmap.lookup_singleton_eq]
      next hk => exact Finmap.lookup_eq_none.mpr (by simpa using hk)
    rw [Sample.inserted, Sample.inserted]
    refine ⟨rfl, rfl, rfl, fun k => ?_, fun k => rfl, fun k => ?_⟩
    · simp only [Option.getD_some, hlookup]
      split <;> simp [Sample.cdc]
    · simp only [Option.getD_some, Option.getD_none, Finmap.lookup_empty, hlookup]
      split <;> simp
  obtain ⟨es, _, h⟩ := exists_ends cdcAns_nonempty
    (Sample.cdc.publishChange (lit "corr") (Sample.inserted (lit "secret")))
  obtain ⟨es', _, h'⟩ := exists_ends cdcAns_nonempty
    (Sample.cdc.publishChange (lit "corr") (Sample.inserted (lit "public")))
  obtain ⟨subject, ev, subject', ev', hpub⟩ :=
    cdc_redaction_noninterfering Sample.cdc (lit "corr") _ _ hsame es es' h h'
  exact ⟨es, es', subject, ev, subject', ev', h, h', hpub⟩

end CDCPublisher

end Hanko
