import Hanko.Proof.CdcStream

/-!
# The diff of an update

The diff is made of two maps, in which a column that is not sent again is
missing, and null is the empty text. So it is exact unless there is such a
column, or one that changes between null and the empty text
(`cdc_diff_exact_iff`).
-/

namespace Hanko

open Bytes Interact

/-! ## Columns -/

/-- A column in an update with the complete old tuple. In the new tuple it may
be marked as not changed. -/
structure ColumnUpdate where
  name : Bytes
  old : TupleDataColumn
  new : TupleDataColumn
  old_type : old.dataType = 116 ∨ old.dataType = 110
  new_type : new.dataType = 116 ∨ new.dataType = 110 ∨ new.dataType = 117

/-- The value of a column that is sent: a text, or null. -/
def TupleDataColumn.value (col : TupleDataColumn) : Option Bytes := if col.dataType = 116 then some col.data else none

namespace ColumnUpdate

def oldValue (u : ColumnUpdate) : Option Bytes := u.old.value

def newValue (u : ColumnUpdate) : Option Bytes := if u.new.dataType = 117 then u.old.value else u.new.value

/-- The text of the column tells whether its value changed: the column is sent,
and does not change between null and the empty text. -/
def Told (u : ColumnUpdate) : Prop :=
  u.new.dataType ≠ 117 ∧ ¬ (u.oldValue = none ∧ u.newValue = some []) ∧ ¬ (u.oldValue = some [] ∧ u.newValue = none)

theorem told_iff (u : ColumnUpdate) : u.Told ↔ (u.old.text ≠ u.new.text ↔ u.oldValue ≠ u.newValue) := by
  have hold := u.old_type
  have hnew := u.new_type
  simp only [Told, oldValue, newValue, TupleDataColumn.text, TupleDataColumn.value]
  rcases hold with hold | hold <;> rcases hnew with hnew | hnew | hnew <;> simp [hold, hnew, eq_comm]

variable {cols : List ColumnUpdate}

theorem filterMap_eq_nil {k : Bytes} (hk : k ∉ cols.map name) (f : ColumnUpdate → Option Bytes) :
    cols.filterMap (fun v => if v.name = k then f v else none) = [] := by
  rw [List.filterMap_eq_nil_iff]
  intro v hv
  rw [if_neg]
  rintro rfl
  exact hk (List.mem_map_of_mem hv)

theorem filterMap_name (hdistinct : (cols.map name).Nodup) {u : ColumnUpdate} (hu : u ∈ cols)
    (f : ColumnUpdate → Option Bytes) :
    cols.filterMap (fun v => if v.name = u.name then f v else none) = (f u).toList := by
  induction cols with
  | nil => cases hu
  | cons v cols ih =>
    rw [List.map_cons, List.nodup_cons] at hdistinct
    obtain ⟨hnot, hdistinct⟩ := hdistinct
    rw [List.filterMap_cons]
    rcases List.mem_cons.mp hu with rfl | hu
    · rw [if_pos rfl, filterMap_eq_nil hnot]
      cases f u <;> rfl
    · have hname : v.name ≠ u.name := fun hname => hnot (hname ▸ List.mem_map_of_mem hu)
      rw [if_neg hname]
      exact ih hdistinct hu

section

variable {rel : RelationMessage} (hnames : rel.columns = cols.map name)
include hnames

theorem columnText_eq (side : ColumnUpdate → TupleDataColumn) (k : Bytes) :
    columnText rel (some (cols.map side)) k =
      (cols.filterMap fun v => if v.name = k then (side v).text else none).getLast? := by
  rw [columnText, hnames, Option.getD_some, List.zip_map', List.filterMap_map]
  rfl

theorem columnText_name (hdistinct : (cols.map name).Nodup) (side : ColumnUpdate → TupleDataColumn)
    {u : ColumnUpdate} (hu : u ∈ cols) : columnText rel (some (cols.map side)) u.name = (side u).text := by
  rw [columnText_eq hnames, filterMap_name hdistinct hu]
  cases (side u).text <;> rfl

theorem columnText_of_notMem (side : ColumnUpdate → TupleDataColumn) {k : Bytes} (hk : k ∉ cols.map name) :
    columnText rel (some (cols.map side)) k = none := by
  rw [columnText_eq hnames, filterMap_eq_nil hk]
  rfl

/-- The columns whose texts differ are those in the diff. -/
theorem mem_diff (hdistinct : (cols.map name).Nodup) {diff : List Bytes}
    (h : CDCPublisher.Differ (tupleToMap rel (some (cols.map old))) (tupleToMap rel (some (cols.map new))) diff)
    (k : Bytes) : k ∈ diff ↔ ∃ u ∈ cols, u.name = k ∧ u.old.text ≠ u.new.text := by
  rw [h.mem, lookup_tupleToMap, lookup_tupleToMap]
  constructor
  · intro hne
    by_cases hk : k ∈ cols.map name
    · obtain ⟨u, hu, rfl⟩ := List.mem_map.mp hk
      rw [columnText_name hnames hdistinct old hu, columnText_name hnames hdistinct new hu] at hne
      exact ⟨u, hu, rfl, hne⟩
    · rw [columnText_of_notMem hnames old hk, columnText_of_notMem hnames new hk] at hne
      exact absurd rfl hne
  · rintro ⟨u, hu, rfl, hne⟩
    rwa [columnText_name hnames hdistinct old hu, columnText_name hnames hdistinct new hu]

end

/-- The sorted list of the columns whose value changed. -/
structure ExactDiff (cols : List ColumnUpdate) (diff : List Bytes) : Prop where
  sorted : diff.Pairwise (· ≤ ·)
  nodup : diff.Nodup
  mem : ∀ k, k ∈ diff ↔ ∃ u ∈ cols, u.name = k ∧ u.oldValue ≠ u.newValue

theorem exists_name_iff (hdistinct : (cols.map name).Nodup) {u : ColumnUpdate} (hu : u ∈ cols)
    {P : ColumnUpdate → Prop} : (∃ v ∈ cols, v.name = u.name ∧ P v) ↔ P u := by
  constructor
  · rintro ⟨v, hv, hname, h⟩
    rwa [List.inj_on_of_nodup_map hdistinct hv hu hname] at h
  · exact fun h => ⟨u, hu, rfl, h⟩

theorem exactDiff_iff {rel : RelationMessage} (hnames : rel.columns = cols.map name) (hdistinct : rel.columns.Nodup)
    {diff : List Bytes}
    (h : CDCPublisher.Differ (tupleToMap rel (some (cols.map old))) (tupleToMap rel (some (cols.map new))) diff) :
    ExactDiff cols diff ↔ ∀ u ∈ cols, u.Told := by
  rw [hnames] at hdistinct
  have hmem := mem_diff hnames hdistinct h
  constructor
  · intro hexact u hu
    have hboth := (hmem u.name).symm.trans (hexact.mem u.name)
    rw [exists_name_iff hdistinct hu, exists_name_iff hdistinct hu] at hboth
    exact (told_iff u).mpr hboth
  · intro htold
    refine ⟨h.sorted, h.nodup, fun k => ?_⟩
    rw [hmem]
    refine exists_congr fun u => and_congr_right fun hu => and_congr_right fun _ => ?_
    exact (told_iff u).mp (htold u hu)

end ColumnUpdate

namespace CDCPublisher

variable {c : CDCPublisher}

theorem handleUpdate_diff {d : CDCDecoder} {m : UpdateMessage} {rel : RelationMessage} {old new : List TupleDataColumn}
    (hrel : d.relations m.relationID = some rel) (hold : m.oldTuple = some old) (hnew : m.newTuple = some new) :
    ∃ ch, d.handleUpdate m = some ch ∧ ∀ corrID es, (c.publishChange corrID ch).Ends es () →
      ∃ ev, es.filterMap cdcPublication = [(cdcSubject c.workspaceID "audit_row_updated" corrID, ev)] ∧
        Differ (tupleToMap rel (some old)) (tupleToMap rel (some new)) ev.diffSummary := by
  refine ⟨RowMessage.change ⟨m.relationID, .update, m.newTuple, m.oldTuple⟩ rel, ?_, fun corrID es h => ?_⟩
  · rw [CDCDecoder.handleUpdate_eq, hrel, Option.map_some]
  · obtain ⟨ev, hpub, hev⟩ := publishChange_ends h
    refine ⟨ev, hpub, ?_⟩
    simpa [RowMessage.change, hold, hnew] using hev.diff

/-- For an update with the complete old tuple, of a relation with distinct
column names, the diff is the list of the columns whose value changed if and
only if every column of the new tuple is sent and none changes between null
and the empty text. -/
theorem cdc_diff_exact_iff (c : CDCPublisher) (d : CDCDecoder) (m : UpdateMessage) (rel : RelationMessage)
    (cols : List ColumnUpdate) (hrel : d.relations m.relationID = some rel)
    (hnames : rel.columns = cols.map ColumnUpdate.name) (hdistinct : rel.columns.Nodup)
    (hold : m.oldTuple = some (cols.map ColumnUpdate.old)) (hnew : m.newTuple = some (cols.map ColumnUpdate.new)) :
    ∃ ch, d.handleUpdate m = some ch ∧ ∀ corrID es, (c.publishChange corrID ch).Ends es () →
      ∃ subject ev, es.filterMap cdcPublication = [(subject, ev)] ∧
        (ColumnUpdate.ExactDiff cols ev.diffSummary ↔ ∀ u ∈ cols, u.Told) := by
  obtain ⟨ch, hch, hdiff⟩ := handleUpdate_diff (c := c) hrel hold hnew
  refine ⟨ch, hch, fun corrID es h => ?_⟩
  obtain ⟨ev, hpub, hdiffer⟩ := hdiff corrID es h
  exact ⟨_, ev, hpub, ColumnUpdate.exactDiff_iff hnames hdistinct hdiffer⟩

end CDCPublisher

namespace Sample

def auditDecoder : CDCDecoder := CDCDecoder.new.handleRelation ⟨7, cdcAuditTable, [lit "id", lit "note"]⟩

def sameID : ColumnUpdate := ⟨lit "id", ⟨116, lit "row-1"⟩, ⟨116, lit "row-1"⟩, by decide, by decide⟩

/-- A long text that is not sent again. -/
def unchangedNote : ColumnUpdate := ⟨lit "note", ⟨116, lit "long"⟩, ⟨117, []⟩, by decide, by decide⟩

/-- A null that becomes the empty text. -/
def clearedNote : ColumnUpdate := ⟨lit "note", ⟨110, []⟩, ⟨116, []⟩, by decide, by decide⟩

def updatedNote : ColumnUpdate := ⟨lit "note", ⟨116, lit "long"⟩, ⟨116, lit "short"⟩, by decide, by decide⟩

def auditUpdate (cols : List ColumnUpdate) : UpdateMessage :=
  ⟨7, some (cols.map ColumnUpdate.old), some (cols.map ColumnUpdate.new)⟩

end Sample

namespace CDCPublisher

theorem cdc_diff_exact_sample :
    ∃ ch es subject ev,
      Sample.auditDecoder.handleUpdate (Sample.auditUpdate [Sample.sameID, Sample.updatedNote]) = some ch ∧
      (Sample.cdc.publishChange (lit "corr") ch).Ends es () ∧ es.filterMap cdcPublication = [(subject, ev)] ∧
      ColumnUpdate.ExactDiff [Sample.sameID, Sample.updatedNote] ev.diffSummary := by
  obtain ⟨ch, hch, hdiff⟩ := cdc_diff_exact_iff Sample.cdc Sample.auditDecoder
    (Sample.auditUpdate [Sample.sameID, Sample.updatedNote]) ⟨7, cdcAuditTable, [lit "id", lit "note"]⟩
    [Sample.sameID, Sample.updatedNote] rfl rfl (by decide) rfl rfl
  obtain ⟨es, _, hends⟩ := exists_ends cdcAns_nonempty (Sample.cdc.publishChange (lit "corr") ch)
  obtain ⟨subject, ev, hpub, hexact⟩ := hdiff (lit "corr") es hends
  refine ⟨ch, es, subject, ev, hch, hends, hpub, hexact.mpr ?_⟩
  simp only [List.forall_mem_cons, List.not_mem_nil, false_imp_iff, implies_true, and_true]
  exact ⟨by unfold ColumnUpdate.Told; decide, by unfold ColumnUpdate.Told; decide⟩

/-- A run of `PublishChange` on an update of the audited table, with its diff. -/
theorem exists_diff (cols : List ColumnUpdate) (hnames : cols.map ColumnUpdate.name = [lit "id", lit "note"]) :
    ∃ ch es subject ev, Sample.auditDecoder.handleUpdate (Sample.auditUpdate cols) = some ch ∧
      (Sample.cdc.publishChange (lit "corr") ch).Ends es () ∧ es.filterMap cdcPublication = [(subject, ev)] ∧
      ev.diffSummary.Nodup ∧ ∀ k, k ∈ ev.diffSummary ↔ ∃ u ∈ cols, u.name = k ∧ u.old.text ≠ u.new.text := by
  have hrel : Sample.auditDecoder.relations 7 = some ⟨7, cdcAuditTable, [lit "id", lit "note"]⟩ := rfl
  obtain ⟨ch, hch, hdiff⟩ := handleUpdate_diff (c := Sample.cdc) (m := Sample.auditUpdate cols) hrel rfl rfl
  obtain ⟨es, _, hends⟩ := exists_ends cdcAns_nonempty (Sample.cdc.publishChange (lit "corr") ch)
  obtain ⟨ev, hpub, hdiffer⟩ := hdiff (lit "corr") es hends
  exact ⟨ch, es, _, ev, hch, hends, hpub, hdiffer.nodup,
    ColumnUpdate.mem_diff hnames.symm (by rw [hnames]; decide) hdiffer⟩

/-- A column that is not sent is in the diff, although it keeps its value. A null
that becomes the empty text is not. -/
theorem cdc_diff_unfaithful :
    (∃ ch es subject ev,
      Sample.auditDecoder.handleUpdate (Sample.auditUpdate [Sample.sameID, Sample.unchangedNote]) = some ch ∧
      (Sample.cdc.publishChange (lit "corr") ch).Ends es () ∧ es.filterMap cdcPublication = [(subject, ev)] ∧
      ev.diffSummary = [lit "note"] ∧ Sample.unchangedNote.oldValue = Sample.unchangedNote.newValue) ∧
    ∃ ch es subject ev,
      Sample.auditDecoder.handleUpdate (Sample.auditUpdate [Sample.sameID, Sample.clearedNote]) = some ch ∧
      (Sample.cdc.publishChange (lit "corr") ch).Ends es () ∧ es.filterMap cdcPublication = [(subject, ev)] ∧
      ev.diffSummary = [] ∧ Sample.clearedNote.oldValue ≠ Sample.clearedNote.newValue := by
  constructor
  · obtain ⟨ch, es, subject, ev, hch, hends, hpub, hnodup, hmem⟩ :=
      exists_diff [Sample.sameID, Sample.unchangedNote] rfl
    refine ⟨ch, es, subject, ev, hch, hends, hpub, ?_, by decide⟩
    refine List.perm_singleton.mp ((List.perm_ext_iff_of_nodup hnodup (List.nodup_singleton _)).mpr fun k => ?_)
    rw [hmem]
    simp [Sample.sameID, Sample.unchangedNote, TupleDataColumn.text, eq_comm]
  · obtain ⟨ch, es, subject, ev, hch, hends, hpub, -, hmem⟩ := exists_diff [Sample.sameID, Sample.clearedNote] rfl
    refine ⟨ch, es, subject, ev, hch, hends, hpub, ?_, by decide⟩
    refine List.eq_nil_iff_forall_not_mem.mpr fun k hk => ?_
    rw [hmem] at hk
    simp [Sample.sameID, Sample.clearedNote, TupleDataColumn.text] at hk

end CDCPublisher

end Hanko
