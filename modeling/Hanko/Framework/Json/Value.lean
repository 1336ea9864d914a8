import Hanko.Framework.Json.RoundTrip

/-!
# JSON values

The value of a text decoded without a type (Go's `any`): its literals
unquoted, and of the members with one key the last (`toAny`). Values are
written with the members of every object in the order of their keys
(`sortKeys`, `marshal`).

* `unmarshalAny_print`: a tree of strings, printed in any layout, is decoded
  to that tree with the invalid bytes of its strings replaced;
* `unmarshalAny_marshal`: what `marshal` writes is decoded to the sorted value;
* `marshal_sortKeys`: sorting before writing changes nothing;
* `marshal_eq_iff`: values are written alike if they are equal as JSON values
  (`Same`), whatever the order of their members.
-/

namespace Json

open Bytes

/-! ## Decoding without a type -/

/-- The assignment of a map entry. -/
def setKey (kvs : List (Bytes × Json)) (k : Bytes) (v : Json) : List (Bytes × Json) :=
  (kvs.filter fun kv => kv.1 ≠ k) ++ [(k, v)]

mutual

/-- The value of a tree of literals. -/
def toAny : Json → Json
  | .null => .null
  | .bool b => .bool b
  | .num t => .num t
  | .str l => .str (unquote l)
  | .arr xs => .arr (toAnyItems xs)
  | .obj kvs => .obj (toAnyMembers [] kvs)

def toAnyItems : List Json → List Json
  | [] => []
  | x :: xs => toAny x :: toAnyItems xs

/-- The members of an object, assigned one after the other to a map. -/
def toAnyMembers (m : List (Bytes × Json)) : List (Bytes × Json) → List (Bytes × Json)
  | [] => m
  | (k, v) :: kvs => toAnyMembers (setKey m (unquote k) (toAny v)) kvs

end

/-- `json.Unmarshal` into a variable of type `any`. -/
def unmarshalAny (bs : Bytes) : Option Json := (parse bs).map toAny

mutual

/-- A value that decoding can give: its strings valid, the keys of every
object distinct. -/
def Proper : Json → Prop
  | .null => True
  | .bool _ => True
  | .num t => IsNum t
  | .str s => ValidUtf8 s
  | .arr xs => ProperItems xs
  | .obj kvs => (kvs.map Prod.fst).Nodup ∧ ProperMembers kvs

def ProperItems : List Json → Prop
  | [] => True
  | x :: xs => Proper x ∧ ProperItems xs

def ProperMembers : List (Bytes × Json) → Prop
  | [] => True
  | (k, v) :: kvs => ValidUtf8 k ∧ Proper v ∧ ProperMembers kvs

end

theorem properItems_iff {xs : List Json} : ProperItems xs ↔ ∀ x ∈ xs, Proper x := by
  induction xs with
  | nil => simp [ProperItems]
  | cons x xs ih => simp [ProperItems, ih]

theorem properMembers_iff {kvs : List (Bytes × Json)} :
    ProperMembers kvs ↔ ∀ kv ∈ kvs, ValidUtf8 kv.1 ∧ Proper kv.2 := by
  induction kvs with
  | nil => simp [ProperMembers]
  | cons kv kvs ih => simp [ProperMembers, ih, and_assoc]

theorem toAnyItems_eq (xs : List Json) : toAnyItems xs = xs.map toAny := by
  induction xs with
  | nil => rfl
  | cons x xs ih => rw [toAnyItems, ih, List.map_cons]

/-- Members with new and distinct keys are added in order. -/
theorem toAnyMembers_eq (m kvs : List (Bytes × Json))
    (h : (m.map Prod.fst ++ kvs.map fun kv => unquote kv.1).Nodup) :
    toAnyMembers m kvs = m ++ kvs.map fun kv => (unquote kv.1, toAny kv.2) := by
  induction kvs generalizing m with
  | nil => simp [toAnyMembers]
  | cons kv kvs ih =>
    obtain ⟨k, v⟩ := kv
    have hk : ∀ kv ∈ m, kv.1 ≠ unquote k := by
      intro kv hkv hne
      refine List.disjoint_of_nodup_append h (List.mem_map_of_mem hkv) ?_
      rw [hne]; exact List.mem_cons_self
    have hset : setKey m (unquote k) (toAny v) = m ++ [(unquote k, toAny v)] := by
      rw [setKey, List.filter_eq_self.mpr fun kv hkv => by simpa using hk kv hkv]
    rw [toAnyMembers, hset, ih _ (by simpa using h)]
    simp

theorem depthItems_le_iff {xs : List Json} {n : Nat} : depthItems xs ≤ n ↔ ∀ x ∈ xs, depth x ≤ n := by
  induction xs with
  | nil => simp [depthItems]
  | cons x xs ih => simp [depthItems, ih]

theorem depthMembers_le_iff {kvs : List (Bytes × Json)} {n : Nat} :
    depthMembers kvs ≤ n ↔ ∀ kv ∈ kvs, depth kv.2 ≤ n := by
  induction kvs with
  | nil => simp [depthMembers]
  | cons kv kvs ih => simp [depthMembers, ih]

theorem depth_mapStr (f : Bytes → Bytes) (v : Json) : depth (mapStr f v) = depth v := by
  induction v using ind with
  | null | bool | num | str => rfl
  | arr xs ih =>
    refine congrArg (1 + ·) (eq_of_forall_ge_iff fun n => ?_)
    rw [mapItems_eq, depthItems_le_iff, depthItems_le_iff, List.forall_mem_map]
    exact forall₂_congr fun x hx => by rw [ih x hx]
  | obj kvs ih =>
    refine congrArg (1 + ·) (eq_of_forall_ge_iff fun n => ?_)
    rw [mapMembers_eq, depthMembers_le_iff, depthMembers_le_iff, List.forall_mem_map]
    exact forall₂_congr fun kv hkv => by rw [ih kv hkv]

/-- The literals of a tree whose numbers are numbers. -/
theorem wf_mapStr {f : Bytes → Bytes} (hf : ∀ s, IsLit (f s)) (v : Json) :
    Proper (mapStr toValid v) → WF (mapStr f v) := by
  induction v using ind with
  | null | bool => exact fun _ => trivial
  | num t => exact id
  | str s => exact fun _ => hf s
  | arr xs ih =>
    simp only [mapStr, mapItems_eq, Proper, properItems_iff, WF, wfItems_iff, List.forall_mem_map]
    exact fun h x hx => ih x hx (h x hx)
  | obj kvs ih =>
    simp only [mapStr, mapMembers_eq, Proper, properMembers_iff, WF, wfMembers_iff, List.forall_mem_map]
    exact fun h kv hkv => ⟨hf _, ih kv hkv (h.2 kv hkv).2⟩

theorem wf_quote (v : Json) : Proper (mapStr toValid v) → WF (mapStr quote v) := wf_mapStr isLit_quote v

/-- Decoding undoes quoting, up to the bytes that are not UTF-8. -/
theorem toAny_quote (v : Json) : Proper (mapStr toValid v) →
    toAny (mapStr quote v) = mapStr toValid v := by
  induction v using ind with
  | null | bool | num => exact fun _ => rfl
  | str s => exact fun _ => congrArg Json.str (unquote_quote s)
  | arr xs ih =>
    simp only [mapStr, mapItems_eq, Proper, properItems_iff, toAny, toAnyItems_eq, List.map_map,
      List.forall_mem_map, Json.arr.injEq]
    exact fun h => List.map_congr_left fun x hx => ih x hx (h x hx)
  | obj kvs ih =>
    simp only [mapStr, mapMembers_eq, Proper, properMembers_iff, toAny, List.forall_mem_map,
      List.map_map, Json.obj.injEq]
    rintro ⟨hnd, h⟩
    rw [toAnyMembers_eq _ _ (by simpa [Function.comp_def, unquote_quote] using hnd)]
    simp only [List.map_map, List.nil_append]
    exact List.map_congr_left fun kv hkv => by simp [unquote_quote, ih kv hkv (h kv hkv).2]

theorem mapStr_toValid (v : Json) : Proper v → mapStr toValid v = v := by
  induction v using ind with
  | null | bool | num => exact fun _ => rfl
  | str s => exact fun h => congrArg Json.str (toValid_of_valid h)
  | arr xs ih =>
    simp only [mapStr, mapItems_eq, Proper, properItems_iff, Json.arr.injEq]
    intro h
    conv_rhs => rw [← List.map_id' xs]
    exact List.map_congr_left fun x hx => ih x hx (h x hx)
  | obj kvs ih =>
    simp only [mapStr, mapMembers_eq, Proper, properMembers_iff, Json.obj.injEq]
    intro h
    conv_rhs => rw [← List.map_id' kvs]
    exact List.map_congr_left fun kv hkv => by
      rw [toValid_of_valid (h.2 kv hkv).1, ih kv hkv (h.2 kv hkv).2]

/-- A printed tree of strings is decoded to it, its strings made valid. -/
theorem map_toAny_print {L : Layout} (hL : L.Ok) {v : Json} (h : Proper (mapStr toValid v)) {D : Nat}
    (hd : depth v ≤ D) :
    (parseTo D (print L 0 (mapStr quote v))).map toAny = some (mapStr toValid v) := by
  rw [parseTo_print hL (wf_quote v h) ((depth_mapStr _ v).trans_le hd), Option.map_some, toAny_quote v h]

theorem unmarshalAny_print {L : Layout} (hL : L.Ok) {v : Json} (h : Proper (mapStr toValid v))
    (hd : depth v ≤ maxNestingDepth) :
    unmarshalAny (print L 0 (mapStr quote v)) = some (mapStr toValid v) :=
  map_toAny_print hL h hd

/-! ## Sorted keys -/

/-- The order of the members of a written object: bytewise on their keys. -/
def KeyLe {α : Type} (a b : Bytes × α) : Prop := a.1 ≤ b.1

instance {α : Type} : DecidableRel (KeyLe (α := α)) := fun a b => inferInstanceAs (Decidable (a.1 ≤ b.1))

instance {α : Type} : Std.Total (KeyLe (α := α)) := ⟨fun a b => List.le_total a.1 b.1⟩

instance {α : Type} : IsTrans (Bytes × α) KeyLe := ⟨fun _ _ _ h h' => List.le_trans h h'⟩

/-- Sorting by key leaves what is done to the other components alone. -/
theorem map_sort {α β : Type} (f : α → β) (l : List (Bytes × α)) :
    (l.insertionSort KeyLe).map (fun kv => (kv.1, f kv.2)) =
      (l.map fun kv => (kv.1, f kv.2)).insertionSort KeyLe :=
  List.map_insertionSort _ _ _ _ fun _ _ _ _ => Iff.rfl

mutual

/-- The members of every object in the order of their keys. -/
def sortKeys : Json → Json
  | .null => .null
  | .bool b => .bool b
  | .num t => .num t
  | .str s => .str s
  | .arr xs => .arr (sortItems xs)
  | .obj kvs => .obj ((sortMembers kvs).insertionSort KeyLe)

def sortItems : List Json → List Json
  | [] => []
  | x :: xs => sortKeys x :: sortItems xs

def sortMembers : List (Bytes × Json) → List (Bytes × Json)
  | [] => []
  | (k, v) :: kvs => (k, sortKeys v) :: sortMembers kvs

end

/-- `json.Marshal` of a value. -/
def marshal (v : Json) : Bytes := print compact 0 (mapStr quote (sortKeys v))

/-! ## Texts without white space -/

theorem intercalate_cons_cons (sep x y : Bytes) (xs : List Bytes) :
    sep.intercalate (x :: y :: xs) = x ++ (sep ++ sep.intercalate (y :: xs)) := by
  simp [List.intercalate]

@[simp] theorem compact_line (d : Nat) : compact.line d = [] := rfl
@[simp] theorem compact_afterColon : compact.afterColon = [] := rfl

theorem print_compact_arr (d : Nat) (xs : List Json) :
    print compact d (.arr xs) = 91 :: ([44].intercalate (xs.map (print compact (d + 1))) ++ [93]) := by
  have h : ∀ x xs, print compact (d + 1) x ++ printItems compact d xs =
      [44].intercalate ((x :: xs).map (print compact (d + 1))) ++ [93] := by
    intro x xs
    induction xs generalizing x with
    | nil => simp [printItems, List.intercalate]
    | cons y ys ih =>
      simp only [printItems, compact_line, List.nil_append, ih y, List.map_cons, intercalate_cons_cons,
        List.append_assoc, List.cons_append]
  cases xs with
  | nil => rw [print]; rfl
  | cons x xs => rw [print, compact_line, List.nil_append, h x xs]

theorem print_compact_obj (d : Nat) (kvs : List (Bytes × Json)) :
    print compact d (.obj kvs) = 123 :: ([44].intercalate
      (kvs.map fun kv => 34 :: (kv.1 ++ (34 :: 58 :: print compact (d + 1) kv.2))) ++ [125]) := by
  have h : ∀ k v kvs, 34 :: (k ++ (34 :: 58 :: (print compact (d + 1) v ++ printMembers compact d kvs))) =
      [44].intercalate (((k, v) :: kvs).map fun kv =>
        34 :: (kv.1 ++ (34 :: 58 :: print compact (d + 1) kv.2))) ++ [125] := by
    intro k v kvs
    induction kvs generalizing k v with
    | nil => simp [printMembers, List.intercalate]
    | cons kv kvs ih =>
      obtain ⟨k', v'⟩ := kv
      simp only [printMembers, compact_line, compact_afterColon, List.nil_append, ih k' v', List.map_cons,
        intercalate_cons_cons, List.append_assoc, List.cons_append]
  cases kvs with
  | nil => rw [print]; rfl
  | cons kv kvs =>
    obtain ⟨k, v⟩ := kv
    rw [print, compact_line, compact_afterColon, List.nil_append, List.nil_append, h k v kvs]

/-- Without white space the depth does not matter. -/
theorem print_compact_depth (v : Json) : ∀ d, print compact d v = print compact 0 v := by
  induction v using ind with
  | null | num | str => intro d; simp only [print]
  | bool b => intro d; cases b <;> simp only [print]
  | arr xs ih =>
    intro d
    rw [print_compact_arr, print_compact_arr,
      List.map_congr_left fun x hx => (ih x hx (d + 1)).trans (ih x hx 1).symm]
  | obj kvs ih =>
    intro d
    rw [print_compact_obj, print_compact_obj,
      List.map_congr_left fun kv hkv => by rw [ih kv hkv (d + 1), ← ih kv hkv 1]]

theorem sortItems_eq (xs : List Json) : sortItems xs = xs.map sortKeys := by
  induction xs with
  | nil => rfl
  | cons x xs ih => rw [sortItems, ih, List.map_cons]

theorem sortMembers_eq (kvs : List (Bytes × Json)) :
    sortMembers kvs = kvs.map fun kv => (kv.1, sortKeys kv.2) := by
  induction kvs with
  | nil => rfl
  | cons kv kvs ih => rw [sortMembers, ih, List.map_cons]

theorem sortKeys_sortKeys (v : Json) : sortKeys (sortKeys v) = sortKeys v := by
  induction v using ind with
  | null | bool | num | str => rfl
  | arr xs ih =>
    simp only [sortKeys, sortItems_eq, List.map_map, Json.arr.injEq]
    exact List.map_congr_left ih
  | obj kvs ih =>
    simp only [sortKeys, sortMembers_eq, map_sort, List.map_map, Json.obj.injEq]
    rw [(List.pairwise_insertionSort KeyLe _).insertionSort_eq]
    exact congrArg _ (List.map_congr_left fun kv hkv => by simp [ih kv hkv])

theorem marshal_sortKeys (v : Json) : marshal (sortKeys v) = marshal v := by
  rw [marshal, sortKeys_sortKeys, marshal]

theorem depth_sortKeys (v : Json) : depth (sortKeys v) = depth v := by
  induction v using ind with
  | null | bool | num | str => rfl
  | arr xs ih =>
    refine congrArg (1 + ·) (eq_of_forall_ge_iff fun n => ?_)
    rw [sortItems_eq, depthItems_le_iff, depthItems_le_iff, List.forall_mem_map]
    exact forall₂_congr fun x hx => by rw [ih x hx]
  | obj kvs ih =>
    refine congrArg (1 + ·) (eq_of_forall_ge_iff fun n => ?_)
    simp only [sortMembers_eq, depthMembers_le_iff, List.mem_insertionSort, List.forall_mem_map]
    exact forall₂_congr fun kv hkv => by rw [ih kv hkv]

theorem proper_sortKeys (v : Json) : Proper v → Proper (sortKeys v) := by
  induction v using ind with
  | null | bool | num | str => exact id
  | arr xs ih =>
    simp only [sortKeys, sortItems_eq, Proper, properItems_iff, List.forall_mem_map]
    exact fun h x hx => ih x hx (h x hx)
  | obj kvs ih =>
    simp only [sortKeys, sortMembers_eq, Proper, properMembers_iff, List.mem_insertionSort,
      List.forall_mem_map]
    refine fun h => ⟨?_, fun kv hkv => ⟨(h.2 kv hkv).1, ih kv hkv (h.2 kv hkv).2⟩⟩
    rw [((List.perm_insertionSort KeyLe _).map Prod.fst).nodup_iff, List.map_map]
    exact h.1

/-- What `marshal` writes is decoded to the sorted value, if the limit on the
nesting allows it. -/
theorem map_toAny_marshal {v : Json} (h : Proper v) {D : Nat} (hd : depth v ≤ D) :
    (parseTo D (marshal v)).map toAny = some (sortKeys v) := by
  have hs := mapStr_toValid _ (proper_sortKeys v h)
  rw [marshal, map_toAny_print compact_ok (by rw [hs]; exact proper_sortKeys v h)
    ((depth_sortKeys v).trans_le hd), hs]

theorem unmarshalAny_marshal {v : Json} (h : Proper v) (hd : depth v ≤ maxNestingDepth) :
    unmarshalAny (marshal v) = some (sortKeys v) :=
  map_toAny_marshal h hd

theorem unmarshalAny_marshal_of_deep {v : Json} (h : Proper v) (hd : maxNestingDepth < depth v) :
    unmarshalAny (marshal v) = none := by
  have hp := proper_sortKeys v h
  have hwf : WF (mapStr quote (sortKeys v)) := wf_quote _ (by rwa [mapStr_toValid _ hp])
  rw [unmarshalAny, marshal, parse_print_of_deep compact_ok hwf (by rwa [depth_mapStr, depth_sortKeys]),
    Option.map_none]

/-! ## What sorted objects determine -/

/-- A permutation of entries that keeps the order of distinct keys. -/
theorem eq_of_perm_of_keys {α : Type} : ∀ {l l' : List (Bytes × α)}, l.Perm l' →
    l.map Prod.fst = l'.map Prod.fst → (l.map Prod.fst).Nodup → l = l'
  | [], l', h, _, _ => h.nil_eq
  | kv :: l, [], h, _, _ => (List.not_perm_cons_nil h).elim
  | kv :: l, kv' :: l', h, hk, hn => by
    simp only [List.map_cons, List.cons.injEq] at hk
    have hmem : kv ∈ kv' :: l' := h.subset List.mem_cons_self
    obtain rfl : kv = kv' := by
      refine (List.mem_cons.mp hmem).resolve_right fun hin => ?_
      exact (List.nodup_cons.mp hn).1 (hk.2 ▸ List.mem_map_of_mem hin)
    rw [eq_of_perm_of_keys h.cons_inv hk.2 (List.nodup_cons.mp hn).2]

theorem sortMembers_keys (kvs : List (Bytes × Json)) :
    (sortMembers kvs).map Prod.fst = kvs.map Prod.fst := by
  simp [sortMembers_eq, Function.comp_def]

/-- Lists with distinct keys are sorted alike if they are permutations. -/
theorem sort_eq_iff {α : Type} {l l' : List (Bytes × α)} (h : (l.map Prod.fst).Nodup) :
    l.insertionSort KeyLe = l'.insertionSort KeyLe ↔ l.Perm l' := by
  constructor
  · intro heq
    exact (List.perm_insertionSort KeyLe l).symm.trans (heq ▸ List.perm_insertionSort KeyLe l')
  · intro hp
    have hp' := (List.perm_insertionSort KeyLe l).trans (hp.trans (List.perm_insertionSort KeyLe l').symm)
    refine hp'.eq_of_pairwise ?_ (List.pairwise_insertionSort KeyLe l) (List.pairwise_insertionSort KeyLe l')
    intro a b ha hb hab hba
    rw [List.mem_insertionSort] at ha hb
    exact List.inj_on_of_nodup_map h ha (hp.mem_iff.mpr hb) (List.le_antisymm hab hba)

/-- Objects with the same distinct keys, sorted, are equal if their values,
sorted, are. -/
theorem sortKeys_obj_inj {kvs kvs' : List (Bytes × Json)} (hk : kvs.map Prod.fst = kvs'.map Prod.fst)
    (hn : (kvs.map Prod.fst).Nodup) (h : sortKeys (.obj kvs) = sortKeys (.obj kvs')) :
    sortMembers kvs = sortMembers kvs' := by
  rw [← sortMembers_keys] at hn
  have hp := (sort_eq_iff hn).mp (Json.obj.inj h)
  exact eq_of_perm_of_keys hp (by rw [sortMembers_keys, sortMembers_keys, hk]) hn

/-- Values that are written alike are equal but for the order of keys. -/
theorem sortKeys_eq_of_marshal_eq {v v' : Json} (h : Proper v) (h' : Proper v')
    (heq : marshal v = marshal v') : sortKeys v = sortKeys v' := by
  have hu := map_toAny_marshal h (le_max_left (depth v) (depth v'))
  rw [heq, map_toAny_marshal h' (le_max_right (depth v) (depth v'))] at hu
  exact (Option.some.inj hu).symm

/-! ## Equal values -/

mutual

/-- Equal as JSON values: the members of an object may stand in any order. -/
def Same : Json → Json → Prop
  | .null, .null => True
  | .bool b, .bool c => b = c
  | .num t, .num u => t = u
  | .str s, .str t => s = t
  | .arr xs, .arr ys => SameItems xs ys
  | .obj kvs, .obj kvs' => (kvs.map Prod.fst).Perm (kvs'.map Prod.fst) ∧ SameMembers kvs kvs'
  | _, _ => False

def SameItems : List Json → List Json → Prop
  | [], [] => True
  | x :: xs, y :: ys => Same x y ∧ SameItems xs ys
  | _, _ => False

/-- Every member is found in the second object. -/
def SameMembers : List (Bytes × Json) → List (Bytes × Json) → Prop
  | [], _ => True
  | (k, v) :: kvs, kvs' => (∃ w, (k, w) ∈ kvs' ∧ Same v w) ∧ SameMembers kvs kvs'

end

theorem sameItems_iff {xs ys : List Json} : SameItems xs ys ↔ List.Forall₂ Same xs ys := by
  induction xs generalizing ys with
  | nil => cases ys <;> simp [SameItems]
  | cons x xs ih => cases ys <;> simp [SameItems, ih]

theorem sameMembers_iff {kvs kvs' : List (Bytes × Json)} :
    SameMembers kvs kvs' ↔ ∀ kv ∈ kvs, ∃ w, (kv.1, w) ∈ kvs' ∧ Same kv.2 w := by
  induction kvs with
  | nil => simp [SameMembers]
  | cons kv kvs ih => rw [List.forall_mem_cons, ← ih, SameMembers]

theorem mem_sortMembers {kvs : List (Bytes × Json)} {k : Bytes} {u : Json} :
    (k, u) ∈ sortMembers kvs ↔ ∃ v, (k, v) ∈ kvs ∧ sortKeys v = u := by
  simp only [sortMembers_eq, List.mem_map, Prod.mk.injEq, Prod.exists]
  grind

theorem sameMembers_iff_perm {kvs kvs' : List (Bytes × Json)} (hn : (kvs.map Prod.fst).Nodup)
    (ih : ∀ kv ∈ kvs, ∀ kv' ∈ kvs', Same kv.2 kv'.2 ↔ sortKeys kv.2 = sortKeys kv'.2) :
    (kvs.map Prod.fst).Perm (kvs'.map Prod.fst) ∧ SameMembers kvs kvs' ↔
      (sortMembers kvs).Perm (sortMembers kvs') := by
  rw [sameMembers_iff]
  constructor
  · rintro ⟨hk, h⟩
    have hn' : (sortMembers kvs).Nodup := .of_map Prod.fst (by rwa [sortMembers_keys])
    refine (List.subperm_of_subset hn' fun kv hkv => ?_).perm_of_length_le ?_
    · obtain ⟨v, hv, hu⟩ := mem_sortMembers.mp hkv
      obtain ⟨w, hw, hs⟩ := h _ hv
      exact mem_sortMembers.mpr ⟨w, hw, ((ih _ hv _ hw).mp hs).symm.trans hu⟩
    · simpa [sortMembers_eq] using hk.length_eq.ge
  · intro hp
    have hk := hp.map Prod.fst
    rw [sortMembers_keys, sortMembers_keys] at hk
    refine ⟨hk, fun kv hkv => ?_⟩
    obtain ⟨w, hw, hs⟩ := mem_sortMembers.mp (hp.subset (mem_sortMembers.mpr ⟨kv.2, hkv, rfl⟩))
    exact ⟨w, hw, (ih _ hkv _ hw).mpr hs.symm⟩

/-- Equal values are those that are sorted alike. -/
theorem same_iff (v : Json) : Proper v → ∀ w, Proper w → (Same v w ↔ sortKeys v = sortKeys w) := by
  induction v using ind with
  | null | bool | num | str => intro _ w _; cases w <;> simp [Same, sortKeys]
  | arr xs ih =>
    intro hv w hw
    cases w with
    | null | bool | num | str | obj => simp [Same, sortKeys]
    | arr ys =>
      rw [Proper, properItems_iff] at hv hw
      simp only [Same, sameItems_iff, sortKeys, sortItems_eq, Json.arr.injEq]
      rw [← List.forall₂_eq_eq_eq, List.forall₂_map_left_iff, List.forall₂_map_right_iff,
        List.forall₂_iff_zip, List.forall₂_iff_zip]
      refine and_congr_right fun _ => forall₂_congr fun x y => forall_congr' fun hmem => ?_
      obtain ⟨hx, hy⟩ := List.of_mem_zip hmem
      exact ih x hx (hv x hx) y (hw y hy)
  | obj kvs ih =>
    intro hv w hw
    cases w with
    | null | bool | num | str | arr => simp [Same, sortKeys]
    | obj kvs' =>
      rw [Proper, properMembers_iff] at hv hw
      rw [Same, sortKeys, sortKeys, Json.obj.injEq, sort_eq_iff (by rw [sortMembers_keys]; exact hv.1)]
      exact sameMembers_iff_perm hv.1 fun kv hkv kv' hkv' =>
        ih kv hkv (hv.2 kv hkv).2 kv'.2 (hw.2 kv' hkv').2

theorem same_sortKeys {v : Json} (h : Proper v) : Same (sortKeys v) v :=
  (same_iff _ (proper_sortKeys v h) v h).mpr (sortKeys_sortKeys v)

theorem Same.depth_eq {v w : Json} (hv : Proper v) (hw : Proper w) (h : Same v w) : depth v = depth w := by
  rw [← depth_sortKeys v, (same_iff v hv w hw).mp h, depth_sortKeys]

/-- Equal values are written alike, and no others are. -/
theorem marshal_eq_iff {v w : Json} (hv : Proper v) (hw : Proper w) : marshal v = marshal w ↔ Same v w := by
  rw [same_iff v hv w hw]
  exact ⟨sortKeys_eq_of_marshal_eq hv hw, fun h => by rw [marshal, h, marshal]⟩

end Json
