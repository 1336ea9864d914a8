import Hanko.Framework.CodePoints
import Hanko.Framework.Json.Jcs

/-!
# The order of keys and the white space of a text

What can be seen in a JSON text that `marshal` wrote: in every object the keys
ascend strictly as sequences of code points (`ascending_quote`), and outside
the string literals there is nothing but printable characters, white space
not among them (`inked_print`).
-/

namespace Json

open Bytes

/-! ## Ascending keys -/

mutual

/-- In every object of a tree of literals the strings that the keys denote
ascend strictly, compared by their code points. -/
def Ascending : Json → Prop
  | .null => True
  | .bool _ => True
  | .num _ => True
  | .str _ => True
  | .arr xs => AscendingItems xs
  | .obj kvs => (kvs.map fun kv => codePoints (unquote kv.1)).Pairwise (· < ·) ∧ AscendingMembers kvs

def AscendingItems : List Json → Prop
  | [] => True
  | x :: xs => Ascending x ∧ AscendingItems xs

def AscendingMembers : List (Bytes × Json) → Prop
  | [] => True
  | (_, v) :: kvs => Ascending v ∧ AscendingMembers kvs

end

theorem ascendingItems_iff {xs : List Json} : AscendingItems xs ↔ ∀ x ∈ xs, Ascending x := by
  induction xs with
  | nil => simp [AscendingItems]
  | cons x xs ih => simp [AscendingItems, ih]

theorem ascendingMembers_iff {kvs : List (Bytes × Json)} :
    AscendingMembers kvs ↔ ∀ kv ∈ kvs, Ascending kv.2 := by
  induction kvs with
  | nil => simp [AscendingMembers]
  | cons kv kvs ih => simp [AscendingMembers, ih]

/-- Sorted entries with distinct keys. -/
theorem pairwise_lt_of_sorted {α : Type} {l : List (Bytes × α)} (hs : l.Pairwise KeyLe)
    (hn : (l.map Prod.fst).Nodup) : l.Pairwise fun a b => a.1 < b.1 := by
  rw [List.Nodup, List.pairwise_map] at hn
  refine hs.imp₂ (fun a b hle hne => ?_) hn
  exact (List.le_iff_lt_or_eq.mp hle).resolve_right hne

/-- Valid keys, sorted bytewise and written, ascend by their code points. -/
theorem pairwise_codePoints {α : Type} {l : List (Bytes × α)} (hv : ∀ kv ∈ l, ValidUtf8 kv.1)
    (hn : (l.map Prod.fst).Nodup) :
    ((l.insertionSort KeyLe).map fun kv => codePoints (unquote (quote kv.1))).Pairwise (· < ·) := by
  have hperm := List.perm_insertionSort KeyLe l
  have hvalid : ∀ kv ∈ l.insertionSort KeyLe, ValidUtf8 kv.1 := fun kv hkv => hv kv (hperm.mem_iff.mp hkv)
  have hlt := pairwise_lt_of_sorted (List.pairwise_insertionSort KeyLe l) ((hperm.map Prod.fst).nodup_iff.mpr hn)
  rw [List.pairwise_map]
  refine hlt.imp_of_mem fun {a b} ha hb hab => ?_
  rw [unquote_quote, unquote_quote, toValid_of_valid (hvalid a ha), toValid_of_valid (hvalid b hb)]
  exact (lt_iff_codePoints (hvalid a ha) (hvalid b hb)).mp hab

/-- A value whose keys are valid, as `marshal` writes it. -/
theorem ascending_quote (v : Json) : Proper (mapStr toValid v) → Every ValidUtf8 (fun _ => True) v →
    Ascending (mapStr quote (sortKeys v)) := by
  induction v using ind with
  | null | bool | num | str => exact fun _ _ => trivial
  | arr xs ih =>
    simp only [mapStr, mapItems_eq, sortKeys, sortItems_eq, Proper, properItems_iff, Every, everyItem_iff, Ascending,
      ascendingItems_iff, List.map_map, List.forall_mem_map]
    exact fun hp hk x hx => ih x hx (hp x hx) (hk x hx)
  | obj kvs ih =>
    simp only [mapStr, mapMembers_eq, sortKeys, Proper, properMembers_iff, Every, everyMember_iff, Ascending,
      ascendingMembers_iff, List.map_map, List.forall_mem_map, List.mem_insertionSort, Function.comp_def]
    intro hp hk
    have hn : ((sortMembers kvs).map Prod.fst).Nodup := by
      rw [sortMembers_keys]
      refine List.Nodup.of_map toValid ?_
      rw [List.map_map]
      exact hp.1
    rw [sortMembers_eq] at hn ⊢
    refine ⟨pairwise_codePoints ?_ hn, ?_⟩
    · rw [List.forall_mem_map]
      exact fun kv hkv => (hk kv hkv).1
    · rw [List.forall_mem_map]
      exact fun kv hkv => ih kv hkv (hp.2 kv hkv).2 (hk kv hkv).2

/-- Sorting and the replacement of invalid bytes commute where the keys have
none. -/
theorem mapStr_toValid_sortKeys (v : Json) : Every ValidUtf8 (fun _ => True) v →
    mapStr toValid (sortKeys v) = sortKeys (mapStr toValid v) := by
  induction v using ind with
  | null | bool | num | str => exact fun _ => rfl
  | arr xs ih =>
    simp only [Every, everyItem_iff, mapStr, mapItems_eq, sortKeys, sortItems_eq, List.map_map, Json.arr.injEq]
    exact fun h => List.map_congr_left fun x hx => ih x hx (h x hx)
  | obj kvs ih =>
    simp only [Every, everyMember_iff, mapStr, mapMembers_eq, sortKeys, sortMembers_eq, List.map_map,
      Json.obj.injEq]
    intro h
    have hcong : ∀ a ∈ kvs.map fun kv => (kv.1, sortKeys kv.2), ∀ b ∈ kvs.map fun kv => (kv.1, sortKeys kv.2),
        (KeyLe a b ↔ KeyLe (toValid a.1, mapStr toValid a.2) (toValid b.1, mapStr toValid b.2)) := by
      simp only [List.forall_mem_map, KeyLe]
      intro a ha b hb
      rw [toValid_of_valid (h a ha).1, toValid_of_valid (h b hb).1]
    rw [List.map_insertionSort KeyLe KeyLe (fun kv => (toValid kv.1, mapStr toValid kv.2)) _ hcong, List.map_map]
    exact congrArg _ (List.map_congr_left fun kv hkv => by simp [ih kv hkv (h kv hkv).2])

theorem mapStr_mapStr (f g : Bytes → Bytes) (v : Json) : mapStr f (mapStr g v) = mapStr (f ∘ g) v := by
  induction v using ind with
  | null | bool | num | str => rfl
  | arr xs ih =>
    simp only [mapStr, mapItems_eq, List.map_map, Json.arr.injEq]
    exact List.map_congr_left ih
  | obj kvs ih =>
    simp only [mapStr, mapMembers_eq, List.map_map, Json.obj.injEq]
    exact List.map_congr_left fun kv hkv => by simp [ih kv hkv]

/-- The strings a written value denotes. -/
theorem mapStr_unquote_quote (v : Json) : mapStr unquote (mapStr quote v) = mapStr toValid v := by
  rw [mapStr_mapStr]
  exact congrArg (mapStr · v) (funext unquote_quote)

/-! ## Outside the literals -/

/-- Where a reader of a text stands: outside its literals, in one, or after a
backslash in one. -/
inductive TextState where
  | outside
  | inside
  | escaped

/-- The bytes of a text that are not part of a string literal. -/
def outsideLiterals : TextState → Bytes → Bytes
  | _, [] => []
  | .outside, b :: bs => if b = 34 then outsideLiterals .inside bs else b :: outsideLiterals .outside bs
  | .inside, b :: bs =>
    if b = 34 then outsideLiterals .outside bs
    else if b = 92 then outsideLiterals .escaped bs
    else outsideLiterals .inside bs
  | .escaped, _ :: bs => outsideLiterals .inside bs

/-- A printable ASCII character other than the blank. -/
def isInk (b : UInt8) : Bool := 32 < b && b < 127

/-- A piece of text that can stand between others, with ink alone outside its
literals. -/
def Inked (x : Bytes) : Prop :=
  ∃ w, (∀ b ∈ w, isInk b = true) ∧ ∀ r, outsideLiterals .outside (x ++ r) = w ++ outsideLiterals .outside r

theorem inked_nil : Inked [] := ⟨[], by simp, fun _ => rfl⟩

theorem Inked.append {x y : Bytes} (hx : Inked x) (hy : Inked y) : Inked (x ++ y) := by
  obtain ⟨w, hw, hx⟩ := hx
  obtain ⟨w', hw', hy⟩ := hy
  refine ⟨w ++ w', fun b hb => ?_, fun r => by rw [List.append_assoc, hx, hy, List.append_assoc]⟩
  exact (List.mem_append.mp hb).elim (hw b) (hw' b)

theorem Inked.cons {b : UInt8} {x : Bytes} (hb : isInk b = true) (hq : b ≠ 34) (hx : Inked x) : Inked (b :: x) := by
  obtain ⟨w, hw, hx⟩ := hx
  refine ⟨b :: w, List.forall_mem_cons.mpr ⟨hb, hw⟩, fun r => ?_⟩
  rw [List.cons_append, outsideLiterals, if_neg hq, hx, List.cons_append]

theorem inked_of_all {x : Bytes} (h : x.all (fun b => isInk b && b != 34) = true) : Inked x := by
  induction x with
  | nil => exact inked_nil
  | cons b x ih =>
    simp only [List.all_cons, Bool.and_eq_true, bne_iff_ne] at h
    exact (ih h.2).cons h.1.1 h.1.2

theorem inked_intercalate {xs : List Bytes} (h : ∀ x ∈ xs, Inked x) : Inked ([44].intercalate xs) := by
  induction xs with
  | nil => exact inked_nil
  | cons x xs ih =>
    obtain ⟨hx, hxs⟩ := List.forall_mem_cons.mp h
    cases xs with
    | nil => simpa [List.intercalate] using hx
    | cons y ys =>
      rw [intercalate_cons_cons]
      exact hx.append (Inked.cons (by decide) (by decide) (ih hxs))

/-- Where the scanner of literals stands. -/
def LitState.inText : LitState → TextState
  | .text => .inside
  | .esc => .escaped
  | .hex _ => .inside

theorem exists_of_consLit {b : UInt8} {x : Option (Bytes × Bytes)} {l r : Bytes} (h : consLit b x = some (l, r)) :
    ∃ l', x = some (l', r) := by
  obtain ⟨⟨l', r'⟩, hx, heq⟩ := Option.map_eq_some_iff.mp h
  obtain ⟨-, rfl⟩ := Prod.mk.inj heq
  exact ⟨l', hx⟩

/-- What is scanned as a literal is one to a reader of the text. -/
theorem outsideLiterals_scanString (st : LitState) {bs l r : Bytes} (h : scanString st bs = some (l, r)) :
    outsideLiterals st.inText bs = outsideLiterals .outside r := by
  induction bs generalizing st l with
  | nil => cases st <;> simp [scanString] at h
  | cons b bs ih =>
    cases st with
    | text =>
      rw [scanString] at h
      rw [LitState.inText, outsideLiterals]
      split at h
      · rename_i hb
        obtain ⟨-, rfl⟩ := Prod.mk.inj (Option.some.inj h)
        rw [if_pos hb]
      · rename_i hb
        rw [if_neg hb]
        split at h
        · rename_i hb
          obtain ⟨l', h⟩ := exists_of_consLit h
          rw [if_pos hb]
          exact ih _ h
        · rename_i hb
          rw [if_neg hb]
          split at h
          · cases h
          · obtain ⟨l', h⟩ := exists_of_consLit h
            exact ih _ h
    | esc =>
      rw [scanString] at h
      rw [LitState.inText, outsideLiterals]
      split at h
      · obtain ⟨l', h⟩ := exists_of_consLit h
        exact ih (.hex 3) h
      · split at h
        · obtain ⟨l', h⟩ := exists_of_consLit h
          exact ih .text h
        · cases h
    | hex n =>
      rw [scanString] at h
      split at h
      · rename_i hb
        -- Hexadecimal digits are neither quotation marks nor backslashes.
        have hne : b ≠ 34 ∧ b ≠ 92 := by constructor <;> rintro rfl <;> exact absurd hb (by decide)
        obtain ⟨l', h⟩ := exists_of_consLit h
        have hnext : (LitState.next n).inText = .inside := by cases n <;> rfl
        rw [LitState.inText, outsideLiterals, if_neg hne.1, if_neg hne.2, ← hnext]
        exact ih _ h
      · cases h

theorem inked_literal {l : Bytes} (h : IsLit l) : Inked (34 :: (l ++ [34])) := by
  refine ⟨[], by simp, fun r => ?_⟩
  rw [List.cons_append, outsideLiterals, if_pos rfl, List.append_assoc]
  exact outsideLiterals_scanString .text (h r)

/-! ## Numbers -/

/-- What is scanned, if anything, consists of the bytes of numbers. -/
def NumBytes (x : Option (Bytes × Bytes)) : Prop := ∀ y ∈ x, ∀ b ∈ y.1, isNumByte b = true

theorem numBytes_some {y : Bytes × Bytes} (h : ∀ b ∈ y.1, isNumByte b = true) : NumBytes (some y) := by
  rintro _ ⟨⟩
  exact h

theorem NumBytes.bind {x : Option (Bytes × Bytes)} {f : Bytes × Bytes → Option (Bytes × Bytes)} (hx : NumBytes x)
    (hf : ∀ y, (∀ b ∈ y.1, isNumByte b = true) → NumBytes (f y)) : NumBytes (x.bind f) := by
  intro z hz
  obtain ⟨y, hy, hz⟩ := Option.bind_eq_some_iff.mp hz
  exact hf y (hx y hy) z hz

theorem NumBytes.map {x : Option (Bytes × Bytes)} {f : Bytes × Bytes → Bytes × Bytes} (hx : NumBytes x)
    (hf : ∀ y, (∀ b ∈ y.1, isNumByte b = true) → ∀ b ∈ (f y).1, isNumByte b = true) : NumBytes (x.map f) := by
  intro z hz
  obtain ⟨y, hy, rfl⟩ := Option.map_eq_some_iff.mp hz
  exact hf y (hx y hy)

theorem mem_optional {p : UInt8 → Bool} {bs : Bytes} {b : UInt8} (h : b ∈ (optional p bs).1) : p b = true := by
  cases bs with
  | nil => cases h
  | cons c bs =>
    rw [optional] at h
    split at h
    · rename_i hc
      rwa [List.mem_singleton.mp h]
    · cases h

theorem numBytes_scanDigits (bs : Bytes) : NumBytes (scanDigits bs) := by
  rw [scanDigits]
  split
  · nofun
  · refine numBytes_some fun b hb => ?_
    have hdigit : isDigit b = true := List.mem_takeWhile_imp hb
    simp [isNumByte, hdigit]

/-- A byte that is taken where there may be one of a number. -/
theorem num_of_optional {p : UInt8 → Bool} (hp : ∀ b, p b = true → isNumByte b = true) {bs : Bytes}
    {y : Bytes × Bytes} (h : optional p bs = y) : ∀ b ∈ y.1, isNumByte b = true := by
  intro b hb
  exact hp b (mem_optional (by rw [h]; exact hb))

theorem numBytes_scanNumber (bs : Bytes) : NumBytes (scanNumber bs) := by
  have h45 : ∀ b : UInt8, decide (b = 45) = true → isNumByte b = true := by simp [isNumByte]
  have h46 : ∀ b : UInt8, decide (b = 46) = true → isNumByte b = true := by simp [isNumByte]
  have h48 : ∀ b : UInt8, decide (b = 48) = true → isNumByte b = true := by simp [isNumByte, isDigit]
  have hexp : ∀ b : UInt8, (decide (b = 101) || decide (b = 69)) = true → isNumByte b = true := by
    simp +contextual [isNumByte, or_imp]
  have hsign : ∀ b : UInt8, (decide (b = 43) || decide (b = 45)) = true → isNumByte b = true := by
    simp +contextual [isNumByte, or_imp]
  have htail : ∀ i f : Bytes, (∀ b ∈ i, isNumByte b = true) → (∀ b ∈ f, isNumByte b = true) → ∀ y : Bytes × Bytes,
      (∀ b ∈ y.1, isNumByte b = true) → NumBytes (some ((optional (· = 45) bs).1 ++ (i ++ (f ++ y.1)), y.2)) := by
    intro i f hi hf y hy
    refine numBytes_some fun b hb => ?_
    simp only [List.mem_append] at hb
    rcases hb with hb | hb | hb | hb
    · exact num_of_optional h45 rfl b hb
    · exact hi b hb
    · exact hf b hb
    · exact hy b hb
  simp only [scanNumber, Option.bind_eq_bind, Option.pure_def]
  -- With a leading zero or other digits, with a fraction or not, with an exponent or not.
  split <;> refine NumBytes.bind ?_ fun x hx => ?_
  · exact numBytes_scanDigits _
  rotate_left
  · exact numBytes_some (num_of_optional h48 rfl)
  all_goals
    split <;> refine NumBytes.bind ?_ fun y hy => ?_
    · exact numBytes_some nofun
    rotate_left
    · refine (numBytes_scanDigits _).map fun z hz b hb => ?_
      exact (List.mem_append.mp hb).elim (num_of_optional h46 ‹_› b) (hz b)
    all_goals
      split <;> refine NumBytes.bind ?_ fun z hz => htail x.1 y.1 hx hy z hz
      · exact numBytes_some nofun
      · refine (numBytes_scanDigits _).map fun z hz b hb => ?_
        rcases List.mem_append.mp hb with hb | hb
        · exact num_of_optional hexp ‹_› b hb
        · exact (List.mem_append.mp hb).elim (num_of_optional hsign rfl b) (hz b)

/-- The bytes of a number token are digits and a few signs. -/
theorem inked_num {t : Bytes} (h : IsNum t) : Inked t := by
  have hscan := h.2 [] (by simp [NumEnd])
  rw [List.append_nil] at hscan
  refine inked_of_all (List.all_eq_true.mpr fun b hb => ?_)
  have hnum := numBytes_scanNumber t _ hscan b hb
  simp only [isNumByte, isDigit, Bool.or_eq_true, Bool.and_eq_true, decide_eq_true_eq] at hnum
  simp only [isInk, Bool.and_eq_true, decide_eq_true_eq, bne_iff_ne]
  grind

/-! ## Texts -/

/-- A tree of literals printed without white space has none outside the
literals. -/
theorem inked_print (v : Json) : WF v → Inked (print compact 0 v) := by
  induction v using ind with
  | null => exact fun _ => by rw [print]; exact inked_of_all rfl
  | bool b => cases b <;> exact fun _ => by rw [print]; exact inked_of_all rfl
  | num t => exact inked_num
  | str s => exact inked_literal
  | arr xs ih =>
    rw [WF, wfItems_iff, print_compact_arr]
    intro h
    refine Inked.cons (by decide) (by decide) (Inked.append (inked_intercalate ?_) ?_)
    · rw [List.forall_mem_map]
      intro x hx
      rw [print_compact_depth]
      exact ih x hx (h x hx)
    · exact inked_nil.cons (by decide) (by decide)
  | obj kvs ih =>
    rw [WF, wfMembers_iff, print_compact_obj]
    intro h
    refine Inked.cons (by decide) (by decide) (Inked.append (inked_intercalate ?_) ?_)
    · rw [List.forall_mem_map]
      intro kv hkv
      rw [print_compact_depth]
      have hmember := (inked_literal (h kv hkv).1).append
        ((ih kv hkv (h kv hkv).2).cons (b := 58) (by decide) (by decide))
      simpa using hmember
    · exact inked_nil.cons (by decide) (by decide)

theorem ink_outsideLiterals {x : Bytes} (h : Inked x) : ∀ b ∈ outsideLiterals .outside x, isInk b = true := by
  obtain ⟨w, hw, hx⟩ := h
  have hall := hx []
  rw [List.append_nil, outsideLiterals, List.append_nil] at hall
  rwa [hall]

end Json
