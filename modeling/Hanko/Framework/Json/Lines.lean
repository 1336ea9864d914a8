import Hanko.Framework.Json.KeyOrder

/-!
# One text a line

A compact text has no control characters (`printable_print`), for those inside a
literal are escaped. So texts may be kept one a line, and a reader who splits the
file at its line breaks has them back (`splitOn_lines`).
-/

namespace Json

open Bytes

/-- A text without control characters. -/
def Printable (bs : Bytes) : Prop := ∀ b ∈ bs, 32 ≤ b

theorem Printable.cons {b : UInt8} {bs : Bytes} (hb : 32 ≤ b) (h : Printable bs) : Printable (b :: bs) :=
  List.forall_mem_cons.mpr ⟨hb, h⟩

theorem Printable.append {bs cs : Bytes} (hb : Printable bs) (hc : Printable cs) : Printable (bs ++ cs) :=
  List.forall_mem_append.mpr ⟨hb, hc⟩

theorem printable_of_all {bs : Bytes} (h : bs.all (fun b => 32 ≤ b) = true) : Printable bs := by
  simpa [Printable] using h

theorem printable_intercalate {xs : List Bytes} (h : ∀ x ∈ xs, Printable x) : Printable ([44].intercalate xs) := by
  induction xs with
  | nil => exact List.forall_mem_nil _
  | cons x xs ih =>
    obtain ⟨hx, hxs⟩ := List.forall_mem_cons.mp h
    cases xs with
    | nil => simpa [List.intercalate] using hx
    | cons y ys =>
      rw [intercalate_cons_cons]
      exact hx.append ((ih hxs).cons (by decide))

/-! ## Literals and numbers -/

theorem printable_consLit {b : UInt8} {x : Option (Bytes × Bytes)} (hb : 32 ≤ b)
    (hx : ∀ l r, x = some (l, r) → Printable l) {l r : Bytes} (h : consLit b x = some (l, r)) : Printable l := by
  obtain ⟨⟨l', r'⟩, hsome, heq⟩ := Option.map_eq_some_iff.mp h
  obtain ⟨rfl, -⟩ := Prod.mk.inj heq
  exact (hx l' r' hsome).cons hb

theorem printable_hex {b : UInt8} (h : (hexValue b).isSome) : 32 ≤ b := by
  rw [hexValue] at h
  grind

theorem printable_scanString (st : LitState) {bs l r : Bytes} (h : scanString st bs = some (l, r)) : Printable l := by
  induction bs generalizing st l r with
  | nil => cases st <;> simp [scanString] at h
  | cons b bs ih =>
    cases st with
    | text =>
      rw [scanString] at h
      split at h
      · obtain ⟨rfl, -⟩ := Prod.mk.inj (Option.some.inj h)
        exact List.forall_mem_nil _
      split at h
      · next hb =>
        subst hb
        exact printable_consLit (by decide) (fun l r => ih .esc) h
      split at h
      · cases h
      · next hb => exact printable_consLit (UInt8.not_lt.mp hb) (fun l r => ih .text) h
    | esc =>
      rw [scanString] at h
      split at h
      · next hb =>
        subst hb
        exact printable_consLit (by decide) (fun l r => ih (.hex 3)) h
      split at h
      · next hb =>
        have hb : 32 ≤ b := by
          simp only [isEscape, Bool.or_eq_true, decide_eq_true_eq] at hb
          grind
        exact printable_consLit hb (fun l r => ih .text) h
      · cases h
    | hex n =>
      rw [scanString] at h
      split at h
      · next hb => exact printable_consLit (printable_hex hb) (fun l r => ih (.next n)) h
      · cases h

theorem printable_literal {l : Bytes} (h : IsLit l) : Printable (34 :: (l ++ [34])) :=
  ((printable_scanString .text (h [])).append (printable_of_all rfl)).cons (by decide)

theorem printable_num {t : Bytes} (h : IsNum t) : Printable t := by
  intro c hc
  have hscan := h.2 [] (by simp [NumEnd])
  rw [List.append_nil] at hscan
  have hnum := numBytes_scanNumber t _ hscan c hc
  simp only [isNumByte, isDigit, Bool.or_eq_true, Bool.and_eq_true, decide_eq_true_eq] at hnum
  grind

/-! ## Texts -/

/-- A tree of literals printed without white space has no control characters. -/
theorem printable_print (v : Json) : WF v → Printable (print compact 0 v) := by
  induction v using ind with
  | null => exact fun _ => by rw [print]; exact printable_of_all rfl
  | bool b => cases b <;> exact fun _ => by rw [print]; exact printable_of_all rfl
  | num t => exact printable_num
  | str s => exact printable_literal
  | arr xs ih =>
    rw [WF, wfItems_iff, print_compact_arr]
    intro h
    refine .cons (by decide) (.append (printable_intercalate ?_) (printable_of_all rfl))
    rw [List.forall_mem_map]
    intro x hx
    rw [print_compact_depth]
    exact ih x hx (h x hx)
  | obj kvs ih =>
    rw [WF, wfMembers_iff, print_compact_obj]
    intro h
    refine .cons (by decide) (.append (printable_intercalate ?_) (printable_of_all rfl))
    rw [List.forall_mem_map]
    intro kv hkv
    rw [print_compact_depth]
    have hmember := (printable_literal (h kv hkv).1).append ((ih kv hkv (h kv hkv).2).cons (b := 58) (by decide))
    simpa using hmember

/-! ## Lines -/

theorem flatten_lines (ls : List Bytes) : (ls.map (· ++ [10])).flatten = [10].intercalate (ls ++ [[]]) := by
  induction ls with
  | nil => rfl
  | cons l ls ih =>
    cases ls with
    | nil => simp [List.intercalate]
    | cons m ls =>
      rw [List.map_cons, List.flatten_cons, ih]
      simp [List.intercalate]

theorem splitOn_lines {ls : List Bytes} (h : ∀ l ∈ ls, 10 ∉ l) :
    (ls.map (· ++ [10])).flatten.splitOn 10 = ls ++ [[]] := by
  rw [flatten_lines]
  exact List.splitOn_intercalate 10 (List.forall_mem_append.mpr ⟨h, by simp⟩) (by simp)

end Json
