import Hanko.Framework.Json.Value

/-!
# The canonical form of RFC 8785

`jcs` is the JSON Canonicalization Scheme: no white space, the members of an
object ordered by the UTF-16 code units of their keys, and in strings only
the quotation mark, the backslash and the control characters escaped. Numbers
are their tokens.

`marshal` differs from it in the characters it escapes and in how it orders
keys outside ASCII. On a value whose keys are plain the two give the same text
exactly if its strings have none of the characters `<`, `>`, `&`, U+2028 and
U+2029 (`jcs_eq_marshal_iff`).
-/

namespace Json

open Bytes

/-! ## Definitions -/

/-- How a character stands in a literal. -/
def jcsRune (c : Char) : List Char :=
  if c = '"' ∨ c = '\\' then ['\\', c]
  else if c = '\x08' then ['\\', 'b']
  else if c = '\x0c' then ['\\', 'f']
  else if c = '\n' then ['\\', 'n']
  else if c = '\r' then ['\\', 'r']
  else if c = '\t' then ['\\', 't']
  else if c.toNat < 32 then '\\' :: 'u' :: hex4 c.toNat
  else [c]

/-- A string as a literal, without the quotation marks. -/
def jcsQuote (s : Bytes) : Bytes := utf8 ((runes s).flatMap fun r => jcsRune (r.getD replacement))

/-- The UTF-16 code units of a character. -/
def charUnits (c : Char) : List Nat :=
  if c.toNat < 0x10000 then [c.toNat]
  else [0xd800 + (c.toNat - 0x10000) / 1024, 0xdc00 + (c.toNat - 0x10000) % 1024]

/-- The UTF-16 code units of a string. -/
def units (s : Bytes) : List Nat := (runes s).flatMap fun r => charUnits (r.getD replacement)

/-- The order of the members of an object: by the code units of their keys. -/
def UnitsLe {α : Type} (a b : Bytes × α) : Prop := units a.1 ≤ units b.1

instance UnitsLe.decidable {α : Type} : DecidableRel (UnitsLe (α := α)) :=
  fun a b => inferInstanceAs (Decidable (units a.1 ≤ units b.1))

mutual

/-- The members of every object in order. -/
def jcsSort : Json → Json
  | .null => .null
  | .bool b => .bool b
  | .num t => .num t
  | .str s => .str s
  | .arr xs => .arr (jcsSortItems xs)
  | .obj kvs => .obj ((jcsSortMembers kvs).insertionSort UnitsLe)

def jcsSortItems : List Json → List Json
  | [] => []
  | x :: xs => jcsSort x :: jcsSortItems xs

def jcsSortMembers : List (Bytes × Json) → List (Bytes × Json)
  | [] => []
  | (k, v) :: kvs => (k, jcsSort v) :: jcsSortMembers kvs

end

/-- The text of a value. -/
def jcs (v : Json) : Bytes := print compact 0 (mapStr jcsQuote (jcsSort v))

/-! ## Strings -/

/-- The characters that `quote` escapes and `jcsQuote` does not. -/
def isHtml (c : Char) : Bool := c = '<' || c = '>' || c = '&' || c = '\u2028' || c = '\u2029'

/-- No such character is in a string. -/
def HtmlSafe (s : Bytes) : Prop := ∀ c, some c ∈ runes s → isHtml c = false

theorem isUnsafe_eq (c : Char) : isUnsafe c = (decide (c.toNat < 32) || isHtml c) := by
  simp only [isUnsafe, isHtml, Bool.or_assoc]

theorem jcsRune_of_not_html {c : Char} (h : isHtml c = false) : jcsRune c = quoteRune (some c) := by
  simp only [jcsRune, quoteRune, isUnsafe_eq, h, Bool.or_false, decide_eq_true_eq]

theorem jcsRune_of_html {c : Char} (h : isHtml c = true) :
    jcsRune c = [c] ∧ ∃ t, quoteRune (some c) = '\\' :: t ∧ c ≠ '\\' := by
  simp only [isHtml, Bool.or_eq_true, decide_eq_true_eq] at h
  rcases h with (((rfl | rfl) | rfl) | rfl) | rfl <;> exact ⟨by decide, _, rfl, by decide⟩

/-- The literals agree, character by character. -/
theorem flatMap_jcsRune_eq_iff (cs : List Char) :
    cs.flatMap jcsRune = cs.flatMap (fun c => quoteRune (some c)) ↔ ∀ c ∈ cs, isHtml c = false := by
  induction cs with
  | nil => simp
  | cons c cs ih =>
    rw [List.flatMap_cons, List.flatMap_cons, List.forall_mem_cons]
    cases h : isHtml c with
    | false => rw [jcsRune_of_not_html h, List.append_cancel_left_eq, ih]; simp
    | true =>
      obtain ⟨hj, t, hq, hc⟩ := jcsRune_of_html h
      simp [hj, hq, hc]

theorem jcsQuote_eq_quote_iff {s : Bytes} (h : ValidUtf8 s) : jcsQuote s = quote s ↔ HtmlSafe s := by
  obtain ⟨cs, rfl⟩ := eq_utf8_of_valid h
  simp only [jcsQuote, quote, HtmlSafe, runes_utf8, List.flatMap_map, Option.getD_some, utf8_injective.eq_iff,
    flatMap_jcsRune_eq_iff, List.mem_map, Option.some.injEq, exists_eq_right]

/-- A string of plain bytes. -/
def Plain (s : Bytes) : Prop := ∀ b ∈ s, isPlain b = true

theorem plain_of_all {s : Bytes} (h : s.all isPlain = true) : Plain s := List.all_eq_true.mp h

theorem htmlSafe_of_plain {s : Bytes} (h : Plain s) : HtmlSafe s := by
  have hchar : ∀ n < 127, isPlain (UInt8.ofNat n) = true → isHtml (Char.ofNat n) = false := by decide
  induction s with
  | nil => simp [HtmlSafe]
  | cons b s ih =>
    have hb := h b List.mem_cons_self
    intro c hc
    rw [runes_ascii_cons (lt_of_isPlain hb), List.mem_cons, Option.some.injEq] at hc
    rcases hc with rfl | hc
    · exact hchar _ (toNat_of_isPlain hb) (by rwa [UInt8.ofNat_toNat])
    · exact ih (fun b hb => h b (List.mem_cons_of_mem _ hb)) c hc

theorem htmlSafe_toValid (s : Bytes) : HtmlSafe (toValid s) ↔ HtmlSafe s := by
  simp only [HtmlSafe, toValid, runes_utf8, List.mem_map, Option.some.injEq]
  constructor
  · exact fun h c hc => h c ⟨c, ⟨_, hc, rfl⟩, rfl⟩
  · rintro h _ ⟨_, ⟨r, hr, rfl⟩, rfl⟩
    cases r with
    | none => decide
    | some c => exact h c hr

/-- A literal is scanned as a whole. -/
theorem isLit_jcsQuote (s : Bytes) : IsLit (jcsQuote s) := by
  have hc : ∀ c bs, scanString .text (utf8 (jcsRune c) ++ bs) =
      appendLit (utf8 (jcsRune c)) (scanString .text bs) := by
    intro c bs
    cases h : isHtml c with
    | false => rw [jcsRune_of_not_html h]; exact scanString_quoteRune _ bs
    | true =>
      rw [(jcsRune_of_html h).1, show utf8 [c] = String.utf8EncodeChar c by simp]
      simp only [isHtml, Bool.or_eq_true, decide_eq_true_eq] at h
      refine scanString_plains (plain_encode ?_ ?_ ?_) bs <;>
        rcases h with (((rfl | rfl) | rfl) | rfl) | rfl <;> decide
  intro bs
  rw [jcsQuote]
  induction runes s with
  | nil => simp [scanString]
  | cons r rs ih =>
    rw [List.flatMap_cons, utf8_append, List.append_assoc, hc, ih]
    rfl

/-! ## Values -/

mutual

/-- Every key satisfies `K`, and every string `S`. -/
def Every (K S : Bytes → Prop) : Json → Prop
  | .null => True
  | .bool _ => True
  | .num _ => True
  | .str s => S s
  | .arr xs => EveryItem K S xs
  | .obj kvs => EveryMember K S kvs

def EveryItem (K S : Bytes → Prop) : List Json → Prop
  | [] => True
  | x :: xs => Every K S x ∧ EveryItem K S xs

def EveryMember (K S : Bytes → Prop) : List (Bytes × Json) → Prop
  | [] => True
  | (k, v) :: kvs => K k ∧ Every K S v ∧ EveryMember K S kvs

end

section

variable {K S : Bytes → Prop}

theorem everyItem_iff {xs : List Json} : EveryItem K S xs ↔ ∀ x ∈ xs, Every K S x := by
  induction xs with
  | nil => simp [EveryItem]
  | cons x xs ih => simp [EveryItem, ih]

theorem everyMember_iff {kvs : List (Bytes × Json)} :
    EveryMember K S kvs ↔ ∀ kv ∈ kvs, K kv.1 ∧ Every K S kv.2 := by
  induction kvs with
  | nil => simp [EveryMember]
  | cons kv kvs ih => simp [EveryMember, ih, and_assoc]

theorem every_sortKeys (v : Json) : Every K S (sortKeys v) ↔ Every K S v := by
  induction v using ind with
  | null | bool | num | str => rfl
  | arr xs ih =>
    simp only [sortKeys, sortItems_eq, Every, everyItem_iff, List.forall_mem_map]
    exact forall₂_congr ih
  | obj kvs ih =>
    simp only [sortKeys, sortMembers_eq, Every, everyMember_iff, List.mem_insertionSort, List.forall_mem_map]
    exact forall₂_congr fun kv hkv => and_congr_right fun _ => ih kv hkv

/-- Two functions that agree on every key and string. -/
theorem mapStr_eq_iff (f g : Bytes → Bytes) (v : Json) :
    mapStr f v = mapStr g v ↔ Every (fun k => f k = g k) (fun s => f s = g s) v := by
  induction v using ind with
  | null | bool | num => simp [mapStr, Every]
  | str s => simp [mapStr, Every]
  | arr xs ih =>
    simp only [mapStr, mapItems_eq, Json.arr.injEq, Every, everyItem_iff, List.map_inj_left]
    exact forall₂_congr ih
  | obj kvs ih =>
    simp only [mapStr, mapMembers_eq, Json.obj.injEq, Every, everyMember_iff, List.map_inj_left, Prod.mk.injEq]
    exact forall₂_congr fun kv hkv => and_congr_right fun _ => ih kv hkv

end

/-- Where keys satisfy `K₀` and strings `S₀`. -/
theorem Every.congr {K₀ S₀ K S K' S' : Bytes → Prop} (hK : ∀ k, K₀ k → (K k ↔ K' k))
    (hS : ∀ s, S₀ s → (S s ↔ S' s)) (v : Json) : Every K₀ S₀ v → (Every K S v ↔ Every K' S' v) := by
  induction v using ind with
  | null | bool | num => exact fun _ => Iff.rfl
  | str s => exact hS s
  | arr xs ih =>
    simp only [Every, everyItem_iff]
    exact fun h => forall₂_congr fun x hx => ih x hx (h x hx)
  | obj kvs ih =>
    simp only [Every, everyMember_iff]
    exact fun h => forall₂_congr fun kv hkv => and_congr (hK _ (h kv hkv).1) (ih kv hkv (h kv hkv).2)

theorem every_valid (v : Json) : Proper v → Every ValidUtf8 ValidUtf8 v := by
  induction v using ind with
  | null | bool | num => exact fun _ => trivial
  | str s => exact id
  | arr xs ih =>
    simp only [Proper, properItems_iff, Every, everyItem_iff]
    exact fun h x hx => ih x hx (h x hx)
  | obj kvs ih =>
    simp only [Proper, properMembers_iff, Every, everyMember_iff]
    exact fun h kv hkv => ⟨(h.2 kv hkv).1, ih kv hkv (h.2 kv hkv).2⟩

/-! ## The order of keys -/

theorem units_plain {s : Bytes} (h : Plain s) : units s = s.map UInt8.toNat := by
  have hchar : ∀ n < 127, (Char.ofNat n).toNat = n := by decide
  induction s with
  | nil => rfl
  | cons b s ih =>
    have hb := h b List.mem_cons_self
    have hs := ih fun c hc => h c (List.mem_cons_of_mem _ hc)
    have hn := toNat_of_isPlain hb
    have hc := hchar _ hn
    rw [units] at hs
    rw [units, runes_ascii_cons (lt_of_isPlain hb), List.flatMap_cons, hs, Option.getD_some, charUnits, hc,
      if_pos (Nat.lt_trans hn (by decide)), List.map_cons, List.singleton_append]

theorem map_toNat_lt_iff {s t : Bytes} : s.map UInt8.toNat < t.map UInt8.toNat ↔ s < t := by
  induction s generalizing t with
  | nil => cases t <;> simp
  | cons b s ih =>
    cases t with
    | nil => simp
    | cons c t =>
      simp only [List.map_cons, List.cons_lt_cons_iff, ih, UInt8.lt_iff_toNat_lt, UInt8.toNat_inj]

/-- Plain keys are ordered bytewise. -/
theorem unitsLe_iff {α : Type} {a b : Bytes × α} (ha : Plain a.1) (hb : Plain b.1) :
    UnitsLe a b ↔ KeyLe a b := by
  rw [UnitsLe, KeyLe, units_plain ha, units_plain hb, ← not_lt, ← List.not_lt, map_toNat_lt_iff]

theorem jcsSortItems_eq (xs : List Json) : jcsSortItems xs = xs.map jcsSort := by
  induction xs with
  | nil => rfl
  | cons x xs ih => rw [jcsSortItems, ih, List.map_cons]

theorem jcsSortMembers_eq (kvs : List (Bytes × Json)) :
    jcsSortMembers kvs = kvs.map fun kv => (kv.1, jcsSort kv.2) := by
  induction kvs with
  | nil => rfl
  | cons kv kvs ih => rw [jcsSortMembers, ih, List.map_cons]

theorem jcsSort_eq_sortKeys (v : Json) : Every Plain (fun _ => True) v → jcsSort v = sortKeys v := by
  induction v using ind with
  | null | bool | num | str => exact fun _ => rfl
  | arr xs ih =>
    simp only [Every, everyItem_iff, jcsSort, jcsSortItems_eq, sortKeys, sortItems_eq, Json.arr.injEq]
    exact fun h => List.map_congr_left fun x hx => ih x hx (h x hx)
  | obj kvs ih =>
    simp only [Every, everyMember_iff]
    intro h
    have hm : jcsSortMembers kvs = sortMembers kvs := by
      rw [jcsSortMembers_eq, sortMembers_eq]
      exact List.map_congr_left fun kv hkv => by rw [ih kv hkv (h kv hkv).2]
    have hplain : ∀ kv ∈ sortMembers kvs, Plain kv.1 := by
      rw [sortMembers_eq, List.forall_mem_map]
      exact fun kv hkv => (h kv hkv).1
    have hsort := List.map_insertionSort UnitsLe KeyLe id (sortMembers kvs) fun a ha b hb =>
      unitsLe_iff (hplain a ha) (hplain b hb)
    rw [List.map_id, List.map_id] at hsort
    rw [jcsSort, sortKeys, hm, hsort]

/-- The texts of a value with plain keys agree if none of its strings has a
character that only `quote` escapes. -/
theorem jcs_eq_marshal_iff {v : Json} (h : Proper v) (hk : Every Plain (fun _ => True) v) :
    jcs v = marshal v ↔ Every (fun _ => True) HtmlSafe v := by
  have hp := proper_sortKeys v h
  have hv : Proper (mapStr toValid (sortKeys v)) := by rwa [mapStr_toValid _ hp]
  have hprint : print compact 0 (mapStr jcsQuote (sortKeys v)) = print compact 0 (mapStr quote (sortKeys v)) ↔
      mapStr jcsQuote (sortKeys v) = mapStr quote (sortKeys v) :=
    ⟨print_injective compact_ok (wf_mapStr isLit_jcsQuote _ hv) (wf_quote _ hv), fun h => by rw [h]⟩
  have hsafe : Every HtmlSafe HtmlSafe v ↔ Every (fun _ => True) HtmlSafe v :=
    Every.congr (fun _ hk => iff_true_intro (htmlSafe_of_plain hk)) (fun _ _ => Iff.rfl) v hk
  rw [jcs, marshal, jcsSort_eq_sortKeys v hk, hprint, mapStr_eq_iff,
    Every.congr (fun _ => jcsQuote_eq_quote_iff) (fun _ => jcsQuote_eq_quote_iff) _ (every_valid _ hp),
    every_sortKeys, hsafe]

end Json
