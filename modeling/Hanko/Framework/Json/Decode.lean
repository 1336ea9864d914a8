import Hanko.Framework.Json.Value

/-!
# Decoding into types

How `encoding/json` fills a variable of a given type from a JSON text, on the
tree of literals of the text (`Json.parse`). A decoder takes the value the
variable has and gives the one it gets, or `none` for an error: members may
repeat, and then fill what is already there.

* a `null` empties a slice and leaves every other variable as it is;
* an array is filled element by element into the slice's own backing array,
  so that the elements of a slice cut short can come back (`Slice.spare`);
* a member fills the field with its name, or, if there is none, a field
  whose name differs from it in case only (`lookup`).
-/

namespace Json

open Bytes

/-- Fills a variable of type `σ` from a JSON value. -/
abbrev Decoder (σ : Type) := σ → Json → Option σ

/-- The number a run of digits denotes. -/
def digitsValue (ds : Bytes) : Nat := ds.foldl (fun n d => 10 * n + (d.toNat - 48)) 0

/-- The digits of a decimal number, at least one. -/
def decimal (ds : Bytes) : Option Nat :=
  if ds ≠ [] ∧ ds.all isDigit then some (digitsValue ds) else none

/-- `strconv.ParseInt(t, 10, 64)` on a number token. -/
def parseInt64 (t : Bytes) : Option Int := do
  let n ← if t.head? = some 45 then (decimal t.tail).map fun n => -(n : Int)
    else (decimal t).map fun n => (n : Int)
  if -2 ^ 63 ≤ n ∧ n < 2 ^ 63 then some n else none

namespace Decode

def string : Decoder Bytes
  | s, .null => some s
  | _, .str l => some (unquote l)
  | _, _ => none

def int : Decoder Int
  | n, .null => some n
  | _, .num t => parseInt64 t
  | _, _ => none

def uint8 : Decoder UInt8
  | b, .null => some b
  | _, .num t => do
    let n ← decimal t
    if n < 256 then some (UInt8.ofNat n) else none
  | _, _ => none

/-- A slice: its elements, and those its backing array holds behind them. What
follows is zero. -/
structure Slice (α : Type) where
  elems : List α
  spare : List α

/-- The elements of an array, filled in where the backing array has them; and
what is left of it. -/
def fill {α : Type} (d : Decoder α) (zero : α) : List α → List Json → Option (List α × List α)
  | old, [] => some ([], old)
  | old, x :: xs => do
    let y ← d (old.headD zero) x
    let (ys, rest) ← fill d zero old.tail xs
    return (y :: ys, rest)

def slice {α : Type} (d : Decoder α) (zero : α) : Decoder (Option (Slice α))
  | _, .null => some none
  | _, .arr [] => some (some ⟨[], []⟩)
  | s, .arr (x :: xs) =>
    (fill d zero (s.elim [] fun s => s.elems ++ s.spare) (x :: xs)).map fun r => some ⟨r.1, r.2⟩
  | _, _ => none

/-- A `[]byte`: a string of base64, or an array of numbers. -/
def bytes : Decoder (Option (Slice UInt8))
  | _, .str l => (stdDecode (unquote l)).map fun b => some ⟨b, []⟩
  | s, v => slice uint8 0 s v

/-- The least rune that differs from `c` in case only, as far as names in ASCII
are concerned: two runes outside ASCII fold into it. -/
def foldRune (c : Char) : Char :=
  if 'a' ≤ c ∧ c ≤ 'z' then Char.ofNat (c.toNat - 32)
  else if c = '\u017f' then 'S'
  else if c = '\u212a' then 'K'
  else c

def foldName (k : Bytes) : List (Option Char) := (runes k).map fun r => r.map foldRune

/-- The field a key names: exactly, or else up to case. -/
def lookup {σ : Type} (fields : List (Bytes × Decoder σ)) (k : Bytes) : Option (Decoder σ) :=
  ((fields.find? fun f => f.1 = k).or (fields.find? fun f => foldName f.1 = foldName k)).map Prod.snd

/-- One member of an object. Unknown keys are passed over, or an error if
`strict` (`DisallowUnknownFields`). -/
def member {σ : Type} (strict : Bool) (fields : List (Bytes × Decoder σ)) (s : σ) (kv : Bytes × Json) :
    Option σ :=
  match lookup fields (unquote kv.1) with
  | some d => d s kv.2
  | none => if strict then none else some s

/-- A struct. -/
def object {σ : Type} (strict : Bool) (fields : List (Bytes × Decoder σ)) : Decoder σ
  | s, .null => some s
  | s, .obj kvs => kvs.foldlM (member strict fields) s
  | _, _ => none

/-- The decoder of one field of a struct. -/
def field {σ β : Type} (name : Bytes) (d : Decoder β) (get : σ → β) (set : σ → β → σ) :
    Bytes × Decoder σ :=
  (name, fun s v => (d (get s) v).map (set s))

/-! ## What decoded values satisfy -/

section Keeps

variable {α σ : Type}

/-- `d` gives values satisfying `I` from values satisfying `I`. -/
def Keeps (I : σ → Prop) (d : Decoder σ) : Prop := ∀ s v s', I s → d s v = some s' → I s'

theorem string_keeps : Keeps ValidUtf8 string := by
  intro s v s' hs h
  cases v with
  | null => obtain rfl := Option.some.inj h; exact hs
  | str l => obtain rfl := Option.some.inj h; exact unquote_valid l
  | bool | num | arr | obj => cases h

theorem fill_keeps {I : α → Prop} {d : Decoder α} {zero : α} (hd : Keeps I d) (hz : I zero) :
    ∀ (xs : List Json) (old : List α) (r : List α × List α), (∀ a ∈ old, I a) →
      fill d zero old xs = some r → (∀ a ∈ r.1, I a) ∧ ∀ a ∈ r.2, I a := by
  intro xs
  induction xs with
  | nil =>
    rintro old r hold h
    obtain rfl := Option.some.inj h
    exact ⟨by simp, hold⟩
  | cons x xs ih =>
    intro old r hold h
    simp only [fill, Option.bind_eq_bind, Option.bind_eq_some_iff] at h
    obtain ⟨y, hy, ys, hys, hr⟩ := h
    obtain rfl := Option.some.inj hr
    have hhead : I (old.headD zero) := by
      cases old with
      | nil => exact hz
      | cons a old => exact hold a List.mem_cons_self
    obtain ⟨h₁, h₂⟩ := ih old.tail ys (fun a ha => hold a (List.mem_of_mem_tail ha)) hys
    exact ⟨List.forall_mem_cons.mpr ⟨hd _ _ _ hhead hy, h₁⟩, h₂⟩

/-- Every element of a slice and of its backing array satisfies `I`. -/
def SliceAll (I : α → Prop) (s : Option (Slice α)) : Prop :=
  ∀ t ∈ s, (∀ a ∈ t.elems, I a) ∧ ∀ a ∈ t.spare, I a

theorem slice_keeps {I : α → Prop} {d : Decoder α} {zero : α} (hd : Keeps I d) (hz : I zero) :
    Keeps (SliceAll I) (slice d zero) := by
  intro s v s' hs h
  cases v with
  | null => obtain rfl := Option.some.inj h; simp [SliceAll]
  | arr xs =>
    cases xs with
    | nil => obtain rfl := Option.some.inj h; simp [SliceAll]
    | cons x xs =>
      obtain ⟨r, hr, rfl⟩ := Option.map_eq_some_iff.mp h
      have hold : ∀ a ∈ s.elim [] (fun s => s.elems ++ s.spare), I a := by
        cases s with
        | none => simp
        | some s => simpa [or_imp, forall_and] using hs s rfl
      have := fill_keeps hd hz _ _ _ hold hr
      simpa [SliceAll] using this
  | bool | num | str | obj => cases h

/-- A struct keeps what every field keeps. -/
theorem object_keeps {I : σ → Prop} {strict : Bool} {fields : List (Bytes × Decoder σ)}
    (hf : ∀ f ∈ fields, Keeps I f.2) : Keeps I (object strict fields) := by
  have hm : ∀ kv s s', I s → member strict fields s kv = some s' → I s' := by
    intro kv s s' hs h
    rw [member] at h
    split at h
    · rename_i d hl
      obtain ⟨f, hfind, rfl⟩ := Option.map_eq_some_iff.mp hl
      refine hf f ?_ _ _ _ hs h
      rcases Option.or_eq_some_iff.mp hfind with h | ⟨-, h⟩ <;> exact List.mem_of_find?_eq_some h
    · split at h
      · cases h
      · obtain rfl := Option.some.inj h; exact hs
  intro s v s' hs h
  cases v with
  | null => obtain rfl := Option.some.inj h; exact hs
  | obj kvs =>
    rw [object] at h
    induction kvs generalizing s with
    | nil => obtain rfl := Option.some.inj h; exact hs
    | cons kv kvs ih =>
      rw [List.foldlM_cons, Option.bind_eq_bind, Option.bind_eq_some_iff] at h
      obtain ⟨t, ht, h⟩ := h
      exact ih t (hm kv s t hs ht) h
  | bool | num | str | arr => cases h

theorem field_keeps {β : Type} {I : σ → Prop} {J : β → Prop} {name : Bytes} {d : Decoder β}
    {get : σ → β} {set : σ → β → σ} (hd : Keeps J d) (hget : ∀ s, I s → J (get s))
    (hset : ∀ s b, I s → J b → I (set s b)) : Keeps I (field name d get set).2 := by
  intro s v s' hs h
  obtain ⟨b, hb, rfl⟩ := Option.map_eq_some_iff.mp h
  exact hset s b hs (hd _ _ _ (hget s hs) hb)

end Keeps

end Decode

end Json
