import Mathlib

/-!
# Byte strings and UTF-8

A Go string is a sequence of bytes, most often but not always UTF-8. `runes`
reads it as Go's `range` does: the characters, and for every byte that starts
none an invalid rune of width one. `toValid` replaces these by U+FFFD; on
valid strings it is the identity (`toValid_of_valid`).
-/

abbrev Bytes := List UInt8

instance Bytes.lawfulBEq : LawfulBEq Bytes := inferInstanceAs (LawfulBEq (List UInt8))

namespace Bytes

/-- The UTF-8 encoding of a text. -/
def utf8 (cs : List Char) : Bytes := cs.flatMap String.utf8EncodeChar

/-- The bytes of a literal. -/
def lit (s : String) : Bytes := utf8 s.toList

/-- The replacement character. -/
def replacement : Char := '�'

/-- The character whose encoding `bs` starts with. -/
def decodeRune (bs : Bytes) : Option Char := (bs.take 4).toByteArray.utf8DecodeChar? 0

/-- `runes`, with a bound on their number. -/
def runesUpTo : Nat → Bytes → List (Option Char)
  | 0, _ => []
  | _ + 1, [] => []
  | n + 1, b :: bs =>
    match decodeRune (b :: bs) with
    | some c => some c :: runesUpTo n ((b :: bs).drop c.utf8Size)
    | none => none :: runesUpTo n bs

/-- The runes of a string, `none` where a byte is not part of a character. -/
def runes (bs : Bytes) : List (Option Char) := runesUpTo bs.length bs

/-- `bs` with U+FFFD for each byte that is not part of a character. -/
def toValid (bs : Bytes) : Bytes := utf8 ((runes bs).map (·.getD replacement))

/-- `utf8.ValidString`. -/
def ValidUtf8 (bs : Bytes) : Prop := none ∉ runes bs

instance (bs : Bytes) : Decidable (ValidUtf8 bs) := inferInstanceAs (Decidable (¬ _))

@[simp] theorem utf8_nil : utf8 [] = [] := rfl

@[simp] theorem utf8_cons (c : Char) (cs : List Char) :
    utf8 (c :: cs) = String.utf8EncodeChar c ++ utf8 cs := rfl

@[simp] theorem utf8_append (cs ds : List Char) : utf8 (cs ++ ds) = utf8 cs ++ utf8 ds := by
  simp [utf8]

/-- A character is read back from its encoding. -/
theorem decodeRune_encode (c : Char) (bs : Bytes) :
    decodeRune (String.utf8EncodeChar c ++ bs) = some c := by
  have hl : (String.utf8EncodeChar c).length ≤ 4 := by
    rw [String.length_utf8EncodeChar]; exact c.utf8Size_le_four
  rw [decodeRune, List.take_append, List.take_of_length_le hl, List.toByteArray_append]
  exact ByteArray.utf8DecodeChar?_utf8EncodeChar_append

/-- A string in which a character is read starts with its encoding. -/
theorem eq_of_decodeRune {bs : Bytes} {c : Char} (h : decodeRune bs = some c) :
    bs = String.utf8EncodeChar c ++ bs.drop c.utf8Size := by
  obtain ⟨b, hb⟩ := ByteArray.exists_of_utf8DecodeChar?_eq_some h
  have ht : bs.take 4 = String.utf8EncodeChar c ++ b.data.toList := by
    have := congrArg (fun a : ByteArray => a.data.toList) hb
    simpa using this
  have hs : bs = String.utf8EncodeChar c ++ (b.data.toList ++ bs.drop 4) := by
    rw [← List.append_assoc, ← ht, List.take_append_drop]
  have hd : bs.drop c.utf8Size = b.data.toList ++ bs.drop 4 := by
    conv_lhs => rw [hs]
    rw [← String.length_utf8EncodeChar c, List.drop_left]
  rw [hd]; exact hs

/-- Enough fuel for `runesUpTo`. -/
theorem runesUpTo_eq {n : Nat} {bs : Bytes} (h : bs.length ≤ n) : runesUpTo n bs = runes bs := by
  suffices ∀ m n bs, bs.length ≤ m → bs.length ≤ n → runesUpTo n bs = runesUpTo m bs from
    this _ _ _ (Nat.le_refl _) h
  intro m
  induction m with
  | zero =>
    intro n bs hm _
    obtain rfl : bs = [] := List.length_eq_zero_iff.mp (Nat.le_zero.mp hm)
    cases n <;> rfl
  | succ m ih =>
    intro n bs hm hn
    cases bs with
    | nil => cases n <;> rfl
    | cons b bs =>
      obtain ⟨n, rfl⟩ : ∃ k, n = k + 1 := ⟨n - 1, by simp only [List.length_cons] at hn; omega⟩
      simp only [List.length_cons] at hm hn
      simp only [runesUpTo]
      cases hd : decodeRune (b :: bs) with
      | none => simp only [ih n bs (by omega) (by omega)]
      | some c =>
        have := c.utf8Size_pos
        simp only [List.cons.injEq, true_and]
        exact ih n _ (by simp only [List.length_drop, List.length_cons]; omega)
          (by simp only [List.length_drop, List.length_cons]; omega)

@[simp] theorem runes_nil : runes [] = [] := rfl

@[simp] theorem runes_encode_append (c : Char) (bs : Bytes) :
    runes (String.utf8EncodeChar c ++ bs) = some c :: runes bs := by
  obtain ⟨b, bs', hb⟩ := List.exists_cons_of_ne_nil
    (show String.utf8EncodeChar c ++ bs ≠ [] by simp)
  have hd := decodeRune_encode c bs
  have hdrop : (String.utf8EncodeChar c ++ bs).drop c.utf8Size = bs := by
    rw [← String.length_utf8EncodeChar c, List.drop_left]
  have hl := congrArg List.length hb
  simp only [List.length_append, String.length_utf8EncodeChar, List.length_cons] at hl
  have := c.utf8Size_pos
  rw [hb] at hd hdrop ⊢
  simp only [runes, List.length_cons, runesUpTo, hd, hdrop, List.cons.injEq, true_and]
  exact runesUpTo_eq (by omega)

theorem runes_invalid {b : UInt8} {bs : Bytes} (h : decodeRune (b :: bs) = none) :
    runes (b :: bs) = none :: runes bs := by
  rw [runes, List.length_cons, runesUpTo, h]
  rfl

/-- A string is empty, or starts with a character, or with a byte that is not
part of one. -/
theorem runes_induction {P : Bytes → Prop} (nil : P [])
    (char : ∀ c bs, P bs → P (String.utf8EncodeChar c ++ bs))
    (invalid : ∀ b bs, decodeRune (b :: bs) = none → P bs → P (b :: bs)) (bs : Bytes) : P bs := by
  induction hn : bs.length using Nat.strongRecOn generalizing bs with
  | _ n ih =>
    cases bs with
    | nil => exact nil
    | cons b bs =>
      cases hd : decodeRune (b :: bs) with
      | none => exact invalid b bs hd (ih bs.length (by simp at hn; omega) bs rfl)
      | some c =>
        have := c.utf8Size_pos
        rw [eq_of_decodeRune hd]
        exact char c _ (ih _ (by simp only [List.length_drop, List.length_cons] at hn ⊢; omega) _ rfl)

theorem runes_utf8_append (cs : List Char) (bs : Bytes) :
    runes (utf8 cs ++ bs) = cs.map some ++ runes bs := by
  induction cs with
  | nil => rfl
  | cons c cs ih => simp [List.append_assoc, ih]

@[simp] theorem runes_utf8 (cs : List Char) : runes (utf8 cs) = cs.map some := by
  simpa using runes_utf8_append cs []

@[simp] theorem toValid_utf8 (cs : List Char) : toValid (utf8 cs) = utf8 cs := by
  simp [toValid, Function.comp_def]

theorem utf8_injective : Function.Injective utf8 := by
  intro cs ds h
  have := congrArg runes h
  rw [runes_utf8, runes_utf8] at this
  exact List.map_injective_iff.mpr (Option.some_injective _) this

theorem valid_utf8 (cs : List Char) : ValidUtf8 (utf8 cs) := by
  simp [ValidUtf8]

/-- A string whose runes are all characters is their encoding. -/
theorem eq_utf8_of_valid {bs : Bytes} (h : ValidUtf8 bs) : ∃ cs, bs = utf8 cs := by
  induction bs using runes_induction with
  | nil => exact ⟨[], rfl⟩
  | char c bs ih =>
    obtain ⟨cs, rfl⟩ := ih fun hm => h (by simp [hm])
    exact ⟨c :: cs, rfl⟩
  | invalid b bs hd _ => exact absurd (by simp [runes_invalid hd]) h

theorem toValid_of_valid {bs : Bytes} (h : ValidUtf8 bs) : toValid bs = bs := by
  obtain ⟨cs, rfl⟩ := eq_utf8_of_valid h
  exact toValid_utf8 cs

theorem valid_toValid (bs : Bytes) : ValidUtf8 (toValid bs) := valid_utf8 _

theorem valid_append {bs bs' : Bytes} (h : ValidUtf8 bs) (h' : ValidUtf8 bs') : ValidUtf8 (bs ++ bs') := by
  obtain ⟨cs, rfl⟩ := eq_utf8_of_valid h
  rw [ValidUtf8, runes_utf8_append, List.mem_append]
  exact not_or.mpr ⟨by simp, h'⟩

theorem valid_lit (s : String) : ValidUtf8 (lit s) := valid_utf8 _

/-- A byte below 0x80 is the encoding of a character. -/
theorem encode_ascii (b : UInt8) (h : b < 128) :
    String.utf8EncodeChar (Char.ofNat b.toNat) = [b] := by
  have hb : b.toNat < 128 := by simpa [UInt8.lt_iff_toNat_lt] using h
  have hv : ∀ n < 128, String.utf8EncodeChar (Char.ofNat n) = [UInt8.ofNat n] := by decide
  rw [hv _ hb, UInt8.ofNat_toNat]

theorem runes_ascii_cons {b : UInt8} (h : b < 128) (bs : Bytes) :
    runes (b :: bs) = some (Char.ofNat b.toNat) :: runes bs := by
  have := runes_encode_append (Char.ofNat b.toNat) bs
  rwa [encode_ascii b h] at this

/-- ASCII strings are valid. -/
theorem valid_of_ascii {bs : Bytes} (h : ∀ b ∈ bs, b < 128) : ValidUtf8 bs := by
  induction bs with
  | nil => simp [ValidUtf8]
  | cons b bs ih =>
    have := ih fun b hb => h b (List.mem_cons_of_mem _ hb)
    simpa [ValidUtf8, runes_ascii_cons (h b List.mem_cons_self)] using this

end Bytes
