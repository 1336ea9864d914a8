import Hanko.Framework.Utf8

/-!
# Hexadecimal and base64

`hex.EncodeToString`, and base64 as Go's `encoding/base64` has it: the
standard alphabet with padding (`stdEncode`, `stdDecode`) and the URL
alphabet without (`rawURLEncode`, `rawURLDecode`). Decoding undoes encoding
(`stdDecode_stdEncode`, `rawURLDecode_rawURLEncode`), and encodings are
injective.
-/

namespace Bytes

/-! ## Hexadecimal -/

/-- The lower-case hexadecimal digit of `n < 16`. -/
def hexDigit (n : Nat) : UInt8 := if n < 10 then UInt8.ofNat (48 + n) else UInt8.ofNat (87 + n)

/-- The value of a hexadecimal digit, of either case. -/
def hexValue (c : UInt8) : Option Nat :=
  if 48 ≤ c ∧ c ≤ 57 then some (c.toNat - 48)
  else if 97 ≤ c ∧ c ≤ 102 then some (c.toNat - 87)
  else if 65 ≤ c ∧ c ≤ 70 then some (c.toNat - 55)
  else none

/-- `hex.EncodeToString`. -/
def hexEncode (bs : Bytes) : Bytes :=
  bs.flatMap fun b => [hexDigit (b.toNat / 16), hexDigit (b.toNat % 16)]

theorem hexValue_hexDigit : ∀ n < 16, hexValue (hexDigit n) = some n := by decide

theorem hexDigit_inj {m n : Nat} (hm : m < 16) (hn : n < 16) (h : hexDigit m = hexDigit n) : m = n := by
  have := congrArg hexValue h
  rw [hexValue_hexDigit m hm, hexValue_hexDigit n hn] at this
  exact Option.some.inj this

/-- A byte is read back from its two digits. -/
theorem byte_of_digits (b : UInt8) : UInt8.ofNat (16 * (b.toNat / 16) + b.toNat % 16) = b := by
  rw [Nat.div_add_mod, UInt8.ofNat_toNat]

theorem hexEncode_injective : Function.Injective hexEncode := by
  intro as
  induction as with
  | nil => intro bs h; cases bs <;> simp_all [hexEncode]
  | cons a as ih =>
    intro bs h
    cases bs with
    | nil => simp [hexEncode] at h
    | cons b bs =>
      simp only [hexEncode, List.flatMap_cons, List.cons_append, List.nil_append,
        List.cons.injEq] at h
      obtain ⟨h₁, h₂, h₃⟩ := h
      have ha := a.toNat_lt
      have hb := b.toNat_lt
      have e₁ := hexDigit_inj (by omega) (by omega) h₁
      have e₂ := hexDigit_inj (by omega) (by omega) h₂
      rw [← byte_of_digits a, ← byte_of_digits b, e₁, e₂, ih h₃]

/-! ## Base64 -/

/-- A base64 alphabet: 64 digits, by their values. -/
structure Alphabet where
  digit : Nat → UInt8
  value : UInt8 → Option Nat
  value_digit : ∀ n < 64, value (digit n) = some n

/-- The letters and decimal digits every alphabet starts with. -/
def digit62 (n : Nat) : UInt8 :=
  if n < 26 then UInt8.ofNat (65 + n) else if n < 52 then UInt8.ofNat (71 + n) else UInt8.ofNat (n - 4)

def value62 (c : UInt8) : Option Nat :=
  if 65 ≤ c ∧ c ≤ 90 then some (c.toNat - 65)
  else if 97 ≤ c ∧ c ≤ 122 then some (c.toNat - 71)
  else if 48 ≤ c ∧ c ≤ 57 then some (c.toNat + 4)
  else none

/-- `A`–`Z`, `a`–`z`, `0`–`9`, `+`, `/`. -/
def std : Alphabet where
  digit n := if n = 62 then 43 else if n = 63 then 47 else digit62 n
  value c := if c = 43 then some 62 else if c = 47 then some 63 else value62 c
  value_digit := by decide

/-- `A`–`Z`, `a`–`z`, `0`–`9`, `-`, `_`. -/
def url : Alphabet where
  digit n := if n = 62 then 45 else if n = 63 then 95 else digit62 n
  value c := if c = 45 then some 62 else if c = 95 then some 63 else value62 c
  value_digit := by decide

/-- Three bytes as one number. -/
def join3 (a b c : UInt8) : Nat := 65536 * a.toNat + 256 * b.toNat + c.toNat

/-- The digit of `n` with weight `64 ^ i`. -/
def Alphabet.at (A : Alphabet) (n i : Nat) : UInt8 := A.digit (n / 64 ^ i % 64)

/-- Base64 encoding in `A`, with `pad` as often as is missing in the last
group of four digits. -/
def encode64 (A : Alphabet) (pad : Bytes) : Bytes → Bytes
  | [] => []
  | [a] => A.at (join3 a 0 0) 3 :: A.at (join3 a 0 0) 2 :: (pad ++ pad)
  | [a, b] => A.at (join3 a b 0) 3 :: A.at (join3 a b 0) 2 :: A.at (join3 a b 0) 1 :: pad
  | a :: b :: c :: bs =>
    A.at (join3 a b c) 3 :: A.at (join3 a b c) 2 :: A.at (join3 a b c) 1 :: A.at (join3 a b c) 0 ::
      encode64 A pad bs

/-- The number denoted by four digits. -/
def Alphabet.join4 (A : Alphabet) (w x y z : UInt8) : Option Nat := do
  let w ← A.value w
  let x ← A.value x
  let y ← A.value y
  let z ← A.value z
  return 64 ^ 3 * w + 64 ^ 2 * x + 64 * y + z

/-- Byte `i` of a number, counted from the lowest. -/
def byteAt (n i : Nat) : UInt8 := UInt8.ofNat (n / 256 ^ i)

/-- Decoding of padded groups of four digits in the standard alphabet. The
bits that padding leaves over are not looked at. -/
def decodeGroups : Bytes → Option Bytes
  | [] => some []
  | w :: x :: y :: z :: cs =>
    if y = 61 then
      if z = 61 ∧ cs = [] then do
        let n ← std.join4 w x (std.digit 0) (std.digit 0)
        return [byteAt n 2]
      else none
    else if z = 61 then
      if cs = [] then do
        let n ← std.join4 w x y (std.digit 0)
        return [byteAt n 2, byteAt n 1]
      else none
    else do
      let n ← std.join4 w x y z
      let bs ← decodeGroups cs
      return byteAt n 2 :: byteAt n 1 :: byteAt n 0 :: bs
  | _ => none

/-- `base64.StdEncoding.EncodeToString`. -/
def stdEncode (bs : Bytes) : Bytes := encode64 std [61] bs

/-- `base64.StdEncoding.DecodeString`, which skips line breaks. -/
def stdDecode (cs : Bytes) : Option Bytes := decodeGroups (cs.filter fun c => c ≠ 10 ∧ c ≠ 13)

/-- `base64.RawURLEncoding.EncodeToString`. -/
def rawURLEncode (bs : Bytes) : Bytes := encode64 url [] bs

/-- The number denoted by the values of four digits. -/
def joinValues (w x y z : Nat) : Nat := 64 ^ 3 * w + 64 ^ 2 * x + 64 * y + z

/-- The bytes that digits without padding stand for, given the values of the
digits. The bits that are left over are not looked at. -/
def bytesOfValues : List Nat → Option Bytes
  | [] => some []
  | [_] => none
  | [w, x] => some [byteAt (joinValues w x 0 0) 2]
  | [w, x, y] => some [byteAt (joinValues w x y 0) 2, byteAt (joinValues w x y 0) 1]
  | w :: x :: y :: z :: vs =>
    let n := joinValues w x y z
    (bytesOfValues vs).map fun bs => byteAt n 2 :: byteAt n 1 :: byteAt n 0 :: bs

/-- `base64.RawURLEncoding.DecodeString`, which skips line breaks: the bytes, or
the offset of a `base64.CorruptInputError`. -/
def rawURLDecode (cs : Bytes) : Except Nat Bytes :=
  match cs.findIdx? fun c => url.value c = none ∧ c ≠ 10 ∧ c ≠ 13 with
  | some i => .error i
  | none =>
    match bytesOfValues (cs.filterMap url.value) with
    | some bs => .ok bs
    | none => .error (cs.length - 1)

section Groups

variable (A : Alphabet)

theorem Alphabet.value_at (n i : Nat) : A.value (A.at n i) = some (n / 64 ^ i % 64) :=
  A.value_digit _ (Nat.mod_lt _ (by decide))

/-- Four digits give back the number they are the digits of. -/
theorem Alphabet.join4_at {n : Nat} (h : n < 256 ^ 3) :
    A.join4 (A.at n 3) (A.at n 2) (A.at n 1) (A.at n 0) = some n := by
  simp only [Alphabet.join4, A.value_at, Option.bind_eq_bind, Option.bind_some, Option.pure_def,
    Option.some.injEq]
  omega

/-- Two digits and zeros give back the first byte. -/
theorem Alphabet.join4_one (a : UInt8) :
    A.join4 (A.at (join3 a 0 0) 3) (A.at (join3 a 0 0) 2) (A.digit 0) (A.digit 0) =
      some (join3 a 0 0) := by
  have := A.join4_at (n := join3 a 0 0) (by have := a.toNat_lt; simp [join3]; omega)
  rwa [show A.at (join3 a 0 0) 1 = A.digit 0 by simp [Alphabet.at, join3]; congr 1; omega,
    show A.at (join3 a 0 0) 0 = A.digit 0 by simp [Alphabet.at, join3]; congr 1; omega] at this

/-- Three digits and a zero give back the first two bytes. -/
theorem Alphabet.join4_two (a b : UInt8) :
    A.join4 (A.at (join3 a b 0) 3) (A.at (join3 a b 0) 2) (A.at (join3 a b 0) 1) (A.digit 0) =
      some (join3 a b 0) := by
  have := A.join4_at (n := join3 a b 0)
    (by have := a.toNat_lt; have := b.toNat_lt; simp [join3]; omega)
  rwa [show A.at (join3 a b 0) 0 = A.digit 0 by simp [Alphabet.at, join3]; congr 1; omega] at this

end Groups

theorem join3_lt (a b c : UInt8) : join3 a b c < 256 ^ 3 := by
  have := a.toNat_lt; have := b.toNat_lt; have := c.toNat_lt
  simp only [join3]; omega

theorem byteAt_eq {n : Nat} {i : Nat} {b : UInt8} (h : n / 256 ^ i % 256 = b.toNat) :
    byteAt n i = b := by
  apply UInt8.toNat_inj.mp
  simpa [byteAt] using h

theorem byteAt_join3 (a b c : UInt8) :
    byteAt (join3 a b c) 2 = a ∧ byteAt (join3 a b c) 1 = b ∧ byteAt (join3 a b c) 0 = c := by
  have := a.toNat_lt; have := b.toNat_lt; have := c.toNat_lt
  refine ⟨byteAt_eq ?_, byteAt_eq ?_, byteAt_eq ?_⟩ <;> simp only [join3] <;> omega

theorem std_at_ne (n i : Nat) : std.at n i ≠ 61 ∧ std.at n i ≠ 10 ∧ std.at n i ≠ 13 := by
  have h : ∀ n < 64, std.digit n ≠ 61 ∧ std.digit n ≠ 10 ∧ std.digit n ≠ 13 := by decide
  exact h _ (Nat.mod_lt _ (by decide))

theorem decodeGroups_stdEncode (bs : Bytes) : decodeGroups (stdEncode bs) = some bs := by
  rw [stdEncode]
  fun_induction encode64 std [61] bs with
  | case1 => rfl
  | case2 a =>
    simp only [List.cons_append, List.nil_append, decodeGroups, ↓reduceIte, and_self,
      std.join4_one a, Option.bind_eq_bind, Option.bind_some, Option.pure_def, (byteAt_join3 a 0 0).1]
  | case3 a b =>
    simp only [decodeGroups, (std_at_ne _ _).1, ↓reduceIte, std.join4_two a b, Option.bind_eq_bind,
      Option.bind_some, Option.pure_def, (byteAt_join3 a b 0).1, (byteAt_join3 a b 0).2.1]
  | case4 a b c bs ih =>
    simp only [decodeGroups, (std_at_ne _ _).1, ↓reduceIte, std.join4_at (join3_lt a b c), ih,
      Option.bind_eq_bind, Option.bind_some, Option.pure_def, (byteAt_join3 a b c).1,
      (byteAt_join3 a b c).2.1, (byteAt_join3 a b c).2.2]

/-- The digits and the padding an encoding consists of. -/
theorem mem_encode64 {A : Alphabet} {pad bs : Bytes} {c : UInt8} (h : c ∈ encode64 A pad bs) :
    (∃ n i, c = A.at n i) ∨ c ∈ pad := by
  fun_induction encode64 A pad bs with
  | case1 => cases h
  | case2 a =>
    simp only [List.mem_cons, List.mem_append, or_self] at h
    rcases h with rfl | rfl | h <;> [exact .inl ⟨_, _, rfl⟩; exact .inl ⟨_, _, rfl⟩; exact .inr h]
  | case3 a b =>
    simp only [List.mem_cons] at h
    rcases h with rfl | rfl | rfl | h <;>
      [exact .inl ⟨_, _, rfl⟩; exact .inl ⟨_, _, rfl⟩; exact .inl ⟨_, _, rfl⟩; exact .inr h]
  | case4 a b c bs ih =>
    simp only [List.mem_cons] at h
    rcases h with rfl | rfl | rfl | rfl | h <;>
      [exact .inl ⟨_, _, rfl⟩; exact .inl ⟨_, _, rfl⟩; exact .inl ⟨_, _, rfl⟩; exact .inl ⟨_, _, rfl⟩;
       exact ih h]

/-- Decoding undoes encoding. -/
theorem stdDecode_stdEncode (bs : Bytes) : stdDecode (stdEncode bs) = some bs := by
  rw [stdDecode, List.filter_eq_self.mpr, decodeGroups_stdEncode]
  intro c hc
  rcases mem_encode64 hc with ⟨n, i, rfl⟩ | hc
  · simpa using (std_at_ne n i).2
  · rw [List.mem_singleton.mp hc]; decide

theorem stdEncode_injective : Function.Injective stdEncode := fun as bs h => by
  have := congrArg stdDecode h
  rw [stdDecode_stdEncode, stdDecode_stdEncode] at this
  exact Option.some.inj this

/-- Base64 is ASCII. -/
theorem stdEncode_ascii (bs : Bytes) : ∀ c ∈ stdEncode bs, c < 128 := by
  intro c hc
  have h : ∀ n < 64, std.digit n < 128 := by decide
  rcases mem_encode64 hc with ⟨n, i, rfl⟩ | hc
  · exact h _ (Nat.mod_lt _ (by decide))
  · rw [List.mem_singleton.mp hc]; decide

/-- No character of base64url is a brace. -/
theorem rawURLEncode_ne_brace (bs : Bytes) : ∀ c ∈ rawURLEncode bs, c ≠ 123 := by
  intro c hc
  have h : ∀ n < 64, url.digit n ≠ 123 := by decide
  rcases mem_encode64 hc with ⟨n, i, rfl⟩ | hc
  · exact h _ (Nat.mod_lt _ (by decide))
  · cases hc

/-- The values of the digits of an encoding give back the bytes. -/
theorem bytesOfValues_encode64 (A : Alphabet) (bs : Bytes) :
    bytesOfValues ((encode64 A [] bs).filterMap A.value) = some bs := by
  have hjoin {n : Nat} (hn : n < 256 ^ 3) :
      joinValues (n / 64 ^ 3 % 64) (n / 64 ^ 2 % 64) (n / 64 ^ 1 % 64) (n / 64 ^ 0 % 64) = n := by
    rw [joinValues]
    omega
  fun_induction encode64 A [] bs with
  | case1 => rfl
  | case2 a =>
    have hlow : join3 a 0 0 / 64 ^ 1 % 64 = 0 ∧ join3 a 0 0 / 64 ^ 0 % 64 = 0 := by simp [join3]; omega
    have hn := hjoin (join3_lt a 0 0)
    rw [hlow.1, hlow.2] at hn
    simp only [List.append_nil, List.filterMap_cons, A.value_at, List.filterMap_nil, bytesOfValues, hn,
      (byteAt_join3 a 0 0).1]
  | case3 a b =>
    have hlow : join3 a b 0 / 64 ^ 0 % 64 = 0 := by simp [join3]; omega
    have hn := hjoin (join3_lt a b 0)
    rw [hlow] at hn
    simp only [List.filterMap_cons, A.value_at, List.filterMap_nil, bytesOfValues, hn, (byteAt_join3 a b 0).1,
      (byteAt_join3 a b 0).2.1]
  | case4 a b c bs ih =>
    simp only [List.filterMap_cons, A.value_at, bytesOfValues, hjoin (join3_lt a b c), ih, Option.map_some,
      (byteAt_join3 a b c).1, (byteAt_join3 a b c).2.1, (byteAt_join3 a b c).2.2]

theorem rawURLDecode_rawURLEncode (bs : Bytes) : rawURLDecode (rawURLEncode bs) = .ok bs := by
  have hdigits : (rawURLEncode bs).findIdx? (fun c => url.value c = none ∧ c ≠ 10 ∧ c ≠ 13) = none := by
    rw [List.findIdx?_eq_none_iff]
    intro c hc
    rcases mem_encode64 hc with ⟨n, i, rfl⟩ | hc
    · simp [url.value_at]
    · cases hc
  rw [rawURLDecode, hdigits, rawURLEncode, bytesOfValues_encode64]

end Bytes
