import Hanko.Framework.Base64

/-!
# JSON string literals

`quote` is how Go's `encoding/json` writes a string (between the quotation
marks): control characters, the quotation mark, the backslash, the characters
`<`, `>`, `&`, U+2028 and U+2029 escaped, and `�` for bytes that are not
UTF-8. `unquote` is how it reads one, and `scanString` finds where a literal
ends. A string written and read again is the string with its invalid bytes
replaced (`unquote_quote`), and a literal that was written is scanned as a
whole (`scanString_quote`).
-/

namespace Json

open Bytes

/-! ## Writing -/

/-- The four hexadecimal digits of an escape. -/
def hex4 (n : Nat) : List Char :=
  [n / 4096, n / 256 % 16, n / 16 % 16, n % 16].map fun d => Char.ofNat (hexDigit d).toNat

/-- The characters that are escaped as `\uXXXX`. -/
def isUnsafe (c : Char) : Bool :=
  c.toNat < 32 || c = '<' || c = '>' || c = '&' || c = '\u2028' || c = '\u2029'

/-- How a rune stands in a literal. -/
def quoteRune : Option Char → List Char
  | none => '\\' :: 'u' :: hex4 0xfffd
  | some c =>
    if c = '"' ∨ c = '\\' then ['\\', c]
    else if c = '\x08' then ['\\', 'b']
    else if c = '\x0c' then ['\\', 'f']
    else if c = '\n' then ['\\', 'n']
    else if c = '\r' then ['\\', 'r']
    else if c = '\t' then ['\\', 't']
    else if isUnsafe c then '\\' :: 'u' :: hex4 c.toNat
    else [c]

/-- A string as a literal, without the quotation marks. -/
def quote (s : Bytes) : Bytes := utf8 ((runes s).flatMap quoteRune)

/-! ## Reading -/

/-- The character an escape `\c` stands for. -/
def unescapeChar (c : Char) : Char :=
  if c = 'b' then '\x08' else if c = 'f' then '\x0c' else if c = 'n' then '\n'
  else if c = 'r' then '\r' else if c = 't' then '\t' else c

/-- The value of a hexadecimal digit of an escape. -/
def hexVal (c : Char) : Nat := (hexValue (UInt8.ofNat c.toNat)).getD 0

/-- Where a reader of a literal stands: in its text, after a backslash, or
before the last `n + 1` digits of an escape `\uXXXX`. -/
inductive LitState where
  | text
  | esc
  | hex (n : Nat)

/-- After a hexadecimal digit. -/
def LitState.next : Nat → LitState
  | 0 => .text
  | n + 1 => .hex n

/-- A literal as characters and, for `\uXXXX`, UTF-16 code units; `acc` is the
value of the digits read. -/
def unescape : LitState → Nat → List Char → List (Char ⊕ Nat)
  | _, _, [] => []
  | .text, _, c :: cs => if c = '\\' then unescape .esc 0 cs else .inl c :: unescape .text 0 cs
  | .esc, _, c :: cs =>
    if c = 'u' then unescape (.hex 3) 0 cs else .inl (unescapeChar c) :: unescape .text 0 cs
  | .hex 0, acc, c :: cs => .inr (16 * acc + hexVal c) :: unescape .text 0 cs
  | .hex (n + 1), acc, c :: cs => unescape (.hex n) (16 * acc + hexVal c) cs

/-- A code unit alone: surrogates stand for no character. -/
def unitChar (u : Nat) : Char := if 0xd800 ≤ u ∧ u < 0xe000 then replacement else Char.ofNat u

/-- Surrogate pairs joined to characters. -/
def joinUnits : List (Char ⊕ Nat) → List Char
  | [] => []
  | .inl c :: ts => c :: joinUnits ts
  | [.inr u] => [unitChar u]
  | .inr u :: .inl c :: ts => unitChar u :: c :: joinUnits ts
  | .inr u :: .inr l :: ts =>
    if 0xd800 ≤ u ∧ u < 0xdc00 ∧ 0xdc00 ≤ l ∧ l < 0xe000 then
      Char.ofNat (0x10000 + 1024 * (u - 0xd800) + (l - 0xdc00)) :: joinUnits ts
    else unitChar u :: joinUnits (.inr l :: ts)

/-- The string a literal denotes. -/
def unquote (l : Bytes) : Bytes :=
  utf8 (joinUnits (unescape .text 0 ((runes l).map (·.getD replacement))))

/-- The bytes of an escape `\c` of one letter. -/
def isEscape (c : UInt8) : Bool :=
  c = 34 || c = 92 || c = 47 || c = 98 || c = 102 || c = 110 || c = 114 || c = 116

/-- `b` put in front of a scanned literal. -/
def consLit (b : UInt8) (x : Option (Bytes × Bytes)) : Option (Bytes × Bytes) :=
  x.map fun (l, r) => (b :: l, r)

/-- The literal `bs` starts with (after its first quotation mark), and what
follows its last quotation mark. -/
def scanString : LitState → Bytes → Option (Bytes × Bytes)
  | _, [] => none
  | .text, b :: bs =>
    if b = 34 then some ([], bs)
    else if b = 92 then consLit b (scanString .esc bs)
    else if b < 32 then none
    else consLit b (scanString .text bs)
  | .esc, b :: bs =>
    if b = 117 then consLit b (scanString (.hex 3) bs)
    else if isEscape b then consLit b (scanString .text bs)
    else none
  | .hex n, b :: bs =>
    if (hexValue b).isSome then consLit b (scanString (.next n) bs) else none

/-! ## A literal read back -/

/-- What a quoted rune is read as. -/
def readAs : Option Char → Char ⊕ Nat
  | none => .inr 0xfffd
  | some c => if c ≠ '"' ∧ c ≠ '\\' ∧ c ≠ '\x08' ∧ c ≠ '\x0c' ∧ c ≠ '\n' ∧ c ≠ '\r' ∧ c ≠ '\t' ∧
      isUnsafe c then .inr c.toNat else .inl c

theorem hexVal_hex4 : ∀ d < 16, hexVal (Char.ofNat (hexDigit d).toNat) = d := by decide

theorem unescape_hex4 {n : Nat} (h : n < 65536) (cs : List Char) :
    unescape .text 0 ('\\' :: 'u' :: (hex4 n ++ cs)) = .inr n :: unescape .text 0 cs := by
  simp only [hex4, List.map_cons, List.map_nil, List.cons_append, List.nil_append, unescape,
    ↓reduceIte, hexVal_hex4 (n / 4096) (by omega), hexVal_hex4 (n / 256 % 16) (by omega),
    hexVal_hex4 (n / 16 % 16) (by omega), hexVal_hex4 (n % 16) (by omega)]
  rw [show 16 * (16 * (16 * (16 * 0 + n / 4096) + n / 256 % 16) + n / 16 % 16) + n % 16 = n by omega]

theorem toNat_of_isUnsafe {c : Char} (h : isUnsafe c = true) : c.toNat < 0xd800 := by
  simp only [isUnsafe, Bool.or_eq_true, decide_eq_true_eq] at h
  rcases h with ((((h | rfl) | rfl) | rfl) | rfl) | rfl <;> first | omega | decide

/-- A quoted rune is read as one unit. -/
theorem unescape_quoteRune (r : Option Char) (cs : List Char) :
    unescape .text 0 (quoteRune r ++ cs) = readAs r :: unescape .text 0 cs := by
  cases r with
  | none => exact unescape_hex4 (by decide) cs
  | some c =>
    simp only [quoteRune]
    split
    · rename_i h
      rcases h with rfl | rfl <;> simp [unescape, unescapeChar, readAs]
    rename_i h; simp only [not_or] at h
    split
    · subst c; simp [unescape, unescapeChar, readAs]
    split
    · subst c; simp [unescape, unescapeChar, readAs]
    split
    · subst c; simp [unescape, unescapeChar, readAs]
    split
    · subst c; simp [unescape, unescapeChar, readAs]
    split
    · subst c; simp [unescape, unescapeChar, readAs]
    split
    · rename_i hu
      have := toNat_of_isUnsafe hu
      simp only [List.cons_append]
      rw [unescape_hex4 (by omega)]
      simp_all [readAs]
    · rename_i hu
      simp [unescape, h.2, readAs, hu]

theorem unescape_quoteRunes (rs : List (Option Char)) :
    unescape .text 0 (rs.flatMap quoteRune) = rs.map readAs := by
  induction rs with
  | nil => rfl
  | cons r rs ih => rw [List.flatMap_cons, unescape_quoteRune, ih, List.map_cons]

/-- A code unit that is not a surrogate stands for itself. -/
theorem joinUnits_unit {u : Nat} (h : u < 0xd800 ∨ 0xe000 ≤ u) (ts : List (Char ⊕ Nat)) :
    joinUnits (.inr u :: ts) = Char.ofNat u :: joinUnits ts := by
  have hu : unitChar u = Char.ofNat u := by
    rw [unitChar, if_neg (by omega)]
  match ts with
  | [] => simp [joinUnits, hu]
  | .inl c :: ts => simp [joinUnits, hu]
  | .inr l :: ts => rw [joinUnits, if_neg (by omega), hu]

theorem joinUnits_readAs (r : Option Char) (ts : List (Char ⊕ Nat)) :
    joinUnits (readAs r :: ts) = r.getD replacement :: joinUnits ts := by
  cases r with
  | none => exact joinUnits_unit (by decide) ts
  | some c =>
    simp only [readAs]
    split
    · rename_i h
      have := toNat_of_isUnsafe h.2.2.2.2.2.2.2
      rw [joinUnits_unit (by omega), Char.ofNat_toNat]; rfl
    · rw [joinUnits]; rfl

/-- A string written and read again is the string with its invalid bytes
replaced. -/
theorem unquote_quote (s : Bytes) : unquote (quote s) = toValid s := by
  have hj : ∀ rs : List (Option Char), joinUnits (rs.map readAs) = rs.map (·.getD replacement) := by
    intro rs
    induction rs with
    | nil => rfl
    | cons r rs ih => rw [List.map_cons, joinUnits_readAs, ih, List.map_cons]
  rw [unquote, quote, runes_utf8, List.map_map]
  rw [show ((·.getD replacement) ∘ some : Char → Char) = id from rfl, List.map_id,
    unescape_quoteRunes, hj, toValid]

theorem unquote_valid (l : Bytes) : ValidUtf8 (unquote l) := valid_utf8 _

/-! ## A literal scanned -/

/-- `ps` put in front of a scanned literal. -/
def appendLit (ps : Bytes) (x : Option (Bytes × Bytes)) : Option (Bytes × Bytes) :=
  x.map fun (l, r) => (ps ++ l, r)

@[simp] theorem appendLit_nil (x : Option (Bytes × Bytes)) : appendLit [] x = x := by
  simp [appendLit]

@[simp] theorem consLit_appendLit (b : UInt8) (ps : Bytes) (x : Option (Bytes × Bytes)) :
    consLit b (appendLit ps x) = appendLit (b :: ps) x := by
  simp [consLit, appendLit, Function.comp_def]

theorem consLit_eq (b : UInt8) (x : Option (Bytes × Bytes)) : consLit b x = appendLit [b] x := rfl

theorem scanString_plains {ps : Bytes} (h : ∀ b ∈ ps, b ≠ 34 ∧ b ≠ 92 ∧ 32 ≤ b) (bs : Bytes) :
    scanString .text (ps ++ bs) = appendLit ps (scanString .text bs) := by
  induction ps with
  | nil => simp
  | cons b ps ih =>
    obtain ⟨h₁, h₂, h₃⟩ := h b List.mem_cons_self
    rw [List.cons_append, scanString, if_neg h₁, if_neg h₂, if_neg (UInt8.not_lt.mpr h₃),
      ih fun b hb => h b (List.mem_cons_of_mem _ hb), consLit_appendLit]

theorem utf8_hex4 {n : Nat} (h : n < 65536) :
    utf8 (hex4 n) = [hexDigit (n / 4096), hexDigit (n / 256 % 16), hexDigit (n / 16 % 16),
      hexDigit (n % 16)] := by
  have hd : ∀ d < 16, String.utf8EncodeChar (Char.ofNat (hexDigit d).toNat) = [hexDigit d] := by decide
  simp only [hex4, List.map_cons, List.map_nil, utf8_cons, utf8_nil, hd (n / 4096) (by omega),
    hd (n / 256 % 16) (by omega), hd (n / 16 % 16) (by omega), hd (n % 16) (by omega),
    List.cons_append, List.nil_append]

theorem scanString_hex4 {n : Nat} (h : n < 65536) (bs : Bytes) :
    scanString .text (utf8 ('\\' :: 'u' :: hex4 n) ++ bs) =
      appendLit (utf8 ('\\' :: 'u' :: hex4 n)) (scanString .text bs) := by
  have hv : ∀ d < 16, (hexValue (hexDigit d)).isSome := by decide
  rw [utf8_cons, utf8_cons, utf8_hex4 h, show String.utf8EncodeChar '\\' = [92] by decide,
    show String.utf8EncodeChar 'u' = [117] by decide]
  simp only [List.cons_append, List.nil_append, scanString, ↓reduceIte, hv (n / 4096) (by omega),
    hv (n / 256 % 16) (by omega), hv (n / 16 % 16) (by omega), hv (n % 16) (by omega),
    LitState.next, show ¬ (92 : UInt8) = 34 by decide]
  simp only [consLit_eq _ (scanString .text bs), consLit_appendLit]

theorem scanString_escape {c : Char} {e : UInt8} (hc : String.utf8EncodeChar c = [e])
    (he : isEscape e = true ∧ e ≠ 117) (bs : Bytes) :
    scanString .text (utf8 ['\\', c] ++ bs) = appendLit (utf8 ['\\', c]) (scanString .text bs) := by
  simp only [utf8_cons, utf8_nil, List.append_nil, hc, show String.utf8EncodeChar '\\' = [92] by decide,
    List.cons_append, List.nil_append, scanString, ↓reduceIte, he.1, he.2,
    show ¬ (92 : UInt8) = 34 by decide]
  simp only [consLit_eq _ (scanString .text bs), consLit_appendLit]

/-- The bytes of a character that needs no escape. -/
theorem plain_encode {c : Char} (h₁ : c ≠ '"') (h₂ : c ≠ '\\') (h₃ : 32 ≤ c.toNat) :
    ∀ b ∈ String.utf8EncodeChar c, b ≠ 34 ∧ b ≠ 92 ∧ 32 ≤ b := by
  by_cases hc : c.toNat < 128
  · have hall : ∀ n < 128, 32 ≤ n → n ≠ 34 → n ≠ 92 →
        (String.utf8EncodeChar (Char.ofNat n)).all fun b => b ≠ 34 ∧ b ≠ 92 ∧ 32 ≤ b := by decide
    have := hall c.toNat hc h₃ (fun h => h₁ (by rw [← Char.ofNat_toNat c, h]))
      (fun h => h₂ (by rw [← Char.ofNat_toNat c, h]))
    simpa [Char.ofNat_toNat] using this
  · have hhigh : ∀ b ∈ String.utf8EncodeChar c, 128 ≤ b.toNat := by
      intro b hb
      have hs : ¬ c.val.toNat ≤ 127 := fun h => hc (Nat.lt_succ_of_le h)
      rw [String.utf8EncodeChar] at hb
      generalize c.val.toNat = v at hs hb
      rw [if_neg hs] at hb
      split at hb <;> [skip; split at hb] <;>
      · simp only [List.mem_cons, List.not_mem_nil, or_false] at hb
        rcases hb with rfl | rfl | rfl | rfl <;> simp only [UInt8.toNat_ofNat'] <;> omega
    intro b hb
    have hb := hhigh b hb
    refine ⟨?_, ?_, UInt8.le_iff_toNat_le.mpr (Nat.le_trans (by decide) hb)⟩ <;> rintro rfl <;>
      exact absurd hb (by decide)

theorem scanString_quoteRune (r : Option Char) (bs : Bytes) :
    scanString .text (utf8 (quoteRune r) ++ bs) = appendLit (utf8 (quoteRune r)) (scanString .text bs) := by
  cases r with
  | none => exact scanString_hex4 (by decide) bs
  | some c =>
    simp only [quoteRune]
    split
    · rename_i h
      rcases h with rfl | rfl
      · exact scanString_escape (e := 34) (by decide) (by decide) bs
      · exact scanString_escape (e := 92) (by decide) (by decide) bs
    rename_i h; simp only [not_or] at h
    split
    · exact scanString_escape (e := 98) (by decide) (by decide) bs
    split
    · exact scanString_escape (e := 102) (by decide) (by decide) bs
    split
    · exact scanString_escape (e := 110) (by decide) (by decide) bs
    split
    · exact scanString_escape (e := 114) (by decide) (by decide) bs
    split
    · exact scanString_escape (e := 116) (by decide) (by decide) bs
    split
    · rename_i hu
      have := toNat_of_isUnsafe hu
      exact scanString_hex4 (by omega) bs
    · rename_i hu
      have h32 : 32 ≤ c.toNat := by
        simp only [isUnsafe, Bool.or_eq_true, decide_eq_true_eq, not_or] at hu
        omega
      rw [show utf8 [c] = String.utf8EncodeChar c by simp]
      exact scanString_plains (plain_encode h.1 h.2 h32) bs

/-- A literal that was written is scanned as a whole. -/
theorem scanString_quote (s bs : Bytes) :
    scanString .text (quote s ++ 34 :: bs) = some (quote s, bs) := by
  rw [quote]
  induction runes s with
  | nil => simp [scanString]
  | cons r rs ih =>
    rw [List.flatMap_cons, utf8_append, List.append_assoc, scanString_quoteRune, ih]
    rfl

/-- The bytes that stand for themselves in a literal: printable ASCII but for
the characters that are escaped. -/
def isPlain (b : UInt8) : Bool :=
  32 ≤ b && b < 127 && b ≠ 34 && b ≠ 92 && b ≠ 60 && b ≠ 62 && b ≠ 38

theorem toNat_of_isPlain {b : UInt8} (h : isPlain b = true) : b.toNat < 127 := by
  simp only [isPlain, Bool.and_eq_true, decide_eq_true_eq] at h
  exact UInt8.lt_iff_toNat_lt.mp h.1.1.1.1.1.2

theorem lt_of_isPlain {b : UInt8} (h : isPlain b = true) : b < 128 :=
  UInt8.lt_iff_toNat_lt.mpr (Nat.lt_trans (toNat_of_isPlain h) (by decide))

theorem quoteRune_plain {b : UInt8} (h : isPlain b = true) :
    quoteRune (some (Char.ofNat b.toNat)) = [Char.ofNat b.toNat] := by
  have hall : ∀ n < 127, isPlain (UInt8.ofNat n) = true →
      quoteRune (some (Char.ofNat n)) = [Char.ofNat n] := by decide
  exact hall b.toNat (toNat_of_isPlain h) (by rwa [UInt8.ofNat_toNat])

/-- A plain string is its own literal. -/
theorem quote_plain {s : Bytes} (h : ∀ b ∈ s, isPlain b = true) : quote s = s := by
  induction s with
  | nil => rfl
  | cons b s ih =>
    have hb := h b List.mem_cons_self
    have hlt := lt_of_isPlain hb
    have hs := ih fun c hc => h c (List.mem_cons_of_mem _ hc)
    simp only [quote] at hs ⊢
    rw [runes_ascii_cons hlt, List.flatMap_cons, utf8_append, hs, quoteRune_plain hb, utf8_cons,
      encode_ascii b hlt]
    rfl

end Json
