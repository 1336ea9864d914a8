import Hanko.Framework.Utf8

/-!
# UTF-8 keeps the order of code points

Texts compared byte by byte in their UTF-8 encodings are compared as the
sequences of their code points (`utf8_lt_iff`): the first byte of a character
tells its length, and the more bytes it has the greater it is; among
characters of one length the bytes are the digits of the code point
(`encode_append_lt`).
-/

namespace Bytes

/-- The code points of a string, U+FFFD for each byte that is not part of a
character. -/
def codePoints (s : Bytes) : List Nat := (runes s).map fun r => (r.getD replacement).toNat

@[simp] theorem codePoints_utf8 (cs : List Char) : codePoints (utf8 cs) = cs.map Char.toNat := by
  simp [codePoints, Function.comp_def]

/-- Of two characters the lesser has the lesser encoding, whatever follows. -/
theorem encode_append_lt {c d : Char} (h : c.toNat < d.toNat) (s t : Bytes) :
    String.utf8EncodeChar c ++ s < String.utf8EncodeChar d ++ t := by
  have hd : d.val.toNat < 0x110000 := by
    rcases d.valid with hd | hd
    · exact Nat.lt_trans hd (by decide)
    · exact hd.2
  change c.val.toNat < d.val.toNat at h
  rw [String.utf8EncodeChar, String.utf8EncodeChar]
  generalize c.val.toNat = v at h
  generalize d.val.toNat = w at h hd
  have hdigits : ∀ n, n / 4096 = n / 64 / 64 ∧ n / 262144 = n / 64 / 64 / 64 := fun n => by omega
  simp only [hdigits]
  -- A split on the two lengths; the first byte or the digits decide.
  split_ifs <;>
    simp only [List.cons_append, List.nil_append, List.cons_lt_cons_iff, UInt8.lt_iff_toNat_lt,
      ← UInt8.toNat_inj, UInt8.toNat_ofNat'] <;>
    omega

theorem append_lt_append_iff (p s t : Bytes) : p ++ s < p ++ t ↔ s < t := by
  induction p with
  | nil => rfl
  | cons b p ih => rw [List.cons_append, List.cons_append, List.cons_lt_cons_self, ih]

/-- The order of encodings is the order of code points. -/
theorem utf8_lt_iff (cs ds : List Char) : utf8 cs < utf8 ds ↔ cs.map Char.toNat < ds.map Char.toNat := by
  induction cs generalizing ds with
  | nil =>
    cases ds with
    | nil => simp
    | cons d ds =>
      obtain ⟨b, bs, hb⟩ := List.exists_cons_of_ne_nil (show utf8 (d :: ds) ≠ [] by simp)
      simp [hb]
  | cons c cs ih =>
    cases ds with
    | nil => simp
    | cons d ds =>
      rw [utf8_cons, utf8_cons, List.map_cons, List.map_cons, List.cons_lt_cons_iff]
      rcases Nat.lt_trichotomy c.toNat d.toNat with h | h | h
      · exact iff_of_true (encode_append_lt h _ _) (.inl h)
      · obtain rfl : c = d := by rw [← Char.ofNat_toNat c, h, Char.ofNat_toNat]
        rw [append_lt_append_iff, ih]
        exact ⟨fun hlt => .inr ⟨rfl, hlt⟩, fun hlt => (hlt.resolve_left (Nat.lt_irrefl _)).2⟩
      · refine iff_of_false (List.lt_asymm (encode_append_lt h _ _)) ?_
        rintro (hlt | ⟨heq, -⟩) <;> omega

/-- Valid strings are ordered bytewise as their code points are. -/
theorem lt_iff_codePoints {s t : Bytes} (hs : ValidUtf8 s) (ht : ValidUtf8 t) :
    s < t ↔ codePoints s < codePoints t := by
  obtain ⟨cs, rfl⟩ := eq_utf8_of_valid hs
  obtain ⟨ds, rfl⟩ := eq_utf8_of_valid ht
  rw [utf8_lt_iff, codePoints_utf8, codePoints_utf8]

end Bytes
