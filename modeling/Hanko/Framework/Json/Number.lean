import Hanko.Framework.Json.Decode

/-!
# Members and integers

How the members of a decoded object are read: strings, arrays and integers
(`getString`, `getArray`, `getInt`). The decimal text of an integer (`intText`) is a
number token (`isNum_intText`), and the integer is read back from it
(`readInt_intText`).
-/

namespace Json

open Bytes

/-- The decimal digits of a number. -/
def natText (n : Nat) : Bytes := (Nat.toDigits 10 n).map fun c => UInt8.ofNat c.toNat

/-- The decimal text of an integer. -/
def intText (x : Int) : Bytes := (if x < 0 then [45] else []) ++ natText x.natAbs

/-- The integer that a number token without fraction and exponent denotes. -/
def readInt (t : Bytes) : Option Int :=
  if t.head? = some 45 then (decimal t.tail).map fun n : Nat => -(n : Int) else (decimal t).map Int.ofNat

/-- A member of an object. -/
def get (name : String) : Json → Option Json
  | .obj kvs => kvs.lookup (lit name)
  | _ => none

def getString (name : String) (v : Json) : Option Bytes :=
  match v.get name with
  | some (.str s) => some s
  | _ => none

def getInt (name : String) (v : Json) : Option Int :=
  match v.get name with
  | some (.num t) => readInt t
  | _ => none

/-- The items of an array; none if there is no array. -/
def getArray (name : String) (v : Json) : List Json :=
  match v.get name with
  | some (.arr xs) => xs
  | _ => []

theorem toNat_ofNat_digit {c : Char} (h : c.isDigit) :
    (UInt8.ofNat c.toNat).toNat = c.toNat ∧ 48 ≤ c.toNat ∧ c.toNat ≤ 57 := by
  have hc : 48 ≤ c.toNat ∧ c.toNat ≤ 57 := by simpa [Char.isDigit, UInt32.le_iff_toNat_le] using h
  rw [UInt8.toNat_ofNat', Nat.mod_eq_of_lt (by omega)]
  exact ⟨rfl, hc⟩

theorem isDigit_natText {n : Nat} {b : UInt8} (h : b ∈ natText n) : isDigit b = true := by
  obtain ⟨c, hc, rfl⟩ := List.mem_map.mp h
  obtain ⟨heq, hlo, hhi⟩ := toNat_ofNat_digit (Nat.isDigit_of_mem_toDigits (by decide) (by decide) hc)
  simp only [isDigit, Bool.and_eq_true, decide_eq_true_eq, UInt8.le_iff_toNat_le, heq]
  exact ⟨hlo, hhi⟩

theorem natText_ne_nil (n : Nat) : natText n ≠ [] := by
  simp [natText, Nat.toDigits_ne_nil]

theorem digitsValue_natText (n : Nat) : digitsValue (natText n) = n := by
  have hfold : ∀ (cs : List Char), (∀ c ∈ cs, c.isDigit) → ∀ k : Nat,
      (cs.map fun c => UInt8.ofNat c.toNat).foldl (fun n d => 10 * n + (d.toNat - 48)) k =
        Nat.ofDigitChars 10 cs k := by
    intro cs
    induction cs with
    | nil => exact fun _ k => rfl
    | cons c cs ih =>
      intro hcs k
      rw [List.map_cons, List.foldl_cons, (toNat_ofNat_digit (hcs c List.mem_cons_self)).1,
        ih (fun d hd => hcs d (List.mem_cons_of_mem _ hd)), Nat.ofDigitChars_cons]
      rfl
  rw [digitsValue, natText, hfold _ (fun c hc => Nat.isDigit_of_mem_toDigits (by decide) (by decide) hc),
    Nat.ofDigitChars_ten_toDigits]

theorem decimal_natText (n : Nat) : decimal (natText n) = some n := by
  have hall : (natText n).all isDigit = true := List.all_eq_true.mpr fun b hb => isDigit_natText hb
  rw [decimal, if_pos ⟨natText_ne_nil n, hall⟩, digitsValue_natText]

theorem minus_notMem_natText (n : Nat) : 45 ∉ natText n := by
  intro h
  have := isDigit_natText h
  simp [isDigit] at this

theorem readInt_intText (x : Int) : readInt (intText x) = some x := by
  rw [readInt, intText]
  split
  · next h =>
    rw [List.singleton_append, List.head?_cons, if_pos rfl, List.tail_cons, decimal_natText, Option.map_some,
      Option.some.injEq]
    omega
  · next h =>
    have hhead : (natText x.natAbs).head? ≠ some 45 := fun h => minus_notMem_natText _ (List.mem_of_mem_head? h)
    rw [List.nil_append, if_neg hhead, decimal_natText, Option.map_some, Option.some.injEq,
      Int.ofNat_eq_natCast]
    omega

/-! ## Tokens -/

/-- Decimal digits do not start with a zero, unless that is all. -/
theorem natText_head {n : Nat} (h : 0 < n) : (natText n).head? ≠ some 48 := by
  have hchars : (Nat.toDigits 10 n).head? ≠ some '0' := by
    induction n using Nat.base_induction 10 (by decide) with
    | single m hm =>
      rw [Nat.toDigits_of_lt_base hm, List.head?_cons, Ne, Option.some.injEq, Nat.digitChar_eq_zero]
      omega
    | digit m k hk hm ih =>
      rw [← Nat.toDigits_append_toDigits (by decide) hm hk, List.head?_append_of_ne_nil _ Nat.toDigits_ne_nil]
      exact ih hm
  rw [natText, List.head?_map]
  cases hc : (Nat.toDigits 10 n).head? with
  | none => simp
  | some c =>
    intro heq
    have hdigit := toNat_ofNat_digit
      (Nat.isDigit_of_mem_toDigits (b := 10) (by decide) (by decide) (List.mem_of_mem_head? hc))
    have hbyte : UInt8.ofNat c.toNat = 48 := Option.some.inj heq
    rw [hbyte] at hdigit
    have : c = '0' := Char.toNat_inj.mp hdigit.1.symm
    exact hchars (this ▸ hc)

theorem scanDigits_append {ds r : Bytes} (hne : ds ≠ []) (hds : ∀ b ∈ ds, isDigit b = true) (hr : NumEnd r) :
    scanDigits (ds ++ r) = some (ds, r) := by
  have hrest : r.takeWhile isDigit = [] ∧ r.dropWhile isDigit = r := by
    cases r with
    | nil => exact ⟨rfl, rfl⟩
    | cons b r =>
      have hb : isDigit b = false := by
        have := hr b rfl
        simp only [isNumByte, Bool.or_eq_false_iff] at this
        exact this.1.1.1.1.1
      simp [hb]
  rw [scanDigits, List.takeWhile_append_of_pos hds, List.dropWhile_append_of_pos hds, hrest.1, hrest.2, List.append_nil,
    if_neg hne]

theorem optional_of_numEnd {p : UInt8 → Bool} (hp : ∀ b, p b = true → isNumByte b = true) {r : Bytes} (hr : NumEnd r) :
    optional p r = ([], r) := by
  cases r with
  | nil => rfl
  | cons b r =>
    have hb : p b = false := by
      by_contra h
      have := hr b rfl
      rw [hp b (by simpa using h)] at this
      cases this
    simp [optional, hb]

theorem optional_zero_natText {n : Nat} (hn : 0 < n) (r : Bytes) :
    optional (· = 48) (natText n ++ r) = ([], natText n ++ r) := by
  cases hd : natText n with
  | nil => exact absurd hd (natText_ne_nil n)
  | cons d ds =>
    have hne : d ≠ 48 := fun h => natText_head hn (by rw [hd, h]; rfl)
    simp [optional, hne]

theorem scanNumber_intText (x : Int) {r : Bytes} (hr : NumEnd r) :
    scanNumber (intText x ++ r) = some (intText x, r) := by
  have hsign : optional (· = 45) (intText x ++ r) = (if x < 0 then [45] else [], natText x.natAbs ++ r) := by
    rw [intText, List.append_assoc]
    split
    · rfl
    · cases hd : natText x.natAbs with
      | nil => exact absurd hd (natText_ne_nil _)
      | cons d ds =>
        have hne : d ≠ 45 := fun h => minus_notMem_natText _ (by rw [hd, h]; exact List.mem_cons_self)
        simp [optional, hne]
  have hfrac : optional (· = 46) r = ([], r) :=
    optional_of_numEnd (fun b hb => by simp [isNumByte, of_decide_eq_true hb]) hr
  have hexp : optional (fun b => b = 101 || b = 69) r = ([], r) := by
    refine optional_of_numEnd (fun b hb => ?_) hr
    rcases Bool.or_eq_true_iff.mp hb with hb | hb <;> simp [isNumByte, of_decide_eq_true hb]
  rw [scanNumber, hsign, intText]
  dsimp only
  rcases Nat.eq_zero_or_pos x.natAbs with hx | hx
  · have hzero : optional (· = 48) (natText 0 ++ r) = ([48], r) := rfl
    simp only [hx, hzero, hfrac, hexp, Option.bind_eq_bind, Option.bind_some, List.append_nil]
    rfl
  · simp only [optional_zero_natText hx,
      scanDigits_append (natText_ne_nil _) (fun _ => isDigit_natText) hr, hfrac, hexp,
      Option.bind_eq_bind, Option.bind_some, List.append_nil]
    rfl

theorem isNum_intText (x : Int) : IsNum (intText x) := by
  refine ⟨?_, fun r hr => scanNumber_intText x hr⟩
  rw [intText]
  split
  · exact ⟨45, rfl, .inr rfl⟩
  · cases hd : natText x.natAbs with
    | nil => exact absurd hd (natText_ne_nil _)
    | cons d ds => exact ⟨d, rfl, .inl (isDigit_natText (hd ▸ List.mem_cons_self))⟩

end Json
