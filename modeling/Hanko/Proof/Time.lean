import Hanko.Impl.Time

/-!
# Times written and read again

The text of a time, read again, gives the time back up to the seconds of its
zone offset (`parse_format`): they are not written. So a second writing gives
the same text, unless the offset is not zero but less than a minute
(`format_truncated_iff`): then the first text ends in `+00:00` and the second
in `Z`.
-/

namespace Hanko.Time

open Bytes

/-! ## Instants -/

theorem nanos_add (t : Time) (d : Duration) : (t.add d).nanos = t.nanos + d := by
  have hmod := Int.emod_nonneg (t.nanos + d) (b := nanosPerSecond) (by decide)
  have hlt := Int.emod_lt_of_pos (t.nanos + d) (b := nanosPerSecond) (by decide)
  have hdiv := Int.mul_ediv_add_emod (t.nanos + d) nanosPerSecond
  simp only [nanos, add, Fin.val_ofNat, nanosPerSecond] at *
  omega

/-! ## Decimal text -/

/-- The decimal digits of a number. -/
def decimalDigits (n : Nat) : Bytes := (Nat.toDigits 10 n).map fun c => UInt8.ofNat c.toNat

theorem appendInt_zero (x : Int) :
    appendInt x 0 = (if x < 0 then [45] else []) ++ decimalDigits x.natAbs := by
  simp [appendInt, decimalDigits]

theorem toNat_of_mem_toDigits {n : Nat} {c : Char} (h : c ∈ Nat.toDigits 10 n) : 48 ≤ c.toNat ∧ c.toNat ≤ 57 := by
  have hdigit := Nat.isDigit_of_mem_toDigits (by decide) (by decide) h
  simpa [Char.isDigit, UInt32.le_iff_toNat_le] using hdigit

theorem mem_decimalDigits {n : Nat} {b : UInt8} (h : b ∈ decimalDigits n) : 48 ≤ b.toNat ∧ b.toNat ≤ 57 := by
  obtain ⟨c, hc, rfl⟩ := List.mem_map.mp h
  obtain ⟨hlo, hhi⟩ := toNat_of_mem_toDigits hc
  rw [UInt8.toNat_ofNat', Nat.mod_eq_of_lt (by omega)]
  exact ⟨hlo, hhi⟩

theorem decimalDigits_injective : Function.Injective decimalDigits := by
  have hchars : ∀ n, (decimalDigits n).map (fun b => Char.ofNat b.toNat) = Nat.toDigits 10 n := by
    intro n
    rw [decimalDigits, List.map_map]
    refine (List.map_congr_left fun c hc => ?_).trans (List.map_id _)
    have hhi := (toNat_of_mem_toDigits hc).2
    rw [Function.comp_apply, UInt8.toNat_ofNat', Nat.mod_eq_of_lt (by omega), Char.ofNat_toNat, id]
  intro m n h
  rw [← Nat.ofDigitChars_ten_toDigits (n := m), ← hchars, h, hchars, Nat.ofDigitChars_ten_toDigits]

/-- The decimal text of a number is no other number's. -/
theorem appendInt_injective : Function.Injective (appendInt · 0) := by
  intro x y h
  simp only [appendInt_zero] at h
  have hminus : ∀ n, (45 : UInt8) ∉ decimalDigits n := by
    intro n hn
    have := (mem_decimalDigits hn).1
    simp at this
  have hhead : ∀ m n, 45 :: decimalDigits m ≠ decimalDigits n := fun m n h' => hminus n (h' ▸ List.mem_cons_self)
  split at h <;> split at h
  · have := decimalDigits_injective (List.append_cancel_left h)
    omega
  · exact absurd h (hhead _ _)
  · exact absurd h.symm (hhead _ _)
  · have := decimalDigits_injective h
    omega

/-! ## Which times have a text -/

/-- The time has an RFC 3339 text. -/
def Marshals (t : Time) : Prop :=
  (0 ≤ t.date.year ∧ t.date.year ≤ 9999) ∧ (t.offset.tdiv 60).natAbs / 60 < 24

instance (t : Time) : Decidable t.Marshals := inferInstanceAs (Decidable (_ ∧ _))

theorem marshalJSON_eq_ok {t : Time} {x : Bytes} :
    t.marshalJSON = .ok x ↔ t.Marshals ∧ x = t.format := by
  rw [marshalJSON, Marshals]
  split
  · simp only [reduceCtorEq, false_iff]; omega
  · split
    · simp only [reduceCtorEq, false_iff]; omega
    · rw [Except.ok.injEq, eq_comm]
      exact (and_iff_right (by omega)).symm

/-! ## Digits -/

theorem digit_ofNat : ∀ d < 10, digit (UInt8.ofNat (48 + d)) = some d := by decide

theorem getnum_digits2 {n : Nat} (h : n < 100) (fixed : Bool) (s : Bytes) :
    getnum fixed (digits2 n ++ s) = some (n, s) := by
  have h₁ := digit_ofNat (n / 10 % 10) (Nat.mod_lt _ (by decide))
  have h₂ := digit_ofNat (n % 10) (Nat.mod_lt _ (by decide))
  simp only [digits2, List.cons_append, List.nil_append, getnum, h₁, h₂, Option.bind_eq_bind,
    Option.bind_some]
  congr 2
  omega

theorem bind_getnum {β : Type} {n : Nat} (h : n < 100) (fixed : Bool) (s : Bytes) (f : Nat × Bytes → Option β) :
    (getnum fixed (digits2 n ++ s)).bind f = f (n, s) := by
  rw [getnum_digits2 h]
  rfl

theorem bind_expect {β : Type} (c : UInt8) (s : Bytes) (f : Bytes → Option β) :
    (Json.expect [c] (c :: s)).bind f = f s := by
  rw [show Json.expect [c] (c :: s) = some s from Json.expect_append [c] s]
  rfl

theorem getYear_digits4 {n : Nat} (h : n < 10000) (s : Bytes) : getYear (digits4 n ++ s) = some (n, s) := by
  rw [digits4, List.append_assoc, getYear, getnum_digits2 (by omega)]
  simp only [Option.bind_eq_bind, Option.bind_some]
  rw [getnum_digits2 (by omega)]
  simp only [Option.bind_some, Option.pure_def]
  congr 2
  omega

theorem digitsValue_append (ds es : Bytes) :
    Json.digitsValue (ds ++ es) = es.foldl (fun n d => 10 * n + (d.toNat - 48)) (Json.digitsValue ds) := by
  simp [Json.digitsValue, List.foldl_append]

theorem digitsValue_zeros (ds : Bytes) (j : Nat) :
    Json.digitsValue (ds ++ List.replicate j 48) = Json.digitsValue ds * 10 ^ j := by
  induction j with
  | zero => simp
  | succ j ih =>
    rw [List.replicate_succ', ← List.append_assoc, digitsValue_append, ih]
    simp only [List.foldl_cons, List.foldl_nil, show (48 : UInt8).toNat - 48 = 0 by decide, Nat.add_zero]
    rw [Nat.pow_succ, Nat.mul_comm 10, Nat.mul_assoc]

theorem toNat_digit (n : Nat) : (UInt8.ofNat (48 + n % 10)).toNat - 48 = n % 10 := by
  rw [UInt8.toNat_ofNat']
  omega

/-- The last `k` digits of a number, by induction on the last of them. -/
theorem digitsValue_range (n k : Nat) :
    Json.digitsValue ((List.range k).map fun i => UInt8.ofNat (48 + n / 10 ^ (k - 1 - i) % 10)) =
      n % 10 ^ k := by
  induction k generalizing n with
  | zero => simp [Json.digitsValue, Nat.mod_one]
  | succ k ih =>
    have hdigits : (List.range k).map (fun i => UInt8.ofNat (48 + n / 10 ^ (k + 1 - 1 - i) % 10)) =
        (List.range k).map fun i => UInt8.ofNat (48 + n / 10 / 10 ^ (k - 1 - i) % 10) := by
      refine List.map_congr_left fun i hi => ?_
      have hi := List.mem_range.mp hi
      rw [Nat.div_div_eq_div_mul, ← Nat.pow_succ', show k + 1 - 1 - i = k - 1 - i + 1 by omega]
    rw [List.range_succ, List.map_append, hdigits, digitsValue_append, ih]
    simp only [List.map_cons, List.map_nil, List.foldl_cons, List.foldl_nil, toNat_digit]
    rw [Nat.add_sub_cancel, Nat.sub_self, Nat.pow_zero, Nat.div_one, Nat.pow_succ', Nat.mod_mul]
    omega

/-- The nine digits of a number below `10⁹` denote it. -/
theorem digitsValue_digits9 {n : Nat} (h : n < 1000000000) : Json.digitsValue (digits9 n) = n :=
  (digitsValue_range n 9).trans (Nat.mod_eq_of_lt h)

theorem isDigit_ofNat : ∀ d < 10, Json.isDigit (UInt8.ofNat (48 + d)) = true := by decide

theorem isDigit_digits9 (n : Nat) : ∀ b ∈ digits9 n, Json.isDigit b = true := by
  simp only [digits9, List.forall_mem_map]
  exact fun i _ => isDigit_ofNat _ (Nat.mod_lt _ (by decide))

/-- The digits of a fraction, its trailing zeros cut off, denote it. -/
theorem parseNanoseconds_digits9 {n : Nat} (h : n < 1000000000) :
    parseNanoseconds ((digits9 n).rdropWhile (· = 48)) = n := by
  have hz : (digits9 n).rtakeWhile (· = 48) =
      List.replicate ((digits9 n).rtakeWhile (· = 48)).length 48 :=
    List.eq_replicate_of_mem fun b hb => by simpa using List.mem_rtakeWhile_imp hb
  have hsplit : (digits9 n).rdropWhile (· = 48) ++ (digits9 n).rtakeWhile (· = 48) = digits9 n :=
    List.rdropWhile_append_rtakeWhile
  have hlen := congrArg List.length hsplit
  rw [List.length_append, show (digits9 n).length = 9 by simp [digits9]] at hlen
  have hv := digitsValue_digits9 h
  rw [← hsplit, hz, digitsValue_zeros] at hv
  rw [parseNanoseconds, List.take_of_length_le (by omega),
    show 9 - ((digits9 n).rdropWhile (· = 48)).length = ((digits9 n).rtakeWhile (· = 48)).length by omega]
  exact hv

/-! ## Writing -/

theorem appendInt_two {n : Nat} (h : n < 100) : appendInt n 2 = digits2 n := by
  simp [appendInt, h]

theorem appendInt_four {y : Int} (h₀ : 0 ≤ y) (h : y ≤ 9999) : appendInt y 4 = digits4 y.toNat := by
  have hu : y.natAbs = y.toNat := by omega
  simp [appendInt, show ¬ y < 0 by omega, hu, show y.toNat < 10000 by omega]

theorem daySecond_lt (t : Time) : t.daySecond < 86400 := by
  simp only [daySecond]
  omega

/-- The text of a time, when it has one. -/
theorem format_eq {t : Time} (h : t.Marshals) :
    t.format = digits4 t.date.year.toNat ++ 45 :: (digits2 t.date.month ++ 45 :: (digits2 t.date.day ++
      84 :: (digits2 (t.daySecond / 3600) ++ 58 :: (digits2 (t.daySecond / 60 % 60) ++
        58 :: (digits2 (t.daySecond % 60) ++ (appendNano t.nsec.val ++ appendZone t.offset)))))) := by
  have hm := t.date.month_le
  have hd : t.date.day < 100 := by
    have := t.date.day_le.trans (Calendar.daysIn_le _ _)
    omega
  have hs := t.daySecond_lt
  rw [format, appendInt_four h.1.1 h.1.2, appendInt_two (n := t.date.month) (by omega),
    appendInt_two hd]
  rw [show ((t.daySecond : Int) / 3600) = ((t.daySecond / 3600 : Nat) : Int) by omega,
    show ((t.daySecond : Int) / 60 % 60) = ((t.daySecond / 60 % 60 : Nat) : Int) by omega,
    show ((t.daySecond : Int) % 60) = ((t.daySecond % 60 : Nat) : Int) by omega]
  rw [appendInt_two (n := t.daySecond / 3600) (by omega),
    appendInt_two (n := t.daySecond / 60 % 60) (by omega), appendInt_two (n := t.daySecond % 60) (by omega)]

/-! ## Reading -/

/-- What a zone offset is read as: its whole minutes. -/
def wholeMinutes (offset : Int) : Int := 60 * offset.tdiv 60

/-- The text of an offset: `Z`, or a sign and minutes of the day. -/
theorem appendZone_cases (offset : Int) (h : (offset.tdiv 60).natAbs / 60 < 24) :
    (offset = 0 ∧ appendZone offset = [90]) ∨ (offset ≠ 0 ∧ appendZone offset =
      (if offset.tdiv 60 < 0 then 45 else 43) :: (digits2 ((offset.tdiv 60).natAbs / 60) ++
        58 :: digits2 ((offset.tdiv 60).natAbs % 60))) := by
  by_cases h0 : offset = 0
  · exact .inl ⟨h0, by simp [appendZone, h0]⟩
  · refine .inr ⟨h0, ?_⟩
    rw [appendZone, if_neg h0]
    dsimp only
    rw [show (((offset.tdiv 60).natAbs : Int) / 60) = (((offset.tdiv 60).natAbs / 60 : Nat) : Int) by omega,
      show (((offset.tdiv 60).natAbs : Int) % 60) = (((offset.tdiv 60).natAbs % 60 : Nat) : Int) by omega]
    rw [appendInt_two (n := (offset.tdiv 60).natAbs / 60) (by omega),
      appendInt_two (n := (offset.tdiv 60).natAbs % 60) (by omega)]

theorem getZone_appendZone {offset : Int} (h : (offset.tdiv 60).natAbs / 60 < 24) :
    getZone (appendZone offset) = some (wholeMinutes offset) := by
  rcases appendZone_cases offset h with ⟨rfl, hz⟩ | ⟨h0, hz⟩
  · rw [hz]; rfl
  · have hh := getnum_digits2 (n := (offset.tdiv 60).natAbs / 60) (by omega) true []
    have hm := getnum_digits2 (n := (offset.tdiv 60).natAbs % 60) (by omega) true []
    rw [List.append_nil, digits2] at hh hm
    rw [hz]
    simp only [digits2, List.cons_append, List.nil_append, getZone, hh, hm, Option.bind_eq_bind,
      Option.bind_some]
    rw [if_pos (by omega), wholeMinutes]
    split
    · rename_i hneg
      simp only [show ¬ (45 : UInt8) = 43 by decide, ↓reduceIte, Option.some.injEq]
      omega
    · rename_i hneg
      simp only [↓reduceIte, Option.some.injEq]
      omega

theorem appendZone_head (offset : Int) (h : (offset.tdiv 60).natAbs / 60 < 24) :
    ∃ b s, appendZone offset = b :: s ∧ Json.isDigit b = false ∧ b ≠ 46 ∧ b ≠ 44 := by
  rcases appendZone_cases offset h with ⟨-, hz⟩ | ⟨-, hz⟩
  · exact ⟨90, [], hz, by decide, by decide, by decide⟩
  · refine ⟨_, _, hz, ?_⟩
    split <;> decide

theorem getFraction_appendNano {n : Nat} (hn : n < 1000000000) {b : UInt8} {s : Bytes}
    (hb : Json.isDigit b = false) (hp : b ≠ 46) (hc : b ≠ 44) :
    getFraction (appendNano n ++ b :: s) = (n, b :: s) := by
  rw [appendNano]
  split
  · rename_i h0
    subst h0
    cases s with
    | nil => rfl
    | cons d s => simp [getFraction, hp, hc]
  · rename_i h0
    have hv := parseNanoseconds_digits9 hn
    have hd : ∀ c ∈ (digits9 n).rdropWhile (· = 48), Json.isDigit c = true := fun c hc =>
      isDigit_digits9 n c (( List.rdropWhile_prefix _ _).subset hc)
    cases hds : (digits9 n).rdropWhile (· = 48) with
    | nil => rw [hds] at hv; exact absurd hv.symm h0
    | cons d ds =>
      rw [hds] at hv hd
      have htake : (d :: ds ++ b :: s).takeWhile Json.isDigit = d :: ds := by
        rw [List.takeWhile_append_of_pos hd, List.takeWhile_cons_of_neg (by simp [hb]), List.append_nil]
      have hdrop : (d :: ds ++ b :: s).dropWhile Json.isDigit = b :: s := by
        rw [List.dropWhile_append_of_pos hd, List.dropWhile_cons_of_neg (by simp [hb])]
      rw [List.cons_append] at htake hdrop
      simp only [List.cons_append, getFraction, htake, hdrop, hv, hd d List.mem_cons_self, true_or,
        and_true, ↓reduceIte]

/-- The time that the text of `t` is read as: the same wall clock, in a zone of
whole minutes. -/
def truncated (t : Time) : Time :=
  ⟨t.sec + t.offset - wholeMinutes t.offset, t.nsec, wholeMinutes t.offset⟩

/-- The date and the second of the day make up the wall clock. -/
theorem ofDate_date (t : Time) (offset : Int) :
    ofDate t.date t.daySecond t.nsec offset = ⟨t.sec + t.offset - offset, t.nsec, offset⟩ := by
  rw [ofDate, date, Calendar.Date.toDays_ofDays]
  congr 1
  simp only [daySecond, wall]
  omega

/-- The text of a time, read again. -/
theorem parse_format {t : Time} (h : t.Marshals) : parse t.format = some t.truncated := by
  obtain ⟨b, s, hz, hb, hp, hc⟩ := appendZone_head t.offset h.2
  have hyear := h.1
  have hsec := t.daySecond_lt
  have hday := t.date.day_le.trans (Calendar.daysIn_le _ _)
  have hmonth := t.date.month_le
  have hzone := getZone_appendZone h.2
  rw [format_eq h, hz]
  rw [hz] at hzone
  rw [parse, getYear_digits4 (show t.date.year.toNat < 10000 by omega)]
  simp only [↓Option.bind_eq_bind, ↓Option.bind_some, ↓bind_expect,
    ↓bind_getnum (show t.date.month < 100 by omega), ↓bind_getnum (show t.date.day < 100 by omega),
    ↓bind_getnum (show t.daySecond / 3600 < 100 by omega), ↓bind_getnum (show t.daySecond / 60 % 60 < 100 by omega),
    ↓bind_getnum (show t.daySecond % 60 < 100 by omega), getFraction_appendNano t.nsec.isLt hb hp hc, hzone]
  have hy : (t.date.year.toNat : Int) = t.date.year := Int.toNat_of_nonneg hyear.1
  have hn : Fin.ofNat 1000000000 t.nsec.val = t.nsec := Fin.ext (Nat.mod_eq_of_lt t.nsec.isLt)
  have hd : (1 ≤ t.date.month ∧ t.date.month ≤ 12) ∧ 1 ≤ t.date.day ∧
      t.date.day ≤ Calendar.daysIn (t.date.year.toNat : Int) t.date.month :=
    ⟨⟨t.date.month_pos, t.date.month_le⟩, t.date.day_pos, by rw [hy]; exact t.date.day_le⟩
  rw [if_pos (by omega), dif_pos hd]
  refine congrArg some ?_
  rw [truncated, ← ofDate_date]
  congr 1
  · congr 1
  · omega

/-- Nothing is lost in a zone of whole minutes. -/
theorem truncated_of_dvd {t : Time} (h : 60 ∣ t.offset) : t.truncated = t := by
  have hoffset : wholeMinutes t.offset = t.offset := Int.mul_tdiv_cancel' h
  rw [truncated, hoffset, add_sub_cancel_right]

/-! ## Writing again -/

theorem tdiv_wholeMinutes (offset : Int) : (wholeMinutes offset).tdiv 60 = offset.tdiv 60 :=
  Int.mul_tdiv_cancel_left _ (by decide)

@[simp] theorem wall_truncated (t : Time) : t.truncated.wall = t.wall := by
  simp only [wall, truncated]
  omega

theorem truncated_marshals {t : Time} (h : t.Marshals) : t.truncated.Marshals := by
  simp only [Marshals, date, wall_truncated] at h ⊢
  simpa only [truncated, tdiv_wholeMinutes] using h

/-- Only offsets of seconds are not written alike once they are cut off. -/
theorem appendZone_wholeMinutes_iff (offset : Int) :
    appendZone (wholeMinutes offset) = appendZone offset ↔ offset = 0 ∨ 60 ≤ offset.natAbs := by
  have habs : (offset.tdiv 60).natAbs = offset.natAbs / 60 := Int.natAbs_tdiv _ _
  by_cases h0 : offset = 0
  · subst h0; simp [wholeMinutes]
  · by_cases hsmall : offset.natAbs < 60
    · have hq : offset.tdiv 60 = 0 := by omega
      simp only [appendZone, wholeMinutes, hq, h0, ↓reduceIte]
      simp; omega
    · have hq : wholeMinutes offset ≠ 0 := by simp only [wholeMinutes]; omega
      simp only [appendZone, hq, h0, ↓reduceIte, tdiv_wholeMinutes, true_iff, false_or]
      omega

/-- The zone offset is zero or has minutes. -/
def Stable (t : Time) : Prop := t.offset = 0 ∨ 60 ≤ t.offset.natAbs

instance (t : Time) : Decidable t.Stable := inferInstanceAs (Decidable (_ ∨ _))

/-- A time read from its text is written alike if its offset is zero or has
minutes. -/
theorem format_truncated_iff (t : Time) : t.truncated.format = t.format ↔ t.Stable := by
  rw [Stable, ← appendZone_wholeMinutes_iff]
  have hnsec : t.truncated.nsec = t.nsec := rfl
  have hoffset : t.truncated.offset = wholeMinutes t.offset := rfl
  simp only [format, date, daySecond, wall_truncated, hnsec, hoffset, List.append_cancel_left_eq,
    List.cons.injEq, true_and]

/-! ## The characters of a text -/

theorem isPlain_ofNat : ∀ d < 10, Json.isPlain (UInt8.ofNat (48 + d)) = true := by decide

theorem isPlain_digits2 (n : Nat) : ∀ b ∈ digits2 n, Json.isPlain b = true := by
  simp only [digits2, List.forall_mem_cons, List.not_mem_nil, false_imp_iff, implies_true, and_true]
  exact ⟨isPlain_ofNat _ (Nat.mod_lt _ (by decide)), isPlain_ofNat _ (Nat.mod_lt _ (by decide))⟩

theorem isPlain_appendNano (n : Nat) : ∀ b ∈ appendNano n, Json.isPlain b = true := by
  rw [appendNano]
  split
  · simp
  · refine List.forall_mem_cons.mpr ⟨by decide, fun b hb => ?_⟩
    have hb := ( List.rdropWhile_prefix _ _).subset hb
    simp only [digits9, List.mem_map] at hb
    obtain ⟨i, -, rfl⟩ := hb
    exact isPlain_ofNat _ (Nat.mod_lt _ (by decide))

theorem isPlain_appendZone {offset : Int} (h : (offset.tdiv 60).natAbs / 60 < 24) :
    ∀ b ∈ appendZone offset, Json.isPlain b = true := by
  rcases appendZone_cases offset h with ⟨-, hz⟩ | ⟨-, hz⟩
  · rw [hz]; simp; decide
  · rw [hz]
    simp only [List.forall_mem_cons, List.forall_mem_append]
    exact ⟨by split <;> decide, isPlain_digits2 _, by decide, isPlain_digits2 _⟩

/-- The text of a time needs no escapes in JSON. -/
theorem isPlain_format {t : Time} (h : t.Marshals) : ∀ b ∈ t.format, Json.isPlain b = true := by
  rw [format_eq h]
  simp only [digits4, List.forall_mem_cons, List.forall_mem_append]
  exact ⟨⟨isPlain_digits2 _, isPlain_digits2 _⟩, by decide, isPlain_digits2 _, by decide, isPlain_digits2 _,
    by decide, isPlain_digits2 _, by decide, isPlain_digits2 _, by decide, isPlain_digits2 _,
    isPlain_appendNano _, isPlain_appendZone h.2⟩

end Hanko.Time
