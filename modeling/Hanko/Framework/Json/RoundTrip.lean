import Hanko.Framework.Json.Text

/-!
# Printed texts parse

`parse` undoes `print` in any layout (`parseTo_print`), for trees of literals
(`WF`) nested to a depth that Go's scanner accepts, and fails on a tree that
is nested deeper (`parse_print_of_deep`). The parser is given the text
followed by any bytes that end a number (`NumEnd`), and enough fuel: the
length of a text is enough (`size_le_length`).
-/

namespace Json

open Bytes

/-- The bytes by which a number goes on. -/
def isNumByte (b : UInt8) : Bool := isDigit b || b = 46 || b = 101 || b = 69 || b = 43 || b = 45

/-- `r` does not continue a number. -/
def NumEnd (r : Bytes) : Prop := ∀ b ∈ r.head?, isNumByte b = false

/-- A string literal: scanned as a whole. -/
def IsLit (l : Bytes) : Prop := ∀ r, scanString .text (l ++ 34 :: r) = some (l, r)

/-- A number token: starting as numbers do, and scanned as a whole. -/
def IsNum (t : Bytes) : Prop :=
  (∃ b ∈ t.head?, isDigit b = true ∨ b = 45) ∧ ∀ r, NumEnd r → scanNumber (t ++ r) = some (t, r)

theorem isLit_quote (s : Bytes) : IsLit (quote s) := scanString_quote s

mutual

/-- A tree of literals. -/
def WF : Json → Prop
  | .null => True
  | .bool _ => True
  | .num t => IsNum t
  | .str s => IsLit s
  | .arr xs => WFItems xs
  | .obj kvs => WFMembers kvs

def WFItems : List Json → Prop
  | [] => True
  | x :: xs => WF x ∧ WFItems xs

def WFMembers : List (Bytes × Json) → Prop
  | [] => True
  | (k, v) :: kvs => IsLit k ∧ WF v ∧ WFMembers kvs

end

theorem wfItems_iff {xs : List Json} : WFItems xs ↔ ∀ x ∈ xs, WF x := by
  induction xs with
  | nil => simp [WFItems]
  | cons x xs ih => simp [WFItems, ih]

theorem wfMembers_iff {kvs : List (Bytes × Json)} :
    WFMembers kvs ↔ ∀ kv ∈ kvs, IsLit kv.1 ∧ WF kv.2 := by
  induction kvs with
  | nil => simp [WFMembers]
  | cons kv kvs ih => simp [WFMembers, ih, and_assoc]

mutual

/-- How deep a tree is nested. -/
def depth : Json → Nat
  | .arr xs => 1 + depthItems xs
  | .obj kvs => 1 + depthMembers kvs
  | _ => 0

def depthItems : List Json → Nat
  | [] => 0
  | x :: xs => max (depth x) (depthItems xs)

def depthMembers : List (Bytes × Json) → Nat
  | [] => 0
  | (_, v) :: kvs => max (depth v) (depthMembers kvs)

end

mutual

/-- The fuel a tree needs. -/
def size : Json → Nat
  | .arr xs => 1 + sizeItems xs
  | .obj kvs => 1 + sizeMembers kvs
  | _ => 1

def sizeItems : List Json → Nat
  | [] => 0
  | x :: xs => 1 + size x + sizeItems xs

def sizeMembers : List (Bytes × Json) → Nat
  | [] => 0
  | (_, v) :: kvs => 1 + size v + sizeMembers kvs

end

/-- The white space of a layout is white space. -/
structure Layout.Ok (L : Layout) : Prop where
  line : ∀ d, ∀ b ∈ L.line d, isSpace b = true
  afterColon : ∀ b ∈ L.afterColon, isSpace b = true

theorem compact_ok : compact.Ok := ⟨by simp [compact], by simp [compact]⟩

theorem indent_ok : indent.Ok := by
  refine ⟨fun d b hb => ?_, by simp [indent, isSpace]⟩
  simp only [indent, List.mem_cons, List.mem_replicate] at hb
  rcases hb with rfl | ⟨-, rfl⟩ <;> decide

/-! ## Tokens -/

theorem token_append {w : Bytes} (hw : ∀ b ∈ w, isSpace b = true) {b : UInt8} (hb : isSpace b = false)
    (r : Bytes) : token (w ++ b :: r) = some (b, r) := by
  rw [token, List.dropWhile_append_of_pos hw, List.dropWhile_cons_of_neg (by simp [hb])]

@[simp] theorem token_cons {b : UInt8} (hb : isSpace b = false) (r : Bytes) :
    token (b :: r) = some (b, r) :=
  token_append (w := []) (by simp) hb r

theorem expect_append (p r : Bytes) : expect p (p ++ r) = some r := by
  simp [expect]

theorem numEnd_cons {b : UInt8} (h : isNumByte b = false) (r : Bytes) : NumEnd (b :: r) := by
  simpa [NumEnd] using h

/-- White space, or the end of a value. -/
theorem numEnd_append {w : Bytes} (hw : ∀ b ∈ w, isSpace b = true) {b : UInt8}
    (hb : isNumByte b = false) (r : Bytes) : NumEnd (w ++ b :: r) := by
  cases w with
  | nil => exact numEnd_cons hb r
  | cons c w =>
    refine numEnd_cons ?_ _
    have hc := hw c List.mem_cons_self
    simp only [isSpace, Bool.or_eq_true, decide_eq_true_eq] at hc
    rcases hc with ((rfl | rfl) | rfl) | rfl <;> decide

/-- How a printed value starts. -/
theorem print_head (L : Layout) (d : Nat) {v : Json} (h : WF v) :
    ∃ b t, print L d v = b :: t ∧ isSpace b = false ∧ b ≠ 93 := by
  match v, h with
  | .null, _ => exact ⟨_, _, rfl, by decide, by decide⟩
  | .bool true, _ => exact ⟨_, _, rfl, by decide, by decide⟩
  | .bool false, _ => exact ⟨_, _, rfl, by decide, by decide⟩
  | .num t, h =>
    obtain ⟨⟨b, hb, hd⟩, -⟩ := (show IsNum t from h)
    obtain ⟨c, t', rfl⟩ := List.exists_cons_of_ne_nil (l := t) (by rintro rfl; simp at hb)
    obtain rfl : c = b := by simpa using hb
    refine ⟨c, t', by simp [print], ?_, ?_⟩
    · rw [← Bool.not_eq_true]
      intro hs
      simp only [isSpace, Bool.or_eq_true, decide_eq_true_eq] at hs
      rcases hs with ((rfl | rfl) | rfl) | rfl <;> revert hd <;> decide
    · rintro rfl; revert hd; decide
  | .str s, _ => exact ⟨_, _, rfl, by decide, by decide⟩
  | .arr [], _ => exact ⟨_, _, rfl, by decide, by decide⟩
  | .arr (x :: xs), _ => exact ⟨91, _, by rw [print], by decide, by decide⟩
  | .obj [], _ => exact ⟨123, _, by rw [print], by decide, by decide⟩
  | .obj ((k, v) :: kvs), _ => exact ⟨123, _, by rw [print], by decide, by decide⟩

/-- What follows an item ends a number. -/
theorem printItems_numEnd {L : Layout} (hL : L.Ok) (d : Nat) (xs : List Json) (r : Bytes) :
    NumEnd (printItems L d xs ++ r) := by
  cases xs with
  | nil =>
    rw [printItems, List.append_assoc]
    exact numEnd_append (hL.line d) (by decide) r
  | cons x xs =>
    rw [printItems, List.cons_append]
    exact numEnd_cons (by decide) _

/-- What follows a member ends a number. -/
theorem printMembers_numEnd {L : Layout} (hL : L.Ok) (d : Nat) (kvs : List (Bytes × Json)) (r : Bytes) :
    NumEnd (printMembers L d kvs ++ r) := by
  cases kvs with
  | nil =>
    rw [printMembers, List.append_assoc]
    exact numEnd_append (hL.line d) (by decide) r
  | cons kv kvs =>
    rw [printMembers, List.cons_append]
    exact numEnd_cons (by decide) _

/-! ## Values -/

/-- A number is not mistaken for another value. -/
theorem value_num {n D : Nat} {w t r : Bytes} (hw : ∀ b ∈ w, isSpace b = true) (h : IsNum t)
    (hr : NumEnd r) : value (n + 1) D (w ++ (t ++ r)) = some (.num t, r) := by
  obtain ⟨⟨b, hb, hd⟩, hs⟩ := h
  obtain ⟨c, t', rfl⟩ := List.exists_cons_of_ne_nil (l := t) (by rintro rfl; simp at hb)
  obtain rfl : c = b := by simpa using hb
  have hs := hs r hr
  have hsp : isSpace c = false := by
    obtain ⟨b, t, he, hsp, -⟩ := print_head compact 0 (v := .num (c :: t')) ⟨⟨c, hb, hd⟩, by assumption⟩
    simp only [print, List.cons.injEq] at he
    rw [he.1]; exact hsp
  have hne : c ≠ 34 ∧ c ≠ 91 ∧ c ≠ 123 ∧ c ≠ 116 ∧ c ≠ 102 ∧ c ≠ 110 := by
    refine ⟨?_, ?_, ?_, ?_, ?_, ?_⟩ <;> rintro rfl <;> revert hd <;> decide
  rw [List.cons_append] at hs ⊢
  simp only [value, token_append hw hsp, Option.bind_eq_bind, Option.bind_some, hne, ↓reduceIte, hs,
    Option.pure_def]

/-- `v` is read back from its text, wherever it stands. -/
def Reads (L : Layout) (v : Json) : Prop :=
  ∀ n D d w r, size v ≤ n → depth v ≤ D → (∀ b ∈ w, isSpace b = true) → NumEnd r →
    value n D (w ++ (print L d v ++ r)) = some (v, r)

/-- The items of an array, by induction on those after the first. -/
theorem items_print {L : Layout} (hL : L.Ok) {x : Json} {xs : List Json} (hx : Reads L x)
    (hxs : ∀ y ∈ xs, Reads L y) {n D d : Nat} {w r : Bytes} (hn : 1 + size x + sizeItems xs ≤ n)
    (hd : depth x ≤ D) (hds : depthItems xs ≤ D) (hw : ∀ b ∈ w, isSpace b = true) :
    items n D (w ++ (print L (d + 1) x ++ (printItems L d xs ++ r))) = some (x :: xs, r) := by
  induction xs generalizing x n w with
  | nil =>
    obtain ⟨n, rfl⟩ : ∃ m, n = m + 1 := ⟨n - 1, by omega⟩
    have hv := hx n D (d + 1) w _ (by omega) hd hw (printItems_numEnd hL d [] r)
    simp only [items, hv, Option.bind_eq_bind, Option.bind_some]
    simp only [printItems, List.append_assoc, List.cons_append, List.nil_append,
      token_append (hL.line d) (show isSpace 93 = false by decide), Option.bind_some,
      show ¬ (93 : UInt8) = 44 by decide, ↓reduceIte, Option.pure_def]
  | cons y ys ih =>
    obtain ⟨n, rfl⟩ : ∃ m, n = m + 1 := ⟨n - 1, by omega⟩
    simp only [sizeItems, depthItems] at hn hds
    have hv := hx n D (d + 1) w _ (by omega) hd hw (printItems_numEnd hL d (y :: ys) r)
    have hi := ih (hxs y List.mem_cons_self) (fun z hz => hxs z (List.mem_cons_of_mem _ hz)) (n := n)
      (w := L.line (d + 1)) (by omega) (by omega) (by omega) (hL.line _)
    simp only [items, hv, Option.bind_eq_bind, Option.bind_some]
    simp only [printItems, List.append_assoc, List.cons_append,
      token_cons (show isSpace 44 = false by decide), Option.bind_some, ↓reduceIte, hi, Option.pure_def]

/-- The members of an object, by induction on those after the first. -/
theorem members_print {L : Layout} (hL : L.Ok) {k : Bytes} {v : Json} {kvs : List (Bytes × Json)}
    (hk : IsLit k) (hv : Reads L v) (hkvs : ∀ kv ∈ kvs, IsLit kv.1 ∧ Reads L kv.2) {n D d : Nat}
    {w r : Bytes} (hn : 1 + size v + sizeMembers kvs ≤ n) (hd : depth v ≤ D)
    (hds : depthMembers kvs ≤ D) (hw : ∀ b ∈ w, isSpace b = true) :
    members n D (w ++ (34 :: (k ++ (34 :: 58 :: (L.afterColon ++ (print L (d + 1) v ++
      (printMembers L d kvs ++ r))))))) = some ((k, v) :: kvs, r) := by
  induction kvs generalizing k v n w with
  | nil =>
    obtain ⟨n, rfl⟩ : ∃ m, n = m + 1 := ⟨n - 1, by omega⟩
    have hv := hv n D (d + 1) _ _ (by omega) hd hL.afterColon (printMembers_numEnd hL d [] r)
    simp only [members, token_append hw (show isSpace 34 = false by decide), Option.bind_eq_bind,
      Option.bind_some, ↓reduceIte, hk _, token_cons (show isSpace 58 = false by decide), hv]
    simp only [printMembers, List.append_assoc, List.cons_append, List.nil_append,
      token_append (hL.line d) (show isSpace 125 = false by decide), Option.bind_some,
      show ¬ (125 : UInt8) = 44 by decide, ↓reduceIte, Option.pure_def]
  | cons kv kvs ih =>
    obtain ⟨k', v'⟩ := kv
    obtain ⟨n, rfl⟩ : ∃ m, n = m + 1 := ⟨n - 1, by omega⟩
    simp only [sizeMembers, depthMembers] at hn hds
    have hv := hv n D (d + 1) _ _ (by omega) hd hL.afterColon
      (printMembers_numEnd hL d ((k', v') :: kvs) r)
    obtain ⟨hk', hv'⟩ : IsLit k' ∧ Reads L v' := hkvs (k', v') List.mem_cons_self
    have hm := ih hk' hv' (fun z hz => hkvs z (List.mem_cons_of_mem _ hz)) (n := n)
      (w := L.line (d + 1)) (by omega) (by omega) (by omega) (hL.line _)
    simp only [members, token_append hw (show isSpace 34 = false by decide), Option.bind_eq_bind,
      Option.bind_some, ↓reduceIte, hk _, token_cons (show isSpace 58 = false by decide), hv]
    simp only [printMembers, List.append_assoc, List.cons_append,
      token_cons (show isSpace 44 = false by decide), Option.bind_some, ↓reduceIte, hm, Option.pure_def]

theorem reads_arr {L : Layout} (hL : L.Ok) {xs : List Json} (hwf : ∀ x ∈ xs, WF x)
    (h : ∀ x ∈ xs, Reads L x) : Reads L (.arr xs) := by
  intro n D d w r hn hd hw _
  obtain ⟨n, rfl⟩ : ∃ m, n = m + 1 := ⟨n - 1, by simp only [size] at hn; omega⟩
  have hdep : D ≠ 0 := by simp only [depth] at hd; omega
  cases xs with
  | nil =>
    rw [print, show lit "[]" = [91, 93] by decide, List.cons_append]
    simp only [value, token_append hw (show isSpace 91 = false by decide), Option.bind_eq_bind,
      Option.bind_some, show ¬ (91 : UInt8) = 34 by decide, ↓reduceIte, hdep, List.cons_append,
      List.nil_append, token_cons (show isSpace 93 = false by decide), Option.pure_def]
  | cons x xs =>
    simp only [size, sizeItems, depth, depthItems] at hn hd
    obtain ⟨b, t, hb, hsp, hne⟩ := print_head L (d + 1) (hwf x List.mem_cons_self)
    have hit := items_print hL (h x List.mem_cons_self) (fun y hy => h y (List.mem_cons_of_mem _ hy))
      (n := n) (D := D - 1) (d := d) (r := r) (by omega) (by omega) (by omega) (hL.line (d + 1))
    have htok : token (L.line (d + 1) ++ (print L (d + 1) x ++ (printItems L d xs ++ r))) =
        some (b, t ++ (printItems L d xs ++ r)) := by
      rw [hb, List.cons_append]; exact token_append (hL.line _) hsp _
    rw [print, List.cons_append, List.append_assoc, List.append_assoc]
    simp only [value, token_append hw (show isSpace 91 = false by decide), Option.bind_eq_bind,
      Option.bind_some, show ¬ (91 : UInt8) = 34 by decide, ↓reduceIte, hdep, htok, hne, hit,
      Option.pure_def]

theorem reads_obj {L : Layout} (hL : L.Ok) {kvs : List (Bytes × Json)}
    (h : ∀ kv ∈ kvs, IsLit kv.1 ∧ Reads L kv.2) : Reads L (.obj kvs) := by
  intro n D d w r hn hd hw _
  obtain ⟨n, rfl⟩ : ∃ m, n = m + 1 := ⟨n - 1, by simp only [size] at hn; omega⟩
  have hdep : D ≠ 0 := by simp only [depth] at hd; omega
  cases kvs with
  | nil =>
    rw [print, List.cons_append]
    simp only [value, token_append hw (show isSpace 123 = false by decide), Option.bind_eq_bind,
      Option.bind_some, show ¬ (123 : UInt8) = 34 by decide, show ¬ (123 : UInt8) = 91 by decide,
      ↓reduceIte, hdep, List.cons_append, List.nil_append,
      token_cons (show isSpace 125 = false by decide), Option.pure_def]
  | cons kv kvs =>
    obtain ⟨k, v⟩ := kv
    simp only [size, sizeMembers, depth, depthMembers] at hn hd
    obtain ⟨hk, hv⟩ : IsLit k ∧ Reads L v := h (k, v) List.mem_cons_self
    have hm := members_print hL hk hv (fun y hy => h y (List.mem_cons_of_mem _ hy))
      (n := n) (D := D - 1) (d := d) (r := r) (by omega) (by omega) (by omega) (hL.line (d + 1))
    rw [print, List.cons_append, List.append_assoc]
    simp only [value, token_append hw (show isSpace 123 = false by decide), Option.bind_eq_bind,
      Option.bind_some, show ¬ (123 : UInt8) = 34 by decide, show ¬ (123 : UInt8) = 91 by decide,
      ↓reduceIte, hdep, List.cons_append, List.append_assoc,
      token_append (hL.line (d + 1)) (show isSpace 34 = false by decide),
      show ¬ (34 : UInt8) = 125 by decide, hm, Option.pure_def]

/-- The three words. -/
theorem reads_word {L : Layout} {v : Json} {b : UInt8} {p : Bytes} (hsp : isSpace b = false)
    (hp : ∀ d, print L d v = b :: p)
    (hv : ∀ n D r, value (n + 1) D (b :: (p ++ r)) = some (v, r)) (hs : size v = 1) :
    Reads L v := by
  intro n D d w r hn _ hw _
  obtain ⟨n, rfl⟩ : ∃ m, n = m + 1 := ⟨n - 1, by omega⟩
  have h := hv n D r
  rw [hp, List.cons_append]
  simp only [value, token_append hw hsp, token_cons hsp] at h ⊢
  exact h

/-- Every tree of literals is read back from its text. -/
theorem reads {L : Layout} (hL : L.Ok) (v : Json) : WF v → Reads L v := by
  induction v using ind with
  | null =>
    exact fun _ => reads_word (b := 110) (p := lit "ull") (by decide) (fun _ => by rw [print]; decide)
      (fun n D r => by simp [value, token_cons, isSpace, expect_append]) rfl
  | bool b =>
    cases b with
    | true =>
      exact fun _ => reads_word (b := 116) (p := lit "rue") (by decide)
        (fun _ => by rw [print]; decide)
        (fun n D r => by simp [value, token_cons, isSpace, expect_append]) rfl
    | false =>
      exact fun _ => reads_word (b := 102) (p := lit "alse") (by decide)
        (fun _ => by rw [print]; decide)
        (fun n D r => by simp [value, token_cons, isSpace, expect_append]) rfl
  | num t =>
    intro h n D d w r hn _ hw hr
    obtain ⟨n, rfl⟩ : ∃ m, n = m + 1 := ⟨n - 1, by simp only [size] at hn; omega⟩
    rw [print]; exact value_num hw h hr
  | str s =>
    intro h n D d w r hn _ hw _
    obtain ⟨n, rfl⟩ : ∃ m, n = m + 1 := ⟨n - 1, by simp only [size] at hn; omega⟩
    have hs := (show IsLit s from h) r
    rw [print, List.cons_append, List.append_assoc]
    simp only [value, token_append hw (show isSpace 34 = false by decide), Option.bind_eq_bind,
      Option.bind_some, ↓reduceIte, List.cons_append, List.nil_append, hs, Option.pure_def]
  | arr xs ih =>
    intro h
    have h := wfItems_iff.mp h
    exact reads_arr hL h fun x hx => ih x hx (h x hx)
  | obj kvs ih =>
    intro h
    have h := wfMembers_iff.mp h
    exact reads_obj hL fun kv hkv => ⟨(h kv hkv).1, ih kv hkv (h kv hkv).2⟩

/-! ## Whole texts -/

mutual

/-- A text is longer than the fuel its tree needs. -/
theorem size_le_length (L : Layout) : ∀ (v : Json) (d : Nat), WF v → size v ≤ (print L d v).length
  | .null, _, _ => by simp only [size, print]; decide
  | .bool true, _, _ => by simp only [size, print]; decide
  | .bool false, _, _ => by simp only [size, print]; decide
  | .num t, _, h => by
    obtain ⟨⟨b, hb, -⟩, -⟩ := (show IsNum t from h)
    cases t with
    | nil => simp at hb
    | cons c t => simp [size, print]
  | .str s, _, _ => by simp [size, print]
  | .arr [], _, _ => by simp only [size, sizeItems, print]; decide
  | .arr (x :: xs), d, h => by
    simp only [WF, WFItems] at h
    have h₁ := size_le_length L x (d + 1) h.1
    have h₂ := sizeItems_le_length L xs d h.2
    simp only [size, sizeItems, print, List.length_cons, List.length_append]
    omega
  | .obj [], _, _ => by simp [size, sizeMembers, print]
  | .obj ((k, v) :: kvs), d, h => by
    simp only [WF, WFMembers] at h
    have h₁ := size_le_length L v (d + 1) h.2.1
    have h₂ := sizeMembers_le_length L kvs d h.2.2
    simp only [size, sizeMembers, print, List.length_cons, List.length_append]
    omega

theorem sizeItems_le_length (L : Layout) : ∀ (xs : List Json) (d : Nat), WFItems xs →
    1 + sizeItems xs ≤ (printItems L d xs).length
  | [], d, _ => by simp [sizeItems, printItems]
  | x :: xs, d, h => by
    simp only [WFItems] at h
    have h₁ := size_le_length L x (d + 1) h.1
    have h₂ := sizeItems_le_length L xs d h.2
    simp only [sizeItems, printItems, List.length_cons, List.length_append]
    omega

theorem sizeMembers_le_length (L : Layout) : ∀ (kvs : List (Bytes × Json)) (d : Nat), WFMembers kvs →
    1 + sizeMembers kvs ≤ (printMembers L d kvs).length
  | [], d, _ => by simp [sizeMembers, printMembers]
  | (k, v) :: kvs, d, h => by
    simp only [WFMembers] at h
    have h₁ := size_le_length L v (d + 1) h.2.1
    have h₂ := sizeMembers_le_length L kvs d h.2.2
    simp only [sizeMembers, printMembers, List.length_cons, List.length_append]
    omega

end

/-- A printed text, read in front of bytes that end a number. -/
theorem parseFirst_print {L : Layout} (hL : L.Ok) {v : Json} (h : WF v) (hd : depth v ≤ maxNestingDepth)
    {r : Bytes} (hr : NumEnd r) : parseFirst (print L 0 v ++ r) = some (v, r) := by
  have hs := size_le_length L v 0 h
  exact reads hL v h _ _ 0 [] r (by simp only [List.length_append]; omega) hd (by simp) hr

/-- `parse` with a limit of `D` on the nesting. -/
def parseTo (D : Nat) (bs : Bytes) : Option Json := do
  let (v, bs) ← value (bs.length + 1) D bs
  if bs.all isSpace then return v else none

theorem parseTo_print {L : Layout} (hL : L.Ok) {v : Json} (h : WF v) {D : Nat} (hd : depth v ≤ D) :
    parseTo D (print L 0 v) = some v := by
  have hs := size_le_length L v 0 h
  have hv := reads hL v h ((print L 0 v).length + 1) D 0 [] [] (by omega) hd (by simp) (by simp [NumEnd])
  rw [List.nil_append, List.append_nil] at hv
  simp [parseTo, hv]

/-- Different trees have different texts. -/
theorem print_injective {L : Layout} (hL : L.Ok) {v w : Json} (hv : WF v) (hw : WF w)
    (h : print L 0 v = print L 0 w) : v = w := by
  have hp := parseTo_print hL hv (le_max_left (depth v) (depth w))
  rw [h, parseTo_print hL hw (le_max_right (depth v) (depth w))] at hp
  exact (Option.some.inj hp).symm

/-- A text followed by white space is the same text. -/
theorem parse_print_append {L : Layout} (hL : L.Ok) {v : Json} (h : WF v)
    (hd : depth v ≤ maxNestingDepth) {w : Bytes} (hw : ∀ b ∈ w, isSpace b = true) :
    parse (print L 0 v ++ w) = some v := by
  have hr : NumEnd w := by
    cases w with
    | nil => simp [NumEnd]
    | cons b w =>
      have h := numEnd_append (w := [b]) (b := 10) (by simpa using hw b List.mem_cons_self) (by decide) []
      simpa [NumEnd] using h
  simp only [parse, parseFirst_print hL h hd hr, Option.bind_eq_bind, Option.bind_some,
    List.all_eq_true.mpr hw, ↓reduceIte, Option.pure_def]

/-! ## The limit on nesting -/

/-- What is read with fuel `n` and a limit of `D` is nested to a depth of at
most `D`, and read alike with any higher limit. -/
structure Limits (n : Nat) : Prop where
  ofValue : ∀ {D D' bs v r}, D ≤ D' → value n D bs = some (v, r) →
    depth v ≤ D ∧ value n D' bs = some (v, r)
  ofItems : ∀ {D D' bs xs r}, D ≤ D' → items n D bs = some (xs, r) →
    depthItems xs ≤ D ∧ items n D' bs = some (xs, r)
  ofMembers : ∀ {D D' bs kvs r}, D ≤ D' → members n D bs = some (kvs, r) →
    depthMembers kvs ≤ D ∧ members n D' bs = some (kvs, r)

theorem Limits.value_succ {n : Nat} (ih : Limits n) {D D' : Nat} {bs : Bytes} {v : Json} {r : Bytes}
    (hD : D ≤ D') (h : value (n + 1) D bs = some (v, r)) :
    depth v ≤ D ∧ value (n + 1) D' bs = some (v, r) := by
  have hD' := Nat.sub_le_sub_right hD 1
  simp only [value, Option.bind_eq_bind, Option.pure_def, Option.bind_eq_some_iff,
    Prod.exists] at h ⊢
  obtain ⟨b, bs₁, htok, h⟩ := h
  suffices hs : depth v ≤ D ∧ _ from ⟨hs.1, b, bs₁, htok, hs.2⟩
  -- an array or an object uses up one level; the other values are not nested
  by_cases h34 : b = 34
  · rw [if_pos h34] at h ⊢
    obtain ⟨_, -, he⟩ := Option.bind_eq_some_iff.mp h
    cases he
    exact ⟨Nat.zero_le _, h⟩
  rw [if_neg h34] at h ⊢
  by_cases h91 : b = 91
  · rw [if_pos h91] at h ⊢
    split_ifs at h ⊢ with h0 h0'
    · omega
    simp only [Option.bind_eq_some_iff, Prod.exists] at h ⊢
    obtain ⟨c, cs, hc, h⟩ := h
    suffices hs : depth v ≤ D ∧ _ from ⟨hs.1, c, cs, hc, hs.2⟩
    split_ifs at h ⊢ with hend
    · cases h; exact ⟨by simp only [depth, depthItems]; omega, rfl⟩
    · obtain ⟨⟨xs, r'⟩, hxs, he⟩ := Option.bind_eq_some_iff.mp h
      obtain ⟨hd, hxs⟩ := ih.ofItems hD' hxs
      cases he
      exact ⟨by simp only [depth]; omega, by rw [hxs]; rfl⟩
  rw [if_neg h91] at h ⊢
  by_cases h123 : b = 123
  · rw [if_pos h123] at h ⊢
    split_ifs at h ⊢ with h0 h0'
    · omega
    simp only [Option.bind_eq_some_iff, Prod.exists] at h ⊢
    obtain ⟨c, cs, hc, h⟩ := h
    suffices hs : depth v ≤ D ∧ _ from ⟨hs.1, c, cs, hc, hs.2⟩
    split_ifs at h ⊢ with hend
    · cases h; exact ⟨by simp only [depth, depthMembers]; omega, rfl⟩
    · obtain ⟨⟨kvs, r'⟩, hkvs, he⟩ := Option.bind_eq_some_iff.mp h
      obtain ⟨hd, hkvs⟩ := ih.ofMembers hD' hkvs
      cases he
      exact ⟨by simp only [depth]; omega, by rw [hkvs]; rfl⟩
  rw [if_neg h123] at h ⊢
  split_ifs at h ⊢ with h116 h102 h110
  all_goals
    obtain ⟨_, -, he⟩ := Option.bind_eq_some_iff.mp h
    cases he
    exact ⟨Nat.zero_le _, h⟩

theorem Limits.items_succ {n : Nat} (ih : Limits n) {D D' : Nat} {bs : Bytes} {xs : List Json}
    {r : Bytes} (hD : D ≤ D') (h : items (n + 1) D bs = some (xs, r)) :
    depthItems xs ≤ D ∧ items (n + 1) D' bs = some (xs, r) := by
  simp only [items, Option.bind_eq_bind, Option.pure_def, Option.bind_eq_some_iff, Prod.exists] at h ⊢
  obtain ⟨x, bs₁, hx, b, bs₂, htok, h⟩ := h
  obtain ⟨hdx, hx⟩ := ih.ofValue hD hx
  suffices hs : depthItems xs ≤ D ∧ _ from ⟨hs.1, x, bs₁, hx, b, bs₂, htok, hs.2⟩
  split_ifs at h ⊢ with h44 h93
  · obtain ⟨⟨ys, r'⟩, hys, he⟩ := Option.bind_eq_some_iff.mp h
    obtain ⟨hdys, hys⟩ := ih.ofItems hD hys
    cases he
    exact ⟨max_le hdx hdys, by rw [hys]; rfl⟩
  · cases h
    exact ⟨max_le hdx (Nat.zero_le _), rfl⟩

theorem Limits.members_succ {n : Nat} (ih : Limits n) {D D' : Nat} {bs : Bytes}
    {kvs : List (Bytes × Json)} {r : Bytes} (hD : D ≤ D') (h : members (n + 1) D bs = some (kvs, r)) :
    depthMembers kvs ≤ D ∧ members (n + 1) D' bs = some (kvs, r) := by
  simp only [members, Option.bind_eq_bind, Option.pure_def, Option.bind_eq_some_iff, Prod.exists] at h ⊢
  obtain ⟨b, bs₁, htok, h⟩ := h
  suffices hs : depthMembers kvs ≤ D ∧ _ from ⟨hs.1, b, bs₁, htok, hs.2⟩
  by_cases h34 : b = 34
  case neg => rw [if_neg h34] at h; cases h
  rw [if_pos h34] at h ⊢
  simp only [Option.bind_eq_some_iff, Prod.exists] at h ⊢
  obtain ⟨k, bs₂, hk, c, bs₃, hc, h⟩ := h
  suffices hs : depthMembers kvs ≤ D ∧ _ from ⟨hs.1, k, bs₂, hk, c, bs₃, hc, hs.2⟩
  by_cases h58 : c = 58
  case neg => rw [if_neg h58] at h; cases h
  rw [if_pos h58] at h ⊢
  simp only [Option.bind_eq_some_iff, Prod.exists] at h ⊢
  obtain ⟨v, bs₄, hv, e, bs₅, he, h⟩ := h
  obtain ⟨hdv, hv⟩ := ih.ofValue hD hv
  suffices hs : depthMembers kvs ≤ D ∧ _ from ⟨hs.1, v, bs₄, hv, e, bs₅, he, hs.2⟩
  split_ifs at h ⊢ with h44 h125
  · obtain ⟨⟨kvs', r'⟩, hkvs, he⟩ := Option.bind_eq_some_iff.mp h
    obtain ⟨hd, hkvs⟩ := ih.ofMembers hD hkvs
    cases he
    exact ⟨max_le hdv hd, by rw [hkvs]; rfl⟩
  · cases h
    exact ⟨max_le hdv (Nat.zero_le _), rfl⟩

theorem limits (n : Nat) : Limits n := by
  induction n with
  | zero => constructor <;> intros <;> simp_all [value, items, members]
  | succ n ih => exact ⟨ih.value_succ, ih.items_succ, ih.members_succ⟩

/-- What is parsed is nested no deeper than the limit, and parsed alike with a
higher one. -/
theorem parseTo_mono {D D' : Nat} (hD : D ≤ D') {bs : Bytes} {v : Json} (h : parseTo D bs = some v) :
    depth v ≤ D ∧ parseTo D' bs = some v := by
  obtain ⟨⟨u, r⟩, hu, hr⟩ := Option.bind_eq_some_iff.mp h
  obtain ⟨hd, hu⟩ := (limits _).ofValue hD hu
  have huv : u = v := by
    dsimp only at hr
    split at hr
    · exact Option.some.inj hr
    · cases hr
  exact ⟨huv ▸ hd, Option.bind_eq_some_iff.mpr ⟨_, hu, hr⟩⟩

/-- The text of a tree that is nested too deep does not parse. -/
theorem parse_print_of_deep {L : Layout} (hL : L.Ok) {v : Json} (h : WF v)
    (hd : maxNestingDepth < depth v) : parse (print L 0 v) = none := by
  rw [Option.eq_none_iff_forall_ne_some]
  intro w hw
  obtain ⟨hdw, hw⟩ := parseTo_mono hd.le hw
  rw [parseTo_print hL h le_rfl] at hw
  cases hw
  omega

end Json
