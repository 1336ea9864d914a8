import Hanko.Spec.GoMod

/-!
# Go's `strings` on tokens and blanks

What `strings.TrimSpace`, `strings.Fields` and `strings.Index` do on a line of
tokens. White space is looked for in the bytes of the line: the encoding of a
character of it is one ASCII byte or has none (`space_bytes`), so that it is not
found across the end of a token.

* `fields_words`: the fields are the tokens;
* `trimSpace_words`, `trimSpace_comment`: blanks around a line are removed, and
  of a comment at most its end;
* `index_words`: a comment is found where it begins.
-/

namespace Hanko.GoMod

open Bytes

/-! ## White space -/

/-- The encodings of white space. -/
def spaceCodes : List Bytes :=
  [[9], [10], [11], [12], [13], [32], [194, 133], [194, 160], [225, 154, 128], [226, 128, 128],
    [226, 128, 129], [226, 128, 130], [226, 128, 131], [226, 128, 132], [226, 128, 133], [226, 128, 134],
    [226, 128, 135], [226, 128, 136], [226, 128, 137], [226, 128, 138], [226, 128, 168], [226, 128, 169],
    [226, 128, 175], [226, 129, 159], [227, 128, 128]]

theorem spaces_utf8 : spaces.map (fun c => utf8 [c]) = spaceCodes := by rfl

theorem mem_spaceCodes {c : Char} (hc : c ∈ spaces) : utf8 [c] ∈ spaceCodes := by
  rw [← spaces_utf8]
  exact List.mem_map_of_mem (f := fun c => utf8 [c]) hc

theorem space_bytes {c : Char} (hc : c ∈ spaces) : (utf8 [c]).length = 1 ∨ ∀ b ∈ utf8 [c], 128 ≤ b := by
  have hcodes : ∀ e ∈ spaceCodes, e.length = 1 ∨ e.all (128 ≤ ·) = true := by decide
  refine (hcodes _ (mem_spaceCodes hc)).imp_right fun h b hb => ?_
  exact of_decide_eq_true (List.all_eq_true.mp h b hb)

theorem slash_notMem {c : Char} (hc : c ∈ spaces) : 47 ∉ utf8 [c] := by
  have hcodes : ∀ e ∈ spaceCodes, 47 ∉ e := by decide
  exact hcodes _ (mem_spaceCodes hc)

/-- A blank, or the slash of a comment: what may follow a token. -/
def IsMark (b : UInt8) : Prop := b = 32 ∨ b = 9 ∨ b = 47

/-- A character of white space that ends behind a mark begins behind it, or is
the mark. -/
theorem mark_notMem {c : Char} (hc : c ∈ spaces) {b : UInt8} (hb : IsMark b) (hmem : b ∈ utf8 [c]) :
    utf8 [c] = [b] := by
  rcases space_bytes hc with hlen | hhigh
  · obtain ⟨x, hx⟩ := List.length_eq_one_iff.mp hlen
    rw [hx, List.mem_singleton] at hmem
    rw [hx, hmem]
  · have := hhigh b hmem
    rcases hb with rfl | rfl | rfl <;> exact absurd this (by decide)

/-- The white space at the start of a string, if any. -/
def spaceAt (s : Bytes) : Option Char := spaces.find? fun c => (utf8 [c]).isPrefixOf s

/-- The white space at its end. -/
def spaceBefore (s : Bytes) : Option Char := spaces.find? fun c => (utf8 [c]).isSuffixOf s

theorem spaceAt_blank {b : UInt8} (hb : b = 32 ∨ b = 9) (s : Bytes) :
    ∃ c, spaceAt (b :: s) = some c ∧ (utf8 [c]).length = 1 := by
  rcases hb with rfl | rfl
  · exact ⟨' ', rfl, rfl⟩
  · exact ⟨'\t', rfl, rfl⟩

theorem spaceBefore_blank {b : UInt8} (hb : b = 32 ∨ b = 9) (s : Bytes) :
    ∃ c, spaceBefore (s ++ [b]) = some c ∧ (utf8 [c]).length = 1 := by
  simp only [spaceBefore, List.isSuffixOf, List.reverse_append, List.reverse_singleton, List.singleton_append]
  rcases hb with rfl | rfl
  · exact ⟨' ', rfl, rfl⟩
  · exact ⟨'\t', rfl, rfl⟩

/-- What follows a token: nothing, or a mark first. -/
def Follows (s : Bytes) : Prop := ∀ b, s.head? = some b → IsMark b

/-- No white space begins in a token. -/
theorem spaceAt_token {t u s : Bytes} (ht : IsToken t) (hu : u <:+ t) (hne : u ≠ []) (hs : Follows s) :
    spaceAt (u ++ s) = none := by
  rw [spaceAt, List.find?_eq_none]
  intro c hc hprefix
  obtain ⟨r, hr⟩ := List.isPrefixOf_iff_prefix.mp hprefix
  rcases List.append_eq_append_iff.mp hr with ⟨v, rfl, -⟩ | ⟨v, hv, rfl⟩
  · exact ht.space c hc ((List.prefix_append _ v).isInfix.trans hu.isInfix)
  · cases v with
    | nil =>
      rw [List.append_nil] at hv
      exact ht.space c hc (hv ▸ hu.isInfix)
    | cons b v =>
      have hsingle := mark_notMem hc (hs b rfl) (by simp [hv])
      rw [hsingle] at hv
      obtain ⟨x, u, rfl⟩ := List.exists_cons_of_ne_nil hne
      simp at hv

/-- No white space ends in a token, if a blank is before it. -/
theorem spaceBefore_token {t x : Bytes} (ht : IsToken t) (hx : ∀ b, x.getLast? = some b → IsMark b) :
    spaceBefore (x ++ t) = none := by
  rw [spaceBefore, List.find?_eq_none]
  intro c hc hsuffix
  obtain ⟨r, hr⟩ := List.isSuffixOf_iff_suffix.mp hsuffix
  rcases List.append_eq_append_iff.mp hr with ⟨v, rfl, hv⟩ | ⟨v, hv, rfl⟩
  · -- the white space reaches into `x`, unless nothing of this is left
    cases v using List.reverseRecOn with
    | nil =>
      rw [List.nil_append] at hv
      exact ht.space c hc (hv ▸ List.infix_rfl)
    | append_singleton v b _ =>
      have hsingle := mark_notMem hc (hx b (by simp)) (by simp [hv])
      have hlen := congrArg List.length hv
      rw [hsingle] at hlen
      have hpos := List.length_pos_iff.mpr ht.ne_nil
      simp at hlen
      omega
  · exact ht.space c hc (List.suffix_append v _).isInfix

theorem spaceAt_slash (s : Bytes) : spaceAt (47 :: s) = none := by rfl

/-! ## Lines -/

theorem Words.Spaced.tail {w : Bytes × Bytes} {ws : Words} (h : Words.Spaced (w :: ws)) : ws.Spaced where
  blanks v hv := h.blanks v (List.mem_cons_of_mem _ hv)
  token v hv := h.token v (List.mem_cons_of_mem _ hv)
  gap v hv := h.gap v (List.mem_of_mem_tail hv)

/-- The first blanks may be others. -/
theorem Words.Spaced.replace {b b' t : Bytes} {ws : Words} (h : Words.Spaced ((b, t) :: ws)) (hb : Blanks b') :
    Words.Spaced ((b', t) :: ws) where
  blanks := List.forall_mem_cons.mpr ⟨hb, fun v hv => h.blanks v (List.mem_cons_of_mem _ hv)⟩
  token := List.forall_mem_cons.mpr
    ⟨h.token (b, t) List.mem_cons_self, fun v hv => h.token v (List.mem_cons_of_mem _ hv)⟩
  gap v hv := h.gap v hv

theorem Words.text_cons (b t : Bytes) (ws : Words) : Words.text ((b, t) :: ws) = b ++ (t ++ ws.text) := by
  simp [Words.text]

/-- The rest of a line follows its first token. -/
theorem Words.Spaced.eq_nil {ws : Words} (hws : ws.Spaced) (h : ws.text = []) : ws = [] := by
  cases ws with
  | nil => rfl
  | cons w ws =>
    obtain ⟨b, t⟩ := w
    rw [Words.text_cons] at h
    simp [(hws.token (b, t) List.mem_cons_self).ne_nil] at h

theorem Words.Spaced.follows {w : Bytes × Bytes} {ws : Words} (h : Words.Spaced (w :: ws)) {s : Bytes}
    (hs : Follows s) :
    Follows (ws.text ++ s) := by
  cases ws with
  | nil => exact hs
  | cons v ws =>
    obtain ⟨b, t⟩ := v
    obtain ⟨x, b, rfl⟩ := List.exists_cons_of_ne_nil (h.gap (b, t) List.mem_cons_self)
    intro y hy
    rw [Words.text_cons] at hy
    obtain rfl := Option.some.inj hy
    rcases h.blanks (x :: b, t) (by simp) x List.mem_cons_self with rfl | rfl
    · exact .inl rfl
    · exact .inr (.inl rfl)

theorem Blanks.follows {s : Bytes} (h : Blanks s) : Follows s := by
  intro b hb
  rcases h b (List.mem_of_head? hb) with rfl | rfl
  · exact .inl rfl
  · exact .inr (.inl rfl)

/-! ## Fields -/

theorem fieldsUpTo_cons (n : Nat) (field : Bytes) (b : UInt8) (s : Bytes) :
    fieldsUpTo (n + 1) field (b :: s) =
      match spaceAt (b :: s) with
      | some c => endField field ++ fieldsUpTo n [] ((b :: s).drop (utf8 [c]).length)
      | none => fieldsUpTo n (field ++ [b]) s := rfl

theorem fieldsUpTo_token {t u s : Bytes} (ht : IsToken t) (hu : u <:+ t) (hs : Follows s) (field : Bytes) :
    fieldsUpTo (u ++ s).length field (u ++ s) = fieldsUpTo s.length (field ++ u) s := by
  induction u generalizing field with
  | nil => simp
  | cons b u ih =>
    have hnone : spaceAt (b :: (u ++ s)) = none := spaceAt_token ht hu (List.cons_ne_nil _ _) hs
    rw [List.cons_append, List.length_cons, fieldsUpTo_cons, hnone]
    dsimp only
    rw [ih ((List.suffix_cons b u).trans hu), List.append_assoc]
    rfl

theorem fieldsUpTo_blanks {b : Bytes} (hb : Blanks b) (hne : b ≠ []) (s field : Bytes) :
    fieldsUpTo (b ++ s).length field (b ++ s) = endField field ++ fieldsUpTo s.length [] s := by
  induction b generalizing field with
  | nil => exact absurd rfl hne
  | cons x b ih =>
    obtain ⟨c, hc, hlen⟩ := spaceAt_blank (hb x List.mem_cons_self) (b ++ s)
    rw [List.cons_append, List.length_cons, fieldsUpTo_cons, hc]
    dsimp only
    rw [hlen, List.drop_one, List.tail_cons]
    cases b with
    | nil => rfl
    | cons y b =>
      rw [ih (fun z hz => hb z (List.mem_cons_of_mem _ hz)) (List.cons_ne_nil _ _)]
      rfl

/-- The fields of a line are its tokens, with a first one that was begun. -/
theorem fieldsUpTo_words {ws : Words} (hws : ws.Spaced) {trail : Bytes} (htrail : Blanks trail) (field : Bytes)
    (hfield : field ≠ [] → ∀ w, ws.head? = some w → w.1 ≠ []) :
    fieldsUpTo (ws.text ++ trail).length field (ws.text ++ trail) = endField field ++ ws.tokens := by
  induction ws generalizing field with
  | nil =>
    cases trail with
    | nil => simp [Words.text, Words.tokens, fieldsUpTo]
    | cons x trail =>
      have h := fieldsUpTo_blanks htrail (List.cons_ne_nil _ _) [] field
      rw [List.append_nil] at h
      simpa [Words.text, Words.tokens, fieldsUpTo, endField] using h
  | cons w ws ih =>
    obtain ⟨b, t⟩ := w
    have ht : IsToken t := hws.token (b, t) List.mem_cons_self
    -- from a blank on, the token is read as the next field
    have hread : fieldsUpTo (t ++ (Words.text ws ++ trail)).length [] (t ++ (Words.text ws ++ trail)) =
        t :: Words.tokens ws := by
      rw [fieldsUpTo_token ht List.suffix_rfl (hws.follows htrail.follows), List.nil_append,
        ih hws.tail t fun _ w hw => hws.gap w (List.mem_of_head? hw), endField, if_neg ht.ne_nil]
      rfl
    rw [Words.text_cons, List.append_assoc, List.append_assoc]
    by_cases hb : b = []
    · have hnil : field = [] := by
        by_contra hne
        exact hfield hne (b, t) rfl hb
      rw [hb, hnil, List.nil_append, hread]
      rfl
    · rw [fieldsUpTo_blanks (hws.blanks (b, t) List.mem_cons_self) hb, hread]
      rfl

theorem fields_words {ws : Words} (hws : ws.Spaced) {trail : Bytes} (htrail : Blanks trail) :
    fields (ws.text ++ trail) = ws.tokens :=
  fieldsUpTo_words hws htrail [] fun h => absurd rfl h

/-! ## Trimming -/

theorem trimLeft_succ (n : Nat) (s : Bytes) :
    trimLeft (n + 1) s =
      match spaceAt s with
      | some c => trimLeft n (s.drop (utf8 [c]).length)
      | none => s := rfl

theorem trimRight_succ (n : Nat) (s : Bytes) :
    trimRight (n + 1) s =
      match spaceBefore s with
      | some c => trimRight n (s.take (s.length - (utf8 [c]).length))
      | none => s := rfl

theorem trimLeft_of_none {s : Bytes} (h : spaceAt s = none) (n : Nat) : trimLeft n s = s := by
  cases n with
  | zero => rfl
  | succ n => rw [trimLeft_succ, h]

theorem trimRight_of_none {s : Bytes} (h : spaceBefore s = none) (n : Nat) : trimRight n s = s := by
  cases n with
  | zero => rfl
  | succ n => rw [trimRight_succ, h]

theorem trimLeft_blanks {b : Bytes} (hb : Blanks b) (n : Nat) (s : Bytes) :
    trimLeft (b.length + n) (b ++ s) = trimLeft n s := by
  induction b with
  | nil => rw [List.length_nil, Nat.zero_add, List.nil_append]
  | cons x b ih =>
    obtain ⟨c, hc, hlen⟩ := spaceAt_blank (hb x List.mem_cons_self) (b ++ s)
    rw [List.length_cons, Nat.succ_add, List.cons_append, trimLeft_succ, hc]
    dsimp only
    rw [hlen, List.drop_one, List.tail_cons, ih fun z hz => hb z (List.mem_cons_of_mem _ hz)]

theorem trimRight_blanks {b : Bytes} (hb : Blanks b) (n : Nat) (s : Bytes) :
    trimRight (b.length + n) (s ++ b) = trimRight n s := by
  induction b using List.reverseRecOn with
  | nil => rw [List.length_nil, Nat.zero_add, List.append_nil]
  | append_singleton b x ih =>
    obtain ⟨c, hc, hlen⟩ := spaceBefore_blank (hb x (by simp)) (s ++ b)
    rw [List.length_append, List.length_singleton, Nat.add_right_comm, ← List.append_assoc, trimRight_succ, hc]
    dsimp only
    rw [hlen, List.length_append, List.length_singleton, Nat.add_sub_cancel, List.take_left,
      ih fun z hz => hb z (List.mem_append_left _ hz)]

/-- Of what follows a slash, some is left. -/
theorem trimRight_slash (n : Nat) (x c : Bytes) : ∃ c', trimRight n (x ++ 47 :: c) = x ++ 47 :: c' := by
  induction n generalizing c with
  | zero => exact ⟨c, rfl⟩
  | succ n ih =>
    rw [trimRight_succ]
    cases hspace : spaceBefore (x ++ 47 :: c) with
    | none => exact ⟨c, rfl⟩
    | some ch =>
      dsimp only
      have hslash := slash_notMem (List.mem_of_find?_eq_some hspace)
      have hsuffix : (utf8 [ch]).isSuffixOf (x ++ 47 :: c) = true := by
        rw [spaceBefore] at hspace
        exact List.find?_some (p := fun c' => (utf8 [c']).isSuffixOf (x ++ 47 :: c)) hspace
      obtain ⟨r, hr⟩ := List.isSuffixOf_iff_suffix.mp hsuffix
      -- the slash is not white space, so this is behind it
      obtain ⟨c', rfl⟩ : ∃ c', c = c' ++ utf8 [ch] := by
        rcases List.append_eq_append_iff.mp hr with ⟨v, -, hv⟩ | ⟨v, -, hv⟩
        · exact absurd (by simp [hv]) hslash
        · cases v with
          | nil =>
            rw [List.nil_append] at hv
            exact absurd (hv ▸ List.mem_cons_self) hslash
          | cons b v => exact ⟨v, (List.cons.inj hv).2⟩
      have htake : (x ++ 47 :: (c' ++ utf8 [ch])).take ((x ++ 47 :: (c' ++ utf8 [ch])).length - (utf8 [ch]).length) =
          x ++ 47 :: c' := by
        rw [show x ++ 47 :: (c' ++ utf8 [ch]) = (x ++ 47 :: c') ++ utf8 [ch] by simp, List.length_append,
          Nat.add_sub_cancel, List.take_left]
      rw [htake]
      exact ih c'

/-! ## The text of a line, trimmed -/

/-- The words, without the blanks before the first. -/
def Words.strip : Words → Words
  | [] => []
  | (_, t) :: ws => ([], t) :: ws

@[simp] theorem Words.tokens_strip (ws : Words) : ws.strip.tokens = ws.tokens := by
  cases ws <;> rfl

theorem Words.Spaced.strip {ws : Words} (h : ws.Spaced) : ws.strip.Spaced := by
  cases ws with
  | nil => exact h
  | cons w ws => exact h.replace nofun

/-- A line ends in a token, which is its first or has a blank before it. -/
theorem Words.Spaced.last {b t : Bytes} {ws : Words} (h : Words.Spaced ((b, t) :: ws)) :
    ∃ x u, t ++ ws.text = x ++ u ∧ IsToken u ∧ ∀ y, x.getLast? = some y → IsMark y := by
  cases ws using List.reverseRecOn with
  | nil => exact ⟨[], t, by simp [Words.text], h.token (b, t) List.mem_cons_self, nofun⟩
  | append_singleton ws w _ =>
    obtain ⟨g, u⟩ := w
    refine ⟨t ++ (Words.text ws ++ g), u, by simp [Words.text], h.token (g, u) (by simp), fun y hy => ?_⟩
    have hgap : g ≠ [] := h.gap (g, u) (by simp)
    have hblanks : Blanks g := h.blanks (g, u) (by simp)
    rw [← List.append_assoc, List.getLast?_append_of_ne_nil _ hgap] at hy
    rcases hblanks y (List.mem_of_getLast? hy) with rfl | rfl
    · exact .inl rfl
    · exact .inr (.inl rfl)

theorem trimSpace_words {ws : Words} (hws : ws.Spaced) {trail : Bytes} (htrail : Blanks trail) :
    trimSpace (ws.text ++ trail) = ws.strip.text := by
  cases ws with
  | nil =>
    have hleft := trimLeft_blanks htrail 0 []
    rw [Nat.add_zero, List.append_nil] at hleft
    rw [trimSpace, show Words.text [] ++ trail = trail from rfl, hleft, trimLeft]
    exact trimRight_of_none rfl _
  | cons w ws =>
    obtain ⟨b, t⟩ := w
    have ht : IsToken t := hws.token (b, t) List.mem_cons_self
    have hleft : trimLeft (b ++ (t ++ (Words.text ws ++ trail))).length (b ++ (t ++ (Words.text ws ++ trail))) =
        t ++ (Words.text ws ++ trail) := by
      rw [List.length_append, trimLeft_blanks (hws.blanks (b, t) List.mem_cons_self)]
      exact trimLeft_of_none (spaceAt_token ht List.suffix_rfl ht.ne_nil (hws.follows htrail.follows)) _
    obtain ⟨x, u, hlast, hu, hx⟩ := hws.last
    rw [trimSpace, Words.text_cons, List.append_assoc, List.append_assoc, hleft, ← List.append_assoc t,
      show (b ++ ((t ++ Words.text ws) ++ trail)).length =
        trail.length + (b ++ (t ++ Words.text ws)).length by simp; omega,
      trimRight_blanks htrail, hlast, trimRight_of_none (spaceBefore_token hu hx), ← hlast,
      Words.strip, Words.text_cons]
    rfl

/-- Blanks are removed before a comment only if there is no token. -/
theorem trimSpace_comment {ws : Words} (hws : ws.Spaced) {trail : Bytes} (htrail : Blanks trail) (c : Bytes) :
    ∃ c', trimSpace (ws.text ++ (trail ++ 47 :: 47 :: c)) =
      ws.strip.text ++ ((if ws = [] then [] else trail) ++ 47 :: 47 :: c') := by
  have hslash (x : Bytes) (n : Nat) : ∃ c', trimRight n (x ++ 47 :: 47 :: c) = x ++ 47 :: 47 :: c' := by
    obtain ⟨c', hc'⟩ := trimRight_slash n (x ++ [47]) c
    exact ⟨c', by simpa using hc'⟩
  cases ws with
  | nil =>
    obtain ⟨c', hc'⟩ := hslash [] (trail ++ 47 :: 47 :: c).length
    refine ⟨c', ?_⟩
    rw [trimSpace, show Words.text [] ++ (trail ++ 47 :: 47 :: c) = trail ++ 47 :: 47 :: c from rfl]
    nth_rewrite 2 [List.length_append]
    rw [trimLeft_blanks htrail, trimLeft_of_none (spaceAt_slash _)]
    exact hc'
  | cons w ws =>
    obtain ⟨b, t⟩ := w
    have ht : IsToken t := hws.token (b, t) List.mem_cons_self
    have hfollows : Follows (trail ++ 47 :: 47 :: c) := by
      cases trail with
      | nil => exact fun y hy => .inr (.inr (Option.some.inj hy).symm)
      | cons y trail => exact fun z hz => htrail.follows z hz
    have hleft : trimLeft (b ++ (t ++ (Words.text ws ++ (trail ++ 47 :: 47 :: c)))).length
        (b ++ (t ++ (Words.text ws ++ (trail ++ 47 :: 47 :: c)))) =
          t ++ (Words.text ws ++ (trail ++ 47 :: 47 :: c)) := by
      rw [List.length_append, trimLeft_blanks (hws.blanks (b, t) List.mem_cons_self)]
      exact trimLeft_of_none (spaceAt_token ht List.suffix_rfl ht.ne_nil (hws.follows hfollows)) _
    obtain ⟨c', hc'⟩ :=
      hslash (t ++ (Words.text ws ++ trail)) (b ++ (t ++ (Words.text ws ++ (trail ++ 47 :: 47 :: c)))).length
    refine ⟨c', ?_⟩
    rw [trimSpace, Words.text_cons, List.append_assoc, List.append_assoc, hleft,
      if_neg (List.cons_ne_nil _ _), Words.strip, Words.text_cons]
    simpa using hc'

/-! ## Comments -/

theorem lit_slashes : lit "//" = [47, 47] := by decide

/-- Slashes are looked for behind a text that has no two of them, and does not
end in one if another follows. -/
theorem index_append {x s : Bytes} (hx : ¬ lit "//" <:+: x) (hend : x.getLast? = some 47 → s.head? ≠ some 47) :
    index (lit "//") (x ++ s) = (index (lit "//") s).map (· + x.length) := by
  rw [lit_slashes] at hx ⊢
  induction x with
  | nil => simp
  | cons a x ih =>
    have hprefix : ¬ List.isPrefixOf [47, 47] (a :: (x ++ s)) = true := by
      intro h
      obtain ⟨r, hr⟩ := List.isPrefixOf_iff_prefix.mp h
      obtain ⟨rfl, hnext⟩ := List.cons.inj hr
      replace hnext : 47 :: r = x ++ s := hnext
      cases x with
      | nil => exact hend rfl (by rw [← List.nil_append s, ← hnext]; rfl)
      | cons b x =>
        obtain ⟨rfl, -⟩ := List.cons.inj hnext
        exact hx ⟨[], x, rfl⟩
    have htail : ¬ [47, 47] <:+: x := fun h => hx (h.trans (List.suffix_cons a x).isInfix)
    have hend' : x.getLast? = some 47 → s.head? ≠ some 47 := by
      intro h
      refine hend ?_
      cases x with
      | nil => cases h
      | cons b x => rwa [List.getLast?_cons_cons]
    rw [List.cons_append, index, if_neg hprefix, ih htail hend', Option.map_map]
    rfl

theorem Blanks.no_comment {b : Bytes} (hb : Blanks b) : ¬ lit "//" <:+: b := by
  intro h
  rcases hb 47 (h.subset (by decide)) with h | h <;> exact absurd h (by decide)

theorem index_words {ws : Words} (hws : ws.Spaced) {s : Bytes}
    (hend : ∀ t, ws.tokens.getLast? = some t → t.getLast? = some 47 → s.head? ≠ some 47) :
    index (lit "//") (ws.text ++ s) = (index (lit "//") s).map (· + ws.text.length) := by
  induction ws with
  | nil => simp [Words.text]
  | cons w ws ih =>
    obtain ⟨b, t⟩ := w
    have hblanks := hws.blanks (b, t) List.mem_cons_self
    have hb : b.getLast? = some 47 → (t ++ (Words.text ws ++ s)).head? ≠ some 47 := by
      intro h
      rcases hblanks 47 (List.mem_of_getLast? h) with h | h <;> exact absurd h (by decide)
    have ht : t.getLast? = some 47 → (Words.text ws ++ s).head? ≠ some 47 := by
      intro h hhead
      cases ws with
      | nil => exact hend t rfl h hhead
      | cons v ws =>
        obtain ⟨g, u⟩ := v
        obtain ⟨y, g, rfl⟩ := List.exists_cons_of_ne_nil (hws.gap (g, u) List.mem_cons_self)
        rw [Words.text_cons] at hhead
        obtain rfl := Option.some.inj hhead
        rcases hws.blanks (47 :: g, u) (by simp) 47 List.mem_cons_self with h | h <;> exact absurd h (by decide)
    have hrest : ∀ u, (Words.tokens ws).getLast? = some u → u.getLast? = some 47 → s.head? ≠ some 47 := by
      intro u hu
      refine hend u ?_
      cases ws with
      | nil => cases hu
      | cons v ws => rwa [Words.tokens, List.map_cons, List.map_cons, List.getLast?_cons_cons]
    rw [Words.text_cons, List.append_assoc, List.append_assoc, index_append hblanks.no_comment hb,
      index_append (hws.token (b, t) List.mem_cons_self).comment ht, ih hws.tail hrest, Option.map_map, Option.map_map]
    congr 1
    funext k
    simp
    omega

end Hanko.GoMod
