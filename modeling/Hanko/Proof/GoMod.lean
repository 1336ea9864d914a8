import Hanko.Proof.Strings

/-!
# The requirements of a go.mod file

`ParseGoMod` compares a line, with its comment, to the two lines of a `require`
block, and looks for keywords with a space behind them. So a comment hides the
parentheses of a block, and a tab the keyword; what follows then depends on
whether a block is open for the parser (`Item.blockAfter`).

* `Line.effect_pair`, `Line.effect_single`: what a line does, in terms of its tokens;
* `Item.run_recognized`, `Item.run_of_not_recognized`: what an item does;
* `go_mod_requires_iff`: which files are read as they are meant.
-/

namespace Hanko.GoMod

open Bytes

/-! ## Dependencies -/

/-- The dependency that tokens denote. -/
def depOf : List Bytes → Option Dep
  | name :: version :: _ => some ⟨name, version⟩
  | _ => none

/-- What is left behind the tokens of a line when it is trimmed: nothing, or a
comment. -/
inductive Ending (ws : Words) : Bytes → Prop where
  | none : Ending ws []
  | comment {trail c : Bytes} : Blanks trail →
    (trail = [] → ∀ t, ws.tokens.getLast? = some t → t.getLast? ≠ some 47) → Ending ws (trail ++ 47 :: 47 :: c)

theorem Ending.follows {ws : Words} {s : Bytes} (h : Ending ws s) : Follows s := by
  cases h with
  | none => exact nofun
  | @comment trail c htrail _ =>
    cases trail with
    | nil => exact fun y hy => .inr (.inr (Option.some.inj hy).symm)
    | cons y trail => exact fun z hz => htrail.follows z hz

theorem parseDep_of_none {line : Bytes} (h : index (lit "//") line = none) : parseDep line = depOf (fields line) := by
  rw [parseDep, h]
  rfl

theorem parseDep_of_some {line : Bytes} {i : Nat} (h : index (lit "//") line = some i) :
    parseDep line = depOf (fields (trimSpace (line.take i))) := by
  rw [parseDep, h]
  rfl

/-- The comment of a line is found behind its tokens. -/
theorem index_comment {ws : Words} (hws : ws.Spaced) {trail : Bytes} (htrail : Blanks trail)
    (hbegins : trail = [] → ∀ t, ws.tokens.getLast? = some t → t.getLast? ≠ some 47) (c : Bytes) :
    index (lit "//") (ws.text ++ (trail ++ 47 :: 47 :: c)) = some (ws.text ++ trail).length := by
  have hblank {b : UInt8} (hb : b ∈ trail) : b ≠ 47 := by
    rintro rfl
    rcases htrail 47 hb with h | h <;> exact absurd h (by decide)
  have hcomment : index (lit "//") (47 :: 47 :: c) = some 0 := by
    rw [lit_slashes]
    rfl
  have htail : index (lit "//") (trail ++ 47 :: 47 :: c) = some trail.length := by
    rw [index_append htrail.no_comment fun h => absurd rfl (hblank (List.mem_of_getLast? h)), hcomment, Option.map_some,
      Nat.zero_add]
  rw [index_words hws, htail, Option.map_some, List.length_append, Nat.add_comm]
  intro t ht hslash hhead
  cases trail with
  | nil => exact hbegins rfl t ht hslash
  | cons b trail => exact hblank List.mem_cons_self (Option.some.inj hhead)

theorem parseDep_words {ws : Words} (hws : ws.Spaced) {s : Bytes} (hs : Ending ws s) :
    parseDep (ws.text ++ s) = depOf ws.tokens := by
  have hnil : Blanks [] := nofun
  cases hs with
  | none =>
    have hindex : index (lit "//") (ws.text ++ []) = Option.none := index_words hws fun _ _ _ => nofun
    rw [parseDep_of_none hindex, fields_words hws hnil]
  | @comment trail c htrail hbegins =>
    have htake : (ws.text ++ (trail ++ 47 :: 47 :: c)).take (ws.text ++ trail).length = ws.text ++ trail := by
      rw [← List.append_assoc, List.take_left]
    have hfields := fields_words hws.strip hnil
    rw [List.append_nil, Words.tokens_strip] at hfields
    rw [parseDep_of_some (index_comment hws htrail hbegins c), htake, trimSpace_words hws htrail, hfields]

/-! ## Lines -/

namespace Line

/-- The first two tokens are separated by a space, and maybe more. -/
def SpaceFirst (l : Line) : Prop := (l.words[1]?.bind fun w => w.1.head?) = some 32

instance decidableSpaceFirst (l : Line) : Decidable l.SpaceFirst := inferInstanceAs (Decidable (_ = _))

/-- The first two tokens are separated by one space, and there is no comment. -/
def Plain (l : Line) : Prop := (l.words[1]?.map fun w => w.1) = some [32] ∧ l.comment = none

instance decidablePlain (l : Line) : Decidable l.Plain := inferInstanceAs (Decidable (_ ∧ _))

theorem Plain.spaceFirst {l : Line} (h : l.Plain) : l.SpaceFirst := by
  obtain ⟨w, hw, hblanks⟩ := Option.map_eq_some_iff.mp h.1
  rw [SpaceFirst, hw, Option.bind_some, hblanks]
  rfl

/-- A line that is trimmed has its tokens, without the blanks around them, and
a comment if there is one. -/
theorem trimSpace_text (l : Line) :
    ∃ s, trimSpace l.text = l.words.strip.text ++ s ∧ Ending l.words.strip s ∧ (s = [] ↔ l.comment = none) := by
  rw [text, ending]
  cases hc : l.comment with
  | none => exact ⟨[], by rw [trimSpace_words l.spaced l.trail_blanks, List.append_nil], .none, by simp⟩
  | some c =>
    obtain ⟨c', hc'⟩ := trimSpace_comment l.spaced l.trail_blanks c
    refine ⟨_, hc', .comment ?_ ?_, by simp⟩
    · split
      · exact nofun
      · exact l.trail_blanks
    · intro htrail t ht
      rw [Words.tokens_strip] at ht
      split at htrail
      next hws => simp [hws, Words.tokens] at ht
      next => exact l.comment_begins (by rw [hc]; rfl) htrail t ht

end Line

/-- What a line does that was trimmed: whether a block is open behind it, and
the dependency that is found. -/
def effect (inBlock : Bool) (line : Bytes) : Bool × Option Dep :=
  if (lit "module ").isPrefixOf line then (inBlock, none)
  else if line = lit "require (" then (true, none)
  else if inBlock ∧ line = lit ")" then (false, none)
  else if (lit "require ").isPrefixOf line then (inBlock, parseDep (line.drop (lit "require ").length))
  else if inBlock then (inBlock, parseDep line)
  else (inBlock, none)

theorem parseLine_effect (s : ParseState) (text : Bytes) :
    (parseLine s text).deps = s.deps ++ (effect s.inRequireBlock (trimSpace text)).2.toList ∧
      (parseLine s text).inRequireBlock = (effect s.inRequireBlock (trimSpace text)).1 := by
  have hnone : s.deps = s.deps ++ Option.toList none := (List.append_nil _).symm
  rw [parseLine, effect]
  split
  · exact ⟨hnone, rfl⟩
  split
  · exact ⟨hnone, rfl⟩
  split
  · exact ⟨hnone, rfl⟩
  split
  · exact ⟨rfl, rfl⟩
  split
  · exact ⟨rfl, rfl⟩
  · exact ⟨hnone, rfl⟩

theorem IsToken.notMem {t : Bytes} (ht : IsToken t) {c : Char} (hc : c ∈ spaces) {b : UInt8} (hb : utf8 [c] = [b]) :
    b ∉ t := by
  intro hmem
  obtain ⟨x, y, rfl⟩ := List.append_of_mem hmem
  exact ht.space c hc (hb ▸ ⟨x, y, by simp⟩)

/-- A line begins with a keyword and a space if the keyword is its first token
and a space follows. -/
theorem isPrefixOf_keyword {p t s : Bytes} (hp : p.all (47 < ·) = true) (ht : IsToken t) (hs : Follows s) :
    (p ++ [32]).isPrefixOf (t ++ s) = true ↔ t = p ∧ s.head? = some 32 := by
  have hspace : 32 ∉ t := ht.notMem (c := ' ') (by decide) rfl
  rw [List.isPrefixOf_iff_prefix]
  constructor
  · rintro ⟨r, hr⟩
    rw [List.append_assoc] at hr
    rcases List.append_eq_append_iff.mp hr with ⟨v, rfl, hv⟩ | ⟨v, rfl, hv⟩
    · cases v with
      | nil => exact ⟨by simp, by rw [← List.nil_append s, ← hv]; rfl⟩
      | cons b v =>
        obtain ⟨rfl, -⟩ := List.cons.inj hv
        exact absurd (by simp) hspace
    · cases v with
      | nil => exact ⟨by simp, by rw [hv]; rfl⟩
      | cons b v =>
        have hlt : 47 < b := of_decide_eq_true (List.all_eq_true.mp hp b (by simp))
        rcases hs b (by rw [hv]; rfl) with rfl | rfl | rfl <;> exact absurd hlt (by decide)
  · rintro ⟨rfl, hhead⟩
    obtain ⟨s, rfl⟩ : ∃ s', s = 32 :: s' := List.head?_eq_some_iff.mp hhead
    exact ⟨s, by simp⟩

/-- What follows a first token and a space are tokens again. -/
theorem Ending.rest {w : Bytes × Bytes} {ws : Words} (hws : Words.Spaced (w :: ws)) {s : Bytes}
    (hs : Ending (w :: ws) s) (hhead : (ws.text ++ s).head? = some 32) :
    ∃ ws' s', (ws.text ++ s).tail = Words.text ws' ++ s' ∧ Words.Spaced ws' ∧ Ending ws' s' ∧
      Words.tokens ws' = ws.tokens := by
  cases ws with
  | nil =>
    cases hs with
    | none => cases hhead
    | @comment trail c htrail _ =>
      cases trail with
      | nil => exact absurd (Option.some.inj hhead) (by decide)
      | cons b trail =>
        exact ⟨[], trail ++ 47 :: 47 :: c, rfl, hws.tail,
          .comment (fun x hx => htrail x (List.mem_cons_of_mem _ hx)) nofun, rfl⟩
  | cons v ws =>
    obtain ⟨g, u⟩ := v
    obtain ⟨x, g, rfl⟩ := List.exists_cons_of_ne_nil (hws.gap (g, u) List.mem_cons_self)
    have hblanks : Blanks g := fun y hy => hws.blanks (x :: g, u) (by simp) y (List.mem_cons_of_mem _ hy)
    refine ⟨(g, u) :: ws, s, by simp [Words.text], hws.tail.replace hblanks, ?_, rfl⟩
    cases hs with
    | none => exact .none
    | comment htrail hbegins =>
      refine .comment htrail fun hnil t ht => hbegins hnil t ?_
      rwa [Words.tokens, List.map_cons, List.map_cons, List.getLast?_cons_cons]

/-- A line is the one that opens a block if `require` is its first token and a
space and a parenthesis follow. -/
theorem eq_opening_iff {t s : Bytes} (ht : IsToken t) (hs : Follows s) :
    t ++ s = lit "require (" ↔ t = lit "require" ∧ s = [32, 40] := by
  have hopening : lit "require (" = lit "require" ++ [32, 40] := by decide
  constructor
  · intro h
    have hprefix : (lit "require" ++ [32]).isPrefixOf (t ++ s) = true := by rw [h]; decide
    obtain ⟨rfl, -⟩ := (isPrefixOf_keyword rfl ht hs).mp hprefix
    exact ⟨rfl, List.append_cancel_left (h.trans hopening)⟩
  · rintro ⟨rfl, rfl⟩
    exact hopening.symm

theorem eq_closing_iff {t s : Bytes} (ht : IsToken t) : t ++ s = lit ")" ↔ t = lit ")" ∧ s = [] := by
  constructor
  · intro h
    obtain ⟨b, u, rfl⟩ := List.exists_cons_of_ne_nil ht.ne_nil
    obtain ⟨rfl, hrest⟩ := List.cons.inj (h.trans (show lit ")" = [41] by decide))
    obtain ⟨rfl, hnil⟩ := List.append_eq_nil_iff.mp hrest
    exact ⟨rfl, hnil⟩
  · rintro ⟨rfl, rfl⟩
    exact List.append_nil _

/-- What a line does, by its first token and what follows it. -/
theorem effect_words {t : Bytes} {ws : Words} (hws : Words.Spaced (([], t) :: ws)) {s : Bytes}
    (hs : Ending (([], t) :: ws) s) (inBlock : Bool) :
    effect inBlock (Words.text (([], t) :: ws) ++ s) =
      if t = lit "module" ∧ (ws.text ++ s).head? = some 32 then (inBlock, none)
      else if t = lit "require" ∧ ws.text ++ s = [32, 40] then (true, none)
      else if inBlock ∧ t = lit ")" ∧ ws.text ++ s = [] then (false, none)
      else if t = lit "require" ∧ (ws.text ++ s).head? = some 32 then (inBlock, depOf ws.tokens)
      else if inBlock then (inBlock, depOf (t :: ws.tokens))
      else (inBlock, none) := by
  have ht : IsToken t := hws.token ([], t) List.mem_cons_self
  have hfollows := hws.follows hs.follows
  have hline : Words.text (([], t) :: ws) ++ s = t ++ (ws.text ++ s) := by simp [Words.text]
  have hmodule : (lit "module ").isPrefixOf (t ++ (ws.text ++ s)) = true ↔
      t = lit "module" ∧ (ws.text ++ s).head? = some 32 :=
    isPrefixOf_keyword (p := lit "module") rfl ht hfollows
  have hrequire : (lit "require ").isPrefixOf (t ++ (ws.text ++ s)) = true ↔
      t = lit "require" ∧ (ws.text ++ s).head? = some 32 :=
    isPrefixOf_keyword (p := lit "require") rfl ht hfollows
  have hdep : parseDep (t ++ (ws.text ++ s)) = depOf (t :: ws.tokens) := hline ▸ parseDep_words hws hs
  have hrest (hhead : (ws.text ++ s).head? = some 32) (h : t = lit "require") :
      parseDep ((t ++ (ws.text ++ s)).drop (lit "require ").length) = depOf ws.tokens := by
    obtain ⟨ws', s', htail, hws', hs', htokens⟩ := hs.rest hws hhead
    have hdrop : (t ++ (ws.text ++ s)).drop (lit "require ").length = (ws.text ++ s).tail := by
      rw [h, show (lit "require ").length = (lit "require").length + 1 by decide, ← List.drop_drop, List.drop_left,
        List.drop_one]
    rw [hdrop, htail, parseDep_words hws' hs', htokens]
  rw [hline, effect]
  simp only [hmodule, eq_opening_iff ht hfollows, eq_closing_iff ht, hrequire, hdep]
  by_cases hkey : t = lit "require" ∧ (ws.text ++ s).head? = some 32
  · simp only [if_pos hkey, hrest hkey.2 hkey.1]
  · simp only [if_neg hkey]

/-! ## What a line does -/

theorem dropCR_append {x : Bytes} (hx : x.getLast? ≠ some 13) (c : Bytes) : dropCR (x ++ c) = x ++ dropCR c := by
  cases c with
  | nil => simp [dropCR, hx]
  | cons b c =>
    have hne : b :: c ≠ [] := List.cons_ne_nil b c
    rw [dropCR, dropCR, List.getLast?_append_of_ne_nil _ hne, List.dropLast_append_of_ne_nil hne]
    split <;> rfl

namespace Line

/-- The line without a carriage return at the end of its comment. -/
def dropCR (l : Line) : Line where
  words := l.words
  trail := l.trail
  comment := l.comment.map Hanko.dropCR
  spaced := l.spaced
  trail_blanks := l.trail_blanks
  comment_line := by
    intro c hc
    obtain ⟨c', hc', rfl⟩ := Option.map_eq_some_iff.mp hc
    have hline := l.comment_line c' hc'
    rw [Hanko.dropCR]
    split
    · exact fun h => hline (List.mem_of_mem_dropLast h)
    · exact hline
  comment_begins := by
    rw [Option.isSome_map]
    exact l.comment_begins

/-- No other white space is in front of a comment. -/
theorem notMem_words (l : Line) {c : Char} (hc : c ∈ spaces) {b : UInt8} (hb : utf8 [c] = [b])
    (hblank : b ≠ 32 ∧ b ≠ 9) :
    b ∉ l.words.text ++ l.trail := by
  intro h
  rcases List.mem_append.mp h with h | htrail
  · obtain ⟨w, hw, hmem⟩ := List.mem_flatMap.mp h
    rcases List.mem_append.mp hmem with hgap | htoken
    · exact not_or.mpr hblank (l.spaced.blanks w hw b hgap)
    · exact (l.spaced.token w hw).notMem hc hb htoken
  · exact not_or.mpr hblank (l.trail_blanks b htrail)

theorem text_dropCR (l : Line) : Hanko.dropCR l.text = l.dropCR.text := by
  rw [text, text, ending, ending]
  cases hc : l.comment with
  | none =>
    have hcr : 13 ∉ l.words.text ++ l.trail := l.notMem_words (c := '\r') (by decide) rfl (by decide)
    rw [Hanko.dropCR, if_neg fun h => hcr (List.mem_of_getLast? h)]
    simp [dropCR, hc]
  | some c =>
    have hslash : (l.words.text ++ (l.trail ++ [47, 47])).getLast? ≠ some 13 := by simp
    have h := dropCR_append hslash c
    simpa [dropCR, hc] using h

/-- What a line does when the parser reads it. -/
def effect (l : Line) (inBlock : Bool) : Bool × Option Dep := GoMod.effect inBlock (trimSpace (Hanko.dropCR l.text))

/-- The line, trimmed, as the parser reads it. -/
theorem exists_effect (l : Line) :
    ∃ s, Ending l.words.strip s ∧ (s = [] ↔ l.comment = none) ∧
      ∀ inBlock, l.effect inBlock = GoMod.effect inBlock (l.words.strip.text ++ s) := by
  obtain ⟨s, htrim, hs, hnil⟩ := l.dropCR.trimSpace_text
  refine ⟨s, hs, hnil.trans Option.map_eq_none_iff, fun inBlock => ?_⟩
  rw [effect, text_dropCR, htrim]
  rfl

/-- A line without tokens does nothing. -/
theorem effect_empty {l : Line} (h : l.tokens = []) (inBlock : Bool) : l.effect inBlock = (inBlock, none) := by
  have hwords : l.words = [] := List.map_eq_nil_iff.mp h
  obtain ⟨s, hs, -, heffect⟩ := l.exists_effect
  have hspaced := l.spaced
  rw [hwords] at hs hspaced
  have hdep : parseDep s = none := parseDep_words hspaced hs
  -- a blank or a slash is first, if anything is
  have hkey (key : Bytes) (b : UInt8) (hhead : key.head? = some b) (hb : ¬ IsMark b) : ¬ key <+: s := by
    rintro ⟨r, rfl⟩
    exact hb (hs.follows b (by rw [List.head?_append, hhead]; rfl))
  have hmodule : ¬ lit "module " <+: s := hkey _ 109 rfl (by unfold IsMark; decide)
  have hrequire : ¬ lit "require " <+: s := hkey _ 114 rfl (by unfold IsMark; decide)
  have hopens : s ≠ lit "require (" := by
    rintro rfl
    exact hkey (lit "require (") 114 rfl (by unfold IsMark; decide) List.prefix_rfl
  have hcloses : s ≠ lit ")" := by
    rintro rfl
    exact hkey (lit ")") 41 rfl (by unfold IsMark; decide) List.prefix_rfl
  rw [heffect, hwords, show Words.text (Words.strip []) ++ s = s from rfl, GoMod.effect,
    if_neg (mt List.isPrefixOf_iff_prefix.mp hmodule), if_neg hopens, if_neg fun h => hcloses h.2,
    if_neg (mt List.isPrefixOf_iff_prefix.mp hrequire), hdep, ite_self]

/-- Whether what follows the first token of a line is that of `require (`. -/
theorem opens_iff {l : Line} {b t g u s : Bytes} {ws : Words} (hwords : l.words = (b, t) :: (g, u) :: ws)
    (hs : s = [] ↔ l.comment = none) :
    Words.text ((g, u) :: ws) ++ s = [32, 40] ↔ u = lit "(" ∧ ws = [] ∧ l.Plain := by
  have hspaced := hwords ▸ l.spaced
  have hu : IsToken u := hspaced.token (g, u) (by simp)
  have hblanks : Blanks g := hspaced.blanks (g, u) (by simp)
  have hplain : l.Plain ↔ g = [32] ∧ s = [] := by simp [Plain, hwords, hs]
  rw [hplain, Words.text_cons, List.append_assoc, List.append_assoc]
  constructor
  · intro h
    obtain ⟨x, g, rfl⟩ := List.exists_cons_of_ne_nil (hspaced.gap (g, u) List.mem_cons_self)
    obtain ⟨y, u, rfl⟩ := List.exists_cons_of_ne_nil hu.ne_nil
    rw [List.cons_append, List.cons.injEq] at h
    obtain ⟨rfl, h⟩ := h
    cases g with
    | nil =>
      rw [List.nil_append, List.cons_append, List.cons.injEq] at h
      obtain ⟨rfl, h⟩ := h
      obtain ⟨rfl, hrest⟩ := List.append_eq_nil_iff.mp h
      obtain ⟨htext, rfl⟩ := List.append_eq_nil_iff.mp hrest
      exact ⟨by decide, Words.Spaced.eq_nil hspaced.tail.tail htext, rfl, rfl⟩
    | cons z g =>
      rw [List.cons_append, List.cons.injEq] at h
      rcases hblanks z (by simp) with hz | hz <;> exact absurd (hz.symm.trans h.1) (by decide)
  · rintro ⟨rfl, rfl, rfl, rfl⟩
    decide

/-- What a line of at least two tokens does. -/
theorem effect_pair {l : Line} {t u : Bytes} {ts : List Bytes} (h : l.tokens = t :: u :: ts) (inBlock : Bool) :
    l.effect inBlock =
      if t = lit "module" ∧ l.SpaceFirst then (inBlock, none)
      else if t = lit "require" ∧ u = lit "(" ∧ ts = [] ∧ l.Plain then (true, none)
      else if t = lit "require" ∧ l.SpaceFirst then (inBlock, depOf (u :: ts))
      else if inBlock then (inBlock, some ⟨t, u⟩)
      else (inBlock, none) := by
  obtain ⟨⟨b, t⟩, ws, hwords, rfl, htokens⟩ := List.map_eq_cons_iff.mp h
  obtain ⟨⟨g, u⟩, ws, rfl, rfl, rfl⟩ := List.map_eq_cons_iff.mp htokens
  obtain ⟨s, hs, hnil, heffect⟩ := l.exists_effect
  have hspaced := l.spaced.strip
  rw [hwords] at hs hspaced
  have hhead : (Words.text ((g, u) :: ws) ++ s).head? = some 32 ↔ l.SpaceFirst := by
    obtain ⟨x, g, rfl⟩ := List.exists_cons_of_ne_nil (hspaced.gap (g, u) List.mem_cons_self)
    simp [SpaceFirst, hwords, Words.text]
  have hopen : Words.text ((g, u) :: ws) ++ s = [32, 40] ↔ u = lit "(" ∧ Words.tokens ws = [] ∧ l.Plain := by
    rw [opens_iff hwords hnil, Words.tokens, List.map_eq_nil_iff]
  have hclose : ¬ Words.text ((g, u) :: ws) ++ s = [] := by
    have hu : IsToken u := hspaced.token (g, u) (List.mem_cons_of_mem _ List.mem_cons_self)
    rw [Words.text_cons]
    simp [hu.ne_nil]
  rw [heffect, hwords]
  refine (effect_words hspaced hs inBlock).trans ?_
  simp only [hhead, hopen, hclose, and_false, if_false]
  rfl

/-- What a line of one token does. -/
theorem effect_single {l : Line} {t : Bytes} (h : l.tokens = [t]) (hmodule : t ≠ lit "module")
    (hrequire : t ≠ lit "require") (inBlock : Bool) :
    l.effect inBlock = if t = lit ")" ∧ l.comment = none then (false, none) else (inBlock, none) := by
  obtain ⟨⟨b, t⟩, ws, hwords, rfl, htokens⟩ := List.map_eq_cons_iff.mp h
  obtain rfl : ws = [] := List.map_eq_nil_iff.mp htokens
  obtain ⟨s, hs, hnil, heffect⟩ := l.exists_effect
  have hspaced := l.spaced.strip
  rw [hwords] at hs hspaced
  rw [heffect, hwords]
  refine (effect_words hspaced hs inBlock).trans ?_
  rw [if_neg fun h => hmodule h.1, if_neg fun h => hrequire h.1, if_neg (c := _ ∧ _ = some 32) fun h => hrequire h.1]
  cases inBlock <;> simp [Words.text, Words.tokens, depOf, hnil]

end Line

/-! ## Lines one after the other -/

/-- What lines do: whether a block is open behind them, and the dependencies
that are found. -/
def run (inBlock : Bool) : List Line → Bool × List Dep
  | [] => (inBlock, [])
  | l :: ls =>
    let rest := run (l.effect inBlock).1 ls
    (rest.1, (l.effect inBlock).2.toList ++ rest.2)

theorem run_cons {l : Line} {inBlock inBlock' : Bool} {dep : Option Dep} (h : l.effect inBlock = (inBlock', dep))
    (ls : List Line) : run inBlock (l :: ls) = ((run inBlock' ls).1, dep.toList ++ (run inBlock' ls).2) := by
  rw [run, h]

theorem run_single {l : Line} {inBlock inBlock' : Bool} {dep : Option Dep} (h : l.effect inBlock = (inBlock', dep)) :
    run inBlock [l] = (inBlock', dep.toList) := by
  rw [run_cons h, run, List.append_nil]

theorem run_append (inBlock : Bool) (ls ms : List Line) :
    run inBlock (ls ++ ms) =
      ((run (run inBlock ls).1 ms).1, (run inBlock ls).2 ++ (run (run inBlock ls).1 ms).2) := by
  induction ls generalizing inBlock with
  | nil => rfl
  | cons l ls ih => rw [List.cons_append, run, run, ih, List.append_assoc]

/-- The loop of `ParseGoMod` does what the lines do. -/
theorem foldl_parseLine (ls : List Line) (s : ParseState) :
    ((ls.map Line.text).foldl (fun s line => parseLine s (dropCR line)) s).deps =
      s.deps ++ (run s.inRequireBlock ls).2 := by
  induction ls generalizing s with
  | nil => exact (List.append_nil _).symm
  | cons l ls ih =>
    obtain ⟨hdeps, hblock⟩ := parseLine_effect s (dropCR l.text)
    rw [List.map_cons, List.foldl_cons, ih, hdeps, hblock, List.append_assoc]
    rfl

/-! ## Items -/

theorem IsIdent.ne_module {t : Bytes} (ht : IsIdent t) : t ≠ lit "module" := by
  rintro rfl
  exact ht.keyword (by decide)

theorem IsIdent.ne_require {t : Bytes} (ht : IsIdent t) : t ≠ lit "require" := by
  rintro rfl
  exact ht.keyword (by decide)

theorem other_ne {keyword : Bytes} (h : keyword ∈ otherKeywords) : keyword ≠ lit "module" ∧ keyword ≠ lit "require" :=
  (by decide : ∀ k ∈ otherKeywords, k ≠ lit "module" ∧ k ≠ lit "require") keyword h

/-- A line that begins with another word is a dependency in a block. -/
theorem Line.effect_other {l : Line} {t u : Bytes} {ts : List Bytes} (h : l.tokens = t :: u :: ts)
    (ht : t ≠ lit "module" ∧ t ≠ lit "require") (inBlock : Bool) :
    l.effect inBlock = (inBlock, if inBlock then some ⟨t, u⟩ else none) := by
  rw [effect_pair h, if_neg fun h => ht.1 h.1, if_neg fun h => ht.2 h.1,
    if_neg (c := _ ∧ l.SpaceFirst) fun h => ht.2 h.1]
  split <;> rfl

theorem Entry.effect_line (e : Entry) (inBlock : Bool) :
    e.line.effect inBlock = (inBlock, if inBlock then e.requires.head? else none) := by
  cases e with
  | empty l h => rw [line, Line.effect_empty h]; exact congrArg _ (ite_self none).symm
  | require l dep h name version => exact Line.effect_other h ⟨name.ne_module, name.ne_require⟩ inBlock

/-- The entries of a block that is open are found. -/
theorem run_entries (inBlock : Bool) (entries : List Entry) :
    run inBlock (entries.map Entry.line) = (inBlock, if inBlock then entries.flatMap Entry.requires else []) := by
  induction entries with
  | nil => cases inBlock <;> rfl
  | cons e entries ih =>
    rw [List.map_cons, run_cons (e.effect_line inBlock), ih]
    cases inBlock with
    | false => rfl
    | true => cases e <;> rfl

theorem OtherLine.effect_line (o : OtherLine) : o.line.effect false = (false, none) := by
  cases htokens : o.line.tokens with
  | nil => exact Line.effect_empty htokens false
  | cons t ts =>
    have ht : IsIdent t := o.first t (by rw [htokens]; rfl)
    cases ts with
    | nil => rw [Line.effect_single htokens ht.ne_module ht.ne_require, ite_self]
    | cons u ts => exact Line.effect_other htokens ⟨ht.ne_module, ht.ne_require⟩ false

/-- The lines of another block are passed over. -/
theorem run_others (ls : List OtherLine) : run false (ls.map OtherLine.line) = (false, []) := by
  induction ls with
  | nil => rfl
  | cons o ls ih => rw [List.map_cons, run_cons o.effect_line, ih]; rfl

theorem Line.effect_module {l : Line} {path : Bytes} (h : l.tokens = [lit "module", path]) (inBlock : Bool) :
    l.effect inBlock = (inBlock, if inBlock ∧ ¬ l.SpaceFirst then some ⟨lit "module", path⟩ else none) := by
  have hrequire : lit "module" ≠ lit "require" := by decide
  rw [effect_pair h, if_neg (c := _ ∧ _ = lit "(" ∧ _) fun h => hrequire h.1,
    if_neg (c := lit "module" = lit "require" ∧ _) fun h => hrequire h.1]
  cases inBlock <;> by_cases hspace : l.SpaceFirst <;> simp [hspace]

/-- A directive with a tab behind its keyword is lost; while a block is open,
the keyword is taken for a path. -/
theorem Line.effect_require {l : Line} {name version : Bytes} (h : l.tokens = [lit "require", name, version])
    (inBlock : Bool) :
    l.effect inBlock =
      (inBlock, if l.SpaceFirst then some ⟨name, version⟩
        else if inBlock then some ⟨lit "require", name⟩ else none) := by
  have hmodule : lit "require" ≠ lit "module" := by decide
  rw [effect_pair h, if_neg fun h => hmodule h.1, if_neg (c := _ ∧ name = lit "(" ∧ _) fun h => nomatch h.2.2.1]
  cases inBlock <;> by_cases hspace : l.SpaceFirst <;> simp [hspace, depOf]

theorem Line.effect_closing {l : Line} (h : l.tokens = [lit ")"]) (inBlock : Bool) :
    l.effect inBlock = (inBlock && l.comment.isSome, none) := by
  rw [effect_single h (by decide) (by decide)]
  cases l.comment <;> simp

/-- The line that opens a block is recognised if it is the one that the parser
compares with. -/
theorem Line.effect_opening {l : Line} (h : l.tokens = [lit "require", lit "("]) (inBlock : Bool) :
    l.effect inBlock =
      (inBlock || decide l.Plain, if inBlock ∧ ¬ l.SpaceFirst then some ⟨lit "require", lit "("⟩ else none) := by
  have hmodule : lit "require" ≠ lit "module" := by decide
  rw [effect_pair h, if_neg fun h => hmodule h.1]
  by_cases hplain : l.Plain
  · simp [hplain, hplain.spaceFirst]
  · by_cases hspace : l.SpaceFirst
    · simp [hplain, hspace, depOf]
    · cases inBlock <;> simp [hplain, hspace]

namespace Item

/-- Whether a block is open for the parser behind an item, if it was before:
only a `)` without comment closes it. -/
def blockAfter (inBlock : Bool) : Item → Bool
  | .requireBlock opening _ closing _ _ => (inBlock || decide opening.Plain) && closing.comment.isSome
  | _ => inBlock

/-- What the parser understands of an item. While a block is open, other
directives are taken for dependencies. -/
def Recognized (inBlock : Bool) : Item → Prop
  | .empty _ _ => True
  | .module l _ _ _ => inBlock = true → l.SpaceFirst
  | .require l _ _ _ _ => l.SpaceFirst
  | .requireBlock opening entries _ _ _ =>
    (inBlock = true → opening.SpaceFirst) ∧ (entries.flatMap Entry.requires ≠ [] → inBlock = true ∨ opening.Plain)
  | .directive _ _ _ _ _ _ => inBlock = false
  | .block _ _ _ _ _ _ _ => inBlock = false

theorem run_requireBlock {opening closing : Line} (entries : List Entry)
    (hopening : opening.tokens = [lit "require", lit "("]) (hclosing : closing.tokens = [lit ")"]) (inBlock : Bool) :
    run inBlock (requireBlock opening entries closing hopening hclosing).lines =
      (blockAfter inBlock (requireBlock opening entries closing hopening hclosing),
        (if inBlock ∧ ¬ opening.SpaceFirst then [⟨lit "require", lit "("⟩] else []) ++
          if inBlock ∨ opening.Plain then entries.flatMap Entry.requires else []) := by
  rw [lines, run_cons (Line.effect_opening hopening inBlock), run_append, run_entries,
    run_single (Line.effect_closing hclosing _), Option.toList_none, List.append_nil, blockAfter]
  simp only [Bool.or_eq_true, decide_eq_true_eq]
  split <;> rfl

/-- An item that the parser understands does what it should. -/
theorem run_recognized {i : Item} {inBlock : Bool} (h : i.Recognized inBlock) :
    run inBlock i.lines = (i.blockAfter inBlock, i.requires) := by
  cases i with
  | empty l htokens => exact run_single (Line.effect_empty htokens inBlock)
  | module l path htokens ident =>
    rw [lines, run_single (Line.effect_module htokens inBlock), if_neg fun hlost => hlost.2 (h hlost.1)]
    rfl
  | require l dep htokens name version =>
    rw [Recognized] at h
    rw [lines, run_single (Line.effect_require htokens inBlock), if_pos h]
    rfl
  | requireBlock opening entries closing hopening hclosing =>
    rw [run_requireBlock, if_neg fun hlost => hlost.2 (h.1 hlost.1), List.nil_append, requires]
    split
    · rfl
    next hclosed => rw [Classical.not_not.mp fun hne => hclosed (h.2 hne)]
  | directive l keyword arg args htokens other =>
    obtain rfl : inBlock = false := h
    exact run_single (Line.effect_other htokens (other_ne other) false)
  | block opening ls closing keyword hopening other hclosing =>
    obtain rfl : inBlock = false := h
    rw [lines, run_cons (Line.effect_other hopening (other_ne other) false), run_append, run_others,
      run_single (Line.effect_closing hclosing _)]
    rfl

/-- Otherwise a keyword is taken for a path, or requirements are lost. -/
theorem run_of_not_recognized {i : Item} {inBlock : Bool} (h : ¬ i.Recognized inBlock) :
    (∃ d ∈ (run inBlock i.lines).2, d.name ∈ keywords) ∨ (run inBlock i.lines).2.length < i.requires.length := by
  cases i with
  | empty l htokens => exact absurd trivial h
  | module l path htokens ident =>
    rw [Recognized, Classical.not_imp] at h
    rw [lines, run_single (Line.effect_module htokens inBlock), if_pos h]
    exact .inl ⟨_, List.mem_singleton_self _, List.mem_cons_self⟩
  | require l dep htokens name version =>
    rw [Recognized] at h
    rw [lines, run_single (Line.effect_require htokens inBlock), if_neg h]
    cases inBlock with
    | true => exact .inl ⟨_, List.mem_singleton_self _, List.mem_cons_of_mem _ List.mem_cons_self⟩
    | false => exact .inr Nat.one_pos
  | requireBlock opening entries closing hopening hclosing =>
    rw [run_requireBlock]
    by_cases hlost : inBlock = true ∧ ¬ opening.SpaceFirst
    · rw [if_pos hlost]
      exact .inl ⟨_, List.mem_cons_self, by decide⟩
    · have hrest : entries.flatMap Entry.requires ≠ [] ∧ ¬ (inBlock = true ∨ opening.Plain) := by
        rw [← Classical.not_imp]
        exact fun hopen => h ⟨fun hblock => Classical.not_not.mp fun hspace => hlost ⟨hblock, hspace⟩, hopen⟩
      rw [if_neg hlost, if_neg hrest.2]
      exact .inr (List.length_pos_iff.mpr hrest.1)
  | directive l keyword arg args htokens other =>
    obtain rfl : inBlock = true := Bool.not_eq_false _ ▸ h
    rw [lines, run_single (Line.effect_other htokens (other_ne other) true)]
    exact .inl ⟨_, List.mem_singleton_self _, List.mem_cons_of_mem _ (List.mem_cons_of_mem _ other)⟩
  | block opening ls closing keyword hopening other hclosing =>
    obtain rfl : inBlock = true := Bool.not_eq_false _ ▸ h
    rw [lines, run_cons (Line.effect_other hopening (other_ne other) true)]
    exact .inl ⟨_, List.mem_cons_self, List.mem_cons_of_mem _ (List.mem_cons_of_mem _ other)⟩

end Item

/-! ## Files -/

/-- What the parser understands of a file. -/
def Recognized : Bool → List Item → Prop
  | _, [] => True
  | inBlock, i :: items => i.Recognized inBlock ∧ Recognized (i.blockAfter inBlock) items

theorem Item.requires_ident {i : Item} {d : Dep} (h : d ∈ i.requires) : d.name ∉ keywords := by
  cases i with
  | require l dep htokens name version =>
    obtain rfl := List.mem_singleton.mp h
    exact name.keyword
  | requireBlock opening entries closing hopening hclosing =>
    obtain ⟨e, -, he⟩ := List.mem_flatMap.mp h
    cases e with
    | empty l hl => cases he
    | require l dep htokens name version =>
      obtain rfl := List.mem_singleton.mp he
      exact name.keyword
  | _ => cases h

/-- There are not more dependencies than requirements, unless a keyword is
taken for a path. -/
theorem run_length (items : List Item) (inBlock : Bool) :
    (∃ d ∈ (run inBlock (lines items)).2, d.name ∈ keywords) ∨
      (run inBlock (lines items)).2.length ≤ (requires items).length := by
  induction items generalizing inBlock with
  | nil => exact .inr Nat.le.refl
  | cons i items ih =>
    rw [lines, List.flatMap_cons, run_append, requires, List.flatMap_cons, List.length_append, List.length_append]
    have hitem : (∃ d ∈ (run inBlock i.lines).2, d.name ∈ keywords) ∨
        (run inBlock i.lines).2.length ≤ i.requires.length := by
      by_cases h : i.Recognized inBlock
      · exact .inr (by rw [Item.run_recognized h])
      · exact (Item.run_of_not_recognized h).imp_right Nat.le_of_lt
    rcases hitem with ⟨d, hd, hkey⟩ | hle
    · exact .inl ⟨d, List.mem_append_left _ hd, hkey⟩
    · rcases ih (run inBlock i.lines).1 with ⟨d, hd, hkey⟩ | hrest
      · exact .inl ⟨d, List.mem_append_right _ hd, hkey⟩
      · exact .inr (Nat.add_le_add hle hrest)

theorem run_iff (items : List Item) (inBlock : Bool) :
    (run inBlock (lines items)).2 = requires items ↔ Recognized inBlock items := by
  induction items generalizing inBlock with
  | nil => exact iff_of_true rfl trivial
  | cons i items ih =>
    have hident (d : Dep) (hd : d ∈ i.requires ++ requires items) : d.name ∉ keywords := by
      obtain ⟨j, -, hj⟩ := List.mem_flatMap.mp (show d ∈ (i :: items).flatMap Item.requires from hd)
      exact Item.requires_ident hj
    rw [lines, List.flatMap_cons, run_append, requires, List.flatMap_cons, Recognized]
    by_cases h : i.Recognized inBlock
    · rw [Item.run_recognized h, and_iff_right h, ← ih, List.append_cancel_left_eq]
      rfl
    · refine iff_of_false (fun heq => ?_) fun hrec => h hrec.1
      rcases Item.run_of_not_recognized h with ⟨d, hd, hkey⟩ | hlt
      · exact hident d (heq ▸ List.mem_append_left _ hd) hkey
      -- later items do not make up for what was lost
      · rcases run_length items (run inBlock i.lines).1 with ⟨d, hd, hkey⟩ | hle
        · exact hident d (heq ▸ List.mem_append_right _ hd) hkey
        · have hlength := congrArg List.length heq
          rw [List.length_append, List.length_append] at hlength
          exact absurd hlength (Nat.add_lt_add_of_lt_of_le hlt hle).ne

theorem Line.notMem_text (l : Line) : 10 ∉ l.text := by
  have hwords : 10 ∉ l.words.text ++ l.trail := l.notMem_words (c := '\n') (by decide) rfl (by decide)
  rw [text, ending]
  cases hc : l.comment with
  | none => exact hwords
  | some c =>
    rw [← List.append_assoc, List.mem_append, not_or]
    exact ⟨hwords, by simp [l.comment_line c hc]⟩

theorem parseLine_nil (s : ParseState) : parseLine s (dropCR []) = s := by
  obtain ⟨moduleName, deps, inRequireBlock⟩ := s
  cases inRequireBlock with
  | false => rfl
  | true => exact congrArg (ParseState.mk moduleName · true) (List.append_nil deps)

/-- The scanner delivers the lines, maybe without the last if that is empty. -/
theorem scanLines_text (items : List Item) :
    (lines items).map Line.text = scanLines (text items) ∨
      (lines items).map Line.text = scanLines (text items) ++ [[]] := by
  by_cases hnil : lines items = []
  · rw [text, hnil]
    exact .inl rfl
  · have hbreak : ∀ line ∈ (lines items).map Line.text, 10 ∉ line := by
      rintro _ hmem
      obtain ⟨l, -, rfl⟩ := List.mem_map.mp hmem
      exact l.notMem_text
    have hsplit : (text items).splitOn 10 = (lines items).map Line.text :=
      List.splitOn_intercalate 10 hbreak (mt List.map_eq_nil_iff.mp hnil)
    rw [scanLines, hsplit]
    split
    next hlast => exact .inr (List.dropLast_append_getLast? _ hlast).symm
    next => exact .inl rfl

theorem parseGoMod_text (items : List Item) :
    ∃ m, parseGoMod (.ok ⟨text items, none⟩) =
      if ∃ l ∈ lines items, maxScanTokenSize ≤ l.text.length then .error (errTooLong.wrap "scan go.mod")
      else .ok (m, (run false (lines items)).2) := by
  have hfold (s : ParseState) : (scanLines (text items)).foldl (fun s line => parseLine s (dropCR line)) s =
      ((lines items).map Line.text).foldl (fun s line => parseLine s (dropCR line)) s := by
    rcases scanLines_text items with h | h
    · rw [h]
    · rw [h, List.foldl_append]
      exact (parseLine_nil _).symm
  have hany : ((scanLines (text items)).any fun line => maxScanTokenSize ≤ line.length) = true ↔
      ∃ l ∈ lines items, maxScanTokenSize ≤ l.text.length := by
    have hmap : ((lines items).map Line.text).any (fun line => maxScanTokenSize ≤ line.length) =
        (scanLines (text items)).any fun line => maxScanTokenSize ≤ line.length := by
      rcases scanLines_text items with h | h
      · rw [h]
      · rw [h, List.any_append]
        exact Bool.or_false _
    rw [← hmap, List.any_map, List.any_eq_true]
    simp
  refine ⟨(((lines items).map Line.text).foldl (fun s line => parseLine s (dropCR line))
    ⟨[], [], false⟩).moduleName, ?_⟩
  rw [parseGoMod]
  simp only [hany, hfold, foldl_parseLine]
  rfl

/-- The dependencies are the requirements of the file exactly if its lines fit
and the parser understands each of its items. -/
theorem go_mod_requires_iff (items : List Item) :
    (∃ m, parseGoMod (.ok ⟨text items, none⟩) = .ok (m, requires items)) ↔
      (∀ l ∈ lines items, l.text.length < maxScanTokenSize) ∧ Recognized false items := by
  obtain ⟨m, hparse⟩ := parseGoMod_text items
  have hfit : (∀ l ∈ lines items, l.text.length < maxScanTokenSize) ↔
      ¬ ∃ l ∈ lines items, maxScanTokenSize ≤ l.text.length := by
    simp
  rw [hparse, hfit, ← run_iff]
  by_cases hlong : ∃ l ∈ lines items, maxScanTokenSize ≤ l.text.length
  · rw [if_pos hlong]
    exact iff_of_false (fun h => nomatch h.choose_spec) fun h => h.1 hlong
  · rw [if_neg hlong, and_iff_right hlong]
    constructor
    · rintro ⟨m', h⟩
      exact congrArg Prod.snd (Except.ok.inj h)
    · intro h
      exact ⟨m, by rw [h]⟩

namespace Sample

def opening : Line where
  words := [([], lit "require"), ([32], lit "(")]
  trail := [32]
  comment := some (lit " direct")
  spaced := by decide +kernel
  trail_blanks := by decide
  comment_line := by decide
  comment_begins := by decide

def entry : Line where
  words := [([9], lit "golang.org/x/crypto"), ([32], lit "v0.31.0")]
  trail := []
  comment := none
  spaced := by decide +kernel
  trail_blanks := by decide
  comment_line := by decide
  comment_begins := by decide

def closing : Line where
  words := [([], lit ")")]
  trail := []
  comment := none
  spaced := by decide +kernel
  trail_blanks := by decide
  comment_line := by decide
  comment_begins := by decide

def crypto : Dep := ⟨lit "golang.org/x/crypto", lit "v0.31.0"⟩

/-- A block with a comment behind its opening parenthesis. -/
def file : List Item :=
  [.requireBlock opening [.require entry crypto rfl ⟨by decide, by decide, by decide⟩
    ⟨by decide, by decide, by decide⟩] closing rfl rfl]

end Sample

/-- A comment behind the parenthesis hides the block. -/
theorem go_mod_block_lost :
    text Sample.file = lit "require ( // direct\n\tgolang.org/x/crypto v0.31.0\n)" ∧
      requires Sample.file = [Sample.crypto] ∧ parseGoMod (.ok ⟨text Sample.file, none⟩) = .ok ([], []) :=
  ⟨by decide, rfl, rfl⟩

end Hanko.GoMod
