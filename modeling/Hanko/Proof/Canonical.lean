import Hanko.Framework.Json.Jcs
import Hanko.Framework.Json.KeyOrder
import Hanko.Proof.Envelope

/-!
# Canonical JSON as a normal form

`CanonicalJSON` gives one text to each JSON value, whatever the order of its
keys, and different texts to different values, as far as `encoding/json`
reads back what it wrote: nested to a depth of `maxNestingDepth`
(`canonical_normal_form`). Its keys ascend by their code points and it has no
white space (`canonical_key_order`). The text of an envelope's body is the one of RFC
8785 exactly if its strings have none of the characters that `encoding/json`
escapes for the sake of HTML (`canonical_is_jcs_iff`).
-/

namespace Hanko

open Bytes Json

/-! ## A normal form -/

theorem canonicalJSON_of_deep {v : Json} (h : Proper v) (hd : maxNestingDepth < depth v) :
    canonicalJSON v = .error unmarshalError := by
  rw [canonicalJSON, unmarshal, unmarshalAny_marshal_of_deep h hd]
  rfl

theorem unmarshal_marshalCanonical {v : Json} (h : Proper v) (hd : depth v ≤ maxNestingDepth) :
    unmarshal (marshalCanonical v) = .ok (sortKeys v) := by
  rw [marshalCanonical_eq, unmarshal, unmarshalAny_marshal h hd]

/-- Within the depth that `encoding/json` reads, parsing gives a value back,
two values have the same canonical JSON if they are equal, and canonical JSON
is its own. Beyond it there is none. At any depth the text determines the
value, and a parser that reads deep enough gives it back. -/
theorem canonical_normal_form :
    (∀ v, Proper v → depth v ≤ maxNestingDepth →
      (∃ u, unmarshal (marshalCanonical v) = .ok u ∧ Same u v) ∧
      (∀ w, Proper w → (canonicalJSON v = canonicalJSON w ↔ Same v w)) ∧
      ∃ out u, canonicalJSON v = .ok out ∧ unmarshal out = .ok u ∧ canonicalJSON u = .ok out) ∧
    (∀ v, Proper v → maxNestingDepth < depth v →
      unmarshal (marshalCanonical v) = .error unmarshalError ∧ canonicalJSON v = .error unmarshalError) ∧
    (∀ v w, Proper v → Proper w → (marshalCanonical v = marshalCanonical w ↔ Same v w)) ∧
    ∀ v D, Proper v → depth v ≤ D → ∃ u, (parseTo D (marshalCanonical v)).map toAny = some u ∧ Same u v := by
  refine ⟨fun v hv hd => ⟨⟨_, unmarshal_marshalCanonical hv hd, same_sortKeys hv⟩, fun w hw => ?_, ?_⟩,
    fun v hv hd => ⟨?_, canonicalJSON_of_deep hv hd⟩, fun v w hv hw => ?_, fun v D hv hd => ?_⟩
  · rw [canonicalJSON_eq hv hd]
    by_cases hdw : depth w ≤ maxNestingDepth
    · rw [canonicalJSON_eq hw hdw, Except.ok.injEq, marshal_eq_iff hv hw]
    · rw [canonicalJSON_of_deep hw (not_le.mp hdw)]
      exact iff_of_false nofun fun h => hdw (Same.depth_eq hv hw h ▸ hd)
  · refine ⟨_, sortKeys v, canonicalJSON_eq hv hd, ?_, ?_⟩
    · rw [unmarshal, unmarshalAny_marshal hv hd]
    · rw [canonicalJSON_eq (proper_sortKeys v hv) ((depth_sortKeys v).trans_le hd), marshal_sortKeys]
  · rw [marshalCanonical_eq, unmarshal, unmarshalAny_marshal_of_deep hv hd]
  · rw [marshalCanonical_eq, marshalCanonical_eq, marshal_eq_iff hv hw]
  · rw [marshalCanonical_eq, map_toAny_marshal hv hd]
    exact ⟨_, rfl, same_sortKeys hv⟩

namespace Sample

/-- An object with a string and an array, its keys out of order. -/
def doc : Json := .obj [(lit "b", .arr [.null, .str (lit "x")]), (lit "a", .bool true)]

def docSorted : Json := .obj [(lit "a", .bool true), (lit "b", .arr [.null, .str (lit "x")])]

theorem proper_doc : Proper doc :=
  ⟨by decide, valid_lit _, ⟨trivial, valid_lit _, trivial⟩, valid_lit _, trivial, trivial⟩

theorem proper_docSorted : Proper docSorted :=
  ⟨by decide, valid_lit _, trivial, valid_lit _, ⟨trivial, valid_lit _, trivial⟩, trivial⟩

/-- An array in an array, `n` of them. -/
def nest : Nat → Json
  | 0 => .null
  | n + 1 => .arr [nest n]

theorem proper_nest (n : Nat) : Proper (nest n) := by
  induction n with
  | zero => trivial
  | succ n ih => exact ⟨ih, trivial⟩

theorem depth_nest (n : Nat) : depth (nest n) = n := by
  induction n with
  | zero => rfl
  | succ n ih => simp only [nest, depth, depthItems, ih]; omega

end Sample

/-- The order in which the keys of an object stand does not matter. -/
theorem canonical_normal_form_sample : canonicalJSON Sample.doc = canonicalJSON Sample.docSorted :=
  ((canonical_normal_form.1 Sample.doc Sample.proper_doc (by decide)).2.1 _ Sample.proper_docSorted).mpr
    ⟨.swap _ _ _, ⟨_, .tail _ (.head _), ⟨trivial, rfl, trivial⟩⟩, ⟨_, .head _, rfl⟩, trivial⟩

/-- What is written of values nested 10001 and 10002 deep is not read back, and
they have the same canonical JSON: none. -/
theorem deep_values_fail :
    let v := Sample.nest 10001
    let w := Sample.nest 10002
    Proper v ∧ Proper w ∧ unmarshal (marshalCanonical v) = .error unmarshalError ∧
      canonicalJSON v = canonicalJSON w ∧ ¬ Same v w := by
  intro v w
  have hv : Proper v := Sample.proper_nest _
  have hw : Proper w := Sample.proper_nest _
  have hdv : depth v = 10001 := Sample.depth_nest _
  have hdw : depth w = 10002 := Sample.depth_nest _
  have hv' : maxNestingDepth < depth v := by rw [hdv]; decide
  have hw' : maxNestingDepth < depth w := by rw [hdw]; decide
  refine ⟨hv, hw, ?_, ?_, fun h => ?_⟩
  · rw [marshalCanonical_eq, unmarshal, unmarshalAny_marshal_of_deep hv hv']
  · rw [canonicalJSON_of_deep hv hv', canonicalJSON_of_deep hw hw']
  · have := Same.depth_eq hv hw h
    omega

/-! ## The order of keys -/

/-- The text of a value whose keys are valid UTF-8, whatever its strings are.
Read back, it has every key of every object once, in strictly ascending order
of code points; and what stands outside its string literals is printable. -/
theorem canonical_key_order {v : Json} (h : Proper (mapStr toValid v)) (hk : Every ValidUtf8 (fun _ => True) v) :
    ∃ tree, (∀ D, depth v ≤ D → parseTo D (marshalCanonical v) = some tree) ∧
      Same (mapStr unquote tree) (mapStr toValid v) ∧ Ascending tree ∧
      ∀ b ∈ outsideLiterals .outside (marshalCanonical v), 32 < b ∧ b < 127 := by
  have hsort := mapStr_toValid_sortKeys v hk
  have hwf : WF (mapStr quote (sortKeys v)) := wf_quote _ (hsort ▸ proper_sortKeys _ h)
  refine ⟨mapStr quote (sortKeys v), fun D hD => ?_, ?_, ascending_quote v h hk, ?_⟩
  · rw [marshalCanonical_eq, marshal]
    exact parseTo_print compact_ok hwf (by rwa [depth_mapStr, depth_sortKeys])
  · rw [mapStr_unquote_quote, hsort]
    exact same_sortKeys h
  · rw [marshalCanonical_eq, marshal]
    intro b hb
    simpa [isInk] using ink_outsideLiterals (inked_print _ hwf) b hb

namespace Sample

/-- Keys of three and of four bytes, which UTF-16 would order the other way. -/
def wide : Json := .obj [(lit "😀", .arr [.obj [(lit "é", .null), (lit "z", .bool true)]]), (lit "｡", .str [0xff])]

end Sample

theorem canonical_key_order_wide : ∃ tree, parseTo 3 (marshalCanonical Sample.wide) = some tree ∧ Ascending tree := by
  have hkeys : Every ValidUtf8 (fun _ => True) Sample.wide :=
    ⟨valid_lit _, ⟨⟨valid_lit _, trivial, valid_lit _, trivial, trivial⟩, trivial⟩, valid_lit _, trivial, trivial⟩
  have hproper : Proper (mapStr toValid Sample.wide) := by
    simp only [Sample.wide, mapStr, mapMembers, mapItems, toValid_lit, Proper, ProperMembers, ProperItems]
    exact ⟨by decide, valid_lit _, ⟨⟨by decide, valid_lit _, trivial, valid_lit _, trivial, trivial⟩, trivial⟩,
      valid_lit _, valid_toValid _, trivial⟩
  obtain ⟨tree, hparse, -, hasc, -⟩ := canonical_key_order hproper hkeys
  exact ⟨tree, hparse 3 (by decide), hasc⟩

/-! ## RFC 8785 -/

/-- The strings of a cap have none of the characters `<`, `>`, `&`, U+2028 and
U+2029. -/
structure CapabilityToken.HtmlSafe (c : CapabilityToken) : Prop where
  id : Json.HtmlSafe c.id
  sigilID : Json.HtmlSafe c.sigilID
  scope : Json.HtmlSafe c.scope

/-- Nor have those of an envelope and its caps. -/
structure AttestationEnvelope.HtmlSafe (e : AttestationEnvelope) : Prop where
  version : Json.HtmlSafe e.version
  sigilID : Json.HtmlSafe e.sigilID
  caps : ∀ c ∈ e.capList, c.HtmlSafe
  issuer : Json.HtmlSafe e.issuer

theorem plain_stdEncode (bs : Bytes) : Plain (stdEncode bs) := by
  intro c hc
  have h : ∀ n < 64, isPlain (std.digit n) = true := by decide
  rcases mem_encode64 hc with ⟨n, i, rfl⟩ | hc
  · exact h _ (Nat.mod_lt _ (by decide))
  · rw [List.mem_singleton.mp hc]; decide

theorem htmlSafe_format {t : Time} (h : t.Marshals) : Json.HtmlSafe t.format :=
  htmlSafe_of_plain (Time.isPlain_format h)

theorem every_bytesJson {K : Bytes → Prop} (x : Option Bytes) :
    Every K Json.HtmlSafe (mapStr toValid (bytesJson x)) := by
  cases x with
  | none => trivial
  | some b => exact (htmlSafe_toValid _).mpr (htmlSafe_of_plain (plain_stdEncode b))

theorem every_capsTree {K S : Bytes → Prop} (caps : Option (List CapabilityToken)) :
    Every K S (mapStr toValid (capsTree caps)) ↔ ∀ c ∈ caps.getD [], Every K S (mapStr toValid c.tree) := by
  cases caps with
  | none => simp [capsTree, mapStr, Every]
  | some cs =>
    simp only [capsTree, mapStr, mapItems_eq, Every, everyItem_iff, List.map_map, List.forall_mem_map]
    rfl

/-- The keys are words of letters and underscores. -/
theorem CapabilityToken.plain_tree (c : CapabilityToken) :
    Every Plain (fun _ => True) (mapStr toValid c.tree) := by
  have hn : Every Plain (fun _ => True) (mapStr toValid (bytesJson c.nonce)) := by
    cases c.nonce <;> trivial
  simp only [tree, mapStr, mapMembers, toValid_lit, Every, EveryMember, hn, and_true, true_and]
  exact ⟨plain_of_all rfl, plain_of_all rfl, plain_of_all rfl, plain_of_all rfl, plain_of_all rfl, plain_of_all rfl⟩

theorem AttestationEnvelope.plain_body (env : AttestationEnvelope) :
    Every Plain (fun _ => True) env.body := by
  have hc := (every_capsTree env.caps).mpr fun c _ => c.plain_tree
  simp only [body, members, mapStr, mapMembers, toValid_lit, Every, EveryMember, hc, and_true, true_and]
  exact ⟨plain_of_all rfl, plain_of_all rfl, plain_of_all rfl, plain_of_all rfl, plain_of_all rfl, plain_of_all rfl⟩

/-- The strings other than times and base64. -/
theorem CapabilityToken.htmlSafe_tree {c : CapabilityToken} (h : c.Marshals) :
    Every (fun _ => True) Json.HtmlSafe (mapStr toValid c.tree) ↔ c.HtmlSafe := by
  simp only [tree, mapStr, mapMembers, Every, EveryMember, htmlSafe_toValid, every_bytesJson,
    htmlSafe_format h.1, htmlSafe_format h.2, true_and, and_true]
  constructor
  · rintro ⟨hid, hsigil, hscope⟩; exact ⟨hid, hsigil, hscope⟩
  · rintro ⟨hid, hsigil, hscope⟩; exact ⟨hid, hsigil, hscope⟩

theorem AttestationEnvelope.htmlSafe_body {env : AttestationEnvelope} (h : env.Marshals) :
    Every (fun _ => True) Json.HtmlSafe env.body ↔ env.HtmlSafe := by
  have hcaps : Every (fun _ => True) Json.HtmlSafe (mapStr toValid (capsTree env.caps)) ↔
      ∀ c ∈ env.capList, c.HtmlSafe := by
    rw [every_capsTree]
    exact forall₂_congr fun c hc => CapabilityToken.htmlSafe_tree (h.1 c hc)
  simp only [body, members, mapStr, mapMembers, Every, EveryMember, htmlSafe_toValid, hcaps,
    htmlSafe_format h.2.1, htmlSafe_format h.2.2, true_and, and_true]
  constructor
  · rintro ⟨hversion, hsigil, hcaps, hissuer⟩; exact ⟨hversion, hsigil, hcaps, hissuer⟩
  · rintro ⟨hversion, hsigil, hcaps, hissuer⟩; exact ⟨hversion, hsigil, hcaps, hissuer⟩

/-- The signed bytes of an envelope are those of RFC 8785 if its strings have
none of the characters that `encoding/json` escapes and RFC 8785 does not. -/
theorem canonical_is_jcs_iff {env : AttestationEnvelope} {body : Json} (h : envelopeBody env = .ok body) :
    canonicalJSON body = .ok (jcs body) ↔ env.HtmlSafe := by
  obtain ⟨hm, rfl⟩ := envelopeBody_eq_ok.mp h
  rw [canonicalJSON_body, Except.ok.injEq, ← AttestationEnvelope.htmlSafe_body hm,
    ← jcs_eq_marshal_iff env.proper_body env.plain_body]
  exact eq_comm

namespace Sample

/-- An envelope with one cap, of a given scope. -/
def withScope (scope : Bytes) : AttestationEnvelope :=
  ⟨lit "hanko/v0.1", lit "s", some [⟨lit "c", lit "s", scope, ⟨0, 0, 0⟩, ⟨3600, 0, 0⟩, some [7]⟩], lit "i",
    ⟨0, 0, 0⟩, ⟨3600, 0, 0⟩, none⟩

theorem withScope_marshals {scope : Bytes} : (withScope scope).Marshals :=
  have h₁ : Time.Marshals ⟨0, 0, 0⟩ := by decide
  have h₂ : Time.Marshals ⟨3600, 0, 0⟩ := by decide
  ⟨List.forall_mem_singleton.mpr ⟨h₁, h₂⟩, h₁, h₂⟩

theorem envelopeBody_withScope (scope : Bytes) : envelopeBody (withScope scope) = .ok (withScope scope).body :=
  envelopeBody_eq withScope_marshals

end Sample

theorem canonical_is_jcs_sample :
    canonicalJSON (Sample.withScope (lit "read:a")).body = .ok (jcs (Sample.withScope (lit "read:a")).body) := by
  have hsafe {s : Bytes} (h : s.all isPlain = true) : Json.HtmlSafe s := htmlSafe_of_plain (plain_of_all h)
  exact (canonical_is_jcs_iff (Sample.envelopeBody_withScope _)).mpr ⟨hsafe rfl, hsafe rfl,
    List.forall_mem_singleton.mpr ⟨hsafe rfl, hsafe rfl, hsafe rfl⟩, hsafe rfl⟩

/-- A cap whose scope is `a<b`: the signed bytes have `\u003c` for `<`. -/
theorem escaped_scope_differs : ValidUtf8 (lit "a<b") ∧ ∃ body,
    envelopeBody (Sample.withScope (lit "a<b")) = .ok body ∧ canonicalJSON body ≠ .ok (jcs body) := by
  refine ⟨valid_lit _, _, Sample.envelopeBody_withScope _, fun heq => ?_⟩
  rw [canonicalJSON_body, Except.ok.injEq] at heq
  have hall := (jcs_eq_marshal_iff (Sample.withScope (lit "a<b")).proper_body
    (Sample.withScope (lit "a<b")).plain_body).mp heq.symm
  have hsafe := ((AttestationEnvelope.htmlSafe_body Sample.withScope_marshals).mp hall).caps _ List.mem_cons_self
  exact absurd (hsafe.scope '<' (by decide)) (by decide)

end Hanko
