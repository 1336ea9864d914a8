import Hanko.Impl.Crypto
import Hanko.Proof.Time

/-!
# The signed bytes of an envelope

What is signed of an envelope, in closed form. An envelope has JSON when its
times do (`Marshals`), and then that of its tree (`tree`); the body that is
signed is the tree without the signature, its strings made valid UTF-8
(`envelopeBody_eq`), and its canonical JSON is `json.Marshal` of it
(`canonicalJSON_eq`).
-/

namespace Hanko

open Bytes Json

/-! ## Canonical JSON -/

theorem canonicalItems_eq (xs : List Json) : canonicalItems xs = xs.map marshalCanonical := by
  induction xs with
  | nil => rfl
  | cons x xs ih => rw [canonicalItems, ih, List.map_cons]

theorem canonicalMembers_eq (kvs : List (Bytes × Json)) :
    canonicalMembers kvs = kvs.map fun kv => (kv.1, marshalCanonical kv.2) := by
  induction kvs with
  | nil => rfl
  | cons kv kvs ih => rw [canonicalMembers, ih, List.map_cons]

/-- Encoding the values of sorted keys is sorting and encoding. -/
theorem marshalCanonical_eq (v : Json) : marshalCanonical v = marshal v := by
  induction v using ind with
  | null | bool | num | str => rfl
  | arr xs ih =>
    rw [marshalCanonical, canonicalItems_eq, List.map_congr_left ih, marshal]
    simp only [sortKeys, sortItems_eq, mapStr, mapItems_eq, print_compact_arr, List.map_map]
    refine congrArg (fun l => 91 :: ([44].intercalate l ++ [93])) (List.map_congr_left fun x _ => ?_)
    exact (print_compact_depth _ 1).symm
  | obj kvs ih =>
    have hm : canonicalMembers kvs =
        (sortMembers kvs).map fun kv => (kv.1, print compact 0 (mapStr quote kv.2)) := by
      rw [canonicalMembers_eq, sortMembers_eq, List.map_map]
      exact List.map_congr_left fun kv hkv => by rw [ih kv hkv]; rfl
    rw [marshalCanonical, hm, ← map_sort (fun v => print compact 0 (mapStr quote v)), marshal]
    simp only [sortKeys, mapStr, mapMembers_eq, print_compact_obj, List.map_map]
    refine congrArg (fun l => 123 :: ([44].intercalate l ++ [125])) (List.map_congr_left fun kv _ => ?_)
    simp [marshal, sortKeys, mapStr, print, print_compact_depth _ 1]

theorem canonicalJSON_eq {v : Json} (h : Proper v) (hd : depth v ≤ maxNestingDepth) :
    canonicalJSON v = .ok (marshal v) := by
  rw [canonicalJSON, unmarshal, unmarshalAny_marshal h hd]
  exact congrArg Except.ok ((marshalCanonical_eq _).trans (marshal_sortKeys v))

/-! ## The tree of an envelope -/

/-- A cap as a JSON tree. -/
def CapabilityToken.tree (c : CapabilityToken) : Json :=
  .obj [(lit "id", .str c.id), (lit "sigil_id", .str c.sigilID), (lit "scope", .str c.scope),
    (lit "issued_at", .str c.issuedAt.format), (lit "expires_at", .str c.expiresAt.format),
    (lit "nonce", bytesJson c.nonce)]

/-- The times of a cap have texts. -/
def CapabilityToken.Marshals (c : CapabilityToken) : Prop := c.issuedAt.Marshals ∧ c.expiresAt.Marshals

instance (c : CapabilityToken) : Decidable c.Marshals := inferInstanceAs (Decidable (_ ∧ _))

def capsTree : Option (List CapabilityToken) → Json
  | none => .null
  | some cs => .arr (cs.map CapabilityToken.tree)

/-- The members of an envelope but for its signature. -/
def AttestationEnvelope.members (env : AttestationEnvelope) : List (Bytes × Json) :=
  [(lit "version", .str env.version), (lit "sigil_id", .str env.sigilID), (lit "caps", capsTree env.caps),
    (lit "issuer", .str env.issuer), (lit "issued_at", .str env.issuedAt.format),
    (lit "expires_at", .str env.expiresAt.format)]

/-- An envelope as a JSON tree. -/
def AttestationEnvelope.tree (env : AttestationEnvelope) : Json :=
  .obj (env.members ++ [(lit "signature", bytesJson env.signature)])

/-- The times of an envelope and its caps have texts. -/
def AttestationEnvelope.Marshals (env : AttestationEnvelope) : Prop :=
  (∀ c ∈ env.capList, c.Marshals) ∧ env.issuedAt.Marshals ∧ env.expiresAt.Marshals

instance (env : AttestationEnvelope) : Decidable env.Marshals := inferInstanceAs (Decidable (_ ∧ _))

theorem except_bind_eq_ok {ε α β : Type} {x : Except ε α} {f : α → Except ε β} {b : β} :
    x >>= f = .ok b ↔ ∃ a, x = .ok a ∧ f a = .ok b := by
  cases x <;> simp [bind, Except.bind]

theorem CapabilityToken.toJson_eq_ok {c : CapabilityToken} {v : Json} :
    c.toJson = .ok v ↔ c.Marshals ∧ v = c.tree := by
  simp only [CapabilityToken.toJson, except_bind_eq_ok, Time.marshalJSON_eq_ok, CapabilityToken.Marshals,
    CapabilityToken.tree]
  constructor
  · rintro ⟨_, ⟨hi, rfl⟩, _, ⟨he, rfl⟩, h⟩
    exact ⟨⟨hi, he⟩, (Except.ok.inj h).symm⟩
  · rintro ⟨⟨hi, he⟩, rfl⟩
    exact ⟨_, ⟨hi, rfl⟩, _, ⟨he, rfl⟩, rfl⟩

theorem mapM_toJson_eq_ok {cs : List CapabilityToken} {vs : List Json} :
    cs.mapM CapabilityToken.toJson = .ok vs ↔
      (∀ c ∈ cs, c.Marshals) ∧ vs = cs.map CapabilityToken.tree := by
  induction cs generalizing vs with
  | nil => simp [pure, Except.pure, eq_comm]
  | cons c cs ih =>
    rw [List.mapM_cons]
    simp only [except_bind_eq_ok, CapabilityToken.toJson_eq_ok, ih]
    constructor
    · rintro ⟨_, ⟨hc, rfl⟩, _, ⟨hcs, rfl⟩, h⟩
      exact ⟨List.forall_mem_cons.mpr ⟨hc, hcs⟩, (Except.ok.inj h).symm⟩
    · rintro ⟨h, rfl⟩
      obtain ⟨hc, hcs⟩ := List.forall_mem_cons.mp h
      exact ⟨_, ⟨hc, rfl⟩, _, ⟨hcs, rfl⟩, rfl⟩

theorem capsJson_eq_ok {caps : Option (List CapabilityToken)} {v : Json} :
    capsJson caps = .ok v ↔ (∀ c ∈ caps.getD [], c.Marshals) ∧ v = capsTree caps := by
  cases caps with
  | none => simp [capsJson, capsTree, eq_comm]
  | some cs =>
    simp only [capsJson, map_eq_pure_bind, except_bind_eq_ok, mapM_toJson_eq_ok, capsTree, Option.getD_some]
    constructor
    · rintro ⟨_, ⟨h, rfl⟩, hv⟩; exact ⟨h, (Except.ok.inj hv).symm⟩
    · rintro ⟨h, rfl⟩; exact ⟨_, ⟨h, rfl⟩, rfl⟩

theorem AttestationEnvelope.toJson_eq_ok {env : AttestationEnvelope} {v : Json} :
    env.toJson = .ok v ↔ env.Marshals ∧ v = env.tree := by
  simp only [AttestationEnvelope.toJson, except_bind_eq_ok, capsJson_eq_ok, Time.marshalJSON_eq_ok,
    AttestationEnvelope.Marshals, AttestationEnvelope.tree, AttestationEnvelope.members,
    AttestationEnvelope.capList]
  constructor
  · rintro ⟨_, ⟨hc, rfl⟩, _, ⟨hi, rfl⟩, _, ⟨he, rfl⟩, h⟩
    exact ⟨⟨hc, hi, he⟩, (Except.ok.inj h).symm⟩
  · rintro ⟨⟨hc, hi, he⟩, rfl⟩
    exact ⟨_, ⟨hc, rfl⟩, _, ⟨hi, rfl⟩, _, ⟨he, rfl⟩, rfl⟩

/-! ## The body -/

@[simp] theorem toValid_lit (s : String) : toValid (lit s) = lit s := toValid_of_valid (valid_lit s)

theorem proper_bytesJson (x : Option Bytes) : Proper (mapStr toValid (bytesJson x)) := by
  cases x with
  | none => trivial
  | some b => exact valid_toValid _

theorem CapabilityToken.proper_tree (c : CapabilityToken) : Proper (mapStr toValid c.tree) := by
  have hn := proper_bytesJson c.nonce
  simp only [tree, mapStr, mapMembers, toValid_lit, Proper, ProperMembers, valid_lit, valid_toValid, hn,
    and_true, List.map_cons, List.map_nil]
  decide

theorem proper_capsTree (caps : Option (List CapabilityToken)) : Proper (mapStr toValid (capsTree caps)) := by
  cases caps with
  | none => trivial
  | some cs =>
    simp only [capsTree, mapStr, mapItems_eq, Proper, properItems_iff, List.map_map, List.forall_mem_map]
    exact fun c _ => c.proper_tree

theorem depth_bytesJson (x : Option Bytes) : depth (bytesJson x) = 0 := by
  cases x <;> rfl

theorem CapabilityToken.depth_tree (c : CapabilityToken) : depth c.tree = 1 := by
  simp [tree, depth, depthMembers, depth_bytesJson]

theorem depth_capsTree (caps : Option (List CapabilityToken)) : depth (capsTree caps) ≤ 2 := by
  cases caps with
  | none => exact Nat.zero_le _
  | some cs =>
    have h : depthItems (cs.map CapabilityToken.tree) ≤ 1 := by
      simp [depthItems_le_iff, CapabilityToken.depth_tree]
    simp only [capsTree, depth]
    omega

namespace AttestationEnvelope

variable (env : AttestationEnvelope)

theorem proper_tree : Proper (mapStr toValid env.tree) := by
  have hc := proper_capsTree env.caps
  have hs := proper_bytesJson env.signature
  simp only [tree, members, List.cons_append, List.nil_append, mapStr, mapMembers, toValid_lit, Proper,
    ProperMembers, valid_lit, valid_toValid, hc, hs, and_true, List.map_cons, List.map_nil]
  decide

theorem depth_tree : depth env.tree ≤ maxNestingDepth := by
  have hc := depth_capsTree env.caps
  simp [tree, members, depth, depthMembers, depth_bytesJson, maxNestingDepth]
  omega

/-- The body of an envelope: its members, strings made valid. -/
def body : Json := mapStr toValid (.obj env.members)

theorem proper_body : Proper env.body := by
  have hc := proper_capsTree env.caps
  simp only [body, members, mapStr, mapMembers, toValid_lit, Proper, ProperMembers, valid_lit, valid_toValid,
    hc, and_true, List.map_cons, List.map_nil]
  decide

theorem depth_body : depth env.body ≤ maxNestingDepth := by
  have hc := depth_capsTree env.caps
  refine (depth_mapStr _ _).trans_le ?_
  simp [members, depth, depthMembers, maxNestingDepth]
  omega

/-- The bytes that are signed. -/
def signedBytes : Bytes := Json.marshal env.body

end AttestationEnvelope

theorem AttestationEnvelope.marshal_eq {env : AttestationEnvelope} (h : env.Marshals) (L : Layout) :
    env.marshal L = .ok (print L 0 (mapStr quote env.tree)) := by
  rw [AttestationEnvelope.marshal, AttestationEnvelope.toJson_eq_ok.mpr ⟨h, rfl⟩]
  rfl

theorem deleteKey_signature (env : AttestationEnvelope) :
    deleteKey (mapMembers toValid (env.members ++ [(lit "signature", bytesJson env.signature)]))
      (lit "signature") = mapMembers toValid env.members := by
  simp only [deleteKey, AttestationEnvelope.members, List.cons_append, List.nil_append, mapMembers, toValid_lit]
  rfl

/-- `envelopeBody` gives the body. -/
theorem envelopeBody_eq {env : AttestationEnvelope} (h : env.Marshals) :
    envelopeBody env = .ok env.body := by
  have hu : unmarshalMap (print compact 0 (mapStr quote env.tree)) =
      .ok (mapMembers toValid (env.members ++ [(lit "signature", bytesJson env.signature)])) := by
    rw [unmarshalMap, unmarshal, unmarshalAny_print compact_ok env.proper_tree env.depth_tree]
    rfl
  rw [envelopeBody, AttestationEnvelope.marshal_eq h]
  simp only [Except.mapError, except_bind_eq_ok]
  exact ⟨_, rfl, _, hu, by rw [deleteKey_signature]; rfl⟩

theorem envelopeBody_eq_ok {env : AttestationEnvelope} {v : Json} :
    envelopeBody env = .ok v ↔ env.Marshals ∧ v = env.body := by
  constructor
  · intro h
    have hm : env.Marshals := by
      simp only [envelopeBody, except_bind_eq_ok] at h
      obtain ⟨raw, hraw, -⟩ := h
      cases hj : env.toJson with
      | error e => simp [AttestationEnvelope.marshal, hj, Except.map, Except.mapError] at hraw
      | ok v => exact (AttestationEnvelope.toJson_eq_ok.mp hj).1
    rw [envelopeBody_eq hm] at h
    exact ⟨hm, (Except.ok.inj h).symm⟩
  · rintro ⟨h, rfl⟩; exact envelopeBody_eq h

theorem canonicalJSON_body (env : AttestationEnvelope) : canonicalJSON env.body = .ok env.signedBytes :=
  canonicalJSON_eq env.proper_body env.depth_body

/-! ## What the signed bytes determine -/

/-- Two caps that are written alike. -/
structure CapabilityToken.Agrees (c c' : CapabilityToken) : Prop where
  id : c.id = c'.id
  sigilID : c.sigilID = c'.sigilID
  scope : c.scope = c'.scope
  issuedAt : c.issuedAt.format = c'.issuedAt.format
  expiresAt : c.expiresAt.format = c'.expiresAt.format
  nonce : c.nonce = c'.nonce

/-- Two envelopes that agree in all but their signatures: their strings, the
texts of their times, and their caps, one by one. -/
structure AttestationEnvelope.Agrees (e e' : AttestationEnvelope) : Prop where
  version : e.version = e'.version
  sigilID : e.sigilID = e'.sigilID
  caps : Option.Rel (List.Forall₂ CapabilityToken.Agrees) e.caps e'.caps
  issuer : e.issuer = e'.issuer
  issuedAt : e.issuedAt.format = e'.issuedAt.format
  expiresAt : e.expiresAt.format = e'.expiresAt.format

/-- The strings of a cap are UTF-8. -/
structure CapabilityToken.Valid (c : CapabilityToken) : Prop where
  id : ValidUtf8 c.id
  sigilID : ValidUtf8 c.sigilID
  scope : ValidUtf8 c.scope

/-- The strings of an envelope and its caps are UTF-8. -/
structure AttestationEnvelope.Valid (e : AttestationEnvelope) : Prop where
  version : ValidUtf8 e.version
  sigilID : ValidUtf8 e.sigilID
  caps : ∀ c ∈ e.capList, c.Valid
  issuer : ValidUtf8 e.issuer

/-- A cap with its strings made valid. -/
def CapabilityToken.validated (c : CapabilityToken) : CapabilityToken :=
  { c with id := toValid c.id, sigilID := toValid c.sigilID, scope := toValid c.scope }

/-- An envelope with its strings made valid. -/
def AttestationEnvelope.validated (e : AttestationEnvelope) : AttestationEnvelope :=
  { e with version := toValid e.version, sigilID := toValid e.sigilID,
           caps := e.caps.map (List.map CapabilityToken.validated), issuer := toValid e.issuer }

theorem CapabilityToken.Valid.validated_eq {c : CapabilityToken} (h : c.Valid) : c.validated = c := by
  rw [CapabilityToken.validated, toValid_of_valid h.id, toValid_of_valid h.sigilID, toValid_of_valid h.scope]

theorem AttestationEnvelope.Valid.validated_eq {e : AttestationEnvelope} (h : e.Valid) : e.validated = e := by
  have hcaps : e.caps.map (List.map CapabilityToken.validated) = e.caps := by
    cases hc : e.caps with
    | none => rfl
    | some cs =>
      have hcs : ∀ c ∈ cs, c.validated = id c := fun c hm =>
        (h.caps c (by simpa [AttestationEnvelope.capList, hc] using hm)).validated_eq
      rw [Option.map_some, List.map_congr_left hcs, List.map_id]
  rw [AttestationEnvelope.validated, toValid_of_valid h.version, toValid_of_valid h.sigilID, hcaps,
    toValid_of_valid h.issuer]

theorem valid_of_isPlain {s : Bytes} (h : ∀ b ∈ s, isPlain b = true) : ValidUtf8 s :=
  valid_of_ascii fun b hb => lt_of_isPlain (h b hb)

theorem toValid_format {t : Time} (h : t.Marshals) : toValid t.format = t.format :=
  toValid_of_valid (valid_of_isPlain (Time.isPlain_format h))

theorem bytesJson_injective {x y : Option Bytes}
    (h : sortKeys (mapStr toValid (bytesJson x)) = sortKeys (mapStr toValid (bytesJson y))) : x = y := by
  cases x with
  | none =>
    cases y with
    | none => rfl
    | some b => cases h
  | some a =>
    cases y with
    | none => cases h
    | some b =>
      have hs : toValid (stdEncode a) = toValid (stdEncode b) := Json.str.inj h
      rw [toValid_of_valid (valid_of_ascii (stdEncode_ascii a)),
        toValid_of_valid (valid_of_ascii (stdEncode_ascii b))] at hs
      rw [stdEncode_injective hs]

theorem CapabilityToken.agrees_of_tree {c c' : CapabilityToken} (h : c.Marshals) (h' : c'.Marshals)
    (heq : sortKeys (mapStr toValid c.tree) = sortKeys (mapStr toValid c'.tree)) :
    c.validated.Agrees c'.validated := by
  have hm := sortKeys_obj_inj (by rfl) c.proper_tree.1 heq
  simp only [mapMembers, sortMembers, List.cons.injEq, Prod.mk.injEq, true_and, and_true, mapStr, sortKeys,
    Json.str.injEq, toValid_format h.1, toValid_format h.2, toValid_format h'.1, toValid_format h'.2] at hm
  obtain ⟨hid, hsigil, hscope, hissued, hexpires, hnonce⟩ := hm
  exact ⟨hid, hsigil, hscope, hissued, hexpires, bytesJson_injective hnonce⟩

theorem CapabilityToken.Agrees.tree {c c' : CapabilityToken} (h : c.validated.Agrees c'.validated) :
    mapStr toValid c.tree = mapStr toValid c'.tree := by
  obtain ⟨hid, hsigil, hscope, hissued, hexpires, hnonce⟩ := h
  simp only [validated] at hid hsigil hscope hissued hexpires hnonce
  simp only [CapabilityToken.tree, mapStr, mapMembers, hid, hsigil, hscope, hissued, hexpires, hnonce]

/-- Caps that are written alike agree, one by one. -/
theorem caps_agree_of_tree {caps caps' : Option (List CapabilityToken)}
    (h : ∀ c ∈ caps.getD [], c.Marshals) (h' : ∀ c ∈ caps'.getD [], c.Marshals)
    (heq : sortKeys (mapStr toValid (capsTree caps)) = sortKeys (mapStr toValid (capsTree caps'))) :
    Option.Rel (List.Forall₂ CapabilityToken.Agrees) (caps.map (List.map CapabilityToken.validated))
      (caps'.map (List.map CapabilityToken.validated)) := by
  cases caps with
  | none =>
    cases caps' with
    | none => exact .none
    | some cs => cases heq
  | some cs =>
    cases caps' with
    | none => cases heq
    | some cs' =>
      simp only [capsTree, mapStr, mapItems_eq, sortKeys, sortItems_eq, List.map_map, Json.arr.injEq] at heq
      rw [← List.forall₂_eq_eq_eq, List.forall₂_map_left_iff, List.forall₂_map_right_iff,
        List.forall₂_iff_zip] at heq
      refine .some ?_
      rw [List.forall₂_map_left_iff, List.forall₂_map_right_iff, List.forall₂_iff_zip]
      refine ⟨heq.1, fun hmem => ?_⟩
      obtain ⟨hc, hc'⟩ := List.of_mem_zip hmem
      exact CapabilityToken.agrees_of_tree (h _ hc) (h' _ hc') (heq.2 hmem)

theorem tree_of_caps_agree {caps caps' : Option (List CapabilityToken)}
    (h : Option.Rel (List.Forall₂ CapabilityToken.Agrees) (caps.map (List.map CapabilityToken.validated))
      (caps'.map (List.map CapabilityToken.validated))) :
    mapStr toValid (capsTree caps) = mapStr toValid (capsTree caps') := by
  cases caps with
  | none =>
    cases caps' with
    | none => rfl
    | some cs => cases h
  | some cs =>
    cases caps' with
    | none => cases h
    | some cs' =>
      obtain ⟨h⟩ := h
      rw [List.forall₂_map_left_iff, List.forall₂_map_right_iff] at h
      simp only [capsTree, mapStr, mapItems_eq, List.map_map, Json.arr.injEq]
      rw [← List.forall₂_eq_eq_eq, List.forall₂_map_left_iff, List.forall₂_map_right_iff]
      exact h.imp fun _ _ hc => hc.tree

/-- Two envelopes have the same signed bytes if they agree, their strings made
valid. -/
theorem signedBytes_eq_iff {e e' : AttestationEnvelope} (h : e.Marshals) (h' : e'.Marshals) :
    e.signedBytes = e'.signedBytes ↔ e.validated.Agrees e'.validated := by
  constructor
  · intro heq
    have hs := sortKeys_eq_of_marshal_eq e.proper_body e'.proper_body heq
    have hm := sortKeys_obj_inj (by rfl) e.proper_body.1 hs
    simp only [AttestationEnvelope.members, mapMembers, sortMembers, List.cons.injEq, Prod.mk.injEq, true_and,
      and_true, mapStr, sortKeys, Json.str.injEq, toValid_format h.2.1, toValid_format h.2.2,
      toValid_format h'.2.1, toValid_format h'.2.2] at hm
    obtain ⟨hversion, hsigil, hcaps, hissuer, hissued, hexpires⟩ := hm
    exact ⟨hversion, hsigil, caps_agree_of_tree h.1 h'.1 hcaps, hissuer, hissued, hexpires⟩
  · rintro ⟨hversion, hsigil, hcaps, hissuer, hissued, hexpires⟩
    simp only [AttestationEnvelope.validated] at hversion hsigil hissuer hissued hexpires
    simp only [AttestationEnvelope.signedBytes, AttestationEnvelope.body, AttestationEnvelope.members, mapStr,
      mapMembers, hversion, hsigil, tree_of_caps_agree hcaps, hissuer, hissued, hexpires]

end Hanko
