import Hanko.Proof.Envelope

/-!
# Envelopes read from JSON

* `unmarshalEnvelope_valid`: the strings of an envelope that was read are
  UTF-8;
* `unmarshalEnvelope_print`: an envelope that was written is read as itself, its
  strings made valid and the seconds of its zone offsets cut off (`transported`);
* `signedBytes_transported_iff`: that leaves the signed bytes alone if no offset
  consists of seconds only.
-/

namespace Hanko

open Bytes Json Json.Decode

/-! ## Strings -/

theorem capFields_keep : ∀ f ∈ capFields, Keeps (fun c => c.value.Valid) f.2 := by
  have htime : Keeps (fun _ => True) Time.unmarshalJSON := fun _ _ _ _ _ => trivial
  have hbytes : Keeps (fun _ => True) bytes := fun _ _ _ _ _ => trivial
  simp only [capFields, List.forall_mem_cons, List.not_mem_nil, false_imp_iff, implies_true, and_true]
  exact ⟨field_keeps string_keeps (fun _ h => h.id) fun _ _ h hx => ⟨hx, h.sigilID, h.scope⟩,
    field_keeps string_keeps (fun _ h => h.sigilID) fun _ _ h hx => ⟨h.id, hx, h.scope⟩,
    field_keeps string_keeps (fun _ h => h.scope) fun _ _ h hx => ⟨h.id, h.sigilID, hx⟩,
    field_keeps htime (fun _ _ => trivial) fun _ _ h _ => ⟨h.id, h.sigilID, h.scope⟩,
    field_keeps htime (fun _ _ => trivial) fun _ _ h _ => ⟨h.id, h.sigilID, h.scope⟩,
    field_keeps hbytes (fun _ _ => trivial) fun _ _ h _ => ⟨h.id, h.sigilID, h.scope⟩⟩

/-- The strings a variable holds are UTF-8, those of its backing arrays too. -/
structure EnvVar.Valid (e : EnvVar) : Prop where
  version : ValidUtf8 e.version
  sigilID : ValidUtf8 e.sigilID
  caps : SliceAll (fun c => c.value.Valid) e.caps
  issuer : ValidUtf8 e.issuer

theorem valid_nil : ValidUtf8 [] := List.not_mem_nil

theorem envFields_keep : ∀ f ∈ envFields, Keeps EnvVar.Valid f.2 := by
  have htime : Keeps (fun _ => True) Time.unmarshalJSON := fun _ _ _ _ _ => trivial
  have hbytes : Keeps (fun _ => True) bytes := fun _ _ _ _ _ => trivial
  have hcap : Keeps (fun c => c.value.Valid) (object false capFields) := object_keeps capFields_keep
  have hcaps := slice_keeps hcap
    (show CapVar.zero.value.Valid from ⟨valid_nil, valid_nil, valid_nil⟩)
  simp only [envFields, List.forall_mem_cons, List.not_mem_nil, false_imp_iff, implies_true, and_true]
  exact ⟨field_keeps string_keeps (fun _ h => h.version) fun _ _ h hx => ⟨hx, h.sigilID, h.caps, h.issuer⟩,
    field_keeps string_keeps (fun _ h => h.sigilID) fun _ _ h hx => ⟨h.version, hx, h.caps, h.issuer⟩,
    field_keeps hcaps (fun _ h => h.caps) fun _ _ h hx => ⟨h.version, h.sigilID, hx, h.issuer⟩,
    field_keeps string_keeps (fun _ h => h.issuer) fun _ _ h hx => ⟨h.version, h.sigilID, h.caps, hx⟩,
    field_keeps htime (fun _ _ => trivial) fun _ _ h _ => ⟨h.version, h.sigilID, h.caps, h.issuer⟩,
    field_keeps htime (fun _ _ => trivial) fun _ _ h _ => ⟨h.version, h.sigilID, h.caps, h.issuer⟩,
    field_keeps hbytes (fun _ _ => trivial) fun _ _ h _ => ⟨h.version, h.sigilID, h.caps, h.issuer⟩⟩

/-- The strings of an envelope that was read are UTF-8. -/
theorem unmarshalEnvelope_valid {input : Bytes} {env : AttestationEnvelope}
    (h : unmarshalEnvelope input = some env) : env.Valid := by
  simp only [unmarshalEnvelope, Option.bind_eq_bind, Option.bind_eq_some_iff] at h
  obtain ⟨t, -, e, he, hv⟩ := h
  obtain rfl := Option.some.inj hv
  have hzero : EnvVar.zero.Valid := ⟨valid_nil, valid_nil, by simp [SliceAll, EnvVar.zero], valid_nil⟩
  have hval := object_keeps envFields_keep _ _ _ hzero he
  refine ⟨hval.version, hval.sigilID, ?_, hval.issuer⟩
  intro c hc
  cases hcaps : e.caps with
  | none => simp [AttestationEnvelope.capList, EnvVar.value, sliceValue, hcaps] at hc
  | some s =>
    simp only [AttestationEnvelope.capList, EnvVar.value, sliceValue, hcaps, Option.map_some,
      Option.getD_some, List.mem_map] at hc
    obtain ⟨v, hv, rfl⟩ := hc
    exact (hval.caps s hcaps).1 v hv

/-! ## Reading what was written -/

theorem member_quote {σ : Type} {strict : Bool} {fields : List (Bytes × Decoder σ)} {k : String}
    {d : Decoder σ} (h : lookup fields (lit k) = some d) (s : σ) (v : Json) :
    member strict fields s (quote (lit k), v) = d s v := by
  rw [member, unquote_quote, toValid_lit, h]

theorem string_quote (s x : Bytes) : string s (.str (quote x)) = some (toValid x) := by
  rw [string, unquote_quote]

theorem bytes_quote (s : Option (Slice UInt8)) (x : Option Bytes) :
    bytes s (mapStr quote (bytesJson x)) = some (x.map fun b => ⟨b, []⟩) := by
  cases x with
  | none => rfl
  | some b =>
    rw [bytesJson, mapStr, bytes, unquote_quote, toValid_of_valid (valid_of_ascii (stdEncode_ascii b)),
      stdDecode_stdEncode]
    rfl

theorem time_quote (s : Time) {t : Time} (h : t.Marshals) :
    Time.unmarshalJSON s (.str (quote t.format)) = some t.truncated := by
  rw [Time.unmarshalJSON, quote_plain (Time.isPlain_format h), Time.parse_format h]

theorem fill_map {α β : Type} {d : Decoder α} {zero : α} {g : β → Json} {f : β → α} :
    ∀ xs : List β, (∀ x ∈ xs, d zero (g x) = some (f x)) → fill d zero [] (xs.map g) = some (xs.map f, [])
  | [], _ => rfl
  | x :: xs, h => by
    obtain ⟨hx, hxs⟩ := List.forall_mem_cons.mp h
    simp only [List.map_cons, fill, List.headD_nil, hx, List.tail_nil, fill_map xs hxs, Option.bind_eq_bind,
      Option.bind_some, Option.pure_def]

/-- A cap as it is read. -/
def CapabilityToken.transported (c : CapabilityToken) : CapabilityToken :=
  { c.validated with issuedAt := c.issuedAt.truncated, expiresAt := c.expiresAt.truncated }

/-- The variable a cap is read into. -/
def CapabilityToken.read (c : CapabilityToken) : CapVar :=
  ⟨toValid c.id, toValid c.sigilID, toValid c.scope, c.issuedAt.truncated, c.expiresAt.truncated,
    c.nonce.map fun b => ⟨b, []⟩⟩

theorem sliceValue_read (x : Option Bytes) : sliceValue (x.map fun b => ⟨b, []⟩) = x := by
  cases x <;> rfl

theorem CapabilityToken.value_read (c : CapabilityToken) : c.read.value = c.transported := by
  rw [read, CapVar.value, sliceValue_read]
  rfl

theorem object_capFields {c : CapabilityToken} (h : c.Marshals) :
    object false capFields .zero (mapStr quote c.tree) = some c.read := by
  have hid : lookup capFields (lit "id") = some _ := rfl
  have hsigil : lookup capFields (lit "sigil_id") = some _ := rfl
  have hscope : lookup capFields (lit "scope") = some _ := rfl
  have hissued : lookup capFields (lit "issued_at") = some _ := rfl
  have hexpires : lookup capFields (lit "expires_at") = some _ := rfl
  have hnonce : lookup capFields (lit "nonce") = some _ := rfl
  simp only [CapabilityToken.tree, mapStr, mapMembers, object, List.foldlM_cons, List.foldlM_nil,
    member_quote hid, member_quote hsigil, member_quote hscope, member_quote hissued, member_quote hexpires,
    member_quote hnonce, field, string_quote, bytes_quote, time_quote _ h.1, time_quote _ h.2, Option.map_some,
    Option.bind_eq_bind, Option.bind_some]
  rfl

theorem slice_capFields {caps : Option (List CapabilityToken)} (h : ∀ c ∈ caps.getD [], c.Marshals) :
    slice (object false capFields) .zero none (mapStr quote (capsTree caps)) =
      some (caps.map fun cs => ⟨cs.map CapabilityToken.read, []⟩) := by
  cases caps with
  | none => rfl
  | some cs =>
    cases cs with
    | nil => rfl
    | cons c cs =>
      have hfill := fill_map (g := fun c => mapStr quote c.tree) (c :: cs) fun c hc => object_capFields (h c hc)
      rw [List.map_cons] at hfill
      simp only [capsTree, mapStr, mapItems_eq, List.map_cons, List.map_map, slice, Option.elim_none]
      exact congrArg (Option.map _) hfill

/-- An envelope as it is read. -/
def AttestationEnvelope.transported (e : AttestationEnvelope) : AttestationEnvelope :=
  { e.validated with
    caps := e.caps.map (List.map CapabilityToken.transported), issuedAt := e.issuedAt.truncated,
    expiresAt := e.expiresAt.truncated }

theorem object_envFields {e : AttestationEnvelope} (h : e.Marshals) :
    object false envFields .zero (mapStr quote e.tree) =
      some ⟨toValid e.version, toValid e.sigilID, e.caps.map fun cs => ⟨cs.map CapabilityToken.read, []⟩,
        toValid e.issuer, e.issuedAt.truncated, e.expiresAt.truncated,
        e.signature.map fun b => ⟨b, []⟩⟩ := by
  have hversion : lookup envFields (lit "version") = some _ := rfl
  have hsigil : lookup envFields (lit "sigil_id") = some _ := rfl
  have hcaps : lookup envFields (lit "caps") = some _ := rfl
  have hissuer : lookup envFields (lit "issuer") = some _ := rfl
  have hissued : lookup envFields (lit "issued_at") = some _ := rfl
  have hexpires : lookup envFields (lit "expires_at") = some _ := rfl
  have hsig : lookup envFields (lit "signature") = some _ := rfl
  have hslice := slice_capFields h.1
  simp only [AttestationEnvelope.tree, AttestationEnvelope.members, List.cons_append, List.nil_append, mapStr,
    mapMembers, object, List.foldlM_cons, List.foldlM_nil, member_quote hversion, member_quote hsigil,
    member_quote hcaps, member_quote hissuer, member_quote hissued, member_quote hexpires, member_quote hsig,
    field, string_quote, bytes_quote, time_quote _ h.2.1, time_quote _ h.2.2, EnvVar.zero, hslice, Option.map_some,
    Option.bind_eq_bind, Option.bind_some]
  rfl

/-- An envelope that was written, in any layout and with white space after it,
is read. -/
theorem unmarshalEnvelope_print {L : Layout} (hL : L.Ok) {e : AttestationEnvelope} (h : e.Marshals)
    {w : Bytes} (hw : ∀ b ∈ w, isSpace b = true) :
    unmarshalEnvelope (print L 0 (mapStr quote e.tree) ++ w) = some e.transported := by
  have hparse := parse_print_append hL (wf_quote _ e.proper_tree) ((depth_mapStr _ _).trans_le e.depth_tree) hw
  simp only [unmarshalEnvelope, hparse, object_envFields h, Option.bind_eq_bind, Option.bind_some,
    Option.pure_def, EnvVar.value, sliceValue_read, AttestationEnvelope.transported,
    AttestationEnvelope.validated, Option.some.injEq, AttestationEnvelope.mk.injEq, true_and, and_true]
  cases e.caps with
  | none => rfl
  | some cs =>
    simp only [sliceValue, Option.map_some, List.map_map, Option.some.injEq]
    exact List.map_congr_left fun c _ => c.value_read

/-! ## The signed bytes of what was read -/

theorem CapabilityToken.transported_marshals {c : CapabilityToken} (h : c.Marshals) : c.transported.Marshals :=
  ⟨Time.truncated_marshals h.1, Time.truncated_marshals h.2⟩

theorem AttestationEnvelope.capList_transported (e : AttestationEnvelope) :
    e.transported.capList = e.capList.map CapabilityToken.transported := by
  rw [capList, capList, transported]
  cases e.caps <;> rfl

theorem AttestationEnvelope.transported_marshals {e : AttestationEnvelope} (h : e.Marshals) :
    e.transported.Marshals := by
  refine ⟨?_, Time.truncated_marshals h.2.1, Time.truncated_marshals h.2.2⟩
  rw [capList_transported, List.forall_mem_map]
  exact fun c hc => c.transported_marshals (h.1 c hc)

theorem toValid_toValid (s : Bytes) : toValid (toValid s) = toValid s := toValid_of_valid (valid_toValid s)

theorem CapabilityToken.validated_transported (c : CapabilityToken) :
    c.transported.validated = c.transported := by
  simp only [validated, transported, toValid_toValid]

/-- A cap whose times keep their texts when they are read and written again. -/
def CapabilityToken.Stable (c : CapabilityToken) : Prop := c.issuedAt.Stable ∧ c.expiresAt.Stable

instance (c : CapabilityToken) : Decidable c.Stable := inferInstanceAs (Decidable (_ ∧ _))

/-- An envelope whose times, and those of its caps, keep their texts. -/
def AttestationEnvelope.Stable (e : AttestationEnvelope) : Prop :=
  (∀ c ∈ e.capList, c.Stable) ∧ e.issuedAt.Stable ∧ e.expiresAt.Stable

theorem CapabilityToken.agrees_transported_iff (c : CapabilityToken) :
    c.transported.Agrees c.validated ↔ c.Stable := by
  constructor
  · intro h
    exact ⟨(Time.format_truncated_iff _).mp h.issuedAt, (Time.format_truncated_iff _).mp h.expiresAt⟩
  · intro h
    exact ⟨rfl, rfl, rfl, (Time.format_truncated_iff _).mpr h.1, (Time.format_truncated_iff _).mpr h.2, rfl⟩

theorem forall₂_map_iff {α β : Type} {R : β → β → Prop} {f g : α → β} {l : List α} :
    List.Forall₂ R (l.map f) (l.map g) ↔ ∀ a ∈ l, R (f a) (g a) := by
  rw [List.forall₂_map_left_iff, List.forall₂_map_right_iff, List.forall₂_same]

theorem AttestationEnvelope.validated_transported (e : AttestationEnvelope) :
    e.transported.validated = e.transported := by
  simp only [validated, transported, toValid_toValid, Option.map_map]
  congr 2
  funext cs
  simp only [Function.comp_apply, List.map_map]
  exact List.map_congr_left fun c _ => c.validated_transported

theorem caps_agree_transported_iff (caps : Option (List CapabilityToken)) :
    Option.Rel (List.Forall₂ CapabilityToken.Agrees) (caps.map (List.map CapabilityToken.transported))
      (caps.map (List.map CapabilityToken.validated)) ↔ ∀ c ∈ caps.getD [], c.Stable := by
  cases caps with
  | none => exact ⟨fun _ _ hc => (List.not_mem_nil hc).elim, fun _ => .none⟩
  | some cs =>
    constructor
    · rintro ⟨h⟩ c hc
      exact c.agrees_transported_iff.mp (forall₂_map_iff.mp h c hc)
    · intro h
      exact .some (forall₂_map_iff.mpr fun c hc => c.agrees_transported_iff.mpr (h c hc))

/-- The signed bytes of an envelope that was written and read are the same if
all its times keep their texts. -/
theorem signedBytes_transported_iff {e : AttestationEnvelope} (h : e.Marshals) :
    e.transported.signedBytes = e.signedBytes ↔ e.Stable := by
  rw [signedBytes_eq_iff (AttestationEnvelope.transported_marshals h) h,
    AttestationEnvelope.validated_transported]
  constructor
  · intro hagrees
    exact ⟨(caps_agree_transported_iff _).mp hagrees.caps, (Time.format_truncated_iff _).mp hagrees.issuedAt,
      (Time.format_truncated_iff _).mp hagrees.expiresAt⟩
  · intro hs
    exact ⟨rfl, rfl, (caps_agree_transported_iff _).mpr hs.1, rfl, (Time.format_truncated_iff _).mpr hs.2.1,
      (Time.format_truncated_iff _).mpr hs.2.2⟩

end Hanko
