import Hanko.Proof.Bootstrap
import Hanko.Proof.Postgres
import Hanko.Proof.Verdict

/-!
# Revocation

Revoked ids stay revoked: no operation of a store, and no statement of the
database, takes one back. So a verification that starts after a revocation has
returned finds it, if its lookup succeeds. What a database has to do for
that is stated of any handler (`RevocationTable`).

* `revocation_final`: over a `MemStore`, in every interleaving;
* `revoked_root`: what revoking a sigil does for the caps that name it;
* `bootstrap_ignores_revocation`: that it does not stop the minting of tokens;
* `revocation_survives_faults`: over a database that may fail, as long as the
  lookup itself does not.
-/

namespace Hanko

open Bytes Interact

/-- A call that revokes `id`. -/
def Call.Revokes (id : Bytes) : Call → Prop
  | .revokeSigil sigilID _ _ => sigilID = id
  | .revokeCap capID _ _ => capID = id
  | _ => False

theorem revokeSigil_ends {b : Broker} {id reason revokedBy : Bytes} {es : List (Event BrokerSig)}
    (h : (b.revokeSigil id reason revokedBy).Ends es none) :
    ∃ entry : RevocationEntry, entry.id = id ∧ entry.revokedBy = revokedBy ∧
      storeEvent (.revoke entry) (.ok ()) ∈ es := by
  obtain ⟨t, es₁, rfl, h₁⟩ := ends_ask.mp h
  obtain ⟨ans, es₂, rfl, h₂⟩ := ends_ask.mp h₁
  cases ans with
  | error e => cases (ends_ret.mp h₂).2
  | ok u => exact ⟨⟨id, lit "sigil", reason, t.utc, revokedBy⟩, rfl, rfl, .tail _ (.head _)⟩

theorem revokeCap_ends {id reason revokedBy : Bytes} {es : List (Event BrokerSig)}
    (h : (Broker.revokeCap id reason revokedBy).Ends es none) :
    ∃ entry : RevocationEntry, entry.id = id ∧ entry.revokedBy = revokedBy ∧
      storeEvent (.revoke entry) (.ok ()) ∈ es := by
  obtain ⟨t, es₁, rfl, h₁⟩ := ends_ask.mp h
  obtain ⟨ans, es₂, rfl, h₂⟩ := ends_ask.mp h₁
  cases ans with
  | error e => cases (ends_ret.mp h₂).2
  | ok u => exact ⟨⟨id, lit "cap", reason, t.utc, revokedBy⟩, rfl, rfl, .tail _ (.head _)⟩

/-- A revocation that succeeded has been recorded by the store. -/
theorem Call.Revokes.ends {S : Service} {call : Call} {id : Bytes} (hcall : call.Revokes id)
    {es : List (Event BrokerSig)} (h : (call.prog S).Ends es (.err none)) :
    ∃ entry, entry.id = id ∧ storeEvent (.revoke entry) (.ok ()) ∈ es := by
  cases call with
  | revokeSigil sigilID reason revokedBy =>
    obtain rfl : sigilID = id := hcall
    obtain ⟨r, hr, heq⟩ := ends_map.mp h
    cases heq
    obtain ⟨entry, hentry, -, he⟩ := revokeSigil_ends hr
    exact ⟨entry, hentry, he⟩
  | revokeCap capID reason revokedBy =>
    obtain rfl : capID = id := hcall
    obtain ⟨r, hr, heq⟩ := ends_map.mp h
    cases heq
    obtain ⟨entry, hentry, -, he⟩ := revokeCap_ends hr
    exact ⟨entry, hentry, he⟩
  | _ => exact hcall.elim

/-! ## In memory -/

section Mem

variable {ι : Type} [DecidableEq ι] {S : Service} {ps ps₁ ps' : ι → Prog BrokerSig Reply}
  {m m₁ m' : MemStore} {tr tr' : List (ι × Event BrokerSig)}

/-- What a store was asked to revoke is revoked. -/
theorem revoked_of_mem (h : Run MemHandler ps m tr ps₁ m₁) {i : ι} {entry : RevocationEntry}
    (he : storeEvent (.revoke entry) (.ok ()) ∈ of i tr) : m₁.isRevoked entry.id = true :=
  (exec_revoked_iff (exec_ledger h) entry.id).mpr
    (.inr ⟨_, (of_sublist i tr).subset he, entry, _, rfl, rfl⟩)

/-- What was revoked stays revoked, and what a call revoked is. -/
theorem revoked_of_run (h : Run MemHandler ps m tr ps₁ m₁) {id : Bytes}
    (hrev : m.isRevoked id = true ∨
      ∃ i call, Call.Revokes id call ∧ ps i = call.prog S ∧ ps₁ i = .ret (.err none)) :
    m₁.isRevoked id = true := by
  rcases hrev with hrev | ⟨i, call, hcall, hi, hret⟩
  · exact (exec_revoked_iff (exec_ledger h) id).mpr (.inl hrev)
  · obtain ⟨entry, rfl, he⟩ := hcall.ends (hi ▸ h.ends hret)
    exact revoked_of_mem h he

/-- A verification that starts after an id was revoked never finds it not
revoked. -/
theorem late_lookup (h' : Run MemHandler ps₁ m₁ tr' ps' m') {id : Bytes}
    (hid : m₁.isRevoked id = true) {j : ι} (hstart : of j tr = []) :
    storeEvent (.isRevoked id) false ∉ of j (tr ++ tr') := by
  rw [of_append, hstart, List.nil_append]
  exact fun he => exec_revoked (exec_ledger h') hid ((of_sublist j tr').subset he)

/-- Revocation is final and immediate. A verification that starts after a
revocation of its sigil or of one of its caps has returned is not accepted; if
it is the sigil, and the signature is valid, the verdict is that the sigil is
revoked. And nothing takes a revocation back. -/
theorem revocation_final (h : Run MemHandler ps m tr ps₁ m₁) (h' : Run MemHandler ps₁ m₁ tr' ps' m') :
    (∀ i j call id env r, Call.Revokes id call → ps i = call.prog S → ps₁ i = .ret (.err none) →
      ps j = (Call.verifyAttestation env).prog S → of j tr = [] → ps' j = .ret (.err r) →
      ((id = env.sigilID ∨ ∃ c ∈ env.capList, id = c.id) → r ≠ none) ∧
      (id = env.sigilID → S.broker.SignatureValid env → r = some (.verify errSigilRevoked))) ∧
    ∀ id, m.isRevoked id = true → m₁.isRevoked id = true := by
  refine ⟨?_, fun id hid => revoked_of_run (S := S) h (.inl hid)⟩
  intro i j call id env r hcall hi hret hj hstart hr
  have hid := revoked_of_run h (.inr ⟨i, call, hcall, hi, hret⟩)
  have hlate := late_lookup h' hid hstart
  have hends := verify_ends (h.append h') hj hr
  constructor
  · rintro hid rfl
    obtain ⟨-, hsigil, hcaps, -⟩ := Broker.verifyAttestation_accepts hends
    rcases hid with rfl | ⟨c, hc, rfl⟩
    · exact hlate hsigil
    · exact hlate (hcaps c hc)
  · rintro rfl hv
    rw [Broker.verifyAttestation_of_valid hv] at hends
    rcases Broker.verifySigned_ends.mp hends with ⟨-, hr⟩ | ⟨t, hes, -⟩ | ⟨t, es', hes, -⟩
    · exact hr
    · rw [hes] at hlate
      exact absurd (by simp) hlate
    · rw [hes] at hlate
      exact absurd (by simp) hlate

/-- The sigil of an envelope is revoked, and then the envelope is verified. -/
theorem revocation_final_sample :
    ∃ tr ps₁ m₁ tr' ps' m', Run MemHandler
      (fun b => ((bif b then .verifyAttestation Sample.env
        else .revokeSigil (Sample.uuid 1) (lit "stolen") (lit "admin") : Call)).prog Sample.service)
      .new tr ps₁ m₁ ∧ Run MemHandler ps₁ m₁ tr' ps' m' ∧ ps₁ false = .ret (.err none) ∧
      ps' true = .ret (.err (some (.verify errSigilRevoked))) ∧
      (MemStore.new.isRevoked (Sample.uuid 1) = true → m₁.isRevoked (Sample.uuid 1) = true) := by
  obtain ⟨es, es', _, _, -, h, h'⟩ := Run.two runMem_refines
    (fun b => ((bif b then .verifyAttestation Sample.env
      else .revokeSigil (Sample.uuid 1) (lit "stolen") (lit "admin") : Call)).prog Sample.service)
    (.new, Sample.host 0) (show false ≠ true by decide) (a := .err none) rfl rfl
  have hfinal := revocation_final (S := Sample.service) h h'
  refine ⟨_, _, _, _, _, _, h, h', rfl, ?_, hfinal.2 _⟩
  have hends := verify_returns (h.append h') (i := true) rfl rfl
  obtain ⟨r, hr, -⟩ := hends
  have hret := (hfinal.1 false true (.revokeSigil (Sample.uuid 1) (lit "stolen") (lit "admin"))
    (Sample.uuid 1) Sample.env r rfl rfl rfl rfl (of_map_ne (by decide) es) (congrArg Prog.ret hr)).2 rfl
    (Sample.signatureValid_envelope _ (by decide))
  rw [← hret, ← hr]
  rfl

/-! ## Caps and the sigils they name -/

/-- An envelope without the sigils its caps name. -/
def AttestationEnvelope.unbound (env : AttestationEnvelope) : AttestationEnvelope :=
  { env with caps := env.caps.map (List.map fun c => { c with sigilID := [] }), signature := none }

theorem verifyCaps_unbound (cs : List CapabilityToken) :
    Broker.verifyCaps (cs.map fun c => { c with sigilID := [] }) = Broker.verifyCaps cs := by
  induction cs with
  | nil => rfl
  | cons c cs ih => simp only [List.map_cons, Broker.verifyCaps, ih]

/-- A verification does not look at the sigils that the caps name. -/
theorem verifySigned_unbound (env : AttestationEnvelope) :
    Broker.verifySigned env.unbound = Broker.verifySigned env := by
  have hcaps : env.unbound.capList = env.capList.map fun c => { c with sigilID := [] } := by
    rw [AttestationEnvelope.capList, AttestationEnvelope.capList, AttestationEnvelope.unbound]
    cases env.caps <;> rfl
  rw [Broker.verifySigned, hcaps, verifyCaps_unbound]
  rfl

/-- What a revoked sigil means for envelopes. The sigils that caps name play no
part in the verdict on a signed envelope. After the revocation of a sigil has
returned, no verification that starts later accepts an envelope of that sigil;
so none that has a cap for it, if all its caps name the sigil of the envelope. -/
theorem revoked_root (S : Service) :
    (∀ env env', S.broker.SignatureValid env → S.broker.SignatureValid env' → env.unbound = env'.unbound →
      (Call.verifyAttestation env).prog S = (Call.verifyAttestation env').prog S) ∧
    ∀ (ι : Type) [DecidableEq ι] (ps ps₁ ps' : ι → Prog BrokerSig Reply) (m m₁ m' : MemStore)
      (tr tr' : List (ι × Event BrokerSig)), Run MemHandler ps m tr ps₁ m₁ → Run MemHandler ps₁ m₁ tr' ps' m' →
      ∀ i j sigilID reason revokedBy env, ps i = (Call.revokeSigil sigilID reason revokedBy).prog S →
        ps₁ i = .ret (.err none) → ps j = (Call.verifyAttestation env).prog S → of j tr = [] →
        ps' j = .ret (.err none) → env.sigilID ≠ sigilID ∧
          ((∀ c ∈ env.capList, c.sigilID = env.sigilID) → ∀ c ∈ env.capList, c.sigilID ≠ sigilID) := by
  constructor
  · intro env env' hv hv' hunbound
    rw [Call.prog, Call.prog, Broker.verifyAttestation_of_valid hv, Broker.verifyAttestation_of_valid hv',
      ← verifySigned_unbound env, ← verifySigned_unbound env', hunbound]
  · intro ι _ ps ps₁ ps' m m₁ m' tr tr' h h' i j sigilID reason revokedBy env hi hret hj hstart hacc
    have hid := revoked_of_run h (.inr ⟨i, .revokeSigil sigilID reason revokedBy, rfl, hi, hret⟩)
    have haccepts := Broker.verifyAttestation_accepts (verify_ends (h.append h') hj hacc)
    have hne : env.sigilID ≠ sigilID := by
      rintro rfl
      exact late_lookup h' hid hstart haccepts.2.1
    exact ⟨hne, fun hbound c hc => hbound c hc ▸ hne⟩

/-- Another sigil than that of the envelope is revoked. -/
theorem revoked_root_sample :
    (Call.verifyAttestation Sample.env).prog Sample.service =
      (Call.verifyAttestation (Sample.envelope (Sample.uuid 1)
        [Sample.cap (Sample.uuid 2) (Sample.uuid 3) 7])).prog Sample.service ∧
    ∃ tr ps₁ m₁ tr' ps' m', Run MemHandler
      (fun b => ((bif b then .verifyAttestation Sample.env
        else .revokeSigil (Sample.uuid 3) (lit "stolen") (lit "admin") : Call)).prog Sample.service)
      .new tr ps₁ m₁ ∧ Run MemHandler ps₁ m₁ tr' ps' m' ∧ ps₁ false = .ret (.err none) ∧
      ps' true = .ret (.err none) ∧ ∀ c ∈ Sample.env.capList, c.sigilID ≠ Sample.uuid 3 := by
  refine ⟨(revoked_root Sample.service).1 _ _ (Sample.signatureValid_envelope _ (by decide))
    (Sample.signatureValid_envelope _ (by decide)) rfl, ?_⟩
  obtain ⟨es, es', _, _, -, h, h'⟩ := Run.two runMem_refines
    (fun b => ((bif b then .verifyAttestation Sample.env
      else .revokeSigil (Sample.uuid 3) (lit "stolen") (lit "admin") : Call)).prog Sample.service)
    (.new, Sample.host 0) (show false ≠ true by decide) (a := .err none) (b := .err none) rfl
    (by simp only [cond_true, Sample.verify_env]; rfl)
  refine ⟨_, _, _, _, _, _, h, h', rfl, rfl, ?_⟩
  have hroot := (revoked_root Sample.service).2 _ _ _ _ _ _ _ _ _ h h' false true (Sample.uuid 3)
    (lit "stolen") (lit "admin") Sample.env rfl rfl rfl (of_map_ne (by decide) es) rfl
  exact hroot.2 (List.forall_mem_singleton.mpr rfl)

namespace Sample

def alice : Sigil := ⟨uuid 0, lit "alice", some [1], noon, none, []⟩

def bob : Sigil := ⟨uuid 2, lit "bob", some [2], noon, none, []⟩

def aliceCap : CapabilityToken := cap (uuid 4) alice.id 0

def bobEnvelope : AttestationEnvelope := envelope bob.id [aliceCap]

/-- Bob gets an attestation with Alice's cap. Alice's sigil is revoked, and the
attestation verified. -/
def crossed : List Call :=
  [.issueSigil (lit "alice") (some [1]) none none, .issueSigil (lit "bob") (some [2]) none none,
    .issueCap alice.id (lit "read") evening, .issueAttestation bob.id (some [aliceCap]) evening,
    .revokeSigil alice.id (lit "stolen") (lit "admin"), .verifyAttestation bobEnvelope]

end Sample

/-- An attestation is accepted that carries a cap for another sigil, which is
revoked. -/
theorem cap_binding_fails :
    (runMem (.all (Sample.crossed.map (Call.prog Sample.service))) .new (Sample.host 0)).1 =
      [.sigil (.ok Sample.alice), .sigil (.ok Sample.bob), .cap (.ok Sample.aliceCap),
        .envelope (.ok Sample.bobEnvelope), .err none, .err none] ∧
      Sample.aliceCap ∈ Sample.bobEnvelope.capList ∧
      Sample.aliceCap.sigilID ≠ Sample.bobEnvelope.sigilID := by
  have hmarshals : (unsigned Sample.bob.id (some [Sample.aliceCap]) Sample.noon Sample.evening).Marshals := by
    decide
  refine ⟨?_, List.mem_cons_self, by decide⟩
  refine runMem_all_cons rfl (runMem_all_cons rfl (runMem_all_cons rfl ?_))
  refine runMem_all_cons (runMem_issueAttestation hmarshals) (runMem_all_cons rfl ?_)
  refine runMem_all_last (runMem_accepts (Sample.signatureValid_envelope _ (by decide)) rfl ?_
    (List.nodup_singleton _) ?_ ?_)
  · exact List.forall_mem_singleton.mpr rfl
  · exact List.forall_mem_singleton.mpr rfl
  · exact fun k => ⟨rfl, List.forall_mem_singleton.mpr rfl⟩

/-! ## Tokens for revoked sigils -/

/-- A call that revoked the sigil `id`, by what it returned. -/
def Call.RevokedSigil (id : Bytes) : Call → Reply → Prop
  | .revokeSigil sigilID _ _, .err none => sigilID = id
  | .adminRevoke r, .http (some resp) =>
    resp.status = 204 ∧ (decodeRevokeRequest r.body).map RevokeRequest.sigilID = some id
  | _, _ => False

/-- A revocation over HTTP that was answered with 204 is one of the broker. -/
theorem adminRevoke_ends {s : HTTPServer} {r : Request} {es : List (Event BrokerSig)} {resp : Response}
    (h : (s.adminRevoke r).Ends es resp) (hstatus : resp.status = 204) :
    ∃ req, decodeRevokeRequest r.body = some req ∧
      ∃ es', es' ⊆ es ∧ (s.broker.revokeSigil req.sigilID req.reason req.revokedBy).Ends es' none := by
  have hret {resp' : Response} (hne : resp'.status ≠ 204) : ¬ (Prog.ret resp' : Prog BrokerSig _).Ends es resp := by
    intro h
    obtain ⟨-, rfl⟩ := ends_ret.mp h
    exact hne hstatus
  rw [HTTPServer.adminRevoke, HTTPServer.requireAdminSecret] at h
  split at h
  · exact absurd h (hret (by decide))
  rw [HTTPServer.handleAdminRevoke] at h
  split at h
  · exact absurd h (hret (by decide))
  cases hreq : decodeRevokeRequest r.body with
  | none =>
    rw [hreq] at h
    exact absurd h (hret (by decide))
  | some req =>
    rw [hreq] at h
    dsimp only at h
    split at h
    · exact absurd h (hret (by decide))
    split at h
    · exact absurd h (hret (by decide))
    obtain ⟨es₁, es₂, e, rfl, hrevoke, h⟩ := ends_bind.mp h
    cases e with
    | none => exact ⟨req, rfl, es₁, List.subset_append_left _ _, hrevoke⟩
    | some e =>
      obtain ⟨-, rfl⟩ := ends_ret.mp h
      cases hstatus

theorem Call.RevokedSigil.ends {S : Service} {call : Call} {reply : Reply} {id : Bytes}
    (hcall : call.RevokedSigil id reply) {es : List (Event BrokerSig)} (h : (call.prog S).Ends es reply) :
    ∃ entry, entry.id = id ∧ storeEvent (.revoke entry) (.ok ()) ∈ es := by
  unfold Call.RevokedSigil at hcall
  split at hcall
  · obtain ⟨r, hr, heq⟩ := ends_map.mp h
    cases heq
    obtain ⟨entry, hentry, -, he⟩ := revokeSigil_ends hr
    exact ⟨entry, hentry.trans hcall, he⟩
  · obtain ⟨resp, hresp, heq⟩ := ends_map.mp h
    cases heq
    obtain ⟨hstatus, hid⟩ := hcall
    obtain ⟨req, hreq, es', hsub, hrevoke⟩ := adminRevoke_ends hresp hstatus
    obtain ⟨entry, hentry, -, he⟩ := revokeSigil_ends hrevoke
    rw [hreq] at hid
    exact ⟨entry, hentry.trans (Option.some.inj hid), hsub he⟩
  · exact hcall.elim

/-- What the OIDC handler asks does not tell stores with the same sigils apart. -/
theorem handle_exec_eq (h : OIDCBootstrap) (r : Request) {m m' : MemStore} (hm : m.sigils = m'.sigils) (w : Host) :
    (runMem (h.handle r) m w).1 = (runMem (h.handle r) m' w).1 := by
  refine (h.handle_asks r).exec_eq (I := fun s t => s.1.sigils = t.1.sigils ∧ s.2 = t.2) ?_ ⟨hm, rfl⟩
  rintro o ⟨m, w⟩ ⟨m', w'⟩ hQ ⟨hsigils, rfl⟩
  have hm : m.sigils = m'.sigils := hsigils
  match o, hQ with
  | .inl (.getSigil id), _ =>
    refine ⟨?_, hm, rfl⟩
    simp only [both, MemStore.step, MemStore.getSigil, hm]
  | .inl (.saveCap c), _ => exact ⟨rfl, hm, rfl⟩
  | .inr o, _ => exact ⟨rfl, hm, rfl⟩

/-- Revocation and bootstrap. The answer to a bootstrap request depends on no
revocation, only on the sigils of the store; a token is minted for the sigil to
which an enabled row of the policy maps the provider's subject, and that sigil is read
from the body and from the token in it. What a revoked sigil is refused is verification:
after the revocation has returned, directly or over HTTP, no verification that starts
later accepts an envelope of it. -/
theorem bootstrap_ignores_revocation (S : Service) :
    (∀ r m m' w, m.sigils = m'.sigils → (runMem (S.oidc.handle r) m w).1 = (runMem (S.oidc.handle r) m' w).1) ∧
    (∀ r m w, (runMem (S.oidc.handle r) m w).1.map Response.status = some 200 →
      ∃ req sub row c body, S.oidc.config.Grants r w req sub row ∧ c.sigilID = row.mappedSigil ∧
        (runMem (S.oidc.handle r) m w).1 =
          some ⟨200, OIDCBootstrap.headers (OIDCBootstrap.newCorrID r w), body⟩ ∧
        body = OIDCBootstrap.responseBody (S.oidc.capToken c (w.oidcClock 2) w.sign) c.expiresAt c.scope c.sigilID ∧
        if c.expiresAt.Marshals then Conveys c (w.oidcClock 2) body else body = []) ∧
    ∀ (ι : Type) [DecidableEq ι] (ps ps₁ ps' : ι → Prog BrokerSig Reply) (m m₁ m' : MemStore)
      (tr tr' : List (ι × Event BrokerSig)), Run MemHandler ps m tr ps₁ m₁ → Run MemHandler ps₁ m₁ tr' ps' m' →
      ∀ (i j : ι) (call : Call) (reply : Reply) (env : AttestationEnvelope), ps i = call.prog S →
        ps₁ i = .ret reply → call.RevokedSigil env.sigilID reply → ps j = (Call.verifyAttestation env).prog S →
        of j tr = [] → ps' j ≠ .ret (.err none) := by
  refine ⟨fun r m m' w hm => handle_exec_eq S.oidc r hm w, ?_, ?_⟩
  · intro r m w hok
    obtain ⟨req, sub, row, hg⟩ := S.oidc.grants_of_ok MemStore.step hok
    cases hissue : (S.oidc.issuing MemStore.step m w r req row).1 with
    | error e =>
      rw [runMem, S.oidc.handle_of_not_issued MemStore.step hg hissue] at hok
      cases hok
    | ok c =>
      obtain ⟨hsigil, hscope, w', hout⟩ := S.oidc.handle_of_issued MemStore.step hg hissue
      exact ⟨req, sub, row, c, _, hg, hsigil, by rw [runMem, hout], rfl, S.oidc.capToken_conveys hg hscope _ _⟩
  · intro ι _ ps ps₁ ps' m m₁ m' tr tr' h h' i j call reply env hi hret hcall hj hstart hacc
    obtain ⟨entry, hentry, he⟩ := hcall.ends (hi ▸ h.ends hret)
    have hid := revoked_of_mem h he
    rw [hentry] at hid
    exact late_lookup h' hid hstart (Broker.verifyAttestation_accepts (verify_ends (h.append h') hj hacc)).2.1

namespace Sample

def revokeFirst : Call := .revokeSigil (uuid 1) (lit "stolen") (lit "admin")

/-- The store and the surroundings after the sigil `uuid 1` was revoked. -/
def revokedState : MemStore × Host := (runMem (revokeFirst.prog service) store (host 0)).2

end Sample

/-- The sigil `uuid 1` is revoked, and then gets a token with which it can go on until the
cap expires. -/
theorem revoked_sigil_mints : ∃ body token claims,
    (runMem (.all [Sample.revokeFirst.prog Sample.service, (Call.bootstrapOIDC Sample.request).prog Sample.service])
      Sample.store (Sample.host 0)).1 = [.err none, .http (some ⟨200, OIDCBootstrap.headers (lit "corr"), body⟩)] ∧
    RelyingParty.receipt body = some ⟨token, lit "1970-01-01T12:05:00Z", lit "read", Sample.uuid 1⟩ ∧
    RelyingParty.payload token = some claims ∧ claims.sub = Sample.uuid 1 ∧ claims.exp = 43500 := by
  have hgrants := Sample.request_granted (w := Sample.revokedState.2) rfl
  obtain ⟨-, hscope, w', hout⟩ := Sample.oidc.handle_of_issued MemStore.step (s := Sample.revokedState.1) hgrants
    (c := ⟨_, _, _, _, _, _⟩) rfl
  have hbody := Sample.oidc.capToken_conveys hgrants hscope Sample.noon id
  rw [if_pos (by decide)] at hbody
  obtain ⟨token, hreceipt, hpayload⟩ := hbody.receipt
  have hrevoke : runMem (Sample.revokeFirst.prog Sample.service) Sample.store (Sample.host 0) =
      (.err none, (Sample.revokedState.1, Sample.revokedState.2)) := rfl
  refine ⟨_, token, _, runMem_all_cons hrevoke (runMem_all_last ?_), hreceipt.trans ?_, hpayload, ?_, ?_⟩
  · rw [Call.prog, runMem_map]
    exact congrArg (fun out => Reply.http out.1) hout
  · rw [Option.some.injEq, RelyingParty.Receipt.mk.injEq]
    exact ⟨rfl, by decide, rfl, by decide⟩
  · decide
  · decide

/-- The answers before and after the revocation, and a verification after it. -/
theorem bootstrap_ignores_revocation_sample :
    (runMem (Sample.oidc.handle Sample.request) Sample.revokedState.1 (Sample.host 0)).1 =
      (runMem (Sample.oidc.handle Sample.request) Sample.store (Sample.host 0)).1 ∧
    (∃ req sub row, Sample.oidc.config.Grants Sample.request (Sample.host 0) req sub row) ∧
    ∃ tr ps₁ m₁ tr' ps' m', Run MemHandler
      (fun b => ((bif b then .verifyAttestation Sample.env else Sample.revokeFirst : Call)).prog Sample.service)
      .new tr ps₁ m₁ ∧ Run MemHandler ps₁ m₁ tr' ps' m' ∧ ps₁ false = .ret (.err none) ∧
      ps' true ≠ .ret (.err none) := by
  obtain ⟨hsame, hgrants, hlate⟩ := bootstrap_ignores_revocation Sample.service
  obtain ⟨-, -, w', hout⟩ := Sample.oidc.handle_of_issued MemStore.step (s := Sample.store)
    (Sample.request_granted (w := Sample.host 0) rfl) rfl
  refine ⟨hsame _ _ _ _ rfl, ?_, ?_⟩
  · obtain ⟨req, sub, row, c, -, hg, -⟩ := hgrants Sample.request Sample.store (Sample.host 0)
      (congrArg (fun out => out.1.map Response.status) hout)
    exact ⟨req, sub, row, hg⟩
  · obtain ⟨es, es', _, _, -, h, h'⟩ := Run.two runMem_refines
      (fun b => ((bif b then .verifyAttestation Sample.env else Sample.revokeFirst : Call)).prog Sample.service)
      (.new, Sample.host 0) (show false ≠ true by decide) (a := .err none) rfl rfl
    exact ⟨_, _, _, _, _, _, h, h', rfl, hlate _ _ _ _ _ _ _ _ _ h h' false true Sample.revokeFirst (.err none)
      Sample.env rfl rfl rfl rfl (of_map_ne (by decide) es)⟩

end Mem

/-! ## Over a database that fails -/

section Table

variable {T : Sig} {σ : Type} {f : (o : BrokerSig.Op) → Prog T (BrokerSig.Ans o)} {H : Handler T σ}
  {Has : Bytes → σ → Prop} {Failed : Bytes → Event T → Prop} {s s' : σ} {es : List (Event BrokerSig)}
  {fs tr : List (Event T)}

/-- The handler keeps a table of revocations, `Has id s` saying that `id` is in it: no
row is removed, the store `f` writes one before a revocation returns, and finds it by every
lookup that has not failed. -/
structure RevocationTable (f : (o : BrokerSig.Op) → Prog T (BrokerSig.Ans o)) (H : Handler T σ)
    (Has : Bytes → σ → Prop) (Failed : Bytes → Event T → Prop) : Prop where
  kept : ∀ id o s a s', H o s a s' → Has id s → Has id s'
  written : ∀ entry gs, (f (.inl (.revoke entry))).Ends gs (.ok ()) →
    ∃ g ∈ gs, ∀ s s', H g.op s g.ans s' → Has entry.id s'
  found : ∀ id gs, (f (.inl (.isRevoked id))).Ends gs false →
    ∃ g ∈ gs, Failed id g ∨ ∀ s s', Has id s → ¬ H g.op s g.ans s'

/-- A revocation that returned is in the table. -/
theorem RevocationTable.has (hf : RevocationTable f H Has Failed) (h : Exec H s tr s') (hcov : Covers f es fs)
    (hfs : fs ⊆ tr) {entry : RevocationEntry} (he : storeEvent (.revoke entry) (.ok ()) ∈ es) : Has entry.id s' :=
  h.established_of_covers (hf.kept entry.id) hcov hfs he (hf.written entry)

/-- A verification accepts an envelope with a revoked id only if a lookup of it
failed. -/
theorem RevocationTable.failed (hf : RevocationTable f H Has Failed) (h : Exec H s tr s') {id : Bytes}
    (hid : Has id s) {b : Broker} {env : AttestationEnvelope} (hes : (b.verifyAttestation env).Ends es none)
    (hcov : Covers f es fs) (hfs : fs ⊆ tr) (henv : id = env.sigilID ∨ ∃ c ∈ env.capList, id = c.id) :
    ∃ g ∈ fs, Failed id g := by
  obtain ⟨-, hsigil, hcaps, -⟩ := Broker.verifyAttestation_accepts hes
  have he : storeEvent (.isRevoked id) false ∈ es := by
    rcases henv with rfl | ⟨c, hc, rfl⟩
    · exact hsigil
    · exact hcaps c hc
  exact h.excused_of_covers (hf.kept id) hid hcov hfs he (hf.found id)

end Table

/-- A row for the id is in `revocation_entries`. -/
def Db.HasRevocation (id : Bytes) (db : Db) : Prop := ∃ u, uuidIn id = some u ∧ u ∈ db.revokedKeys

theorem Db.Behind.revocationTable {T : Sig} {H : Handler (SqlSig.sum T) Db} (hH : Db.Behind H) {pg : PgStore}
    {f : (o : BrokerSig.Op) → Prog (SqlSig.sum T) (BrokerSig.Ans o)} (hf : ∀ o, f (.inl o) = (pg.impl o).inl T) :
    RevocationTable f H Db.HasRevocation fun id g => ∃ e, g = ⟨.inl (.existsRevocation id), .error e⟩ where
  kept := by
    rintro id o db a db' hstep ⟨u, hu, hmem⟩
    exact ⟨u, hu, (hH.extends hstep).revokedKeys u hmem⟩
  written := by
    intro entry gs h
    rw [hf] at h
    obtain ⟨ans, fs, rfl, hans⟩ := (ends_ask (S := SqlSig.sum T) (o := .inl (.insertRevocation entry.id
      entry.targetType entry.reason entry.revokedAt entry.revokedBy))).mp h
    cases ans with
    | error e => cases (ends_ret.mp hans).2
    | ok k => exact ⟨_, List.mem_cons_self, fun db db' hstep => Db.Faulty.insertRevocation (hH.faulty hstep)⟩
  found := by
    intro id gs h
    rw [hf] at h
    obtain ⟨ans, fs, rfl, hans⟩ := (ends_ask (S := SqlSig.sum T) (o := .inl (.existsRevocation id))).mp h
    refine ⟨_, List.mem_cons_self, ?_⟩
    cases ans with
    | error e => exact .inl ⟨e, rfl⟩
    | ok found =>
      obtain rfl : false = found := (ends_ret.mp hans).2
      right
      rintro db db' ⟨u, hu, hkey⟩ hstep
      exact absurd ((Db.Faulty.existsRevocation hu (hH.faulty hstep)).mpr hkey) (by decide)

section Pg

variable {ι : Type} [DecidableEq ι] {S : Service} {pg : PgStore}
  {ps ps₁ ps' : ι → Prog (SqlSig.sum HostSig) Reply} {db db₁ db' : Db}
  {tr tr' : List (ι × Event (SqlSig.sum HostSig))}

theorem pg_revocationTable (pg : PgStore) : RevocationTable (Prog.lift HostSig pg.impl) PgHandler Db.HasRevocation
    fun id g => ∃ e, g = ⟨.inl (.existsRevocation id), .error e⟩ :=
  pg_behind.revocationTable fun _ => rfl

/-- Revocation survives faults of the database, other than of the lookup: a
verification that starts after a revocation of its sigil or of one of its caps
has returned is not accepted, whichever statements fail, unless a lookup of
that id by this call does. -/
theorem revocation_survives_faults (h : Run PgHandler ps db tr ps₁ db₁)
    (h' : Run PgHandler ps₁ db₁ tr' ps' db') (i j : ι) (call : Call) (id : Bytes) (env : AttestationEnvelope)
    (hcall : call.Revokes id) (hi : ps i = overPg (call.prog S) pg) (hret : ps₁ i = .ret (.err none))
    (hj : ps j = overPg ((Call.verifyAttestation env).prog S) pg) (hstart : of j tr = [])
    (hid : id = env.sigilID ∨ ∃ c ∈ env.capList, id = c.id)
    (hlookup : ∀ e, (j, ⟨.inl (.existsRevocation id), .error e⟩) ∉ tr') : ps' j ≠ .ret (.err none) := by
  intro hacc
  obtain ⟨es, hes, hcov⟩ := Ends.of_interp (hi ▸ h.ends hret)
  obtain ⟨entry, rfl, he⟩ := hcall.ends hes
  have hrevoked := (pg_revocationTable pg).has h.exec hcov (of_sublist i tr).subset he
  obtain ⟨es', hes', hcov'⟩ := Ends.of_interp (hj ▸ (h.append h').ends hacc)
  obtain ⟨r, hes', hr⟩ := ends_map.mp hes'
  cases hr
  rw [of_append, hstart, List.nil_append] at hcov'
  obtain ⟨g, hg, e, rfl⟩ := (pg_revocationTable pg).failed h'.exec hrevoked hes' hcov' (of_sublist j tr').subset hid
  exact hlookup e (mem_of.mp hg)

end Pg

namespace Sample

/-- Over a database: the sigil of an envelope is revoked, and then the envelope
verified. -/
def revokeThenVerify (verify : Bool) : Prog (SqlSig.sum HostSig) Reply :=
  overPg ((bif verify then .verifyAttestation env
    else .revokeSigil (uuid 1) (lit "stolen") (lit "admin") : Call).prog service) ⟨fun _ => 0⟩

theorem revokeThenVerify_true :
    revokeThenVerify true = overPg (Reply.err <$> Broker.verifySigned env) ⟨fun _ => 0⟩ := by
  rw [revokeThenVerify, cond_true, verify_env]

/-- A database that answers everything but the lookup of revocations. -/
def lossy : (o : SqlSig.Op) → Db → SqlSig.Ans o × Db
  | .existsRevocation _, db => (.error (lit "timeout"), db)
  | o, db => Db.step o db

theorem lossy_refines : Refines (Handler.graph (both lossy Host.step)) PgHandler Prod.fst := by
  refine Refines.both fun o db a db' h => ?_
  cases o with
  | existsRevocation id =>
    obtain ⟨rfl, rfl⟩ := Prod.mk.inj h
    exact .inr ⟨_, rfl, .inl rfl⟩
  | _ => exact .inl h

end Sample

/-- The lookups answer, and the envelope is not accepted. -/
theorem revocation_survives_faults_sample :
    ∃ tr ps₁ db₁ tr' ps' db', Run PgHandler Sample.revokeThenVerify .empty tr ps₁ db₁ ∧
      Run PgHandler ps₁ db₁ tr' ps' db' ∧ ps₁ false = .ret (.err none) ∧ ps' true ≠ .ret (.err none) := by
  obtain ⟨es, es', _, _, hx, h, h'⟩ := Run.two runPg_refines Sample.revokeThenVerify (.empty, Sample.host 0)
    (show false ≠ true by decide) (a := .err none) rfl rfl
  refine ⟨_, _, _, _, _, _, h, h', rfl, ?_⟩
  refine revocation_survives_faults (S := Sample.service) h h' false true
    (.revokeSigil (Sample.uuid 1) (lit "stolen") (lit "admin")) (Sample.uuid 1) Sample.env rfl rfl rfl rfl
    (of_map_ne (by decide) es) (.inl rfl) ?_
  intro e he
  obtain ⟨_, he, heq⟩ := List.mem_map.mp he
  cases heq
  refine hx.forall_mem (I := fun _ => True) (fun _ _ _ _ _ _ => trivial) trivial
    (P := fun e' => e' ≠ ⟨.inl (.existsRevocation (Sample.uuid 1)), .error e⟩) ?_ _
    (List.mem_append_right _ he) rfl
  rintro _ ⟨db, w⟩ s - hstep rfl
  cases (Prod.mk.inj hstep).1

/-- The lookups time out, and the envelope is accepted although its sigil is
revoked. -/
theorem revocation_lost :
    ∃ tr ps₁ db₁ tr' ps' db', Run PgHandler Sample.revokeThenVerify .empty tr ps₁ db₁ ∧
      Run PgHandler ps₁ db₁ tr' ps' db' ∧ ps₁ false = .ret (.err none) ∧ of true tr = [] ∧
      ps' true = .ret (.err none) ∧ Sample.env.sigilID = Sample.uuid 1 := by
  obtain ⟨es, es', _, _, -, h, h'⟩ := Run.two Sample.lossy_refines Sample.revokeThenVerify
    (.empty, Sample.host 0) (show false ≠ true by decide) (a := .err none) (b := .err none) rfl
    (by rw [Sample.revokeThenVerify_true]; rfl)
  exact ⟨_, _, _, _, _, _, h, h', rfl, of_map_ne (by decide) es, rfl, rfl⟩

end Hanko
