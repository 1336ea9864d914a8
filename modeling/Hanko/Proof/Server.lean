import Hanko.Impl.Server
import Hanko.Proof.Bootstrap

/-!
# The frame of the HTTP surface

What requests over HTTP can do to a `MemStore`: a request that may revoke
(`Service.Revokes`) appends one revocation, the exchange of a token that is
answered 200 stores one cap, and nothing else is changed (`serve_frame`), in
any sequence of requests (`http_surface_frame`).
-/

namespace Hanko

open Bytes Interact

/-- A program that does not ask the store leaves it as it is. -/
theorem runMem_onHost {α : Type} {p : Prog BrokerSig α} (hp : p.Asks OnHost) (m : MemStore) (w : Host) :
    (runMem p m w).2.1 = m := by
  induction p generalizing w with
  | ret a => rfl
  | ask o k ih =>
    cases o with
    | inl o => cases hp.1
    | inr o => exact ih _ (hp.2 _) _

theorem runMem_bind {α β : Type} (p : Prog BrokerSig α) (f : α → Prog BrokerSig β) (m : MemStore) (w : Host) :
    runMem (p.bind f) m w = runMem (f (runMem p m w).1) (runMem p m w).2.1 (runMem p m w).2.2 :=
  Prog.exec_bind ..

/-! ## Minting -/

/-- If the program is answered 200 it stores a cap, and else it changes nothing. -/
structure Mints (p : Prog BrokerSig (Option Response)) : Prop where
  ok : ∀ m w, (runMem p m w).1.map Response.status = some 200 → ∃ c, (runMem p m w).2.1 = m.saveCap c
  not_ok : ∀ m w, (runMem p m w).1.map Response.status ≠ some 200 → (runMem p m w).2.1 = m

theorem Mints.of_refused {p : Prog BrokerSig (Option Response)} (hp : p.Asks OnHost)
    (hstatus : ∀ m w, (runMem p m w).1.map Response.status ≠ some 200) : Mints p :=
  ⟨fun m w h => absurd h (hstatus m w), fun m w _ => runMem_onHost hp m w⟩

theorem Mints.bind {α : Type} {p : Prog BrokerSig α} {f : α → Prog BrokerSig (Option Response)}
    (hp : p.Asks OnHost) (hf : ∀ a, Mints (f a)) : Mints (p.bind f) := by
  constructor <;> intro m w <;> rw [runMem_bind, runMem_onHost hp]
  · exact (hf _).ok _ _
  · exact (hf _).not_ok _ _

/-- `IssueCap` stores the cap it returns, and nothing if it fails. -/
theorem runMem_issueCap (sigilID scope : Bytes) (expiresAt : Time) (m : MemStore) (w : Host) :
    (∃ c w', runMem (Broker.issueCap sigilID scope expiresAt) m w = (.ok c, (m.saveCap c, w'))) ∨
      ∃ e w', runMem (Broker.issueCap sigilID scope expiresAt) m w = (.error e, (m, w')) := by
  cases hfound : m.getSigil sigilID with
  | error e =>
    refine .inr ⟨e.wrap "broker.IssueCap: sigil not found", w, ?_⟩
    simp only [runMem, Broker.issueCap, askStore_eq, Prog.bind_eq, Prog.ask_bind, Prog.ret_bind, Prog.exec_ask,
      both, MemStore.step, hfound]
    rfl
  | ok s =>
    cases hnonce : w.nonces 0 with
    | error e =>
      refine .inr ⟨e, { w with nonces := fun n => w.nonces (n + 1) }, ?_⟩
      simp only [runMem, Broker.issueCap, askStore_eq, askHost_eq, Prog.bind_eq, Prog.ask_bind, Prog.ret_bind,
        Prog.exec_ask, both, MemStore.step, hfound, Host.step, hnonce]
      rfl
    | ok nonce =>
      refine .inl ⟨⟨w.uuids 0, sigilID, scope, (w.clock 0).utc, expiresAt, some nonce⟩,
        { w with nonces := fun n => w.nonces (n + 1), uuids := fun n => w.uuids (n + 1),
                 clock := fun n => w.clock (n + 1) }, ?_⟩
      simp only [runMem, Broker.issueCap, askStore_eq, askHost_eq, Prog.bind_eq, Prog.ask_bind, Prog.ret_bind,
        Prog.exec_ask, both, MemStore.step, hfound, Host.step, hnonce]
      rfl

namespace OIDCBootstrap

variable (h : OIDCBootstrap)

theorem deny_mints (start : Time) (corrID clientID : Bytes) (failure : String) {status : Nat} (code : String)
    (reason : Bytes) (hstatus : status ≠ 200) :
    Mints (h.deny start corrID clientID failure status code reason) :=
  .of_refused ((h.deny_asks ..).mono fun _ => HostAskedUnder.onHost) fun _ _ heq => hstatus (Option.some.inj heq)

theorem audit_deny_mints (req : BootstrapRequest) (sub : Bytes) (outcome : String) (grantedScope : Bytes)
    (start : Time) (corrID clientID : Bytes) (failure : String) {status : Nat} (code : String) (reason : Bytes)
    (hstatus : status ≠ 200) :
    Mints ((h.audit req sub outcome grantedScope).bind fun _ =>
      h.deny start corrID clientID failure status code reason) :=
  .bind ((h.audit_asks corrID ..).mono fun _ => HostAskedUnder.onHost) fun _ => h.deny_mints _ _ _ _ _ _ hstatus

theorem runMem_granted (start : Time) (corrID : Bytes) (req : BootstrapRequest) (sub : Bytes)
    (row : OIDCPolicyRow) (expiresAt : Time) (capTok : CapabilityToken) (m : MemStore) (w : Host) :
    (runMem (h.granted start corrID req sub row expiresAt capTok) m w).1.map Response.status = some 200 := by
  simp only [granted, Prog.bind_eq, runMem_bind]
  rfl

theorem mint_mints (start : Time) (corrID : Bytes) (req : BootstrapRequest) (sub : Bytes) (row : OIDCPolicyRow) :
    Mints (h.mint start corrID req sub row) := by
  rw [mint_eq]
  refine .bind ⟨rfl, fun _ => trivial⟩ fun now => ?_
  have hkeep c := runMem_onHost ((h.granted_asks start corrID req sub row
    (now.add (grantedTTL row req.requestedTTL)) c).mono fun _ => HostAskedUnder.onHost)
  constructor <;> intro m w <;> dsimp only <;> rw [runMem_bind] <;>
    obtain ⟨c, w', hc⟩ | ⟨e, w', he⟩ := runMem_issueCap row.mappedSigil (joinSpace req.scopes)
      (now.add (grantedTTL row req.requestedTTL)) m w
  · intro _; exact ⟨c, by rw [hc]; exact hkeep ..⟩
  · intro hok
    rw [he] at hok
    exact absurd (Option.some.inj hok) (show 500 ≠ 200 by decide)
  · intro hne
    rw [hc] at hne
    exact absurd (h.runMem_granted ..) hne
  · intro _
    rw [he]
    exact runMem_onHost ((h.deny_asks ..).mono fun _ => HostAskedUnder.onHost) m w'

theorem authorize_mints (start : Time) (corrID : Bytes) (req : BootstrapRequest) (sub : Bytes) :
    Mints (h.authorize start corrID req sub) := by
  rw [authorize]
  split
  · exact h.audit_deny_mints _ _ _ _ _ _ _ _ _ _ (by decide)
  · split
    · exact h.mint_mints ..
    · exact h.audit_deny_mints _ _ _ _ _ _ _ _ _ _ (by decide)

theorem refuse_mints (r : Request) (start : Time) (corrID : Bytes) : Mints (h.refuse r start corrID) := by
  refine .of_refused ((h.refuse_asks ..).mono fun _ => HostAskedUnder.onHost) fun m w => ?_
  rw [refuse]
  cases clientIP r with
  | none => exact nofun
  | some ip => exact fun heq => absurd (Option.some.inj heq) (show 401 ≠ 200 by decide)

theorem exchange_mints (r : Request) (start : Time) (corrID : Bytes) (req : BootstrapRequest) :
    Mints (h.exchange r start corrID req) := by
  rw [exchange]
  split
  · exact h.deny_mints _ _ _ _ _ _ (by decide)
  split
  · exact h.deny_mints _ _ _ _ _ _ (by decide)
  split
  · exact h.deny_mints _ _ _ _ _ _ (by decide)
  split
  · exact h.deny_mints _ _ _ _ _ _ (by decide)
  · refine .bind (p := askHost _) ⟨rfl, fun _ => trivial⟩ fun validated => ?_
    cases validated with
    | ok sub => exact h.authorize_mints ..
    | error e => exact h.refuse_mints r start corrID

theorem handle_mints (r : Request) : Mints (h.handle r) := by
  rw [handle_eq]
  change Mints ((askHost .timeNow).bind fun start => if r.method ≠ lit "POST" then .ret (some methodNotAllowed)
    else (corrID r).bind fun corrID => h.receive r start corrID)
  refine .bind ⟨rfl, fun _ => trivial⟩ fun start => ?_
  split
  · exact .of_refused trivial fun _ _ => show some 405 ≠ some 200 by decide
  · refine .bind ?_ fun corrID => ?_
    · rw [OIDCBootstrap.corrID]
      split
      · exact ⟨rfl, fun _ => trivial⟩
      · trivial
    · refine .bind (p := askHost .timeNow) ⟨rfl, fun _ => trivial⟩ fun ts => ?_
      refine .bind (p := askHost (.publish ..)) ⟨rfl, fun _ => trivial⟩ fun _ => ?_
      split
      · exact h.deny_mints _ _ _ _ _ _ (by decide)
      · exact h.exchange_mints ..

end OIDCBootstrap

/-! ## Revoking -/

/-- A request that `handleAdminRevoke` acts upon. -/
structure HTTPServer.MayRevoke (s : HTTPServer) (r : Request) (req : RevokeRequest) : Prop where
  configured : s.adminSecret ≠ []
  secret : r.adminSecret = s.adminSecret
  post : r.method = lit "POST"
  decodes : decodeRevokeRequest r.body = some req
  sigilID : req.sigilID ≠ []
  revokedBy : req.revokedBy ≠ []

namespace HTTPServer

variable (s : HTTPServer) {r : Request} (m : MemStore) (w : Host)

theorem runMem_adminRevoke {req : RevokeRequest} (h : s.MayRevoke r req) :
    (runMem (s.adminRevoke r) m w).1.status = 204 ∧
      ∃ entry, entry.id = req.sigilID ∧ (runMem (s.adminRevoke r) m w).2.1 = m.revoke entry := by
  rw [adminRevoke, requireAdminSecret, if_neg (by simp [h.configured, h.secret]), handleAdminRevoke,
    if_neg (not_not.mpr h.post), h.decodes]
  simp only [h.sigilID, h.revokedBy, ↓reduceIte]
  exact ⟨rfl, _, rfl, rfl⟩

/-- Any other request is refused before the store is asked. -/
theorem adminRevoke_asks (h : ¬ ∃ req, s.MayRevoke r req) : (s.adminRevoke r).Asks OnHost := by
  rw [adminRevoke, requireAdminSecret]
  split
  · trivial
  rename_i hsecret
  simp only [not_or, ne_eq, not_not] at hsecret
  rw [handleAdminRevoke]
  split
  · trivial
  rename_i hpost
  split
  · trivial
  rename_i req hreq
  split
  · trivial
  rename_i hsigil
  split
  · trivial
  rename_i hby
  exact absurd ⟨req, hsecret.1, hsecret.2, not_not.mp hpost, hreq, hsigil, hby⟩ h

end HTTPServer

/-! ## Routes -/

/-- The request gets to the handler of a pattern. -/
def Inbound.To (r : Inbound) (pattern : Bytes) : Prop :=
  r.requestURI ≠ lit "*" ∧ (r.method = lit "CONNECT" ∨ cleanPath r.escapedPath = r.escapedPath) ∧
    segments pattern = segments r.escapedPath

namespace ServeMux

variable {mux : ServeMux} {route : Bytes × (Request → Prog BrokerSig (Option Response))} {r : Inbound}

theorem match?_eq (hmux : (mux.map fun a => segments a.1).Nodup) (hroute : route ∈ mux)
    {path : Bytes} (hpath : segments route.1 = segments path) : mux.match? path = some route.2 := by
  rw [match?]
  induction mux with
  | nil => cases hroute
  | cons a mux ih =>
    obtain ⟨ha, hmux⟩ := List.nodup_cons.mp hmux
    rcases List.mem_cons.mp hroute with rfl | hmem
    · rw [List.find?_cons_of_pos (by simpa using hpath)]; rfl
    · have hne : segments a.1 ≠ segments path := fun heq =>
        ha (List.mem_map.mpr ⟨route, hmem, hpath.trans heq.symm⟩)
      rw [List.find?_cons_of_neg (by simpa using hne)]
      exact ih hmux hmem

/-- A request for a pattern gets to its handler. -/
theorem serveHTTP_of_to (hmux : (mux.map fun a => segments a.1).Nodup) (hroute : route ∈ mux)
    (hto : r.To route.1) : mux.serveHTTP r = Served.response <$> route.2 r.toRequest := by
  obtain ⟨hstar, hclean, hsegs⟩ := hto
  rw [serveHTTP, if_neg hstar, if_neg (by tauto), match?_eq hmux hroute hsegs]

/-- A request for no pattern gets to no handler. -/
theorem serveHTTP_of_not_to (hto : ∀ route ∈ mux, ¬ r.To route.1) : ∃ out, mux.serveHTTP r = .ret out := by
  rw [serveHTTP]
  split
  · exact ⟨_, rfl⟩
  rename_i hstar
  split
  · exact ⟨_, rfl⟩
  rename_i hclean
  have hnone : mux.match? r.escapedPath = none := by
    rw [match?, Option.map_eq_none_iff, List.find?_eq_none]
    intro route hroute hsegs
    exact hto route hroute ⟨hstar, by tauto, of_decide_eq_true hsegs⟩
  rw [hnone]
  exact ⟨_, rfl⟩

end ServeMux

/-- The request may revoke, over HTTP. -/
def Service.Revokes (S : Service) (r : Inbound) (req : RevokeRequest) : Prop :=
  r.To (lit "/admin/revoke") ∧ S.server.MayRevoke r.toRequest req

/-- What a request may do to a store. -/
structure Frame (S : Service) (r : Inbound) (m : MemStore) (out : Served) (m' : MemStore) : Prop where
  sigils : m'.sigils = m.sigils
  nonces : m'.nonces = m.nonces
  revoked : ∀ req, S.Revokes r req →
    out.Status 204 ∧ ∃ entry, entry.id = req.sigilID ∧ m'.revs = m.revs ++ [entry]
  notRevoked : (¬ ∃ req, S.Revokes r req) → m'.revs = m.revs
  minted : r.To OIDCBootstrap.endpoint → out.Status 200 → ∃ c, m'.caps = Function.update m.caps c.id (some c)
  notMinted : ¬ (r.To OIDCBootstrap.endpoint ∧ out.Status 200) → m'.caps = m.caps

/-- No two patterns are for one path. -/
theorem HTTPServer.mux_nodup (s : HTTPServer) (oidc : OIDCBootstrap) :
    ((s.mux oidc).map fun a => segments a.1).Nodup := by
  change [segments (lit "/healthz"), segments (lit "/api/v1/jwks"), segments (lit "/.well-known/jwks.json"),
    segments (lit "/admin/revoke"), segments (lit "/api/v1/sigils/bootstrap-oidc")].Nodup
  decide +kernel

theorem Inbound.To.not_bootstrap {r : Inbound} (h : r.To (lit "/admin/revoke")) : ¬ r.To OIDCBootstrap.endpoint :=
  fun h' => absurd (h.2.2.trans h'.2.2.symm) (by decide +kernel)

/-- A request that changes nothing, if it is for neither of two handlers. -/
theorem Frame.of_not_to {S : Service} {r : Inbound} {m : MemStore} {out : Served}
    (hadmin : ¬ r.To (lit "/admin/revoke")) (hmint : ¬ r.To OIDCBootstrap.endpoint) : Frame S r m out m where
  sigils := rfl
  nonces := rfl
  revoked _ h := absurd h.1 hadmin
  notRevoked _ := rfl
  minted h := absurd h hmint
  notMinted _ := rfl

section

variable (S : Service) {r : Inbound} (m : MemStore) (w : Host)

/-- A request for a pattern of the server. -/
theorem serve_eq (pattern : Bytes) (handler : Request → Prog BrokerSig (Option Response))
    (hroute : (pattern, handler) ∈ S.server.mux S.oidc) (hto : r.To pattern) :
    runMem (S.serve r) m w =
      (.response (runMem (handler r.toRequest) m w).1, (runMem (handler r.toRequest) m w).2) := by
  rw [Service.serve, ServeMux.serveHTTP_of_to (S.server.mux_nodup S.oidc) hroute hto, runMem_map]

theorem serve_admin (hto : r.To (lit "/admin/revoke")) :
    Frame S r m (runMem (S.serve r) m w).1 (runMem (S.serve r) m w).2.1 := by
  have hboot := Inbound.To.not_bootstrap hto
  rw [serve_eq S m w _ (fun r => some <$> S.server.adminRevoke r) (by simp [HTTPServer.mux]) hto, runMem_map]
  by_cases hmay : ∃ req, S.server.MayRevoke r.toRequest req
  · obtain ⟨req, hreq⟩ := hmay
    obtain ⟨hstatus, entry, hid, hm⟩ := S.server.runMem_adminRevoke m w hreq
    refine ⟨by rw [hm]; rfl, by rw [hm]; rfl, ?_, fun h => absurd ⟨req, hto, hreq⟩ h,
      fun h => absurd h hboot, fun _ => by rw [hm]; rfl⟩
    rintro req' ⟨-, hreq'⟩
    obtain rfl : req = req' := Option.some.inj (hreq.decodes.symm.trans hreq'.decodes)
    exact ⟨congrArg some hstatus, entry, hid, by rw [hm]; rfl⟩
  · rw [runMem_onHost (S.server.adminRevoke_asks hmay)]
    exact ⟨rfl, rfl, fun req h => absurd ⟨req, h.2⟩ hmay, fun _ => rfl, fun h => absurd h hboot, fun _ => rfl⟩

theorem serve_bootstrap (hto : r.To OIDCBootstrap.endpoint) :
    Frame S r m (runMem (S.serve r) m w).1 (runMem (S.serve r) m w).2.1 := by
  have hadmin : ¬ r.To (lit "/admin/revoke") := fun h => (Inbound.To.not_bootstrap h) hto
  rw [serve_eq S m w _ S.oidc.handle (by simp [HTTPServer.mux, OIDCBootstrap.endpoint]) hto]
  have hmints := S.oidc.handle_mints r.toRequest
  by_cases hok : (runMem (S.oidc.handle r.toRequest) m w).1.map Response.status = some 200
  · obtain ⟨c, hc⟩ := hmints.ok m w hok
    rw [hc]
    exact ⟨rfl, rfl, fun _ h => absurd h.1 hadmin, fun _ => rfl, fun _ _ => ⟨c, rfl⟩,
      fun h => absurd ⟨hto, hok⟩ h⟩
  · rw [hmints.not_ok m w hok]
    exact ⟨rfl, rfl, fun _ h => absurd h.1 hadmin, fun _ => rfl, fun _ h => absurd h hok, fun _ => rfl⟩

/-- The handlers of the other patterns do not ask the store. -/
theorem serve_frame (r : Inbound) : Frame S r m (runMem (S.serve r) m w).1 (runMem (S.serve r) m w).2.1 := by
  by_cases hadmin : r.To (lit "/admin/revoke")
  · exact serve_admin S m w hadmin
  by_cases hboot : r.To OIDCBootstrap.endpoint
  · exact serve_bootstrap S m w hboot
  suffices (S.serve r).Asks OnHost by
    rw [runMem_onHost this]
    exact .of_not_to hadmin hboot
  by_cases hto : ∃ route ∈ S.server.mux S.oidc, r.To route.1
  · obtain ⟨⟨pattern, handler⟩, hroute, hto⟩ := hto
    rw [Service.serve, ServeMux.serveHTTP_of_to (S.server.mux_nodup S.oidc) hroute hto]
    simp only [HTTPServer.mux, List.mem_cons, Prod.mk.injEq, List.not_mem_nil, or_false] at hroute
    rcases hroute with ⟨rfl, rfl⟩ | ⟨rfl, rfl⟩ | ⟨rfl, rfl⟩ | ⟨rfl, rfl⟩ | ⟨rfl, rfl⟩
    · trivial
    · trivial
    · trivial
    · exact absurd hto hadmin
    · exact absurd hto hboot
  · push Not at hto
    obtain ⟨out, hout⟩ := ServeMux.serveHTTP_of_not_to hto
    rw [Service.serve, hout]
    trivial

end

/-! ## Sequences of requests -/

/-- The store and the surroundings after some requests. -/
def Service.after (S : Service) (m : MemStore) (w : Host) (rs : List Inbound) : MemStore × Host :=
  (runMem (.all (rs.map S.serve)) m w).2

theorem Service.after_snoc (S : Service) (m : MemStore) (w : Host) (rs : List Inbound) (r : Inbound) :
    S.after m w (rs ++ [r]) = (runMem (S.serve r) (S.after m w rs).1 (S.after m w rs).2).2 := by
  rw [after, List.map_append]
  exact Prog.exec_all_snoc ..

/-- In any sequence of requests over HTTP each does to the store what it may,
so that sigils and nonces stay what they are, and without a configured secret
the revocations. -/
theorem http_surface_frame (S : Service) (m : MemStore) (w : Host) (rs : List Inbound) :
    (∀ r, Frame S r (S.after m w rs).1 (runMem (S.serve r) (S.after m w rs).1 (S.after m w rs).2).1
      (S.after m w (rs ++ [r])).1) ∧
    (S.after m w rs).1.sigils = m.sigils ∧ (S.after m w rs).1.nonces = m.nonces ∧
    (S.server.adminSecret = [] → (S.after m w rs).1.revs = m.revs) := by
  have hstep rs r : Frame S r (S.after m w rs).1 (runMem (S.serve r) (S.after m w rs).1 (S.after m w rs).2).1
      (S.after m w (rs ++ [r])).1 := by
    rw [S.after_snoc]
    exact serve_frame S _ _ r
  refine ⟨hstep rs, ?_⟩
  induction rs using List.reverseRecOn with
  | nil => exact ⟨rfl, rfl, fun _ => rfl⟩
  | append_singleton rs r ih =>
    obtain ⟨hsigils, hnonces, hrevs⟩ := ih
    refine ⟨(hstep rs r).sigils.trans hsigils, (hstep rs r).nonces.trans hnonces, fun hsecret => ?_⟩
    refine ((hstep rs r).notRevoked ?_).trans (hrevs hsecret)
    rintro ⟨req, -, hreq⟩
    exact hreq.configured hsecret

namespace Sample

def revokeTree : Json := .obj [(lit "sigil_id", .str (lit "s")), (lit "revoked_by", .str (lit "admin"))]

/-- A request to revoke the sigil `s`. -/
def revokeRequest : Inbound :=
  { method := lit "POST", corrID := [], forwardedFor := [], adminSecret := lit "secret", remoteAddr := [],
    body := Json.print Json.compact 0 (revokeTree.mapStr Json.quote), requestURI := lit "/admin/revoke",
    escapedPath := lit "/admin/revoke", http11 := true }

theorem revokeRequest_revokes : service.Revokes revokeRequest ⟨lit "s", [], lit "admin"⟩ := by
  refine ⟨⟨by decide, .inr (by decide +kernel), rfl⟩, by decide, rfl, rfl, ?_, by decide, by decide⟩
  have hlit := Json.isLit_quote
  have hwf : Json.WF (revokeTree.mapStr Json.quote) := ⟨hlit _, hlit _, hlit _, hlit _, trivial⟩
  have hparse := Json.parseFirst_print Json.compact_ok hwf (by decide) (r := []) (by simp [Json.NumEnd])
  rw [List.append_nil] at hparse
  rw [decodeRevokeRequest, revokeRequest, hparse]
  rfl

/-- The same service, its secret not configured. -/
def unconfigured : Service := ⟨broker, oidc, ⟨broker, []⟩, service.oidc_broker, rfl⟩

end Sample

/-- A request that revokes, and the same request where no secret is configured. -/
theorem http_surface_frame_sample :
    (∃ entry, entry.id = lit "s" ∧
      (Sample.service.after .new (Sample.host 0) [Sample.revokeRequest]).1.revs = [entry]) ∧
    (Sample.unconfigured.after .new (Sample.host 0) [Sample.revokeRequest]).1.revs = MemStore.new.revs := by
  have hframe := (http_surface_frame Sample.service .new (Sample.host 0) []).1 Sample.revokeRequest
  obtain ⟨-, entry, hid, hrevs⟩ := hframe.revoked _ Sample.revokeRequest_revokes
  have hnew : (Sample.service.after .new (Sample.host 0) []).1.revs = [] := rfl
  rw [List.nil_append, hnew, List.nil_append] at hrevs
  exact ⟨⟨entry, hid, hrevs⟩,
    (http_surface_frame Sample.unconfigured .new (Sample.host 0) [Sample.revokeRequest]).2.2.2 rfl⟩

end Hanko
