import Hanko.Impl.Subject
import Hanko.Proof.Issue
import Hanko.Proof.Tokens

/-!
# The OIDC bootstrap handler

A request is answered with a cap token iff it passes every guard of `Handle`
(`OIDCConfig.Grants`) and `IssueCap` succeeds; the cap that is read from the response
is then what the store has gained (`bootstrap_decides`). Of the store the handler asks for the
sigil and to save the cap, and nothing else (`handle_asks`): it does not look at
revocations, which is why a revoked sigil still gets tokens
(`bootstrap_ignores_revocation`).
-/

namespace Hanko

open Bytes Interact

/-! ## What it asks -/

/-- The questions of the handler: of the store it asks for a sigil, and to save
a cap; and it has cap tokens signed. -/
def OIDCBootstrap.Question (h : OIDCBootstrap) : BrokerSig.Op → Prop
  | .inl (.getSigil _) => True
  | .inl (.saveCap _) => True
  | .inl _ => False
  | .inr (.sign message) => ∃ claims, message = signingString (brokerKid h.broker) claims
  | .inr _ => True

/-- A question to the surroundings. -/
def OnHost (o : BrokerSig.Op) : Prop := o.isRight = true

/-- A question of the handler that is not for the store. -/
def OIDCBootstrap.HostQuestion (h : OIDCBootstrap) (o : BrokerSig.Op) : Prop := OnHost o ∧ h.Question o

/-- The questions that do not count a check of revocations. -/
def Uncounted : BrokerSig.Op → Prop
  | .inr .addRevocationAllowed => False
  | .inr .addRevocationDenied => False
  | _ => True

/-- The handler's questions count nothing. -/
def OIDCBootstrap.Asked (h : OIDCBootstrap) (o : BrokerSig.Op) : Prop := h.Question o ∧ Uncounted o

def OIDCBootstrap.HostAsked (h : OIDCBootstrap) (o : BrokerSig.Op) : Prop := h.HostQuestion o ∧ Uncounted o

/-- A question that publishes, if anything, under a correlation id. -/
def OIDCBootstrap.PublishesUnder (h : OIDCBootstrap) (corrID : Bytes) : BrokerSig.Op → Prop
  | .inr (.publish s _) => ∃ a : Action, s = oidcSubject h.workspaceID a.text corrID
  | _ => True

/-- The questions of the handler once it has a correlation id. -/
def OIDCBootstrap.AskedUnder (h : OIDCBootstrap) (corrID : Bytes) (o : BrokerSig.Op) : Prop :=
  h.Asked o ∧ h.PublishesUnder corrID o

def OIDCBootstrap.HostAskedUnder (h : OIDCBootstrap) (corrID : Bytes) (o : BrokerSig.Op) : Prop :=
  h.HostAsked o ∧ h.PublishesUnder corrID o

theorem OIDCBootstrap.HostAskedUnder.onHost {h : OIDCBootstrap} {corrID : Bytes} {o : BrokerSig.Op}
    (ho : h.HostAskedUnder corrID o) : OnHost o :=
  ho.1.1.1

theorem OIDCBootstrap.HostAskedUnder.askedUnder {h : OIDCBootstrap} {corrID : Bytes} {o : BrokerSig.Op}
    (ho : h.HostAskedUnder corrID o) : h.AskedUnder corrID o :=
  ⟨⟨ho.1.1.2, ho.1.2⟩, ho.2⟩

/-- The guards of `Handle`: the provider's token is valid for `sub`, whom the
policy grants the scopes of the request by `row`. -/
structure OIDCConfig.Grants (cfg : OIDCConfig) (r : Request) (w : Host) (req : BootstrapRequest) (sub : Bytes)
    (row : OIDCPolicyRow) : Prop where
  post : r.method = lit "POST"
  decodes : decodeBootstrapRequest r.body = some req
  token : req.oidcToken ≠ []
  issuer : req.oidcIssuer ≠ []
  audience : req.audience ≠ []
  configured : req.audience = cfg.audience
  scopes : req.scopes ≠ []
  validates : ∃ jwksURL, cfg.issuerJWKSURLs.lookup req.oidcIssuer = some jwksURL ∧
    w.validate req.oidcToken jwksURL req.oidcIssuer req.audience (w.oidcClock 0) = .ok sub
  policy : ∃ policy, cfg.policy = some policy ∧ policy.lookup req.oidcIssuer sub = some row
  enabled : row.enabled = true
  allowed : ∀ scope ∈ req.scopes, scope ∈ row.allowedScopes

namespace OIDCBootstrap

variable (h : OIDCBootstrap)

/-- The configuration of a handler. -/
def config : OIDCConfig := ⟨some h.policy, h.issuerJWKSURLs, h.audience, h.auditPath, h.workspaceID⟩

theorem publishFail_asks (start : Time) (corrID clientID : Bytes) (reason : String) :
    (h.publishFail start corrID clientID reason).Asks (h.HostAskedUnder corrID) := by
  refine ⟨⟨⟨⟨rfl, trivial⟩, trivial⟩, trivial⟩, fun _ => ⟨⟨⟨⟨rfl, trivial⟩, trivial⟩, trivial⟩, fun _ => ?_⟩⟩
  exact ⟨⟨⟨⟨rfl, trivial⟩, trivial⟩, .failed, rfl⟩, fun _ => trivial⟩

theorem deny_asks (start : Time) (corrID clientID : Bytes) (failure : String) (status : Nat) (code : String)
    (reason : Bytes) : (h.deny start corrID clientID failure status code reason).Asks (h.HostAskedUnder corrID) :=
  asks_bind (h.publishFail_asks ..) fun _ => trivial

theorem publishSuccess_asks (start : Time) (corrID : Bytes) (row : OIDCPolicyRow) (sub : Bytes)
    (scopes : List Bytes) (a : Action) :
    (h.publishSuccess start corrID row sub scopes a.text).Asks (h.HostAskedUnder corrID) := by
  refine ⟨⟨⟨⟨rfl, trivial⟩, trivial⟩, trivial⟩, fun _ => ⟨⟨⟨⟨rfl, trivial⟩, trivial⟩, trivial⟩, fun _ => ?_⟩⟩
  exact ⟨⟨⟨⟨rfl, trivial⟩, trivial⟩, a, rfl⟩, fun _ => trivial⟩

theorem audit_asks (corrID : Bytes) (req : BootstrapRequest) (sub : Bytes) (outcome : String) (grantedScope : Bytes) :
    (h.audit req sub outcome grantedScope).Asks (h.HostAskedUnder corrID) := by
  rw [audit]
  split
  · exact ⟨⟨⟨⟨rfl, trivial⟩, trivial⟩, trivial⟩, fun _ => ⟨⟨⟨⟨rfl, trivial⟩, trivial⟩, trivial⟩, fun _ => trivial⟩⟩
  · trivial

theorem signCapJWT_asks (corrID : Bytes) (cap : CapabilityToken) (row : OIDCPolicyRow) (scope : Bytes)
    (expiresAt : Time) : (h.signCapJWT cap row scope expiresAt).Asks (h.HostAskedUnder corrID) :=
  ⟨⟨⟨⟨rfl, trivial⟩, trivial⟩, trivial⟩, fun _ => ⟨⟨⟨⟨rfl, _, rfl⟩, trivial⟩, trivial⟩, fun _ => trivial⟩⟩

/-- `Handle`, once the cap is issued. -/
def granted (start : Time) (corrID : Bytes) (req : BootstrapRequest) (sub : Bytes) (row : OIDCPolicyRow)
    (expiresAt : Time) (capTok : CapabilityToken) : Prog BrokerSig (Option Response) := do
  h.publishSuccess start corrID row sub req.scopes "token_issued"
  let jws ← h.signCapJWT capTok row (joinSpace req.scopes) expiresAt
  h.audit req sub "granted" (joinSpace req.scopes)
  h.publishSuccess start corrID row sub req.scopes "code_issued"
  return some ⟨200, headers corrID, responseBody jws expiresAt (joinSpace req.scopes) row.mappedSigil⟩

theorem granted_asks (start : Time) (corrID : Bytes) (req : BootstrapRequest) (sub : Bytes) (row : OIDCPolicyRow)
    (expiresAt : Time) (capTok : CapabilityToken) :
    (h.granted start corrID req sub row expiresAt capTok).Asks (h.HostAskedUnder corrID) := by
  refine asks_bind (h.publishSuccess_asks start corrID row sub req.scopes .tokenIssued) fun _ => ?_
  refine asks_bind (h.signCapJWT_asks ..) fun _ => ?_
  refine asks_bind (h.audit_asks ..) fun _ => ?_
  exact asks_bind (h.publishSuccess_asks start corrID row sub req.scopes .codeIssued) fun _ => trivial

theorem issueCap_asks (corrID sigilID scope : Bytes) (expiresAt : Time) :
    (Broker.issueCap sigilID scope expiresAt).Asks (h.AskedUnder corrID) := by
  refine ⟨⟨⟨trivial, trivial⟩, trivial⟩, fun found => ?_⟩
  cases found with
  | error e => trivial
  | ok s =>
    refine ⟨⟨⟨trivial, trivial⟩, trivial⟩, fun nonce => ?_⟩
    cases nonce with
    | error e => trivial
    | ok nonce =>
      refine ⟨⟨⟨trivial, trivial⟩, trivial⟩, fun _ => ⟨⟨⟨trivial, trivial⟩, trivial⟩, fun _ => ?_⟩⟩
      refine ⟨⟨⟨trivial, trivial⟩, trivial⟩, fun saved => ?_⟩
      cases saved with
      | error e => trivial
      | ok u => trivial

theorem mint_eq (start : Time) (corrID : Bytes) (req : BootstrapRequest) (sub : Bytes) (row : OIDCPolicyRow) :
    h.mint start corrID req sub row = (askHost .cfgNow).bind fun now =>
      let expiresAt := now.add (grantedTTL row req.requestedTTL)
      (Broker.issueCap row.mappedSigil (joinSpace req.scopes) expiresAt).bind fun
        | .error _ => h.deny start corrID row.mappedSigil "mint_failed" 500 "mint_failed" (lit "internal error")
        | .ok capTok => h.granted start corrID req sub row expiresAt capTok :=
  rfl

theorem mint_asks (start : Time) (corrID : Bytes) (req : BootstrapRequest) (sub : Bytes) (row : OIDCPolicyRow) :
    (h.mint start corrID req sub row).Asks (h.AskedUnder corrID) := by
  rw [mint_eq]
  refine asks_bind ⟨⟨⟨trivial, trivial⟩, trivial⟩, fun _ => trivial⟩ fun now => ?_
  refine asks_bind (h.issueCap_asks ..) fun r => ?_
  cases r with
  | error e => exact (h.deny_asks ..).mono fun _ => HostAskedUnder.askedUnder
  | ok c => exact (h.granted_asks ..).mono fun _ => HostAskedUnder.askedUnder

/-- A refusal that is audited. -/
theorem audit_deny_asks (req : BootstrapRequest) (sub : Bytes) (outcome : String) (grantedScope : Bytes)
    (start : Time) (corrID clientID : Bytes) (failure : String) (status : Nat) (code : String) (reason : Bytes) :
    ((h.audit req sub outcome grantedScope).bind fun _ =>
      h.deny start corrID clientID failure status code reason).Asks (h.HostAskedUnder corrID) :=
  asks_bind (h.audit_asks ..) fun _ => h.deny_asks ..

theorem authorize_asks (start : Time) (corrID : Bytes) (req : BootstrapRequest) (sub : Bytes) :
    (h.authorize start corrID req sub).Asks (h.AskedUnder corrID) := by
  rw [authorize]
  split
  · exact (h.audit_deny_asks ..).mono fun _ => HostAskedUnder.askedUnder
  · split
    · exact h.mint_asks ..
    · exact (h.audit_deny_asks ..).mono fun _ => HostAskedUnder.askedUnder

/-- A refusal of an invalid token, of which the source is counted. -/
def refuse (r : Request) (start : Time) (corrID : Bytes) : Prog BrokerSig (Option Response) := do
  h.publishFail start corrID [] "invalid_token"
  match clientIP r with
  | none => return none
  | some ip =>
    askHost (.recordFailure ip)
    return some (writeOIDCErr corrID 401 "invalid_token" (lit "token validation failed"))

theorem refuse_asks (r : Request) (start : Time) (corrID : Bytes) :
    (h.refuse r start corrID).Asks (h.HostAskedUnder corrID) := by
  refine asks_bind (h.publishFail_asks ..) fun _ => ?_
  split
  · trivial
  · exact ⟨⟨⟨⟨rfl, trivial⟩, trivial⟩, trivial⟩, fun _ => trivial⟩

theorem exchange_asks (r : Request) (start : Time) (corrID : Bytes) (req : BootstrapRequest) :
    (h.exchange r start corrID req).Asks (h.AskedUnder corrID) := by
  have hdeny clientID failure status code reason :
      (h.deny start corrID clientID failure status code reason).Asks (h.AskedUnder corrID) :=
    (h.deny_asks ..).mono fun _ => HostAskedUnder.askedUnder
  rw [exchange]
  split
  · exact hdeny ..
  split
  · exact hdeny ..
  split
  · exact hdeny ..
  split
  · exact hdeny ..
  · refine ⟨⟨⟨trivial, trivial⟩, trivial⟩, fun validated => ?_⟩
    cases validated with
    | ok sub => exact h.authorize_asks ..
    | error e => exact (h.refuse_asks r start corrID).mono fun _ => HostAskedUnder.askedUnder

/-- The correlation id of a request, or a new one. -/
def corrID (r : Request) : Prog BrokerSig Bytes := if r.corrID = [] then askHost .newUUID else .ret r.corrID

/-- `Handle`, once the correlation id is known. -/
def receive (h : OIDCBootstrap) (r : Request) (start : Time) (corrID : Bytes) :
    Prog BrokerSig (Option Response) := do
  let ts ← askHost .timeNow
  askHost (.publish (oidcSubject h.workspaceID "auth_request" corrID) (.oidc
    { ts := ts.utc.format, corrID := corrID, workspaceID := h.workspaceID, endpoint := endpoint,
      outcome := lit "pending" }))
  match decodeBootstrapRequest r.body with
  | none =>
    h.deny start corrID [] "invalid_request" 400 "invalid_request" (lit "request body could not be decoded")
  | some req => h.exchange r start corrID req

theorem receive_asks (r : Request) (start : Time) (corrID : Bytes) :
    (h.receive r start corrID).Asks (h.AskedUnder corrID) := by
  simp only [receive, askHost_eq, Prog.bind_eq, Prog.ask_bind, Prog.ret_bind, asks_ask]
  refine ⟨⟨⟨trivial, trivial⟩, trivial⟩, fun _ => ⟨⟨⟨trivial, trivial⟩, .authRequest, rfl⟩, fun _ => ?_⟩⟩
  split
  · exact (h.deny_asks ..).mono fun _ => HostAskedUnder.askedUnder
  · exact h.exchange_asks ..

theorem handle_eq (r : Request) :
    h.handle r = .ask (S := BrokerSig) (.inr .timeNow) fun start =>
      if r.method ≠ lit "POST" then .ret (some methodNotAllowed)
      else (corrID r).bind fun corrID => h.receive r start corrID := by
  simp only [handle, corrID, askHost_eq, Prog.bind_eq, Prog.ask_bind, Prog.ret_bind, Prog.pure_eq]
  congr 1
  funext start
  split
  · rfl
  · split <;> rfl

/-- The handler asks nothing else. -/
theorem handle_asked (r : Request) : (h.handle r).Asks h.Asked := by
  rw [handle_eq]
  refine ⟨⟨trivial, trivial⟩, fun start => ?_⟩
  split
  · trivial
  · refine asks_bind ?_ fun corrID => ?_
    · rw [OIDCBootstrap.corrID]
      split
      · exact ⟨⟨trivial, trivial⟩, fun _ => trivial⟩
      · trivial
    · exact (h.receive_asks r start corrID).mono fun _ => And.left

theorem handle_asks (r : Request) : (h.handle r).Asks h.Question := (h.handle_asked r).mono fun _ => And.left

/-! ## A request that runs alone

The store is any function `step` that answers its questions. -/

/-- The token of a cap, issued at `now` and signed by `sign`. -/
def capToken (h : OIDCBootstrap) (c : CapabilityToken) (now : Time) (sign : Bytes → Bytes) : Bytes :=
  let input := signingString (brokerKid h.broker) (capClaims c.sigilID c.scope c.id now.sec c.expiresAt.sec)
  input ++ 46 :: rawURLEncode (sign input)

section Exec

variable {σ : Type} (step : (o : StoreSig.Op) → σ → StoreSig.Ans o × σ)

theorem exec_deny (start : Time) (corrID clientID : Bytes) (failure : String) (status : Nat) (code : String)
    (reason : Bytes) (st : σ × Host) :
    ((h.deny start corrID clientID failure status code reason).exec (both step Host.step) st).1 =
      some (writeOIDCErr corrID status code reason) :=
  rfl

/-- An audit line does not touch the store, the key or the response. -/
theorem exec_audit (req : BootstrapRequest) (sub : Bytes) (outcome : String) (grantedScope : Bytes) (s : σ)
    (w : Host) : ∃ w', (h.audit req sub outcome grantedScope).exec (both step Host.step) (s, w) = ((), (s, w')) := by
  rw [audit]
  split
  · exact ⟨_, rfl⟩
  · exact ⟨_, rfl⟩

theorem exec_publishSuccess (start : Time) (corrID : Bytes) (row : OIDCPolicyRow) (sub : Bytes)
    (scopes : List Bytes) (action : String) (s : σ) (w : Host) :
    ∃ w', (h.publishSuccess start corrID row sub scopes action).exec (both step Host.step) (s, w) = ((), (s, w')) ∧
      w'.oidcClock = w.oidcClock ∧ w'.sign = w.sign :=
  ⟨_, rfl, rfl, rfl⟩

/-- The token of a cap is made from the cap, if row, scope and expiry are its own. -/
theorem exec_signCapJWT {c : CapabilityToken} {row : OIDCPolicyRow} {scope : Bytes} {expiresAt : Time}
    (hsigil : c.sigilID = row.mappedSigil) (hscope : c.scope = scope) (hexpires : c.expiresAt = expiresAt)
    (s : σ) (w : Host) :
    ∃ w', (h.signCapJWT c row scope expiresAt).exec (both step Host.step) (s, w) =
      (h.capToken c (w.oidcClock 0) w.sign, (s, w')) := by
  rw [capToken, hsigil, hscope, hexpires]
  exact ⟨_, rfl⟩

/-- The cap that `IssueCap` returns, and what it did to the store. -/
theorem exec_issueCap {sigilID scope : Bytes} {expiresAt : Time} {s s' : σ} {w w' : Host} {c : CapabilityToken}
    (hc : (Broker.issueCap sigilID scope expiresAt).exec (both step Host.step) (s, w) = (.ok c, (s', w'))) :
    c.sigilID = sigilID ∧ c.scope = scope ∧ c.expiresAt = expiresAt ∧
      s' = (step (.saveCap c) (step (.getSigil sigilID) s).2).2 ∧ w'.oidcClock = w.oidcClock ∧
      w'.sign = w.sign := by
  simp only [Broker.issueCap, askStore_eq, askHost_eq, Prog.bind_eq, Prog.ask_bind, Prog.ret_bind, Prog.exec_ask,
    both] at hc
  cases hfound : (step (.getSigil sigilID) s).1 with
  | error e => simp [hfound] at hc
  | ok found =>
    simp only [hfound, Prog.exec_ask, both] at hc
    cases hnonce : (Host.step .generateNonce w).1 with
    | error e => simp [hnonce] at hc
    | ok nonce =>
      simp only [hnonce, Prog.exec_ask, both] at hc
      split at hc
      · simp at hc
      · cases hc
        exact ⟨rfl, rfl, rfl, rfl, rfl, rfl⟩

/-- Minting, once `IssueCap` has succeeded: the response, and a store that
`IssueCap` left. -/
theorem exec_mint (start : Time) (corrID sub : Bytes) {req : BootstrapRequest} {row : OIDCPolicyRow}
    {s s' : σ} {w w' : Host} {c : CapabilityToken}
    (hc : (Broker.issueCap row.mappedSigil (joinSpace req.scopes)
      ((w.oidcClock 0).add (grantedTTL row req.requestedTTL))).exec (both step Host.step)
      (s, { w with oidcClock := fun n => w.oidcClock (n + 1) }) = (.ok c, (s', w'))) :
    ∃ w'', (h.mint start corrID req sub row).exec (both step Host.step) (s, w) =
      (some ⟨200, headers corrID, responseBody (h.capToken c (w.oidcClock 1) w.sign) c.expiresAt c.scope
        c.sigilID⟩, (s', w'')) := by
  obtain ⟨hsigil, hscope, hexpires, -, hclock, hsign⟩ := exec_issueCap step hc
  obtain ⟨w₁, hissued, hclock₁, hsign₁⟩ :=
    h.exec_publishSuccess step start corrID row sub req.scopes "token_issued" s' w'
  obtain ⟨w₂, htoken⟩ := h.exec_signCapJWT step hsigil hscope hexpires s' w₁
  obtain ⟨w₃, haudit⟩ := h.exec_audit step req sub "granted" (joinSpace req.scopes) s' w₂
  obtain ⟨w₄, hcode, -, -⟩ := h.exec_publishSuccess step start corrID row sub req.scopes "code_issued" s' w₃
  have hnow : w₁.oidcClock 0 = w.oidcClock 1 := by rw [hclock₁, hclock]
  have hkey : w₁.sign = w.sign := by rw [hsign₁, hsign]
  rw [hnow, hkey] at htoken
  refine ⟨w₄, ?_⟩
  simp only [mint, askHost_eq, Prog.bind_eq, Prog.ask_bind, Prog.ret_bind, Prog.exec_ask, both, Prog.exec_bind,
    Host.step, hc, hissued, htoken, haudit, hcode, hsigil, hscope, hexpires]
  rfl

/-- The correlation id of a request. -/
def newCorrID (r : Request) (w : Host) : Bytes := if r.corrID = [] then w.uuids 0 else r.corrID

/-- The surroundings once a request has been announced. -/
def received (h : OIDCBootstrap) (r : Request) (w : Host) : Host :=
  { w with
    clock := fun n => w.clock (n + 2)
    uuids := if r.corrID = [] then fun n => w.uuids (n + 1) else w.uuids
    published := w.published ++ [(oidcSubject h.workspaceID "auth_request" (newCorrID r w),
      .oidc { ts := (w.clock 1).utc.format, corrID := newCorrID r w, workspaceID := h.workspaceID,
              endpoint := endpoint, outcome := lit "pending" })] }

theorem exec_handle {r : Request} (hpost : r.method = lit "POST") (s : σ) (w : Host) :
    (h.handle r).exec (both step Host.step) (s, w) =
      (match decodeBootstrapRequest r.body with
      | none => h.deny (w.clock 0) (newCorrID r w) [] "invalid_request" 400 "invalid_request"
          (lit "request body could not be decoded")
      | some req => h.exchange r (w.clock 0) (newCorrID r w) req).exec (both step Host.step)
        (s, h.received r w) := by
  rw [handle_eq, Prog.exec_ask, if_neg (not_not.mpr hpost), Prog.exec_bind, corrID, newCorrID, received, newCorrID]
  split
  · rfl
  · rfl

/-- A request that passes the guards reaches the mint. -/
theorem exec_handle_of_grants {r : Request} {w : Host} {req : BootstrapRequest} {sub : Bytes}
    {row : OIDCPolicyRow} (hg : h.config.Grants r w req sub row) (s : σ) :
    (h.handle r).exec (both step Host.step) (s, w) =
      (h.mint (w.clock 0) (newCorrID r w) req sub row).exec (both step Host.step)
        (s, { h.received r w with oidcClock := fun n => w.oidcClock (n + 1) }) := by
  obtain ⟨jwksURL, hurl, hvalid⟩ := hg.validates
  obtain ⟨policy, hpolicy, hrow⟩ := hg.policy
  obtain rfl : h.policy = policy := Option.some.inj hpolicy
  have hfields : ¬ (req.oidcToken = [] ∨ req.oidcIssuer = [] ∨ req.audience = []) := by
    simp [hg.token, hg.issuer, hg.audience]
  have hsubset : scopesSubset req.scopes row.allowedScopes = true := by
    simpa [scopesSubset] using hg.allowed
  have hfound : (h.policy.lookup req.oidcIssuer sub).filter OIDCPolicyRow.enabled = some row := by
    simp [hrow, hg.enabled]
  have hauthorize (start : Time) (corrID : Bytes) :
      h.authorize start corrID req sub = h.mint start corrID req sub row := by
    simp only [authorize, hfound, hsubset, ↓reduceIte]
  have haudience : req.audience = h.audience := hg.configured
  have hissuer : h.issuerJWKSURLs.lookup req.oidcIssuer = some jwksURL := hurl
  rw [h.exec_handle step hg.post, hg.decodes]
  dsimp only
  rw [exchange, if_neg hfields, if_neg (not_not.mpr haudience), if_neg hg.scopes, hissuer]
  simp only [askHost_eq, Prog.bind_eq, Prog.ask_bind, Prog.ret_bind, Prog.exec_ask, both]
  have hanswer : (Host.step (.verifyJWT req.oidcToken jwksURL req.oidcIssuer req.audience) (h.received r w)).1 =
      .ok sub := hvalid
  rw [hanswer]
  dsimp only
  rw [hauthorize]
  rfl

theorem authorize_ok {start : Time} {corrID : Bytes} {req : BootstrapRequest} {sub : Bytes} {st : σ × Host}
    (hok : ((h.authorize start corrID req sub).exec (both step Host.step) st).1.map Response.status = some 200) :
    ∃ row, h.policy.lookup req.oidcIssuer sub = some row ∧ row.enabled = true ∧
      ∀ scope ∈ req.scopes, scope ∈ row.allowedScopes := by
  rw [authorize] at hok
  cases hfound : (h.policy.lookup req.oidcIssuer sub).filter OIDCPolicyRow.enabled with
  | none =>
    simp only [hfound, Prog.bind_eq, Prog.exec_bind, exec_deny] at hok
    cases hok
  | some row =>
    obtain ⟨hrow, henabled⟩ := Option.filter_eq_some_iff.mp hfound
    by_cases hsubset : scopesSubset req.scopes row.allowedScopes = true
    · exact ⟨row, hrow, henabled, by simpa [scopesSubset] using hsubset⟩
    · simp only [hfound, hsubset, Bool.false_eq_true, ↓reduceIte, Prog.bind_eq, Prog.exec_bind, exec_deny] at hok
      cases hok

theorem exchange_ok {r : Request} {start : Time} {corrID : Bytes} {req : BootstrapRequest} {s : σ} {w : Host}
    (hok : ((h.exchange r start corrID req).exec (both step Host.step) (s, w)).1.map Response.status = some 200) :
    ¬ (req.oidcToken = [] ∨ req.oidcIssuer = [] ∨ req.audience = []) ∧ req.audience = h.audience ∧
      req.scopes ≠ [] ∧ ∃ jwksURL sub, h.issuerJWKSURLs.lookup req.oidcIssuer = some jwksURL ∧
        w.validate req.oidcToken jwksURL req.oidcIssuer req.audience (w.oidcClock 0) = .ok sub ∧
        ∃ row, h.policy.lookup req.oidcIssuer sub = some row ∧ row.enabled = true ∧
          ∀ scope ∈ req.scopes, scope ∈ row.allowedScopes := by
  rw [exchange] at hok
  by_cases hfields : req.oidcToken = [] ∨ req.oidcIssuer = [] ∨ req.audience = []
  · rw [if_pos hfields] at hok
    cases hok
  by_cases haudience : req.audience = h.audience
  swap
  · rw [if_neg hfields, if_pos haudience] at hok
    cases hok
  by_cases hscopes : req.scopes = []
  · rw [if_neg hfields, if_neg (not_not.mpr haudience), if_pos hscopes] at hok
    cases hok
  rw [if_neg hfields, if_neg (not_not.mpr haudience), if_neg hscopes] at hok
  refine ⟨hfields, haudience, hscopes, ?_⟩
  cases hurl : h.issuerJWKSURLs.lookup req.oidcIssuer with
  | none =>
    rw [hurl] at hok
    cases hok
  | some jwksURL =>
    simp only [hurl, askHost_eq, Prog.bind_eq, Prog.ask_bind, Prog.ret_bind, Prog.exec_ask, both, Host.step] at hok
    cases hvalid : w.validate req.oidcToken jwksURL req.oidcIssuer req.audience (w.oidcClock 0) with
    | ok sub =>
      rw [hvalid] at hok
      exact ⟨jwksURL, sub, rfl, hvalid, h.authorize_ok step hok⟩
    | error e =>
      -- The source of the request may even fail to be determined.
      simp only [hvalid, Prog.exec_bind] at hok
      cases hip : clientIP r with
      | none =>
        rw [hip] at hok
        cases hok
      | some ip =>
        rw [hip] at hok
        cases hok

/-- A request that is answered with a token passed the guards. -/
theorem grants_of_ok {r : Request} {s : σ} {w : Host}
    (hok : ((h.handle r).exec (both step Host.step) (s, w)).1.map Response.status = some 200) :
    ∃ req sub row, h.config.Grants r w req sub row := by
  by_cases hpost : r.method = lit "POST"
  swap
  · rw [handle_eq, Prog.exec_ask, if_pos hpost] at hok
    cases hok
  rw [h.exec_handle step hpost] at hok
  cases hdecode : decodeBootstrapRequest r.body with
  | none =>
    rw [hdecode] at hok
    cases hok
  | some req =>
    rw [hdecode] at hok
    obtain ⟨hfields, haudience, hscopes, jwksURL, sub, hurl, hvalid, row, hrow, henabled, hallowed⟩ :=
      h.exchange_ok step hok
    simp only [not_or] at hfields
    exact ⟨req, sub, row, hpost, hdecode, hfields.1, hfields.2.1, hfields.2.2, haudience, hscopes,
      ⟨jwksURL, hurl, hvalid⟩, ⟨_, rfl, hrow⟩, henabled, hallowed⟩

/-- `IssueCap` as the handler calls it for a request that passed the guards. -/
def issuing (h : OIDCBootstrap) (s : σ) (w : Host) (r : Request) (req : BootstrapRequest) (row : OIDCPolicyRow) :
    Except GoError CapabilityToken × (σ × Host) :=
  (Broker.issueCap row.mappedSigil (joinSpace req.scopes)
    ((w.oidcClock 1).add (grantedTTL row req.requestedTTL))).exec (both step Host.step)
    (s, { h.received r w with oidcClock := fun n => w.oidcClock (n + 2) })

/-- A token for a request that passed the guards. -/
theorem handle_of_issued {r : Request} {s : σ} {w : Host} {req : BootstrapRequest} {sub : Bytes}
    {row : OIDCPolicyRow} (hg : h.config.Grants r w req sub row) {c : CapabilityToken}
    (hc : (h.issuing step s w r req row).1 = .ok c) :
    c.sigilID = row.mappedSigil ∧ c.scope = joinSpace req.scopes ∧
      ∃ w', (h.handle r).exec (both step Host.step) (s, w) =
        (some ⟨200, headers (newCorrID r w), responseBody (h.capToken c (w.oidcClock 2) w.sign) c.expiresAt
          c.scope c.sigilID⟩, ((step (.saveCap c) (step (.getSigil c.sigilID) s).2).2, w')) := by
  obtain ⟨s', w', hissue⟩ : ∃ s' w', h.issuing step s w r req row = (.ok c, (s', w')) := ⟨_, _, Prod.ext hc rfl⟩
  obtain ⟨hsigil, hscope, -, rfl, -, -⟩ := exec_issueCap step hissue
  obtain ⟨w'', hmint⟩ := h.exec_mint step (w.clock 0) (newCorrID r w) sub
    (w := { h.received r w with oidcClock := fun n => w.oidcClock (n + 1) }) hissue
  refine ⟨hsigil, hscope, w'', ?_⟩
  rw [h.exec_handle_of_grants step hg, hmint, hsigil]
  rfl

/-- What the response to a request says of its cap. -/
theorem capToken_conveys {r : Request} {w : Host} {req : BootstrapRequest} {sub : Bytes} {row : OIDCPolicyRow}
    (hg : h.config.Grants r w req sub row) {c : CapabilityToken} (hscope : c.scope = joinSpace req.scopes) (now : Time)
    (sign : Bytes → Bytes) :
    if c.expiresAt.Marshals then
      Conveys c now (responseBody (h.capToken c now sign) c.expiresAt c.scope c.sigilID)
    else responseBody (h.capToken c now sign) c.expiresAt c.scope c.sigilID = [] := by
  split
  · next hm =>
    refine conveys_responseBody hm ?_ _ _
    rw [hscope]
    exact valid_joinSpace (decodeBootstrapRequest_scopes hg.decodes)
  · next hm => exact responseBody_of_not_marshals _ _ _ hm

/-- Without a cap there is no token. -/
theorem handle_of_not_issued {r : Request} {s : σ} {w : Host} {req : BootstrapRequest} {sub : Bytes}
    {row : OIDCPolicyRow} (hg : h.config.Grants r w req sub row) {e : GoError}
    (he : (h.issuing step s w r req row).1 = .error e) :
    ((h.handle r).exec (both step Host.step) (s, w)).1.map Response.status = some 500 := by
  rw [h.exec_handle_of_grants step hg]
  rw [issuing] at he
  simp only [mint, askHost_eq, Prog.bind_eq, Prog.ask_bind, Prog.ret_bind, Prog.exec_ask, both, Prog.exec_bind,
    Host.step, he]
  rfl

/-- A request that is answered with a token passed the guards, and has a cap. -/
theorem issued_of_ok {r : Request} {s : σ} {w : Host}
    (hok : ((h.handle r).exec (both step Host.step) (s, w)).1.map Response.status = some 200) :
    ∃ req sub row c, h.config.Grants r w req sub row ∧ (h.issuing step s w r req row).1 = .ok c := by
  obtain ⟨req, sub, row, hg⟩ := h.grants_of_ok step hok
  cases hissue : (h.issuing step s w r req row).1 with
  | ok c => exact ⟨req, sub, row, c, hg, hissue⟩
  | error e =>
    rw [h.handle_of_not_issued step hg hissue] at hok
    cases hok

end Exec

end OIDCBootstrap

namespace Sample

/-- A request for the scope `read`. -/
def requestTree : Json :=
  .obj [(lit "oidc_token", .str (lit "t")), (lit "oidc_issuer", .str (lit "iss")),
    (lit "audience", .str (lit "aud")), (lit "requested_scope", .str (lit "read"))]

def request : Request :=
  ⟨lit "POST", lit "corr", [], [], [], Json.print Json.compact 0 (requestTree.mapStr Json.quote)⟩

def bootstrapRequest : BootstrapRequest := ⟨lit "t", lit "iss", lit "aud", lit "read", none, 0⟩

theorem request_decodes : decodeBootstrapRequest request.body = some bootstrapRequest := by
  have hlit := Json.isLit_quote
  have hwf : Json.WF (requestTree.mapStr Json.quote) :=
    ⟨hlit _, hlit _, hlit _, hlit _, hlit _, hlit _, hlit _, hlit _, trivial⟩
  have hparse := Json.parseFirst_print Json.compact_ok hwf (by decide) (r := []) (by simp [Json.NumEnd])
  rw [List.append_nil] at hparse
  have htake : request.body.take 65536 = request.body := List.take_of_length_le (by decide)
  rw [decodeBootstrapRequest, htake, request, hparse]
  rfl

/-- The policy grants the request, if the provider's token is valid. -/
theorem request_granted {w : Host} (hw : w.validate = (host 0).validate) :
    oidc.config.Grants request w bootstrapRequest (lit "sub") policyRow where
  post := rfl
  decodes := request_decodes
  token := by decide
  issuer := by decide
  audience := by decide
  configured := rfl
  scopes := by decide
  validates := ⟨lit "url", rfl, by rw [hw]; rfl⟩
  policy := ⟨_, rfl, by decide⟩
  enabled := rfl
  allowed := by decide

/-- A store that has the sigil of the policy. -/
def store : MemStore := MemStore.new.saveSigil ⟨uuid 1, lit "alice", some [], noon, none, []⟩

/-- The cap for the request. -/
def minted : CapabilityToken := ⟨uuid 0, uuid 1, lit "read", noon, noon.add (300 * second), some [0]⟩

end Sample

end Hanko
