import Hanko.Framework.Obeys
import Hanko.Proof.Bootstrap

/-!
# What the OIDC handler has done

Whatever its store and its surroundings answer: the handler has only the token of the
request validated, and has one signed only after the request has been granted and its
cap saved (`Justified`); it answers with 200 only with that token, and what it has
written to the audit log by the time it answers depends on the status alone
(`Responds`). Both are properties of the history of a request, and proved in one walk
through the handler (`handle_obeys`), so that they hold in every run of which it is
part.
-/

namespace Hanko

open Bytes Interact

/-- The line that a question appends to the audit log. -/
def auditLineOf : Event BrokerSig → Option Bytes
  | ⟨.inr (.auditAppend line), _⟩ => some line
  | _ => none

/-- The audit lines of a history. -/
def auditLines (es : List (Event BrokerSig)) : List Bytes := es.filterMap auditLineOf

/-- The questions that have nothing signed, audited or validated. -/
def Quiet : BrokerSig.Op → Prop
  | .inr (.sign _) => False
  | .inr (.auditAppend _) => False
  | .inr (.verifyJWT ..) => False
  | _ => True

/-- The questions that write nothing to the log. -/
def Unaudited : BrokerSig.Op → Prop
  | .inr (.auditAppend _) => False
  | _ => True

theorem Quiet.unaudited {o : BrokerSig.Op} (h : Quiet o) : Unaudited o := by
  rcases o with o | o
  · trivial
  · cases o with
    | auditAppend line => exact h.elim
    | _ => trivial

theorem Unaudited.auditLineOf {e : Event BrokerSig} (h : Unaudited e.op) : auditLineOf e = none := by
  obtain ⟨o | o, a⟩ := e
  · rfl
  · cases o with
    | auditAppend line => exact h.elim
    | _ => rfl

theorem auditLines_quiet {α : Type} {p q : Prog BrokerSig α} {es : List (Event BrokerSig)} (hp : p.Asks Quiet)
    (h : Path p es q) : auditLines es = [] :=
  List.filterMap_eq_nil_iff.mpr fun e he => (h.asks hp e he).unaudited.auditLineOf

theorem auditLines_append (es fs : List (Event BrokerSig)) : auditLines (es ++ fs) = auditLines es ++ auditLines fs :=
  List.filterMap_append

/-! ## Issuing a cap -/

namespace Broker

theorem issueCap_quiet (sigilID scope : Bytes) (expiresAt : Time) : (issueCap sigilID scope expiresAt).Asks Quiet := by
  refine ⟨trivial, fun found => ?_⟩
  cases found with
  | error e => trivial
  | ok s =>
    refine ⟨trivial, fun nonce => ?_⟩
    cases nonce with
    | error e => trivial
    | ok nonce =>
      refine ⟨trivial, fun _ => ⟨trivial, fun _ => ⟨trivial, fun saved => ?_⟩⟩⟩
      cases saved <;> trivial

/-- A cap that was issued is the one that was saved. -/
theorem issueCap_ends {sigilID scope : Bytes} {expiresAt : Time} {es : List (Event BrokerSig)} {cap : CapabilityToken}
    (h : (issueCap sigilID scope expiresAt).Ends es (.ok cap)) :
    cap.sigilID = sigilID ∧ cap.scope = scope ∧ cap.expiresAt = expiresAt ∧
      storeEvent (.saveCap cap) (.ok ()) ∈ es := by
  obtain ⟨found, es₁, rfl, h₁⟩ := ends_ask.mp h
  cases found with
  | error e => cases (ends_ret.mp h₁).2
  | ok s =>
    obtain ⟨nonce, es₂, rfl, h₂⟩ := ends_ask.mp h₁
    cases nonce with
    | error e => cases (ends_ret.mp h₂).2
    | ok nonce =>
      obtain ⟨id, es₃, rfl, h₃⟩ := ends_ask.mp h₂
      obtain ⟨issuedAt, es₄, rfl, h₄⟩ := ends_ask.mp h₃
      obtain ⟨saved, es₅, rfl, h₅⟩ := ends_ask.mp h₄
      cases saved with
      | error e => cases (ends_ret.mp h₅).2
      | ok u =>
        cases (ends_ret.mp h₅).2
        exact ⟨rfl, rfl, rfl, .tail _ (.tail _ (.tail _ (.tail _ (.head _))))⟩

end Broker

namespace OIDCBootstrap

variable (h : OIDCBootstrap)

/-- What the token of a cap is signed over. -/
def tokenInput (c : CapabilityToken) (now : Time) : Bytes :=
  signingString (brokerKid h.broker) (capClaims c.sigilID c.scope c.id now.sec c.expiresAt.sec)

/-- The line of a decision in the audit log. -/
def auditLine (req : BootstrapRequest) (sub : Bytes) (outcome : String) (grantedScope : Bytes) (ts : Time) : Bytes :=
  Json.marshal (.obj [(lit "ts", .str ts.utc.format), (lit "issuer", .str req.oidcIssuer), (lit "sub", .str sub),
    (lit "outcome", .str (lit outcome)), (lit "granted_scope", .str grantedScope)]) ++ [10]

/-- In the course of `es` the provider's token of the request was validated for `sub`. -/
structure Validated (r : Request) (es : List (Event BrokerSig)) (req : BootstrapRequest) (sub : Bytes) : Prop where
  decodes : decodeBootstrapRequest r.body = some req
  issuer : req.oidcIssuer ≠ []
  audience : req.audience = h.audience
  token : ∃ jwksURL, h.issuerJWKSURLs.lookup req.oidcIssuer = some jwksURL ∧
    hostEvent (.verifyJWT req.oidcToken jwksURL req.oidcIssuer req.audience) (.ok sub) ∈ es

/-- The policy grants `sub` what the request asks for. -/
structure Permits (req : BootstrapRequest) (sub : Bytes) (row : OIDCPolicyRow) : Prop where
  policy : h.policy.lookup req.oidcIssuer sub = some row
  enabled : row.enabled = true
  allowed : ∀ scope ∈ req.scopes, scope ∈ row.allowedScopes

/-- In the course of `es` the request was granted, and its cap saved. -/
structure Granted (r : Request) (es : List (Event BrokerSig)) (req : BootstrapRequest) (sub : Bytes)
    (row : OIDCPolicyRow) (cap : CapabilityToken) : Prop where
  validated : h.Validated r es req sub
  permits : h.Permits req sub row
  sigil : cap.sigilID = row.mappedSigil
  scope : cap.scope = joinSpace req.scopes
  expires : ∃ t, hostEvent .cfgNow t ∈ es ∧ cap.expiresAt = t.add (grantedTTL row req.requestedTTL)
  saved : storeEvent (.saveCap cap) (.ok ()) ∈ es

variable {h} in
theorem Validated.mono {r : Request} {es fs : List (Event BrokerSig)} {req : BootstrapRequest} {sub : Bytes}
    (hv : h.Validated r es req sub) (hsub : es ⊆ fs) : h.Validated r fs req sub := by
  obtain ⟨jwksURL, hurl, hevent⟩ := hv.token
  exact ⟨hv.decodes, hv.issuer, hv.audience, jwksURL, hurl, hsub hevent⟩

variable {h} in
theorem Granted.mono {r : Request} {es fs : List (Event BrokerSig)} {req : BootstrapRequest} {sub : Bytes}
    {row : OIDCPolicyRow} {cap : CapabilityToken} (hg : h.Granted r es req sub row cap) (hsub : es ⊆ fs) :
    h.Granted r fs req sub row cap := by
  obtain ⟨t, ht, hexpires⟩ := hg.expires
  exact ⟨hg.validated.mono hsub, hg.permits, hg.sigil, hg.scope, ⟨t, hsub ht, hexpires⟩, hsub hg.saved⟩

/-- A line that is true of the request at the time it is written. -/
def Records (r : Request) (es : List (Event BrokerSig)) (req : BootstrapRequest) (sub : Bytes) (outcome : String)
    (scope : Bytes) : Prop :=
  (outcome = "granted" ∧ scope = joinSpace req.scopes ∧ ∃ row cap, h.Granted r es req sub row cap) ∨
    (outcome = "no_policy" ∧ scope = [] ∨ outcome = "policy_denied" ∧ scope = joinSpace req.scopes) ∧
      h.Validated r es req sub ∧ ¬ ∃ row, h.Permits req sub row

variable {h} in
theorem Records.mono {r : Request} {es fs : List (Event BrokerSig)} {req : BootstrapRequest} {sub : Bytes}
    {outcome : String} {scope : Bytes} (hr : h.Records r es req sub outcome scope) (hsub : es ⊆ fs) :
    h.Records r fs req sub outcome scope := by
  rcases hr with ⟨houtcome, hscope, row, cap, hg⟩ | ⟨hrefused, hv, hp⟩
  · exact .inl ⟨houtcome, hscope, row, cap, hg.mono hsub⟩
  · exact .inr ⟨hrefused, hv.mono hsub, hp⟩

/-- The handler has a token signed for a cap that was granted, and nothing else; it
writes true lines into the log; and it has the token of the request validated, against the
URL of its issuer. -/
def Justified (r : Request) (es : List (Event BrokerSig)) : BrokerSig.Op → Prop
  | .inr (.sign message) => ∃ req sub row cap now, h.Granted r es req sub row cap ∧ hostEvent .cfgNow now ∈ es ∧
      message = h.tokenInput cap now
  | .inr (.auditAppend line) => ∃ req sub outcome scope ts, h.Records r es req sub outcome scope ∧
      hostEvent .cfgNow ts ∈ es ∧ line = auditLine req sub outcome scope ts
  | .inr (.verifyJWT tok jwksURL issuer audience) => ∃ req, decodeBootstrapRequest r.body = some req ∧
      tok = req.oidcToken ∧ issuer = req.oidcIssuer ∧ audience = req.audience ∧
      h.issuerJWKSURLs.lookup issuer = some jwksURL
  | _ => True

/-- The log has gained one line, if there is a log. -/
def Audits (es : List (Event BrokerSig)) (req : BootstrapRequest) (sub : Bytes) (outcome : String)
    (scope : Bytes) : Prop :=
  ∃ ts, auditLines es = if h.auditPath = [] then [] else [auditLine req sub outcome scope ts]

/-- What has been done by the time of a response. -/
structure Responds (r : Request) (es : List (Event BrokerSig)) (resp : Option Response) : Prop where
  granted : resp.map Response.status = some 200 → ∃ req sub row cap now sig corrID, h.Granted r es req sub row cap ∧
    hostEvent .cfgNow now ∈ es ∧ hostEvent (.sign (h.tokenInput cap now)) sig ∈ es ∧
    resp = some ⟨200, headers corrID, responseBody (h.tokenInput cap now ++ 46 :: rawURLEncode sig) cap.expiresAt
      cap.scope cap.sigilID⟩ ∧ h.Audits es req sub "granted" (joinSpace req.scopes)
  forbidden : resp.map Response.status = some 403 → ∃ req sub, h.Validated r es req sub ∧
    ¬ (∃ row, h.Permits req sub row) ∧
    (h.Audits es req sub "no_policy" [] ∨ h.Audits es req sub "policy_denied" (joinSpace req.scopes))
  silent : resp.map Response.status ≠ some 200 → resp.map Response.status ≠ some 403 → auditLines es = []

/-- A response that is neither a token nor a refusal of one. -/
theorem responds_silent {r : Request} {es : List (Event BrokerSig)} {resp : Option Response}
    (h200 : resp.map Response.status ≠ some 200) (h403 : resp.map Response.status ≠ some 403)
    (hes : auditLines es = []) : h.Responds r es resp :=
  ⟨fun hstatus => absurd hstatus h200, fun hstatus => absurd hstatus h403, fun _ _ => hes⟩

/-! ## The walk -/

theorem justified_of_quiet (r : Request) (es : List (Event BrokerSig)) (o : BrokerSig.Op) (ho : Quiet o) :
    h.Justified r es o := by
  rcases o with o | o
  · trivial
  · cases o with
    | sign message => exact ho.elim
    | auditAppend line => exact ho.elim
    | verifyJWT tok jwksURL issuer audience => exact ho.elim
    | _ => trivial

theorem obeys_quiet {α : Type} (r : Request) {p : Prog BrokerSig α} (hp : p.Asks Quiet) (es : List (Event BrokerSig)) :
    p.Obeys (h.Justified r) (fun es' _ => es ⊆ es' ∧ auditLines es' = auditLines es) es := by
  refine obeys_of_asks hp (h.justified_of_quiet r) fun fs a hfs => ⟨List.subset_append_left _ _, ?_⟩
  rw [auditLines_append, auditLines_quiet hp hfs, List.append_nil]

theorem publishFail_quiet (start : Time) (corrID clientID : Bytes) (reason : String) :
    (h.publishFail start corrID clientID reason).Asks Quiet :=
  ⟨trivial, fun _ => ⟨trivial, fun _ => ⟨trivial, fun _ => trivial⟩⟩⟩

theorem publishSuccess_quiet (start : Time) (corrID : Bytes) (row : OIDCPolicyRow) (sub : Bytes) (scopes : List Bytes)
    (action : String) : (h.publishSuccess start corrID row sub scopes action).Asks Quiet :=
  ⟨trivial, fun _ => ⟨trivial, fun _ => ⟨trivial, fun _ => trivial⟩⟩⟩

theorem audit_obeys {r : Request} {req : BootstrapRequest} {sub : Bytes} {outcome : String} {scope : Bytes}
    {es : List (Event BrokerSig)} (hr : h.Records r es req sub outcome scope) (hes : auditLines es = []) :
    (h.audit req sub outcome scope).Obeys (h.Justified r)
      (fun es' _ => es ⊆ es' ∧ h.Audits es' req sub outcome scope) es := by
  rw [audit]
  split
  · next hpath =>
    refine ⟨trivial, fun ts => ⟨?_, fun _ => ⟨fun e he => ?_, ts, ?_⟩⟩⟩
    · exact ⟨req, sub, outcome, scope, ts, hr.mono (List.subset_append_left _ _),
        List.mem_append_right _ (.head _), rfl⟩
    · exact List.mem_append_left _ (List.mem_append_left _ he)
    · rw [if_neg hpath, auditLines_append, auditLines_append, hes]
      rfl
  · next hpath =>
    refine ⟨List.Subset.refl _, ⟨0, 0, 0⟩, ?_⟩
    rw [if_pos (not_not.mp hpath), hes]

theorem deny_obeys (r : Request) (start : Time) (corrID clientID : Bytes) (failure : String)
    {status : Nat} (code : String) (reason : Bytes) {es : List (Event BrokerSig)} (h200 : status ≠ 200)
    (hforbidden : status = 403 → ∃ req sub, h.Validated r es req sub ∧ ¬ (∃ row, h.Permits req sub row) ∧
      (h.Audits es req sub "no_policy" [] ∨ h.Audits es req sub "policy_denied" (joinSpace req.scopes)))
    (hsilent : status ≠ 403 → auditLines es = []) :
    (h.deny start corrID clientID failure status code reason).Obeys (h.Justified r) (h.Responds r) es := by
  refine obeys_bind (h.obeys_quiet r (h.publishFail_quiet ..) es) ?_
  rintro es' _ ⟨hsub, hlines⟩
  refine ⟨fun hstatus => absurd (Option.some.inj hstatus) h200, fun hstatus => ?_, fun _ hstatus => ?_⟩
  · obtain ⟨req, sub, hvalid, hpermits, haudits⟩ := hforbidden (Option.some.inj hstatus)
    refine ⟨req, sub, hvalid.mono hsub, hpermits, ?_⟩
    simpa only [Audits, hlines] using haudits
  · rw [hlines]
    exact hsilent fun heq => hstatus (congrArg some heq)

/-- A refusal before anything was decided. -/
theorem deny_silent (r : Request) (start : Time) (corrID clientID : Bytes) (failure : String)
    {status : Nat} (code : String)
    (reason : Bytes) {es : List (Event BrokerSig)} (h200 : status ≠ 200) (h403 : status ≠ 403)
    (hes : auditLines es = []) :
    (h.deny start corrID clientID failure status code reason).Obeys (h.Justified r) (h.Responds r) es :=
  h.deny_obeys r start corrID clientID failure code reason h200 (fun heq => absurd heq h403) fun _ => hes

theorem granted_obeys {r : Request} (start : Time) (corrID : Bytes) {req : BootstrapRequest} {sub : Bytes}
    {row : OIDCPolicyRow} {cap : CapabilityToken} {es : List (Event BrokerSig)} (hg : h.Granted r es req sub row cap)
    (hes : auditLines es = []) :
    (h.granted start corrID req sub row cap.expiresAt cap).Obeys (h.Justified r) (h.Responds r) es := by
  refine obeys_bind (h.obeys_quiet r (h.publishSuccess_quiet ..) es) ?_
  rintro es₁ _ ⟨hsub₁, hlines₁⟩
  have hg₁ := hg.mono hsub₁
  -- the token
  refine ⟨trivial, fun now => ?_⟩
  have hnow : hostEvent .cfgNow now ∈ es₁ ++ [hostEvent .cfgNow now] := List.mem_append_right _ (.head _)
  have hg₂ := hg₁.mono (List.subset_append_left es₁ [hostEvent .cfgNow now])
  have hinput : signingString (brokerKid h.broker) (capClaims row.mappedSigil (joinSpace req.scopes) cap.id now.sec
      cap.expiresAt.sec) = h.tokenInput cap now := by
    rw [tokenInput, hg.sigil, hg.scope]
  refine ⟨⟨req, sub, row, cap, now, hg₂, hnow, hinput⟩, fun sig => ?_⟩
  generalize hes₃ : (es₁ ++ [hostEvent .cfgNow now]) ++ [(⟨.inr (.sign _), sig⟩ : Event BrokerSig)] = es₃
  have hsub₃ : es₁ ++ [hostEvent .cfgNow now] ⊆ es₃ := hes₃ ▸ List.subset_append_left _ _
  have hsign : hostEvent (.sign (h.tokenInput cap now)) sig ∈ es₃ := by
    rw [← hes₃, ← hinput]
    exact List.mem_append_right _ (.head _)
  have hlines₃ : auditLines es₃ = [] := by
    rw [← hes₃, auditLines_append, auditLines_append, hlines₁, hes]
    rfl
  -- the log, and the second event
  refine obeys_bind (p := h.audit req sub "granted" (joinSpace req.scopes))
    (h.audit_obeys (.inl ⟨rfl, rfl, row, cap, hg₂.mono hsub₃⟩) hlines₃) ?_
  rintro es₄ _ ⟨hsub₄, haudits⟩
  refine obeys_bind (h.obeys_quiet r (h.publishSuccess_quiet ..) es₄) ?_
  rintro es₅ _ ⟨hsub₅, hlines₅⟩
  have hsub : es₃ ⊆ es₅ := List.Subset.trans hsub₄ hsub₅
  refine ⟨fun _ => ?_, fun hstatus => absurd hstatus (by simp), fun hstatus => absurd rfl hstatus⟩
  refine ⟨req, sub, row, cap, now, sig, corrID, hg₂.mono (List.Subset.trans hsub₃ hsub), hsub (hsub₃ hnow),
    hsub hsign, ?_, ?_⟩
  · rw [← hinput, hg.scope, hg.sigil]
  · simpa only [Audits, hlines₅] using haudits

/-- The cap is issued without anything to justify; how it was issued is kept. -/
theorem issueCap_obeys (r : Request) (sigilID scope : Bytes) (expiresAt : Time) (es : List (Event BrokerSig)) :
    (Broker.issueCap sigilID scope expiresAt).Obeys (h.Justified r)
      (fun es' a => ∃ fs, es' = es ++ fs ∧ (Broker.issueCap sigilID scope expiresAt).Ends fs a) es :=
  obeys_of_asks (Broker.issueCap_quiet ..) (h.justified_of_quiet r) fun fs _ hfs => ⟨fs, rfl, hfs⟩

theorem mint_obeys {r : Request} (start : Time) (corrID : Bytes) {req : BootstrapRequest} {sub : Bytes}
    {row : OIDCPolicyRow} {es : List (Event BrokerSig)} (hv : h.Validated r es req sub) (hp : h.Permits req sub row)
    (hes : auditLines es = []) : (h.mint start corrID req sub row).Obeys (h.Justified r) (h.Responds r) es := by
  rw [mint_eq]
  refine ⟨trivial, fun now => ?_⟩
  generalize hes₁ : es ++ [(⟨.inr .cfgNow, now⟩ : Event BrokerSig)] = es₁
  have hsub₁ : es ⊆ es₁ := hes₁ ▸ List.subset_append_left _ _
  have hnow : hostEvent .cfgNow now ∈ es₁ := hes₁ ▸ List.mem_append_right _ (.head _)
  have hlines₁ : auditLines es₁ = [] := by
    rw [← hes₁, auditLines_append, hes]
    rfl
  refine obeys_bind (p := Broker.issueCap _ _ _) (h.issueCap_obeys r ..) ?_
  rintro es₂ a ⟨fs, rfl, hissue⟩
  have hlines₂ : auditLines (es₁ ++ fs) = [] := by
    rw [auditLines_append, hlines₁, auditLines_quiet (Broker.issueCap_quiet ..) hissue]
    rfl
  have hsub₂ := List.subset_append_left es₁ fs
  cases a with
  | error e => exact h.deny_silent r start corrID row.mappedSigil _ _ _ (by decide) (by decide) hlines₂
  | ok cap =>
    obtain ⟨hsigil, hscope, hexpires, hsaved⟩ := Broker.issueCap_ends hissue
    have hg : h.Granted r (es₁ ++ fs) req sub row cap :=
      ⟨hv.mono (List.Subset.trans hsub₁ hsub₂), hp, hsigil, hscope, ⟨now, hsub₂ hnow, hexpires⟩,
        List.mem_append_right _ hsaved⟩
    dsimp only
    rw [← hexpires]
    exact h.granted_obeys start corrID hg hlines₂

theorem authorize_obeys {r : Request} (start : Time) (corrID : Bytes) {req : BootstrapRequest} {sub : Bytes}
    {es : List (Event BrokerSig)} (hv : h.Validated r es req sub) (hes : auditLines es = []) :
    (h.authorize start corrID req sub).Obeys (h.Justified r) (h.Responds r) es := by
  rw [authorize]
  cases hfound : (h.policy.lookup req.oidcIssuer sub).filter OIDCPolicyRow.enabled with
  | none =>
    have hpermits : ¬ ∃ row, h.Permits req sub row := by
      rintro ⟨row, hp⟩
      rw [hp.policy, Option.filter_some, if_pos hp.enabled] at hfound
      cases hfound
    refine obeys_bind (h.audit_obeys (.inr ⟨.inl ⟨rfl, rfl⟩, hv, hpermits⟩) hes) ?_
    rintro es₁ _ ⟨hsub, haudits⟩
    exact h.deny_obeys r start corrID _ _ _ _ (by decide) (fun _ => ⟨req, sub, hv.mono hsub, hpermits, .inl haudits⟩)
      fun hne => absurd rfl hne
  | some row =>
    obtain ⟨hrow, henabled⟩ := Option.filter_eq_some_iff.mp hfound
    dsimp only
    split
    · next hsubset =>
      exact h.mint_obeys start corrID hv ⟨hrow, henabled, by simpa [scopesSubset] using hsubset⟩ hes
    · next hsubset =>
      have hpermits : ¬ ∃ row, h.Permits req sub row := by
        rintro ⟨row', hp⟩
        obtain rfl : row' = row := Option.some.inj (hp.policy.symm.trans hrow)
        exact hsubset (by simpa [scopesSubset] using hp.allowed)
      refine obeys_bind (h.audit_obeys (.inr ⟨.inr ⟨rfl, rfl⟩, hv, hpermits⟩) hes) ?_
      rintro es₁ _ ⟨hsub, haudits⟩
      exact h.deny_obeys r start corrID _ _ _ _ (by decide) (fun _ => ⟨req, sub, hv.mono hsub, hpermits, .inr haudits⟩)
        fun hne => absurd rfl hne

/-- A request whose provider's token is invalid. -/
theorem refuse_obeys (r : Request) (start : Time) (corrID : Bytes) {es : List (Event BrokerSig)}
    (hes : auditLines es = []) :
    (h.refuse r start corrID).Obeys (h.Justified r) (h.Responds r) es := by
  refine obeys_bind (h.obeys_quiet r (h.publishFail_quiet ..) es) ?_
  rintro es₁ _ ⟨-, hlines⟩
  have hlines' : auditLines es₁ = [] := hlines.trans hes
  cases clientIP r with
  | none => exact h.responds_silent (by decide) (by decide) hlines'
  | some ip =>
    refine ⟨trivial, fun _ => h.responds_silent (by simp [writeOIDCErr]) (by simp [writeOIDCErr]) ?_⟩
    rw [auditLines_append, hlines']
    rfl

theorem exchange_obeys {r : Request} (start : Time) (corrID : Bytes) {req : BootstrapRequest}
    (hdecodes : decodeBootstrapRequest r.body = some req) {es : List (Event BrokerSig)} (hes : auditLines es = []) :
    (h.exchange r start corrID req).Obeys (h.Justified r) (h.Responds r) es := by
  rw [exchange]
  split
  · exact h.deny_silent r start corrID _ _ _ _ (by decide) (by decide) hes
  split
  · exact h.deny_silent r start corrID _ _ _ _ (by decide) (by decide) hes
  split
  · exact h.deny_silent r start corrID _ _ _ _ (by decide) (by decide) hes
  rename_i hfields haudience _
  cases hurl : h.issuerJWKSURLs.lookup req.oidcIssuer with
  | none => exact h.deny_silent r start corrID _ _ _ _ (by decide) (by decide) hes
  | some jwksURL =>
    refine ⟨⟨req, hdecodes, rfl, rfl, rfl, hurl⟩, fun validated => ?_⟩
    generalize hes₁ : es ++ [(⟨.inr (.verifyJWT req.oidcToken jwksURL req.oidcIssuer req.audience), validated⟩ :
      Event BrokerSig)] = es₁
    have hlines : auditLines es₁ = [] := by
      rw [← hes₁, auditLines_append, hes]
      rfl
    cases validated with
    | ok sub =>
      have hevent : hostEvent (.verifyJWT req.oidcToken jwksURL req.oidcIssuer req.audience) (.ok sub) ∈ es₁ :=
        hes₁ ▸ List.mem_append_right _ (.head _)
      have hissuer : req.oidcIssuer ≠ [] := fun heq => hfields (.inr (.inl heq))
      exact h.authorize_obeys start corrID ⟨hdecodes, hissuer, not_not.mp haudience, jwksURL, hurl, hevent⟩ hlines
    | error e => exact h.refuse_obeys r start corrID hlines

theorem receive_obeys (r : Request) (start : Time) (corrID : Bytes) {es : List (Event BrokerSig)}
    (hes : auditLines es = []) :
    (h.receive r start corrID).Obeys (h.Justified r) (h.Responds r) es := by
  refine ⟨trivial, fun ts => ⟨trivial, fun _ => ?_⟩⟩
  have hlines : ∀ o a, auditLines ((es ++ [hostEvent .timeNow ts]) ++ [hostEvent (.publish o a) ()]) = [] := by
    intro o a
    rw [auditLines_append, auditLines_append, hes]
    rfl
  cases hdecodes : decodeBootstrapRequest r.body with
  | none => exact h.deny_silent r start corrID _ _ _ _ (by decide) (by decide) (hlines _ _)
  | some req => exact h.exchange_obeys start corrID hdecodes (hlines _ _)

/-- What the handler has done when it has something signed, and when it responds. -/
theorem handle_obeys (r : Request) : (h.handle r).Obeys (h.Justified r) (h.Responds r) [] := by
  rw [handle_eq]
  refine ⟨trivial, fun start => ?_⟩
  split
  · exact h.responds_silent (by decide) (by decide) rfl
  · have hquiet : (corrID r).Asks Quiet := by
      rw [corrID]
      split
      · exact ⟨trivial, fun _ => trivial⟩
      · trivial
    exact obeys_bind (h.obeys_quiet r hquiet _) fun es _ hes => h.receive_obeys r start _ hes.2

end OIDCBootstrap

end Hanko
