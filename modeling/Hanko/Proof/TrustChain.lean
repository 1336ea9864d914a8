import Hanko.Impl.Jwt
import Hanko.Proof.Federation
import Hanko.Proof.IdpKeys

/-!
# From a provider's key to a cap

What has to have happened before a request is answered with a token
(`minted_under_provider_key`): a document was fetched from the URL that the
configuration has for the issuer, it has an RSA key with the id that the provider's
token names, and under that key the token is signed, by one of three methods, for this
broker. The cache in between only ever holds documents that were fetched from the URL
they are kept under (`Providers.Backed`). Of the parser of tokens only what its
documentation promises is used (`JwtLib.Documented`).
-/

namespace Hanko

open Bytes Interact

/-! ## What was fetched -/

/-- The document was fetched from the URL. -/
def FetchedFrom (net : List (Event JwtSig)) (url : Bytes) (doc : IdpJWKS) : Prop :=
  ∃ a, (⟨.inl (.get url), a⟩ : Event JwtSig) ∈ net ∧ fetchResult a = .ok doc

/-- The token is valid, for the issuer and the audience that are expected, with a key of a
document that was fetched from the URL, and names the subject. -/
structure JwtLib.Trusted (lib : JwtLib) (net : List (Event JwtSig)) (tok url issuer audience sub : Bytes) (t : JwtToken)
    (doc : IdpJWKS) (key : RSAPublicKey) : Prop where
  fetched : FetchedFrom net url doc
  listed : ∃ k, (doc.list.find? fun k => k.kid = t.kid) = some k ∧ k.kty = lit "RSA" ∧ rsaFromJWK k = .ok key
  valid : ∃ now, clockRead now ∈ net ∧ lib.Valid (parserOptions issuer audience) tok t key now
  subject : t.claims.subject = sub

/-- What was fetched stays so. -/
theorem FetchedFrom.mono {net net' : List (Event JwtSig)} {url : Bytes} {doc : IdpJWKS} (h : FetchedFrom net url doc)
    (hsub : net ⊆ net') : FetchedFrom net' url doc := by
  obtain ⟨a, ha, hfetch⟩ := h
  exact ⟨a, hsub ha, hfetch⟩

theorem JwtLib.Trusted.mono {lib : JwtLib} {net net' : List (Event JwtSig)} {tok url issuer audience sub : Bytes}
    {t : JwtToken} {doc : IdpJWKS} {key : RSAPublicKey} (h : lib.Trusted net tok url issuer audience sub t doc key)
    (hsub : net ⊆ net') : lib.Trusted net' tok url issuer audience sub t doc key := by
  obtain ⟨now, hnow, hvalid⟩ := h.valid
  exact { h with fetched := h.fetched.mono hsub, valid := ⟨now, hsub hnow, hvalid⟩ }

/-- The cache holds documents that were fetched from the URL they are kept under. -/
def Providers.Backed (s : Providers) : Prop := ∀ url e, s.cache.cached url = some e → FetchedFrom s.net url e.doc

/-! ## One validation -/

/-- A look-up in the cache: it keeps to what was fetched, and its key is of such a document. -/
theorem backed_keyByKid {c c' : IdpJWKSCache} {net : List (Event JwtSig)} {url kid : Bytes} {es : List (Event JwtSig)}
    {res : Option (Except GoError RSAPublicKey)} (hb : Providers.Backed ⟨c, net⟩)
    (h : ((c.keyByKid url kid).inl ClockSig).Ends es (res, c')) :
    Providers.Backed ⟨c', net ++ es⟩ ∧ ∀ key, res = some (.ok key) → ∃ doc, FetchedFrom (net ++ es) url doc ∧
      ∃ k, (doc.list.find? fun k => k.kid = kid) = some k ∧ k.kty = lit "RSA" ∧ rsaFromJWK k = .ok key := by
  obtain ⟨fs, hfs, rfl⟩ := ends_inl.mp h
  have hmono : ∀ {c : IdpJWKSCache}, Providers.Backed ⟨c, net⟩ →
      ∀ es : List (Event JwtSig), Providers.Backed ⟨c, net ++ es⟩ :=
    fun hb es url e he => (hb url e he).mono (List.subset_append_left _ _)
  cases IdpJWKSCache.keyByKid_step hfs with
  | hit hfresh he =>
    refine ⟨hmono hb _, fun key hkey => ?_⟩
    exact ⟨_, hmono hb _ url _ he, IdpJWKSCache.searchKeys_eq_ok (Option.some.inj hkey)⟩
  | @refreshed now a doc hstale hfetch =>
    have hfetched : FetchedFrom (net ++ [⟨.inl .now, now⟩, ⟨.inl (.get url), a⟩]) url doc :=
      ⟨a, List.mem_append_right _ (.tail _ (.head _)), hfetch⟩
    refine ⟨fun url' e he => ?_, fun key hkey => ⟨doc, hfetched, IdpJWKSCache.searchKeys_eq_ok (Option.some.inj hkey)⟩⟩
    by_cases hurl : url' = url
    · subst hurl
      obtain rfl : ⟨doc, now⟩ = e := by simpa [IdpJWKSCache.store] using he
      exact hfetched
    · refine hmono hb _ url' e ?_
      simpa [IdpJWKSCache.store, Function.update_of_ne hurl] using he
  | outage hstale hfetch he =>
    refine ⟨hmono hb _, fun key hkey => ?_⟩
    exact ⟨_, hmono hb _ url _ he, IdpJWKSCache.searchKeys_eq_ok (Option.some.inj hkey)⟩
  | missed hstale hfetch he => exact ⟨hmono hb _, by rintro _ ⟨⟩⟩

theorem backed_keyfunc {c c' : IdpJWKSCache} {net : List (Event JwtSig)} {url : Bytes} {t : JwtToken}
    {es : List (Event JwtSig)} {res : Option (Except GoError RSAPublicKey)} (hb : Providers.Backed ⟨c, net⟩)
    (h : (JwtLib.keyfunc url t c).Ends es (res, c')) :
    Providers.Backed ⟨c', net ++ es⟩ ∧ ∀ key, res = some (.ok key) → ∃ doc, FetchedFrom (net ++ es) url doc ∧
      ∃ k, (doc.list.find? fun k => k.kid = t.kid) = some k ∧ k.kty = lit "RSA" ∧ rsaFromJWK k = .ok key := by
  rw [JwtLib.keyfunc] at h
  split at h
  · obtain ⟨rfl, heq⟩ := ends_ret.mp h
    cases heq
    rw [List.append_nil]
    exact ⟨hb, by rintro _ ⟨⟩⟩
  · exact backed_keyByKid hb h

/-- A validation keeps to what was fetched, and accepts only tokens that are to be trusted. -/
theorem backed_verifyJWT {lib : JwtLib} (hlib : lib.Documented) {c c' : IdpJWKSCache} {net : List (Event JwtSig)}
    {tok url issuer audience : Bytes} {es : List (Event JwtSig)} {res : Except GoError RegisteredClaims}
    (hb : Providers.Backed ⟨c, net⟩) (h : (lib.verifyJWT c tok url issuer audience).Ends es (some res, c')) :
    Providers.Backed ⟨c', net ++ es⟩ ∧ ∀ claims, res = .ok claims →
      ∃ t doc key, lib.Trusted (net ++ es) tok url issuer audience claims.subject t doc key := by
  have hmono : ∀ {es' : List (Event JwtSig)}, es' ⊆ es → net ++ es' ⊆ net ++ es := fun hsub =>
    List.append_subset_of_subset_of_subset (List.subset_append_left _ _)
      (List.Subset.trans hsub (List.subset_append_right _ _))
  constructor
  · intro url' e he
    rcases hlib.calls _ _ _ _ _ _ _ h with rfl | ⟨t, es', key, -, hkey, hsub⟩
    · exact (hb url' e he).mono (List.subset_append_left _ _)
    · exact ((backed_keyfunc hb hkey).1 url' e he).mono (hmono hsub)
  · rintro claims rfl
    obtain ⟨t, es', key, now, hkey, hsub, hnow, hvalid, rfl⟩ := hlib.accepts _ _ _ _ _ _ _ h
    obtain ⟨doc, hfetched, hlisted⟩ := (backed_keyfunc hb hkey).2 key rfl
    exact ⟨t, doc, key, hfetched.mono (hmono hsub), hlisted,
      ⟨now, List.mem_append_right _ hnow, hvalid⟩, rfl⟩

/-! ## A run -/

/-- One question of a call, over the providers. -/
theorem backed_step {lib : JwtLib} (hlib : lib.Documented) {e : Event BrokerSig} {s s' : Providers}
    (h : ProviderHandler lib e.op s e.ans s') (hb : s.Backed) :
    s'.Backed ∧ s.net ⊆ s'.net ∧ ∀ tok url issuer audience sub,
      e = hostEvent (.verifyJWT tok url issuer audience) (.ok sub) →
      ∃ t doc key, lib.Trusted s'.net tok url issuer audience sub t doc key := by
  have hsame : s' = s → s'.Backed ∧ s.net ⊆ s'.net := by
    rintro rfl
    exact ⟨hb, List.Subset.refl _⟩
  obtain ⟨o | o, a⟩ := e
  · exact ⟨(hsame h).1, (hsame h).2, by rintro _ _ _ _ _ ⟨⟩⟩
  · cases o with
    | verifyJWT tok url issuer audience =>
      obtain ⟨es, res, hends, rfl, hnet⟩ := h
      obtain ⟨hb', htrusted⟩ := backed_verifyJWT hlib hb hends
      rw [← hnet] at hb' htrusted
      refine ⟨hb', hnet ▸ List.subset_append_left _ _, ?_⟩
      intro tok' url' issuer' audience' sub heq
      cases res with
      | error e => cases heq
      | ok claims =>
        cases heq
        exact htrusted claims rfl
    | _ => exact ⟨(hsame h).1, (hsame h).2, by rintro _ _ _ _ _ ⟨⟩⟩

/-- Every token that was accepted in the course of a run is to be trusted at its end. -/
theorem exec_trusted {lib : JwtLib} (hlib : lib.Documented) {s s' : Providers} {es : List (Event BrokerSig)}
    (h : Exec (ProviderHandler lib) s es s') (hb : s.Backed) : s.net ⊆ s'.net ∧ ∀ tok url issuer audience sub,
      hostEvent (.verifyJWT tok url issuer audience) (.ok sub) ∈ es →
      ∃ t doc key, lib.Trusted s'.net tok url issuer audience sub t doc key := by
  induction h with
  | nil => exact ⟨List.Subset.refl _, fun _ _ _ _ _ hmem => absurd hmem List.not_mem_nil⟩
  | cons hstep _ ih =>
    obtain ⟨hb₁, hsub, htrusted⟩ := backed_step hlib hstep hb
    obtain ⟨hsub', htrusted'⟩ := ih hb₁
    refine ⟨List.Subset.trans hsub hsub', fun tok url issuer audience sub hmem => ?_⟩
    rcases List.mem_cons.mp hmem with heq | hmem
    · obtain ⟨t, doc, key, ht⟩ := htrusted tok url issuer audience sub heq.symm
      exact ⟨t, doc, key, ht.mono hsub'⟩
    · exact htrusted' tok url issuer audience sub hmem

/-- Let calls of clients run concurrently over a broker with a new cache of key sets,
whatever the network answers. Behind every request that was answered with 200 there is a
document that was fetched from the URL configured for the issuer of the request, with an RSA key
under which the provider's token is signed: by one of the three methods, by that issuer, for
the audience of this broker, unexpired, and in the name of the subject to whom the policy grants what
was asked for. -/
theorem minted_under_provider_key {ι : Type} [DecidableEq ι] (S : Service) (lib : JwtLib) (hlib : lib.Documented)
    (ttl : Duration) (isPrint : Char → Bool) (calls : ι → Call) (tr : List (ι × Event BrokerSig))
    (ps' : ι → Prog BrokerSig Reply) (s' : Providers)
    (h : Run (ProviderHandler lib) (fun i => (calls i).prog S) ⟨newIDPJWKSCache ttl isPrint, []⟩ tr ps' s') (i : ι)
    (r : Request) (resp : Response) (hcall : calls i = .bootstrapOIDC r) (hret : ps' i = .ret (.http (some resp)))
    (hstatus : resp.status = 200) :
    ∃ req sub row cap jwksURL t doc key, S.oidc.Granted r (of i tr) req sub row cap ∧
      S.oidc.issuerJWKSURLs.lookup req.oidcIssuer = some jwksURL ∧
      lib.Trusted s'.net req.oidcToken jwksURL req.oidcIssuer S.oidc.audience sub t doc key ∧
      t.alg ∈ [lit "RS256", lit "RS384", lit "RS512"] ∧ lib.Signed req.oidcToken key ∧
      t.claims.issuer = req.oidcIssuer ∧ S.oidc.audience ∈ t.claims.audience ∧ t.claims.subject = sub ∧
      ∃ now, clockRead now ∈ s'.net ∧ (∀ exp ∈ t.claims.expiresAt, now.before exp = true) ∧
        ∀ nbf ∈ t.claims.notBefore, now.before nbf = false := by
  have hempty : Providers.Backed ⟨newIDPJWKSCache ttl isPrint, []⟩ := by
    intro url e he
    cases he
  have hends := h.ends hret
  simp only [hcall] at hends
  obtain ⟨resp', hends, heq⟩ := ends_map.mp hends
  cases heq
  obtain ⟨req, sub, row, cap, -, -, -, hg, -⟩ :=
    (Ends.obeys hends (S.oidc.handle_obeys r)).granted (congrArg some hstatus)
  rw [List.nil_append] at hg
  obtain ⟨jwksURL, hurl, hevent⟩ := hg.validated.token
  have hmem : hostEvent (.verifyJWT req.oidcToken jwksURL req.oidcIssuer req.audience) (.ok sub) ∈ tr.map Prod.snd :=
    List.mem_map.mpr ⟨_, mem_of.mp hevent, rfl⟩
  obtain ⟨t, doc, key, ht⟩ := (exec_trusted hlib h.exec hempty).2 _ _ _ _ _ hmem
  rw [hg.validated.audience] at ht
  obtain ⟨now, hnow, hvalid⟩ := ht.valid
  exact ⟨req, sub, row, cap, jwksURL, t, doc, key, hg, hurl, ht, hvalid.method, hvalid.signed,
    hvalid.issuer hg.validated.issuer, hvalid.audience S.oidc.audience_ne, ht.subject, now, hnow, hvalid.unexpired,
    hvalid.started⟩

namespace Sample

/-- A token that expires in the evening. -/
def jwtToken : JwtToken := ⟨lit "RS256", lit "k1", ⟨lit "iss", lit "sub", [lit "aud"], some evening, none⟩⟩

/-- The checks of a parser on the claims of a token. -/
def Passes (opts : ParserOptions) (now : Time) (c : RegisteredClaims) : Prop :=
  (opts.issuer ≠ [] → c.issuer = opts.issuer) ∧ (opts.audience ≠ [] → opts.audience ∈ c.audience) ∧
    (∀ exp ∈ c.expiresAt, now.before exp = true) ∧ ∀ nbf ∈ c.notBefore, now.before nbf = false

instance (opts : ParserOptions) (now : Time) (c : RegisteredClaims) : Decidable (Passes opts now c) :=
  inferInstanceAs (Decidable (_ ∧ _ ∧ _ ∧ _))

/-- A library that reads the same token from every text, signed under every key. -/
def jwtLib : JwtLib where
  parseWithClaims opts _ keyfunc c :=
    if jwtToken.alg ∉ opts.validMethods then return (some (.error (.text (lit "signing method is invalid"))), c)
    else do
      let (key, c) ← keyfunc jwtToken c
      match key with
      | none => return (none, c)
      | some (.error e) => return (some (.error e), c)
      | some (.ok _) =>
        let now ← Prog.call (S := JwtSig) (.inr ())
        if Passes opts now jwtToken.claims then return (some (.ok jwtToken.claims), c)
        else return (some (.error (.text (lit "token has invalid claims"))), c)
  token _ := some jwtToken
  Signed _ _ := True

/-- A call of the parser: it refuses the method, or calls the key function; and with a key it
reads the clock and checks the claims. -/
theorem parseWithClaims_inv {opts : ParserOptions} {tok : Bytes} {keyfunc : Keyfunc} {c c' : IdpJWKSCache}
    {es : List (Event JwtSig)} {a : Option (Except GoError RegisteredClaims)}
    (h : (jwtLib.parseWithClaims opts tok keyfunc c).Ends es (a, c')) :
    (c' = c ∧ ∃ e, a = some (.error e)) ∨ jwtToken.alg ∈ opts.validMethods ∧
      ∃ es₁ es₂ res, es = es₁ ++ es₂ ∧ (keyfunc jwtToken c).Ends es₁ (res, c') ∧ ∀ claims, a = some (.ok claims) →
        ∃ key now, res = some (.ok key) ∧ clockRead now ∈ es₂ ∧ Passes opts now jwtToken.claims ∧
          claims = jwtToken.claims := by
  rw [jwtLib] at h
  dsimp only at h
  split at h
  · cases (ends_ret.mp h).2
    exact .inl ⟨rfl, _, rfl⟩
  next hmethod =>
  obtain ⟨es₁, es₂, ⟨res, c₁⟩, rfl, hkey, hrest⟩ := (ends_bind (p := keyfunc jwtToken c)).mp h
  refine .inr ⟨not_not.mp hmethod, es₁, es₂, res, rfl, ?_⟩
  dsimp only at hrest
  rcases res with _ | e | key
  · cases (ends_ret.mp hrest).2
    exact ⟨hkey, by rintro _ ⟨⟩⟩
  · cases (ends_ret.mp hrest).2
    exact ⟨hkey, by rintro _ ⟨⟩⟩
  · obtain ⟨now, es₃, rfl, hchecked⟩ := ends_ask.mp hrest
    rw [Prog.ret_bind] at hchecked
    split at hchecked
    · next hpasses =>
      cases (ends_ret.mp hchecked).2
      refine ⟨hkey, ?_⟩
      rintro _ ⟨⟩
      exact ⟨key, now, rfl, .head _, hpasses, rfl⟩
    · cases (ends_ret.mp hchecked).2
      exact ⟨hkey, by rintro _ ⟨⟩⟩

theorem jwtLib_documented : jwtLib.Documented where
  calls opts tok keyfunc c es a c' h := by
    rcases parseWithClaims_inv h with ⟨rfl, -⟩ | ⟨-, es₁, es₂, res, rfl, hkey, -⟩
    · exact .inl rfl
    · exact .inr ⟨jwtToken, es₁, res, rfl, hkey, List.subset_append_left _ _⟩
  accepts opts tok keyfunc c es claims c' h := by
    rcases parseWithClaims_inv h with ⟨-, e, he⟩ | ⟨hmethod, es₁, es₂, res, rfl, hkey, hclaims⟩
    · cases he
    · obtain ⟨key, now, rfl, hnow, ⟨hissuer, haudience, hexp, hnbf⟩, rfl⟩ := hclaims claims rfl
      exact ⟨jwtToken, es₁, key, now, hkey, List.subset_append_left _ _, List.mem_append_right _ hnow,
        ⟨rfl, hmethod, trivial, hissuer, haudience, hexp, hnbf⟩, rfl⟩

/-- A cache that holds no other document of the provider than the one of the sample. -/
def Primed (c : IdpJWKSCache) : Prop :=
  c.ttl = 3600 * second ∧ (c.cached (lit "url") = none ∨
    c.cached (lit "url") = some ⟨IdpJWKSCache.Sample.doc, IdpJWKSCache.Sample.now⟩)

theorem primed_keyByKid {c : IdpJWKSCache} (h : Primed c) : ∃ es c', Primed c' ∧
    (c.keyByKid (lit "url") (lit "k1")).Ends es (some (.ok ⟨49415, 65537⟩), c') := by
  obtain ⟨httl, hnone | hsome⟩ := h
  · refine ⟨_, c.store (lit "url") IdpJWKSCache.Sample.doc IdpJWKSCache.Sample.now, ⟨httl, .inr ?_⟩,
      IdpJWKSCache.Step.ends (.refreshed ?_ IdpJWKSCache.fetchResult_sample)⟩
    · simp [IdpJWKSCache.store]
    · intro e he
      rw [hnone] at he
      cases he
  · have hfresh : ¬ c.Stale (lit "url") IdpJWKSCache.Sample.now := by
      intro hstale
      have hage := hstale _ hsome
      rw [httl, sub_self] at hage
      exact absurd hage (by decide)
    exact ⟨_, c, ⟨httl, .inr hsome⟩, IdpJWKSCache.Step.ends (.hit hfresh hsome)⟩

theorem primed_verifyJWT {c : IdpJWKSCache} (h : Primed c) (tok : Bytes) : ∃ es c', Primed c' ∧
    (jwtLib.verifyJWT c tok (lit "url") (lit "iss") (lit "aud")).Ends es (some (.ok jwtToken.claims), c') := by
  obtain ⟨es, c', hprimed, hkey⟩ := primed_keyByKid h
  refine ⟨_, c', hprimed, ends_bind.mpr ⟨_, [⟨.inr (), noon⟩], _, rfl, ends_inl.mpr ⟨es, hkey, rfl⟩, ?_⟩⟩
  exact ends_ask.mpr ⟨noon, [], rfl, ends_ret.mpr ⟨rfl, rfl⟩⟩

/-- The validation that is asked for in the sample. -/
def Validates (e : Event BrokerSig) : Prop := ∀ tok url issuer audience a,
  e = hostEvent (.verifyJWT tok url issuer audience) a →
    url = lit "url" ∧ issuer = lit "iss" ∧ audience = lit "aud" ∧ a = .ok (lit "sub")

theorem providers_take {es : List (Event BrokerSig)} (hes : ∀ e ∈ es, Validates e) (s : Providers)
    (hs : Primed s.cache) :
    ∃ s', Exec (ProviderHandler jwtLib) s es s' := by
  induction es generalizing s with
  | nil => exact ⟨s, .nil s⟩
  | cons e es ih =>
    obtain ⟨he, hes⟩ := List.forall_mem_cons.mp hes
    have hstep : ∃ s₁, ProviderHandler jwtLib e.op s e.ans s₁ ∧ Primed s₁.cache := by
      obtain ⟨o | o, a⟩ := e
      · exact ⟨s, rfl, hs⟩
      · cases o with
        | verifyJWT tok url issuer audience =>
          obtain ⟨rfl, rfl, rfl, rfl⟩ := he tok url issuer audience a rfl
          obtain ⟨fs, c', hprimed, hends⟩ := primed_verifyJWT hs tok
          exact ⟨⟨c', s.net ++ fs⟩, ⟨fs, _, hends, rfl, rfl⟩, hprimed⟩
        | _ => exact ⟨s, rfl, hs⟩
    obtain ⟨s₁, hstep, hs₁⟩ := hstep
    obtain ⟨s', hexec⟩ := ih hes s₁ hs₁
    exact ⟨s', .cons hstep hexec⟩

/-- The surroundings of the sample accept every token. -/
def Accepts (s : MemStore × Host) : Prop := s.2.validate = (host 0).validate

theorem accepts_step (o : BrokerSig.Op) (s : MemStore × Host) (a : BrokerSig.Ans o) (s' : MemStore × Host)
    (hstep : Handler.graph (both MemStore.step Host.step) o s a s') (hs : Accepts s) : Accepts s' := by
  obtain rfl : (both MemStore.step Host.step o s).2 = s' := congrArg Prod.snd hstep
  rcases o with o | o
  · exact hs
  · cases o <;> exact hs

end Sample

/-- A request that is answered with 200. -/
theorem minted_under_provider_key_sample : Sample.jwtLib.Documented ∧ ∃ tr ps' s' resp,
    Run (ProviderHandler Sample.jwtLib) (fun _ : Unit => (Call.bootstrapOIDC Sample.request).prog Sample.service)
      ⟨newIDPJWKSCache (3600 * second) fun _ => true, []⟩ tr ps' s' ∧
    ps' () = .ret (.http (some resp)) ∧ resp.status = 200 ∧
    ∃ doc t key, Sample.jwtLib.Trusted s'.net (lit "t") (lit "url") (lit "iss") (lit "aud") (lit "sub") t doc key := by
  obtain ⟨es, resp, s, hends, hstatus, hexec⟩ := Sample.handled
  have hvalidates : ∀ e ∈ es, Sample.Validates e := by
    rintro e he tok url issuer audience a rfl
    obtain ⟨-, -, req, hdecodes, -, hissuer, haudience, hurl⟩ :=
      (Path.obeys hends (Sample.service.oidc.handle_obeys Sample.request)).2 _ he
    obtain rfl : req = Sample.bootstrapRequest := Option.some.inj (hdecodes.symm.trans Sample.request_decodes)
    subst hissuer haudience
    have hans : a = .ok (lit "sub") := by
      refine hexec.forall_mem Sample.accepts_step rfl (P := fun e => ∀ a : Except GoError Bytes,
        e = hostEvent (.verifyJWT tok url (lit "iss") (lit "aud")) a → a = .ok (lit "sub")) ?_ _ he a rfl
      rintro e s s' hs hstep a rfl
      have hans : s.2.validate tok url (lit "iss") (lit "aud") (s.2.oidcClock 0) = a := congrArg Prod.fst hstep
      rw [← hans, hs]
      rfl
    exact ⟨(Option.some.inj hurl).symm, rfl, rfl, hans⟩
  obtain ⟨s', hproviders⟩ := Sample.providers_take hvalidates ⟨newIDPJWKSCache (3600 * second) fun _ => true, []⟩
    ⟨rfl, .inl rfl⟩
  have hrun : Run _ (fun _ : Unit => (Call.bootstrapOIDC Sample.request).prog Sample.service) _ _ _ _ :=
    Run.of_path (i := ()) (ends_map.mpr ⟨_, hends, rfl⟩) hproviders
  obtain ⟨req, sub, row, cap, jwksURL, t, doc, key, hg, hurl, ht, -, -, -, -, hsub, -⟩ :=
    minted_under_provider_key Sample.service Sample.jwtLib Sample.jwtLib_documented _ _
      (fun _ : Unit => .bootstrapOIDC Sample.request) _ _ _ hrun () Sample.request resp rfl
        (Function.update_self ..) hstatus
  obtain rfl : req = Sample.bootstrapRequest := Option.some.inj (hg.validated.decodes.symm.trans Sample.request_decodes)
  obtain rfl : lit "url" = jwksURL := Option.some.inj hurl
  obtain ⟨now, -, hvalid⟩ := ht.valid
  obtain rfl : Sample.jwtToken = t := Option.some.inj hvalid.parsed
  subst hsub
  exact ⟨Sample.jwtLib_documented, _, _, _, resp, hrun, Function.update_self .., hstatus, doc, _, key, ht⟩

end Hanko
