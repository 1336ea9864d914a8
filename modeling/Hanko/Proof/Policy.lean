import Hanko.Proof.Bootstrap

/-!
# The policy index and the scopes of a cap

Two strings that are put together and compared as one. The index of the policy
joins issuer and subject by a separator that both may contain, so that `Lookup`
can find the row of another pair (`policy_lookup_exact_iff`). The scopes that
a request was granted are joined into the scope of its cap, which
`VerifyCapScope` compares as a whole, so that a cap with several scopes can be
used for none of them (`granted_scopes_usable_iff`).
-/

namespace Hanko

open Bytes Interact

/-! ## Lookup -/

/-- The row is the policy for the pair. -/
def OIDCPolicyRow.IsFor (r : OIDCPolicyRow) (issuer sub : Bytes) : Prop := r.issuer = issuer ∧ r.sub = sub

instance OIDCPolicyRow.decidableIsFor (r : OIDCPolicyRow) (issuer sub : Bytes) : Decidable (r.IsFor issuer sub) :=
  inferInstanceAs (Decidable (_ ∧ _))

/-- Neither of the strings that the key of a row is made of has the separator. -/
def OIDCPolicyRow.Plain (r : OIDCPolicyRow) : Prop := 124 ∉ r.issuer ∧ 124 ∉ r.sub

/-- Looking up a pair among `rows` finds the last row of the pair, and does not
depend on the rows of other pairs. -/
structure LookupExact (rows : List OIDCPolicyRow) (issuer sub : Bytes) : Prop where
  found : ((OIDCPolicy.ofRows rows).lookup issuer sub).isSome ↔ ∃ r ∈ rows, r.IsFor issuer sub
  last : ∀ r, (OIDCPolicy.ofRows rows).lookup issuer sub = some r →
    ∃ before after, rows = before ++ r :: after ∧ r.IsFor issuer sub ∧ ∀ r' ∈ after, ¬ r'.IsFor issuer sub
  own : (OIDCPolicy.ofRows rows).lookup issuer sub =
    (OIDCPolicy.ofRows (rows.filter (·.IsFor issuer sub))).lookup issuer sub

/-- A row has the key of the pair. -/
def OIDCPolicyRow.HasKey (r : OIDCPolicyRow) (issuer sub : Bytes) : Prop :=
  policyKey r.issuer r.sub = policyKey issuer sub

instance OIDCPolicyRow.decidableHasKey (r : OIDCPolicyRow) (issuer sub : Bytes) : Decidable (r.HasKey issuer sub) :=
  inferInstanceAs (Decidable (_ = _))

theorem OIDCPolicyRow.IsFor.hasKey {r : OIDCPolicyRow} {issuer sub : Bytes} (h : r.IsFor issuer sub) :
    r.HasKey issuer sub := by
  rw [HasKey, h.1, h.2]

theorem lookup_concat (rows : List OIDCPolicyRow) (r : OIDCPolicyRow) (issuer sub : Bytes) :
    (OIDCPolicy.ofRows (rows ++ [r])).lookup issuer sub =
      if r.HasKey issuer sub then some r else (OIDCPolicy.ofRows rows).lookup issuer sub := by
  simp only [OIDCPolicy.lookup, OIDCPolicy.ofRows, List.foldl_append, List.foldl_cons, List.foldl_nil,
    Function.update_apply, OIDCPolicyRow.HasKey, eq_comm]

/-- The index has the last row of each key. -/
theorem lookup_ofRows (rows : List OIDCPolicyRow) (issuer sub : Bytes) :
    (OIDCPolicy.ofRows rows).lookup issuer sub = rows.reverse.find? (·.HasKey issuer sub) := by
  induction rows using List.reverseRecOn with
  | nil => rfl
  | append_singleton rows r ih =>
    rw [lookup_concat, List.reverse_concat, List.find?_cons, ih]
    by_cases h : r.HasKey issuer sub <;> simp [h]

/-- What is found is the last row with the key. -/
theorem lookup_eq_some {rows : List OIDCPolicyRow} {issuer sub : Bytes} {r : OIDCPolicyRow} :
    (OIDCPolicy.ofRows rows).lookup issuer sub = some r ↔
      ∃ before after, rows = before ++ r :: after ∧ r.HasKey issuer sub ∧ ∀ r' ∈ after, ¬ r'.HasKey issuer sub := by
  rw [lookup_ofRows, List.find?_eq_some_iff_append]
  constructor
  · rintro ⟨hkey, after, before, hrows, hafter⟩
    refine ⟨before.reverse, after.reverse, ?_, by simpa using hkey, by simpa using hafter⟩
    rw [← List.reverse_reverse rows, hrows]
    simp
  · rintro ⟨before, after, rfl, hkey, hafter⟩
    exact ⟨by simpa using hkey, after.reverse, before.reverse, by simp, by simpa using hafter⟩

theorem lookup_isSome {rows : List OIDCPolicyRow} {issuer sub : Bytes} :
    ((OIDCPolicy.ofRows rows).lookup issuer sub).isSome ↔ ∃ r ∈ rows, r.HasKey issuer sub := by
  rw [lookup_ofRows, List.find?_isSome]
  simp

/-- A lookup is exact unless it finds a row of another pair. -/
theorem lookupExact_iff {rows : List OIDCPolicyRow} {issuer sub : Bytes} :
    LookupExact rows issuer sub ↔
      ∀ r, (OIDCPolicy.ofRows rows).lookup issuer sub = some r → r.IsFor issuer sub := by
  constructor
  · intro h r hr
    obtain ⟨-, -, -, hfor, -⟩ := h.last r hr
    exact hfor
  intro h
  cases hfound : (OIDCPolicy.ofRows rows).lookup issuer sub with
  | none =>
    have hnone : ∀ r ∈ rows, ¬ r.HasKey issuer sub := by
      intro r hr hkey
      have hsome := lookup_isSome.mpr ⟨r, hr, hkey⟩
      rw [hfound] at hsome
      cases hsome
    have hother : rows.filter (·.IsFor issuer sub) = [] := by
      rw [List.filter_eq_nil_iff]
      intro r hr hfor
      exact hnone r hr (of_decide_eq_true hfor).hasKey
    refine ⟨?_, by simp [hfound], ?_⟩
    · rw [hfound]
      refine iff_of_false (by simp) ?_
      rintro ⟨r, hr, hfor⟩
      exact hnone r hr hfor.hasKey
    · rw [hfound, hother]
      rfl
  | some r =>
    have hfor := h r hfound
    obtain ⟨before, after, rfl, hkey, hafter⟩ := lookup_eq_some.mp hfound
    have hlast : ∀ r' ∈ after, ¬ r'.IsFor issuer sub := fun r' hr' hfor' => hafter r' hr' hfor'.hasKey
    refine ⟨?_, ?_, ?_⟩
    · rw [hfound]
      exact iff_of_true rfl ⟨r, by simp, hfor⟩
    · intro r' hr'
      obtain rfl := Option.some.inj (hfound.symm.trans hr')
      exact ⟨before, after, rfl, hfor, hlast⟩
    · have hnil : after.filter (·.IsFor issuer sub) = [] := by simpa [List.filter_eq_nil_iff] using hlast
      rw [hfound, List.filter_append, List.filter_cons_of_pos (by simpa using hfor), hnil, lookup_ofRows]
      simp [hkey]

/-! ## The separator -/

/-- The key of a pair without separators is no other pair's. -/
theorem policyKey_inj {i s j t : Bytes} (hi : 124 ∉ i) (hs : 124 ∉ s) (h : policyKey i s = policyKey j t) :
    i = j ∧ s = t := by
  obtain ⟨hissuer, -, hsub⟩ := (List.append_cons_inj_of_notMem hi hs).mp h
  exact ⟨hissuer, hsub⟩

/-- A key with two separators is the key of two issuers. -/
theorem exists_policyKey_eq {i s : Bytes} (h : ¬ (124 ∉ i ∧ 124 ∉ s)) :
    ∃ j t, j ≠ i ∧ policyKey j t = policyKey i s := by
  by_cases hi : 124 ∈ i
  · obtain ⟨x, y, rfl⟩ := List.append_of_mem hi
    exact ⟨x, y ++ 124 :: s, by simp, by simp [policyKey]⟩
  · have hs : 124 ∈ s := by
      by_contra hs
      exact h ⟨hi, hs⟩
    obtain ⟨x, y, rfl⟩ := List.append_of_mem hs
    exact ⟨i ++ 124 :: x, y, by simp, by simp [policyKey]⟩

theorem lookupExact_of_plain {rows : List OIDCPolicyRow} (h : ∀ r ∈ rows, r.Plain) (issuer sub : Bytes) :
    LookupExact rows issuer sub := by
  rw [lookupExact_iff]
  intro r hr
  obtain ⟨before, after, rfl, hkey, -⟩ := lookup_eq_some.mp hr
  obtain ⟨hissuer, hsub⟩ := h r (by simp)
  exact policyKey_inj hissuer hsub hkey

/-- A row with another separator is found by a pair that it is not for, or
hidden from its own. -/
theorem plain_of_lookupExact {rows : List OIDCPolicyRow} (h : ∀ issuer sub, LookupExact rows issuer sub) :
    ∀ r ∈ rows, r.Plain := by
  intro r hr
  by_contra hsep
  obtain ⟨j, t, hj, hkey⟩ := exists_policyKey_eq hsep
  obtain ⟨found, hfound⟩ := Option.isSome_iff_exists.mp
    (lookup_isSome.mpr ⟨r, hr, rfl⟩ : ((OIDCPolicy.ofRows rows).lookup r.issuer r.sub).isSome)
  have hother : (OIDCPolicy.ofRows rows).lookup j t = some found := by
    rw [OIDCPolicy.lookup, hkey]
    exact hfound
  have hfor := lookupExact_iff.mp (h r.issuer r.sub) found hfound
  have hfor' := lookupExact_iff.mp (h j t) found hother
  exact hj (hfor'.1.symm.trans hfor.1)

/-- The policy that `LoadOIDCPolicy` makes of a file with the rows `rows`. The
lookup of a pair is exact iff the last row with the key of the pair, if there is one, is
a row of the pair; the lookups of all pairs are exact iff no issuer and no subject of a
row has a `|`. -/
theorem policy_lookup_exact_iff (unmarshal : Bytes → Except GoError (List OIDCPolicyRow)) (path raw : Bytes)
    (rows : List OIDCPolicyRow) (hpath : path ≠ []) (hraw : unmarshal raw = .ok rows) :
    loadOIDCPolicy unmarshal path (.bytes raw) = .ok (.ofRows rows) ∧
    (∀ issuer sub, LookupExact rows issuer sub ↔
      ∀ before r after, rows = before ++ r :: after → policyKey r.issuer r.sub = policyKey issuer sub →
        (∀ r' ∈ after, policyKey r'.issuer r'.sub ≠ policyKey issuer sub) → r.issuer = issuer ∧ r.sub = sub) ∧
    ((∀ issuer sub, LookupExact rows issuer sub) ↔ ∀ r ∈ rows, 124 ∉ r.issuer ∧ 124 ∉ r.sub) := by
  refine ⟨?_, fun issuer sub => lookupExact_iff.trans ⟨?_, ?_⟩, plain_of_lookupExact, lookupExact_of_plain⟩
  · simp only [loadOIDCPolicy, if_neg hpath, hraw]
  · intro h before r after hrows hkey hafter
    exact h r (lookup_eq_some.mpr ⟨before, after, hrows, hkey, hafter⟩)
  · intro h r hr
    obtain ⟨before, after, hrows, hkey, hafter⟩ := lookup_eq_some.mp hr
    exact h before r after hrows hkey hafter

namespace Sample

/-- A row for a subject of the form that some providers use. -/
def auth0Row : OIDCPolicyRow := ⟨lit "iss", lit "auth0|123", uuid 1, [lit "read"], 300, true⟩

end Sample

theorem policy_lookup_exact_sample :
    loadOIDCPolicy (fun _ => .ok [Sample.policyRow]) (lit "policy.json") (.bytes []) =
      .ok (.ofRows [Sample.policyRow]) ∧
      ∀ issuer sub, LookupExact [Sample.policyRow] issuer sub := by
  obtain ⟨hload, -, hall⟩ := policy_lookup_exact_iff (fun _ => .ok [Sample.policyRow]) (lit "policy.json") []
    [Sample.policyRow] (by decide) rfl
  exact ⟨hload, hall.mpr (List.forall_mem_singleton.mpr ⟨by decide, by decide⟩)⟩

/-- The row of `auth0|123` is found for the subject `123` of another issuer. -/
theorem policy_key_collides :
    loadOIDCPolicy (fun _ => .ok [Sample.auth0Row]) (lit "policy.json") (.bytes []) = .ok (.ofRows [Sample.auth0Row]) ∧
      (OIDCPolicy.ofRows [Sample.auth0Row]).lookup (lit "iss|auth0") (lit "123") = some Sample.auth0Row ∧
      ¬ LookupExact [Sample.auth0Row] (lit "iss|auth0") (lit "123") := by
  have hfound : (OIDCPolicy.ofRows [Sample.auth0Row]).lookup (lit "iss|auth0") (lit "123") = some Sample.auth0Row := by
    decide
  refine ⟨rfl, hfound, fun h => ?_⟩
  have hfor := lookupExact_iff.mp h _ hfound
  exact absurd hfor (by decide)

/-! ## The scope of a cap -/

/-- `VerifyCapScope` lets a cap be used for each of the scopes, and for nothing
else. -/
structure UsableFor (c : CapabilityToken) (scopes : List Bytes) : Prop where
  covered : ∀ scope ∈ scopes, Broker.verifyCapScope c scope = none
  others : ∀ action, action ∉ scopes → ∃ e, Broker.verifyCapScope c action = some e

theorem verifyCapScope_eq_none {c : CapabilityToken} {action : Bytes} :
    Broker.verifyCapScope c action = none ↔ c.scope = action := by
  rw [Broker.verifyCapScope]
  split
  · simp [*]
  · simp_all

theorem verifyCapScope_eq_some {c : CapabilityToken} {action : Bytes} (h : c.scope ≠ action) :
    ∃ e, Broker.verifyCapScope c action = some e :=
  ⟨_, if_pos h⟩

theorem length_le_joinSpace {scopes : List Bytes} {scope : Bytes} (h : scope ∈ scopes) :
    scope.length ≤ (joinSpace scopes).length := by
  induction scopes with
  | nil => cases h
  | cons a scopes ih =>
    cases scopes with
    | nil => simp_all [joinSpace, List.intercalate]
    | cons b scopes =>
      rw [joinSpace, List.intercalate_cons_cons, List.length_append, List.length_append]
      rcases List.mem_cons.mp h with rfl | h
      · omega
      · exact (ih h).trans (Nat.le_add_left _ _)

/-- Two or more scopes joined are longer than each of them. -/
theorem length_lt_joinSpace {scopes : List Bytes} {scope : Bytes} (h : scope ∈ scopes) (htwo : scopes.length ≠ 1) :
    scope.length < (joinSpace scopes).length := by
  rcases scopes with _ | ⟨a, _ | ⟨b, scopes⟩⟩
  · cases h
  · exact absurd rfl htwo
  · rw [joinSpace, List.intercalate_cons_cons, List.length_append, List.length_append, List.length_singleton]
    rcases List.mem_cons.mp h with rfl | h
    · omega
    · have hle := length_le_joinSpace h
      rw [joinSpace] at hle
      omega

theorem usableFor_iff {c : CapabilityToken} {scopes : List Bytes} (hscope : c.scope = joinSpace scopes)
    (hne : scopes ≠ []) : UsableFor c scopes ↔ scopes.length = 1 := by
  constructor
  · intro h
    by_contra hlen
    obtain ⟨scope, hmem⟩ := List.exists_mem_of_ne_nil _ hne
    have heq := verifyCapScope_eq_none.mp (h.covered scope hmem)
    have hlt := length_lt_joinSpace hmem hlen
    rw [← hscope, heq] at hlt
    exact hlt.ne rfl
  · intro hlen
    obtain ⟨scope, rfl⟩ := List.length_eq_one_iff.mp hlen
    have hc : c.scope = scope := by rw [hscope]; simp [joinSpace, List.intercalate]
    refine ⟨?_, fun action haction => verifyCapScope_eq_some ?_⟩
    · rintro _ hmem
      rw [verifyCapScope_eq_none, hc, List.mem_singleton.mp hmem]
    · rw [hc]
      exact fun heq => haction (List.mem_singleton.mpr heq.symm)

/-- A request that is answered with 200 stored a cap, which can be used for the
scopes of the request, and for nothing else, iff there is one of them. -/
theorem granted_scopes_usable_iff (h : OIDCBootstrap) (σ : Type)
    (step : (o : StoreSig.Op) → σ → StoreSig.Ans o × σ) (s : σ) (w : Host) (r : Request)
    (hok : ((h.handle r).exec (both step Host.step) (s, w)).1.map Response.status = some 200) :
    ∃ req c, decodeBootstrapRequest r.body = some req ∧ req.scopes ≠ [] ∧
      ((h.handle r).exec (both step Host.step) (s, w)).2.1 =
        (step (.saveCap c) (step (.getSigil c.sigilID) s).2).2 ∧
      (UsableFor c req.scopes ↔ req.scopes.length = 1) := by
  obtain ⟨req, sub, row, c, hg, hissue⟩ := h.issued_of_ok step hok
  obtain ⟨-, hscope, w', hout⟩ := h.handle_of_issued step hg hissue
  exact ⟨req, c, hg.decodes, hg.scopes, by rw [hout], usableFor_iff hscope hg.scopes⟩

namespace Sample

/-- A request for the scopes `read` and `write`. -/
def twoScopesTree : Json :=
  .obj [(lit "oidc_token", .str (lit "t")), (lit "oidc_issuer", .str (lit "iss")),
    (lit "audience", .str (lit "aud")), (lit "requested_scopes", .arr [.str (lit "read"), .str (lit "write")])]

def twoScopesRequest : Request :=
  ⟨lit "POST", lit "corr", [], [], [], Json.print Json.compact 0 (twoScopesTree.mapStr Json.quote)⟩

def twoScopes : BootstrapRequest := ⟨lit "t", lit "iss", lit "aud", [], some ⟨[lit "read", lit "write"], []⟩, 0⟩

theorem twoScopes_decodes : decodeBootstrapRequest twoScopesRequest.body = some twoScopes := by
  have hlit := Json.isLit_quote
  have hwf : Json.WF (twoScopesTree.mapStr Json.quote) :=
    ⟨hlit _, hlit _, hlit _, hlit _, hlit _, hlit _, hlit _, ⟨hlit _, hlit _, trivial⟩, trivial⟩
  have hparse := Json.parseFirst_print Json.compact_ok hwf (by decide) (r := []) (by simp [Json.NumEnd])
  rw [List.append_nil] at hparse
  have htake : twoScopesRequest.body.take 65536 = twoScopesRequest.body := List.take_of_length_le (by decide)
  rw [decodeBootstrapRequest, htake, twoScopesRequest, hparse]
  rfl

theorem twoScopes_granted : oidc.config.Grants twoScopesRequest (host 0) twoScopes (lit "sub") policyRow where
  post := rfl
  decodes := twoScopes_decodes
  token := by decide
  issuer := by decide
  audience := by decide
  configured := rfl
  scopes := by decide
  validates := ⟨lit "url", rfl, rfl⟩
  policy := ⟨_, rfl, by decide⟩
  enabled := rfl
  allowed := by decide

end Sample

theorem granted_scopes_usable_sample :
    ∃ req c, decodeBootstrapRequest Sample.request.body = some req ∧ UsableFor c req.scopes := by
  obtain ⟨-, -, w', hout⟩ := Sample.oidc.handle_of_issued MemStore.step (s := Sample.store)
    (Sample.request_granted (w := Sample.host 0) rfl) (c := ⟨_, _, _, _, _, _⟩) rfl
  obtain ⟨req, c, hreq, -, -, husable⟩ := granted_scopes_usable_iff Sample.oidc MemStore MemStore.step Sample.store
    (Sample.host 0) Sample.request (by rw [hout]; rfl)
  refine ⟨req, c, hreq, husable.mpr ?_⟩
  obtain rfl := Option.some.inj (hreq.symm.trans Sample.request_decodes)
  rfl

/-- The cap of a request for `read` and `write` that was granted can be used
for neither. -/
theorem granted_scopes_unusable :
    ∃ c w', (Sample.oidc.handle Sample.twoScopesRequest).exec (both MemStore.step Host.step)
        (Sample.store, Sample.host 0) =
      (some ⟨200, OIDCBootstrap.headers (OIDCBootstrap.newCorrID Sample.twoScopesRequest (Sample.host 0)),
        OIDCBootstrap.responseBody (Sample.oidc.capToken c Sample.noon id) c.expiresAt c.scope c.sigilID⟩,
        ({ Sample.store with caps := Function.update Sample.store.caps c.id (some c) }, w')) ∧
      Sample.twoScopes.scopes = [lit "read", lit "write"] ∧
      Broker.verifyCapScope c (lit "read") = some (.verify errScopeMismatch) ∧
      Broker.verifyCapScope c (lit "write") = some (.verify errScopeMismatch) := by
  obtain ⟨-, -, w', hout⟩ := Sample.oidc.handle_of_issued MemStore.step (s := Sample.store)
    Sample.twoScopes_granted (c := ⟨_, _, _, _, _, _⟩) rfl
  exact ⟨_, w', hout, rfl, by decide, by decide⟩

end Hanko
