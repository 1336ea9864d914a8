import Hanko.Framework.Separators
import Hanko.Proof.Bootstrap
import Hanko.Proof.ConfigReload
import Hanko.Proof.Interchange

/-!
# Subjects and their tokens

A subject is seven tokens. Of these all but the correlation id are free of dots
(`headTokens`), so that the subject determines its parts whatever the id is
(`string_inj`). It is the last token, and takes one place, if and only if it has
no dot itself (`subject_decodable_iff`); the code takes it from a header of the
request as it is.

* `handle_published`: what the bootstrap handler publishes is under this id;
* `reload_answered`: a reload is answered under the id of its subject.
-/

namespace Hanko

open Bytes Interact

/-! ## The constants -/

theorem dot_notMem_entity (e : Entity) : 46 ∉ lit e.text := by cases e <;> decide

theorem dot_notMem_action (a : Action) : 46 ∉ lit a.text := by cases a <;> decide

/-- The entity with a text. -/
def Entity.ofText (t : Bytes) : Option Entity :=
  [.oidc, .sigil, .jwks, .security, .cdc, .config, .scope].find? fun e : Entity => lit e.text = t

/-- The action with a text. -/
def Action.ofText (t : Bytes) : Option Action :=
  [.authRequest, .codeIssued, .tokenIssued, .userInfoServed, .sessionRevoked, .failed, .tokenFailed, .userInfoFailed,
    .sigilIssued, .sigilRevoked, .jwksRotated, .bruteForceDetected, .auditRowInserted, .auditRowUpdated,
    .auditRowDeleted, .configReloadRequested, .configReloaded, .configReloadFailed,
    .unknownScopeRejected].find? fun a : Action => lit a.text = t

theorem entity_ofText (e : Entity) : Entity.ofText (lit e.text) = some e := by cases e <;> decide

theorem action_ofText (a : Action) : Action.ofText (lit a.text) = some a := by cases a <;> decide

theorem entity_text_inj {e e' : Entity} (h : lit e.text = lit e'.text) : e = e' := by
  have he := congrArg Entity.ofText h
  rwa [entity_ofText, entity_ofText, Option.some.injEq] at he

theorem action_text_inj {a a' : Action} (h : lit a.text = lit a'.text) : a = a' := by
  have ha := congrArg Action.ofText h
  rwa [action_ofText, action_ofText, Option.some.injEq] at ha

/-! ## Tokens -/

/-- The tokens of a subject before the correlation id. -/
def headTokens (workspaceID : Bytes) (e : Entity) (a : Action) : List Bytes :=
  [lit "shikki", workspaceID, lit "broker", lit "hanko", lit e.text, lit a.text]

theorem dot_notMem_headTokens {ws : Bytes} (hws : 46 ∉ ws) (e : Entity) (a : Action) :
    ∀ t ∈ headTokens ws e a, 46 ∉ t := by
  simp only [headTokens, List.forall_mem_cons]
  exact ⟨by decide, hws, by decide, by decide, dot_notMem_entity e, dot_notMem_action a, nofun⟩

theorem string_eq (ws : Bytes) (e : Entity) (a : Action) (corrID : Bytes) :
    (brokerSubject e.text ws a.text corrID).string = (headTokens ws e a).flatMap (· ++ [46]) ++ corrID := by
  simp [NATSSubject.string, brokerSubject, headTokens, List.intercalate]

/-- A subject determines its parts, whatever the correlation ids are. -/
theorem string_inj {ws ws' : Bytes} (hws : 46 ∉ ws) (hws' : 46 ∉ ws') {e e' : Entity} {a a' : Action}
    {corrID corrID' : Bytes}
    (h : (brokerSubject e.text ws a.text corrID).string = (brokerSubject e'.text ws' a'.text corrID').string) :
    ws = ws' ∧ e = e' ∧ a = a' ∧ corrID = corrID' := by
  rw [string_eq, string_eq] at h
  have hlen : (headTokens ws e a).length = (headTokens ws' e' a').length := rfl
  obtain ⟨htokens, hcorr⟩ :=
    Separators.terminated_inj hlen (dot_notMem_headTokens hws e a) (dot_notMem_headTokens hws' e' a') h
  simp only [headTokens, List.cons.injEq, true_and, and_true] at htokens
  exact ⟨htokens.1, entity_text_inj htokens.2.1, action_text_inj htokens.2.2, hcorr⟩

theorem splitOn_string {ws : Bytes} (hws : 46 ∉ ws) (e : Entity) (a : Action) {corrID : Bytes} (hcorr : 46 ∉ corrID) :
    (brokerSubject e.text ws a.text corrID).string.splitOn 46 = headTokens ws e a ++ [corrID] := by
  have htokens : ∀ t ∈ headTokens ws e a ++ [corrID], 46 ∉ t := by
    rw [List.forall_mem_append, List.forall_mem_singleton]
    exact ⟨dot_notMem_headTokens hws e a, hcorr⟩
  exact List.splitOn_intercalate 46 htokens (by simp)

/-! ## The last token -/

theorem dot_notMem_lastTokenFrom {subject : Bytes} {n : Nat} (h : 46 ∉ subject.drop n) :
    46 ∉ lastTokenFrom subject n := by
  induction n with
  | zero => exact h
  | succ i ih =>
    rw [lastTokenFrom]
    split
    · exact h
    · next hi =>
      refine ih fun hmem => ?_
      rw [List.drop_eq_getElem?_toList_append, List.mem_append, Option.mem_toList] at hmem
      exact hmem.elim (fun hget => hi hget) h

/-- What `lastToken` returns has no dot. -/
theorem dot_notMem_lastToken (subject : Bytes) : 46 ∉ lastToken subject := by
  refine dot_notMem_lastTokenFrom ?_
  rw [List.drop_length]
  exact List.not_mem_nil

theorem lastTokenFrom_append {front token : Bytes} (h : 46 ∉ token) {n : Nat} (hn : n ≤ token.length) :
    lastTokenFrom (front ++ 46 :: token) (front.length + 1 + n) = token := by
  induction n with
  | zero => simp [lastTokenFrom]
  | succ n ih =>
    have hget : (front ++ 46 :: token)[front.length + 1 + n]? = token[n]? := by
      rw [List.getElem?_append_right (by omega), show front.length + 1 + n - front.length = n + 1 by omega,
        List.getElem?_cons_succ]
    rw [← Nat.add_assoc, lastTokenFrom, hget, if_neg fun hdot => h (List.mem_of_getElem? hdot)]
    exact ih (by omega)

theorem lastToken_append (front : Bytes) {token : Bytes} (h : 46 ∉ token) :
    lastToken (front ++ 46 :: token) = token := by
  have hlen : (front ++ 46 :: token).length = front.length + 1 + token.length := by
    rw [List.length_append, List.length_cons]
    omega
  rw [lastToken, hlen]
  exact lastTokenFrom_append h le_rfl

theorem lastToken_string (s : NATSSubject) (h : 46 ∉ s.corrID) : lastToken s.string = s.corrID := by
  have hstring : s.string = [46].intercalate [lit "shikki", s.workspaceID, s.domain, s.subDomain, s.entity, s.action] ++
      46 :: s.corrID := by
    simp [NATSSubject.string, List.intercalate]
  rw [hstring]
  exact lastToken_append _ h

/-! ## Correlation ids -/

theorem hexDigit_ne_dot : ∀ n < 16, hexDigit n ≠ 46 := by decide

theorem dot_notMem_hexEncode (bs : Bytes) : 46 ∉ hexEncode bs := by
  induction bs with
  | nil => exact List.not_mem_nil
  | cons b bs ih =>
    have hb := b.toNat_lt
    have hhigh := hexDigit_ne_dot (b.toNat / 16) (by omega)
    have hlow := hexDigit_ne_dot (b.toNat % 16) (by omega)
    rw [hexEncode_cons]
    simp [hhigh.symm, hlow.symm, ih]

theorem Canonical.dot_notMem {id : Bytes} (h : Canonical id) : 46 ∉ id := by
  obtain ⟨u, -, rfl⟩ := h
  simp [uuidOut, dot_notMem_hexEncode]

/-- The correlation ids that `Handle` may take for a request: what its header
says, or a new UUID. -/
def Request.Accepts (r : Request) (corrID : Bytes) : Prop :=
  if r.corrID = [] then Canonical corrID else corrID = r.corrID

theorem Request.Accepts.dot_notMem_iff {r : Request} {corrID : Bytes} (h : r.Accepts corrID) :
    46 ∉ corrID ↔ 46 ∉ r.corrID := by
  rw [Request.Accepts] at h
  split at h
  next hnone => simp [h.dot_notMem, hnone]
  next => rw [h]

theorem subscriptionMatches_string {ws : Bytes} (hws : 46 ∉ ws) (e : Entity) (a : Action) {corrID : Bytes}
    (hcorr : 46 ∉ corrID) :
    subscriptionMatches (brokerSubject e.text ws a.text (lit "*")).string
      (brokerSubject e.text ws a.text corrID).string = true := by
  rw [subscriptionMatches, splitOn_string hws e a (by decide), splitOn_string hws e a hcorr]
  simp [headTokens, tokenMatches]

/-- For every correlation id that the code may take for a request, a subject
has seven tokens, of which the id is the last that `lastToken` returns, a
wildcard in this place takes it, and no other parts give it, if and only if
there is no dot in the header of the request. -/
theorem subject_decodable_iff (workspaceID : Bytes) (hworkspace : 46 ∉ workspaceID) (e : Entity) (a : Action)
    (r : Request) (corrID : Bytes) (haccepts : r.Accepts corrID) :
    let subject := (brokerSubject e.text workspaceID a.text corrID).string
    (subject.splitOn 46 =
        [lit "shikki", workspaceID, lit "broker", lit "hanko", lit e.text, lit a.text, corrID] ∧
      lastToken subject = corrID ∧
      (∀ workspaceID' e' a' corrID', 46 ∉ workspaceID' →
        (brokerSubject (Entity.text e') workspaceID' (Action.text a') corrID').string = subject →
          workspaceID' = workspaceID ∧ e' = e ∧ a' = a ∧ corrID' = corrID) ∧
      subscriptionMatches (brokerSubject e.text workspaceID a.text (lit "*")).string subject = true) ↔
    46 ∉ r.corrID := by
  rw [← haccepts.dot_notMem_iff]
  constructor
  · rintro ⟨-, hlast, -, -⟩
    rw [← hlast]
    exact dot_notMem_lastToken _
  · intro hcorr
    exact ⟨splitOn_string hworkspace e a hcorr, lastToken_string _ hcorr,
      fun _ _ _ _ hworkspace' => string_inj hworkspace' hworkspace,
      subscriptionMatches_string hworkspace e a hcorr⟩

/-- A request with a correlation id. -/
def Sample.withCorrID (corrID : Bytes) : Request := ⟨lit "POST", corrID, [], [], lit "10.0.0.1:443", []⟩

theorem subject_decodable_sample :
    lastToken (brokerSubject "oidc" (lit "shi-qa") "failed" (lit "req-7")).string = lit "req-7" :=
  ((subject_decodable_iff (lit "shi-qa") (by decide) .oidc .failed (Sample.withCorrID (lit "req-7")) (lit "req-7")
    rfl).mpr (by decide)).2.1

/-- A dot in the header: the subject has eight tokens, and the last one is a
part of the id. -/
theorem subject_of_dotted_corrID :
    let r := Sample.withCorrID (lit "a.b")
    r.Accepts (lit "a.b") ∧
    let subject := (brokerSubject Entity.oidc.text (lit "shi-qa") Action.failed.text (lit "a.b")).string
    (subject.splitOn 46).length = 8 ∧ lastToken subject = lit "b" ∧
      subscriptionMatches (brokerSubject Entity.oidc.text (lit "shi-qa") Action.failed.text (lit "*")).string
        subject = false := by
  refine ⟨rfl, ?_⟩
  decide

/-! ## What the handler publishes -/

namespace OIDCBootstrap

variable {h : OIDCBootstrap}

/-- What a request publishes is under one correlation id that `Handle` may take
for it. -/
theorem handle_published {r : Request} {es : List (Event BrokerSig)} {resp : Option Response}
    (hends : (h.handle r).Ends es resp)
    (huuid : ∀ id, (⟨.inr .newUUID, id⟩ : Event BrokerSig) ∈ es → Canonical id) :
    (∀ s ev, (⟨.inr (.publish s ev), ()⟩ : Event BrokerSig) ∉ es) ∨
      ∃ corrID, r.Accepts corrID ∧ ∀ e ∈ es, h.PublishesUnder corrID e.op := by
  rw [handle_eq, ends_ask] at hends
  obtain ⟨start, es, rfl, hends⟩ := hends
  split at hends
  · obtain ⟨rfl, rfl⟩ := ends_ret.mp hends
    exact .inl (by simp)
  · obtain ⟨es₁, es₂, corrID, rfl, hcorr, hreceive⟩ := ends_bind.mp hends
    refine .inr ⟨corrID, ?_⟩
    have hrest := Path.asks hreceive ((h.receive_asks r start corrID).mono fun _ => And.right)
    rw [OIDCBootstrap.corrID] at hcorr
    rw [Request.Accepts, List.forall_mem_cons, List.forall_mem_append]
    split at hcorr
    next hnone =>
      obtain ⟨id, es, rfl, hret⟩ := ends_ask.mp hcorr
      obtain ⟨rfl, rfl⟩ := ends_ret.mp hret
      rw [if_pos hnone]
      exact ⟨huuid corrID (by simp), trivial, by simp [PublishesUnder], hrest⟩
    next hsome =>
      obtain ⟨rfl, rfl⟩ := ends_ret.mp hcorr
      rw [if_neg hsome]
      exact ⟨rfl, trivial, List.forall_mem_nil _, hrest⟩

end OIDCBootstrap

/-! ## What the reloader answers -/

namespace ConfigReloader

/-- A reload that is requested without an id of its own, under a subject that
the reloader has subscribed to, is answered once, under the id of the subject. -/
theorem reload_answered (r : ConfigReloader) (hworkspace : 46 ∉ r.workspaceID) {corrID data : Bytes}
    (hcorr : 46 ∉ corrID) {req : ReloadRequest} (hdata : decodeReloadRequest data = some req)
    (hreq : req.corrID = []) {es : List (Event ReloadSig)}
    (hends : (r.onMessage (configSubject r.workspaceID "reload_requested" corrID).string data).Ends es ()) :
    subscriptionMatches r.subscription (configSubject r.workspaceID "reload_requested" corrID).string = true ∧
      ∃ (a : Action) (ev : ConfigEvent), (a = .configReloaded ∨ a = .configReloadFailed) ∧
        es.filterMap publication = [(configSubject r.workspaceID a.text corrID, ev)] := by
  refine ⟨subscriptionMatches_string hworkspace .config .configReloadRequested hcorr, ?_⟩
  have hlast : lastToken (configSubject r.workspaceID "reload_requested" corrID).string = corrID :=
    lastToken_string _ hcorr
  simp only [onMessage, hdata, if_pos hreq, hlast, Prog.bind_eq, ends_bind] at hends
  obtain ⟨es₁, es₂, e, rfl, hreload, hret⟩ := hends
  obtain ⟨rfl, -⟩ := ends_ret.mp hret
  rw [List.append_nil]
  rcases applyReload_outcome hreload with hs | hf
  · obtain ⟨ev, hpub, -⟩ := hs.reported
    exact ⟨.configReloaded, _, .inl rfl, hpub⟩
  · obtain ⟨ev, hpub, -⟩ := hf.reported
    exact ⟨.configReloadFailed, _, .inr rfl, hpub⟩

end ConfigReloader

end Hanko
