import Hanko.Framework.Balance
import Hanko.Framework.Json.Lines
import Hanko.Proof.Federation
import Hanko.Spec.AuditLog

/-!
# The audit log

The handler appends a line for every decision of the policy, and does not fail a
request because the line could not be written, or only in part. Over any interleaving of
calls, with any store (`audit_log_accounts`):

* the log consists of lines that are true of requests of the run
  (`OIDCBootstrap.Records`), or of the beginnings of such lines if writes fail;
* if no write fails, the log can be read line by line, whatever the tokens and the
  requests contain, and once all calls have returned there are exactly as many records of
  grants as answers with 200, and as many others as answers with 403.

A request that fails after the policy has granted it (status 500) is not recorded.
-/

namespace Hanko

open Bytes Json Interact

/-! ## Lines -/

namespace OIDCBootstrap

/-- What is read from the line of a decision. -/
def record (req : BootstrapRequest) (sub : Bytes) (outcome : String) (grantedScope : Bytes) (ts : Time) : AuditRecord :=
  ⟨toValid ts.utc.format, toValid req.oidcIssuer, toValid sub, lit outcome, toValid grantedScope⟩

end OIDCBootstrap

/-- A line of the log, and the record in it. -/
structure IsLine (line : Bytes) (r : AuditRecord) : Prop where
  text : ∃ body, line = body ++ [10] ∧ 10 ∉ body ∧ AuditRecord.read body = some r
  read : AuditRecord.read line = some r

theorem isLine_auditLine (req : BootstrapRequest) (sub : Bytes) (outcome : String) (scope : Bytes) (ts : Time) :
    IsLine (OIDCBootstrap.auditLine req sub outcome scope ts) (OIDCBootstrap.record req sub outcome scope ts) := by
  have hsorted : mapStr toValid (sortKeys (.obj [(lit "ts", .str ts.utc.format), (lit "issuer", .str req.oidcIssuer),
      (lit "sub", .str sub), (lit "outcome", .str (lit outcome)), (lit "granted_scope", .str scope)])) =
      .obj [(lit "granted_scope", .str (toValid scope)), (lit "issuer", .str (toValid req.oidcIssuer)),
        (lit "outcome", .str (lit outcome)), (lit "sub", .str (toValid sub)),
        (lit "ts", .str (toValid ts.utc.format))] := by
    change mapStr toValid (.obj [(lit "granted_scope", .str scope), (lit "issuer", .str req.oidcIssuer),
      (lit "outcome", .str (lit outcome)), (lit "sub", .str sub), (lit "ts", .str ts.utc.format)]) = _
    simp only [mapStr, mapMembers, toValid_lit]
  have hkeys : ([lit "granted_scope", lit "issuer", lit "outcome", lit "sub", lit "ts"] : List Bytes).Nodup := by decide
  have hproper : Proper (mapStr toValid (sortKeys (.obj [(lit "ts", .str ts.utc.format),
      (lit "issuer", .str req.oidcIssuer), (lit "sub", .str sub), (lit "outcome", .str (lit outcome)),
      (lit "granted_scope", .str scope)]))) := by
    rw [hsorted]
    exact ⟨hkeys, valid_lit _, valid_toValid _, valid_lit _, valid_toValid _, valid_lit _, valid_lit _, valid_lit _,
      valid_toValid _, valid_lit _, valid_toValid _, trivial⟩
  have hread : ∀ w : Bytes, (∀ b ∈ w, isSpace b = true) →
      AuditRecord.read (marshal (.obj [(lit "ts", .str ts.utc.format), (lit "issuer", .str req.oidcIssuer),
        (lit "sub", .str sub), (lit "outcome", .str (lit outcome)), (lit "granted_scope", .str scope)]) ++ w) =
      some (OIDCBootstrap.record req sub outcome scope ts) := by
    intro w hw
    rw [AuditRecord.read, marshal, unmarshalAny, parse_print_append compact_ok (wf_quote _ hproper)
      ((depth_mapStr _ _).trans_le (by decide : 1 ≤ maxNestingDepth)) hw, Option.map_some,
      toAny_quote _ hproper, hsorted]
    rfl
  refine ⟨⟨_, rfl, fun h => ?_, ?_⟩, hread [10] (List.forall_mem_singleton.mpr rfl)⟩
  · exact absurd (printable_print _ (wf_quote _ hproper) 10 h) (by decide)
  · simpa using hread [] (List.forall_mem_nil _)

theorem readLog_flatten {lines : List Bytes} (h : ∀ l ∈ lines, ∃ r, IsLine l r) :
    AuditRecord.readLog lines.flatten = some (lines.filterMap AuditRecord.read) := by
  have hbodies : ∃ bodies : List Bytes, lines = bodies.map (· ++ [10]) ∧ (∀ b ∈ bodies, 10 ∉ b) ∧
      bodies.mapM AuditRecord.read = some (lines.filterMap AuditRecord.read) := by
    induction lines with
    | nil => exact ⟨[], rfl, List.forall_mem_nil _, rfl⟩
    | cons l lines ih =>
      obtain ⟨⟨r, ⟨body, rfl, hbody, hr⟩, hline⟩, hlines⟩ := List.forall_mem_cons.mp h
      obtain ⟨bodies, rfl, hbodies, hrs⟩ := ih hlines
      refine ⟨body :: bodies, rfl, List.forall_mem_cons.mpr ⟨hbody, hbodies⟩, ?_⟩
      rw [List.mapM_cons, hr, hrs, List.filterMap_cons, hline]
      rfl
  obtain ⟨bodies, rfl, hbreaks, hrs⟩ := hbodies
  rw [AuditRecord.readLog, splitOn_lines hbreaks, List.getLast?_concat, if_pos rfl, List.dropLast_concat, hrs]

/-! ## The file -/

/-- A log that lines are appended to; if it is `failing`, any number of bytes of a line may
be lost at its end. Whatever else the calls ask may be answered with anything. -/
def AuditHandler (failing : Prop) : Handler BrokerSig Bytes
  | .inr (.auditAppend line), file, _, file' => ∃ chunk, chunk <+: line ∧ (¬ failing → chunk = line) ∧
    file' = file ++ chunk
  | _, file, _, file' => file' = file

/-- The beginnings of lines, or the lines if no write fails. -/
def Chunks (failing : Prop) (chunks lines : List Bytes) : Prop :=
  List.Forall₂ (· <+: ·) chunks lines ∧ (¬ failing → chunks = lines)

theorem auditHandler_step {failing : Prop} {e : Event BrokerSig} {file file' : Bytes}
    (h : AuditHandler failing e.op file e.ans file') :
    ∃ chunks, Chunks failing chunks (auditLineOf e).toList ∧ file' = file ++ chunks.flatten := by
  have hnone : file' = file → ∃ chunks, Chunks failing chunks [] ∧ file' = file ++ chunks.flatten :=
    fun heq => ⟨[], ⟨.nil, fun _ => rfl⟩, heq.trans (List.append_nil _).symm⟩
  obtain ⟨o | o, a⟩ := e
  · exact hnone h
  · cases o with
    | auditAppend line =>
      obtain ⟨chunk, hpre, hall, rfl⟩ := h
      exact ⟨[chunk], ⟨.cons hpre .nil, fun hf => congrArg (List.cons · []) (hall hf)⟩, by simp⟩
    | _ => exact hnone h

theorem auditLines_cons (e : Event BrokerSig) (es : List (Event BrokerSig)) :
    auditLines (e :: es) = (auditLineOf e).toList ++ auditLines es := by
  cases he : auditLineOf e <;> simp [auditLines, he]

/-- A log has gained the lines that were written, in order, or their beginnings. -/
theorem exec_auditHandler {failing : Prop} {file file' : Bytes} {es : List (Event BrokerSig)}
    (h : Exec (AuditHandler failing) file es file') :
    ∃ chunks, Chunks failing chunks (auditLines es) ∧ file' = file ++ chunks.flatten := by
  induction h with
  | nil => exact ⟨[], ⟨.nil, fun _ => rfl⟩, (List.append_nil _).symm⟩
  | cons hstep _ ih =>
    obtain ⟨chunks, ⟨hpre, hall⟩, rfl⟩ := auditHandler_step hstep
    obtain ⟨chunks', ⟨hpre', hall'⟩, rfl⟩ := ih
    rw [auditLines_cons]
    refine ⟨chunks ++ chunks', ⟨List.rel_append hpre hpre', fun hf => by rw [hall hf, hall' hf]⟩, ?_⟩
    rw [List.flatten_append, List.append_assoc]

/-- Whatever is asked, a log can take every line. -/
theorem auditHandler_takes (es : List (Event BrokerSig)) (file : Bytes) :
    Exec (AuditHandler False) file es (file ++ (auditLines es).flatten) := by
  induction es generalizing file with
  | nil =>
    rw [auditLines, List.filterMap_nil, List.flatten_nil, List.append_nil]
    exact .nil _
  | cons e es ih =>
    have hstep : AuditHandler False e.op file e.ans (file ++ (auditLineOf e).toList.flatten) := by
      obtain ⟨o | o, a⟩ := e
      · exact List.append_nil _
      · cases o with
        | auditAppend line => exact ⟨line, List.prefix_rfl, fun _ => rfl, by simp [auditLineOf]⟩
        | _ => exact List.append_nil _
    refine .cons hstep ?_
    rw [auditLines_cons, List.flatten_append, ← List.append_assoc]
    exact ih _

/-! ## What the calls write -/

theorem call_unaudited (S : Service) {call : Call} (hbootstrap : ∀ r, call ≠ .bootstrapOIDC r) :
    (call.prog S).Asks Unaudited := by
  by_cases hissue : ∃ sigilID caps expiresAt, call = .issueAttestation sigilID caps expiresAt
  · obtain ⟨sigilID, caps, expiresAt, rfl⟩ := hissue
    rw [Call.prog, issueAttestation_eq]
    refine asks_bind (p := .ask _ _) ⟨trivial, fun t => ?_⟩ fun _ => trivial
    dsimp only
    by_cases hm : (unsigned sigilID caps t expiresAt).Marshals
    · rw [signEnvelope_of_marshals hm]
      exact ⟨trivial, fun _ => trivial⟩
    · obtain ⟨e, he⟩ := signEnvelope_of_not_marshals hm
      rw [he]
      trivial
  · exact (call_quiet S (fun sigilID caps expiresAt heq => hissue ⟨sigilID, caps, expiresAt, heq⟩) hbootstrap).mono
      fun _ => Quiet.unaudited

theorem bootstrap_obeys (S : Service) (r : Request) : ((Call.bootstrapOIDC r).prog S).Obeys (S.oidc.Justified r)
    (fun es reply => ∃ resp, reply = .http resp ∧ S.oidc.Responds r es resp) [] :=
  obeys_bind (S.oidc.handle_obeys r) fun _ resp h => ⟨resp, rfl, h⟩

/-- A bootstrap request that was answered with a status. -/
def Call.answered (status : Nat) : Call → Reply → Bool
  | .bootstrapOIDC _, .http (some resp) => resp.status = status
  | _, _ => false

/-- How many requests were answered with a status. -/
def answers {ι : Type} [Fintype ι] (calls : ι → Call) (replies : ι → Reply) (status : Nat) : Nat :=
  (Finset.univ.filter fun i => (calls i).answered status (replies i)).card

/-- The records of a kind among lines. -/
def recorded (P : AuditRecord → Bool) (lines : List Bytes) : Nat := (lines.filterMap AuditRecord.read).countP P

theorem recorded_auditLine (P : AuditRecord → Bool) (req : BootstrapRequest) (sub : Bytes) (outcome : String)
    (scope : Bytes) (ts : Time) : recorded P [OIDCBootstrap.auditLine req sub outcome scope ts] =
      (P (OIDCBootstrap.record req sub outcome scope ts)).toNat := by
  rw [recorded, List.filterMap_cons, (isLine_auditLine req sub outcome scope ts).read]
  cases h : P (OIDCBootstrap.record req sub outcome scope ts) <;> simp [h]

/-- What a call that has returned has recorded. -/
theorem recorded_of_ends (S : Service) (hpath : S.oidc.auditPath ≠ []) {call : Call}
    {es : List (Event BrokerSig)} {reply : Reply} (h : (call.prog S).Ends es reply) :
    recorded AuditRecord.granted (auditLines es) = (call.answered 200 reply).toNat ∧
      recorded (fun r => !r.granted) (auditLines es) = (call.answered 403 reply).toNat := by
  by_cases hbootstrap : ∃ r, call = .bootstrapOIDC r
  · obtain ⟨r, rfl⟩ := hbootstrap
    obtain ⟨resp, rfl, hresponds⟩ := Ends.obeys h (bootstrap_obeys S r)
    rw [List.nil_append] at hresponds
    have hanswered : ∀ status, (Call.bootstrapOIDC r).answered status (.http resp) =
        decide (resp.map Response.status = some status) := by
      intro status
      cases resp <;> simp [Call.answered]
    rw [hanswered, hanswered]
    by_cases h200 : resp.map Response.status = some 200
    · obtain ⟨req, sub, _, _, _, _, _, -, -, -, -, ts, hlines⟩ := hresponds.granted h200
      rw [hlines, if_neg hpath, recorded_auditLine, recorded_auditLine, h200]
      exact ⟨rfl, rfl⟩
    by_cases h403 : resp.map Response.status = some 403
    · obtain ⟨req, sub, -, -, haudits⟩ := hresponds.forbidden h403
      rcases haudits with ⟨ts, hlines⟩ | ⟨ts, hlines⟩
      all_goals
        rw [hlines, if_neg hpath, recorded_auditLine, recorded_auditLine, h403]
        exact ⟨rfl, rfl⟩
    · rw [hresponds.silent h200 h403, decide_eq_false h200, decide_eq_false h403]
      exact ⟨rfl, rfl⟩
  · have hbootstrap : ∀ r, call ≠ .bootstrapOIDC r := fun r heq => hbootstrap ⟨r, heq⟩
    have hlines : auditLines es = [] :=
      List.filterMap_eq_nil_iff.mpr fun e he => (h.asks (call_unaudited S hbootstrap) e he).auditLineOf
    have hanswered : ∀ status, call.answered status reply = false := by
      intro status
      cases call with
      | bootstrapOIDC r => exact absurd rfl (hbootstrap r)
      | _ => rfl
    rw [hlines, hanswered, hanswered]
    exact ⟨rfl, rfl⟩

/-- A line that was written is true of a bootstrap request. -/
theorem justified_of_mem (S : Service) {call : Call} {es : List (Event BrokerSig)} {q : Prog BrokerSig Reply}
    (h : Path (call.prog S) es q) {line : Bytes} (hline : line ∈ auditLines es) :
    ∃ r req sub outcome scope ts, call = .bootstrapOIDC r ∧ S.oidc.Records r es req sub outcome scope ∧
      hostEvent .cfgNow ts ∈ es ∧ line = OIDCBootstrap.auditLine req sub outcome scope ts := by
  obtain ⟨e, he, heq⟩ := List.mem_filterMap.mp hline
  by_cases hbootstrap : ∃ r, call = .bootstrapOIDC r
  · obtain ⟨r, rfl⟩ := hbootstrap
    obtain ⟨before, hsub, hjustified⟩ := (h.obeys (bootstrap_obeys S r)).2 e he
    obtain ⟨o | o, a⟩ := e
    · cases heq
    · cases o with
      | auditAppend line' =>
        cases heq
        obtain ⟨req, sub, outcome, scope, ts, hr, hts, rfl⟩ := hjustified
        exact ⟨r, req, sub, outcome, scope, ts, rfl, hr.mono hsub, hsub hts, rfl⟩
      | _ => cases heq
  · have hnone := (h.asks (call_unaudited S fun r heq => hbootstrap ⟨r, heq⟩) e he).auditLineOf
    rw [hnone] at heq
    cases heq

theorem recorded_eq_countP (P : AuditRecord → Bool) (es : List (Event BrokerSig)) :
    recorded P (auditLines es) = es.countP fun e => (((auditLineOf e).bind AuditRecord.read).map P).getD false := by
  rw [recorded, auditLines, List.filterMap_filterMap, List.countP_filterMap]

/-- Records are counted with the calls that wrote them. -/
theorem sum_recorded {ι : Type} [DecidableEq ι] [Fintype ι] (P : AuditRecord → Bool) (tr : List (ι × Event BrokerSig)) :
    ∑ i, recorded P (auditLines (of i tr)) = recorded P (auditLines (tr.map Prod.snd)) := by
  simp only [recorded_eq_countP]
  exact sum_countP_of _ tr

/-- Let calls of clients run concurrently over a log that is empty at first. At any time
the log consists of lines, or of beginnings of lines if writes fail, and every line is true of a
bootstrap request of the run: one of a grant says for which request, subject and scopes a
cap was saved, another that the policy refused the request. If no write fails, the log is read
line by line as the records of such lines; and when all calls have returned, there are as many
records of grants as requests answered with 200, and as many others as requests answered with
403. -/
theorem audit_log_accounts {ι : Type} [DecidableEq ι] [Fintype ι] (S : Service) (hpath : S.oidc.auditPath ≠ [])
    (failing : Prop) (calls : ι → Call) (tr : List (ι × Event BrokerSig))
    (ps' : ι → Prog BrokerSig Reply) (file : Bytes)
    (h : Run (AuditHandler failing) (fun i => (calls i).prog S) [] tr ps' file) :
    (∃ chunks lines, file = chunks.flatten ∧ List.Forall₂ (· <+: ·) chunks lines ∧
      ∀ line ∈ lines, ∃ i r req sub outcome scope ts, calls i = .bootstrapOIDC r ∧
        S.oidc.Records r (of i tr) req sub outcome scope ∧ hostEvent .cfgNow ts ∈ of i tr ∧
        line = OIDCBootstrap.auditLine req sub outcome scope ts) ∧
    (¬ failing → ∃ records, AuditRecord.readLog file = some records ∧
      (∀ rec ∈ records, ∃ i r req sub outcome scope ts, calls i = .bootstrapOIDC r ∧
        S.oidc.Records r (of i tr) req sub outcome scope ∧ hostEvent .cfgNow ts ∈ of i tr ∧
        rec = OIDCBootstrap.record req sub outcome scope ts) ∧
      ∀ replies : ι → Reply, (∀ i, ps' i = .ret (replies i)) →
        records.countP AuditRecord.granted = answers calls replies 200 ∧
        records.countP (fun rec => !rec.granted) = answers calls replies 403) := by
  obtain ⟨chunks, ⟨hpre, hall⟩, rfl⟩ := exec_auditHandler h.exec
  have hjustified : ∀ line ∈ auditLines (tr.map Prod.snd), ∃ i r req sub outcome scope ts, calls i = .bootstrapOIDC r ∧
      S.oidc.Records r (of i tr) req sub outcome scope ∧ hostEvent .cfgNow ts ∈ of i tr ∧
      line = OIDCBootstrap.auditLine req sub outcome scope ts := by
    intro line hline
    obtain ⟨e, he, heq⟩ := List.mem_filterMap.mp hline
    obtain ⟨⟨i, e⟩, hmem, rfl⟩ := List.mem_map.mp he
    have hline : line ∈ auditLines (of i tr) := List.mem_filterMap.mpr ⟨e, mem_of.mpr hmem, heq⟩
    exact ⟨i, justified_of_mem S (h.path i) hline⟩
  rw [List.nil_append]
  refine ⟨⟨chunks, _, rfl, hpre, hjustified⟩, fun hf => ?_⟩
  rw [hall hf]
  refine ⟨(auditLines (tr.map Prod.snd)).filterMap AuditRecord.read, ?_, fun rec hrec => ?_, fun replies hreplies => ?_⟩
  · refine readLog_flatten fun line hline => ?_
    obtain ⟨-, -, req, sub, outcome, scope, ts, -, -, -, rfl⟩ := hjustified line hline
    exact ⟨_, isLine_auditLine ..⟩
  · obtain ⟨line, hline, hread⟩ := List.mem_filterMap.mp hrec
    obtain ⟨i, r, req, sub, outcome, scope, ts, hcall, hr, hts, rfl⟩ := hjustified line hline
    rw [(isLine_auditLine ..).read] at hread
    exact ⟨i, r, req, sub, outcome, scope, ts, hcall, hr, hts, (Option.some.inj hread).symm⟩
  · have hends : ∀ i, ((calls i).prog S).Ends (of i tr) (replies i) := fun i => h.ends (hreplies i)
    have hsum : ∀ (P : AuditRecord → Bool) (status : Nat),
        (∀ i, recorded P (auditLines (of i tr)) = ((calls i).answered status (replies i)).toNat) →
        recorded P (auditLines (tr.map Prod.snd)) = answers calls replies status := by
      intro P status hP
      rw [← sum_recorded, answers, Finset.card_filter, Finset.sum_congr rfl fun i _ => hP i]
      refine Finset.sum_congr rfl fun i _ => ?_
      cases (calls i).answered status (replies i) <;> rfl
    exact ⟨hsum AuditRecord.granted 200 fun i => (recorded_of_ends S hpath (hends i)).1,
      hsum (fun rec => !rec.granted) 403 fun i => (recorded_of_ends S hpath (hends i)).2⟩

namespace Sample

/-- A service that keeps a log. -/
def audited : Service :=
  ⟨broker, { oidc with auditPath := lit "audit.jsonl" }, service.server, service.oidc_broker, service.server_broker⟩

/-- The request of the sample, alone, over a log that takes every line. -/
theorem handled_audited : ∃ es resp file, ((Call.bootstrapOIDC request).prog audited).Ends es (.http (some resp)) ∧
    resp.status = 200 ∧ Exec (AuditHandler False) [] es file := by
  obtain ⟨hends, -⟩ := Prog.trace_ends (h := both MemStore.step Host.step) (audited.oidc.handle request) (store, host 0)
  have hg := request_granted (w := host 0) rfl
  obtain ⟨-, -, w', hout⟩ := audited.oidc.handle_of_issued MemStore.step (s := store) (w := host 0)
    ⟨hg.post, hg.decodes, hg.token, hg.issuer, hg.audience, hg.configured, hg.scopes, hg.validates,
      hg.policy, hg.enabled, hg.allowed⟩
    (c := ⟨uuid 0, uuid 1, lit "read", noon, noon.add (300 * second), some [0]⟩) rfl
  rw [hout] at hends
  exact ⟨_, _, _, ends_map.mpr ⟨_, hends, rfl⟩, rfl, auditHandler_takes _ _⟩

end Sample

/-- A request that is granted, and its record. -/
theorem audit_log_accounts_sample : ∃ tr ps' file records,
    Run (AuditHandler False) (fun _ : Unit => (Call.bootstrapOIDC Sample.request).prog Sample.audited) [] tr ps' file ∧
    AuditRecord.readLog file = some records ∧ records.countP AuditRecord.granted = 1 := by
  obtain ⟨es, resp, file, hends, hstatus, hexec⟩ := Sample.handled_audited
  have hrun : Run (AuditHandler False)
      (fun _ : Unit => (Call.bootstrapOIDC Sample.request).prog Sample.audited) [] _ _ _ :=
    Run.of_path (i := ()) hends hexec
  obtain ⟨-, hwhole⟩ := audit_log_accounts Sample.audited (by decide) False
    (fun _ : Unit => .bootstrapOIDC Sample.request) _ _ _ hrun
  obtain ⟨records, hread, -, hcount⟩ := hwhole not_false
  obtain ⟨hgranted, -⟩ := hcount (fun _ => .http (some resp)) fun _ => Function.update_self ..
  refine ⟨_, _, _, records, hrun, hread, hgranted.trans ?_⟩
  simp [answers, Call.answered, hstatus]

end Hanko
