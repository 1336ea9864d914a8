import Hanko.Proof.Process
import Hanko.Proof.Replay
import Hanko.Proof.Transport

/-!
# Processes over one database

The commands are run by processes that share nothing but the database, and
what holds of concurrent calls of one broker holds of them too:

* `processes_replay_safe`: of all the processes that verify envelopes with a
  nonce, at most one exits with status 0;
* `processes_revocation_final`: once a process has revoked a sigil or a cap, no
  later process accepts an envelope with it.
-/

namespace Hanko

open Bytes Interact

namespace Cli

variable {c : Cli}

/-! ## Commands that fail -/

theorem withBroker_stops {α : Type} {flag : Bytes} {p : Broker → Prog BrokerSig (Except Output α)}
    (hp : ∀ b es out, (p b).Ends es (.error out) → out.Failed) : Stops (c.withBroker flag p) := by
  intro es out h
  rcases withBroker_ends.mp h with ⟨out', hstart, heq⟩ | ⟨es₁, es₂, store, priv, -, -, hrun⟩
  · cases heq
    exact start_stops flag es out hstart
  · cases store with
    | pg =>
      obtain ⟨bs, hbs, -⟩ := runBroker_pg hrun
      exact hp _ bs out hbs
    | mem =>
      obtain ⟨bs, _, hbs, -, -⟩ := runBroker_mem hrun
      exact hp _ bs out hbs

theorem readStdin_stops : Stops readStdin := by
  refine .bind (.sys _) fun r => ?_
  cases r with
  | ok input => exact .pure _
  | error e => exact .throw (failed_die _)

theorem readInput_stops (args : List Bytes) : Stops (readInput args) := by
  cases args with
  | nil => exact readStdin_stops
  | cons path args =>
    refine .ite readStdin_stops (.bind (.sys _) fun file => ?_)
    cases file.result path with
    | ok input => exact .pure _
    | error e => exact .throw (failed_die _)

theorem verdict_failed {r : Option GoError} {out : Output} (h : verdict r = .error out) : out.Failed := by
  cases r with
  | none => cases h
  | some e =>
    cases h
    exact failed_exits _

theorem runVerify_stops (args : List Bytes) (flag : Bytes) : Stops (c.runVerify args flag) := by
  refine .bind (readInput_stops args) fun input => ?_
  cases unmarshalEnvelope input with
  | none => exact .throw (failed_die _)
  | some env =>
    refine withBroker_stops fun b es out h => ?_
    obtain ⟨r, -, hr⟩ := ends_map.mp h
    exact verdict_failed hr.symm

theorem revoked_failed {kind method : String} {id : Bytes} {r : Option GoError} {out : Output}
    (h : c.revoked kind method id r = .error out) : out.Failed := by
  cases r with
  | none => cases h
  | some e =>
    cases h
    exact failed_die _

theorem reason_failed {args : List Bytes} {reason : Bytes} {out : Output}
    (h : parseFlags reasonFlag ignored args reason = .error out) : out.Failed := by
  refine parseFlags_failed ?_ (fun _ _ h => by cases h) args reason out h
  intro arg set v a out hset h
  rw [reasonFlag] at hset
  split at hset
  · cases hset
    cases h
  · cases hset

theorem runRevoke_stops (args : List Bytes) (flag : Bytes) : Stops (c.runRevoke args flag) := by
  unfold runRevoke
  split
  · refine .bind (.parsed fun out h => reason_failed h) fun reason => withBroker_stops fun b es out h => ?_
    split at h
    · obtain ⟨r, -, hr⟩ := ends_map.mp h
      exact revoked_failed hr.symm
    · split at h
      · obtain ⟨r, -, hr⟩ := ends_map.mp h
        exact revoked_failed hr.symm
      · cases (ends_ret.mp h).2
        exact failed_die _
  · exact .throw (failed_die _)

/-- A command that exited with status 0 did not stop early. -/
theorem exited_ok {cmd : Cmd Output} (hstops : Stops cmd) {es : List (Event ProcSig)} {ended : Ended}
    (h : (exited cmd).Ends es ended) {out : Output} (hout : ended = .exited out) (hstatus : out.status = 0) :
    cmd.run.Ends es (.ok out) := by
  subst hout
  obtain ⟨r, hr, heq⟩ := ends_map.mp h
  cases r with
  | ok out' =>
    cases heq
    exact hr
  | error out' =>
    cases heq
    have := (hstops es out hr).status
    omega

/-! ## Verifications -/

/-- The bytes that an event has read, of a file or of the standard input. -/
def inputOf : Event ProcSig → Option Bytes
  | ⟨.inr (.readFile _), .bytes raw⟩ => some raw
  | ⟨.inr .readStdin, .ok raw⟩ => some raw
  | _ => none

theorem readStdin_ends {es : List (Event ProcSig)} {r : Except Output Bytes} (h : readStdin.run.Ends es r) :
    ∃ e, es = [e] ∧ ∀ input, inputOf e = some input ↔ r = .ok input := by
  rcases ends_exceptBind.mp h with ⟨_, hread, rfl⟩ | ⟨es₁, es₂, input, rfl, hread, h₂⟩
  · obtain ⟨_, -, heq⟩ := ends_sys.mp hread
    cases heq
  obtain ⟨_, rfl, heq⟩ := ends_sys.mp hread
  cases heq
  cases input with
  | ok raw =>
    obtain ⟨rfl, rfl⟩ := ends_exceptPure.mp h₂
    exact ⟨_, rfl, fun input => by simp [inputOf]⟩
  | error e =>
    obtain ⟨rfl, rfl⟩ := ends_exceptThrow.mp h₂
    exact ⟨_, rfl, fun input => by simp [inputOf]⟩

/-- The envelope is what the first event of a process has read. -/
theorem readInput_ends {args : List Bytes} {es : List (Event ProcSig)} {r : Except Output Bytes}
    (h : (readInput args).run.Ends es r) : ∃ e, es = [e] ∧ ∀ input, inputOf e = some input ↔ r = .ok input := by
  cases args with
  | nil => exact readStdin_ends h
  | cons path args =>
    rw [readInput] at h
    split at h
    · exact readStdin_ends h
    · rcases ends_exceptBind.mp h with ⟨_, hread, rfl⟩ | ⟨es₁, es₂, file, rfl, hread, h₂⟩
      · obtain ⟨_, -, heq⟩ := ends_sys.mp hread
        cases heq
      obtain ⟨_, rfl, heq⟩ := ends_sys.mp hread
      cases heq
      cases file with
      | bytes raw =>
        obtain ⟨rfl, rfl⟩ := ends_exceptPure.mp h₂
        exact ⟨_, rfl, fun input => by simp [inputOf]⟩
      | notExist =>
        obtain ⟨rfl, rfl⟩ := ends_exceptThrow.mp h₂
        exact ⟨_, rfl, fun input => by simp [inputOf]⟩
      | failed e =>
        obtain ⟨rfl, rfl⟩ := ends_exceptThrow.mp h₂
        exact ⟨_, rfl, fun input => by simp [inputOf]⟩

/-- A process that was given an envelope starts its broker to verify it. -/
theorem runVerify_given {args : List Bytes} {flag : Bytes} {es : List (Event ProcSig)} {r : Except Output Output}
    {env : AttestationEnvelope} (h : (c.runVerify args flag).run.Ends es r)
    (hgiven : (es.head?.bind inputOf).bind unmarshalEnvelope = some env) :
    ∃ e es', es = e :: es' ∧ (inputOf e).isSome ∧
      (c.withBroker flag fun b => verdict <$> b.verifyAttestation env).run.Ends es' r := by
  rcases ends_exceptBind.mp h with ⟨_, hread, rfl⟩ | ⟨es₁, es₂, input, rfl, hread, hverify⟩
  · obtain ⟨e, rfl, hinput⟩ := readInput_ends hread
    obtain ⟨input, he, -⟩ := Option.bind_eq_some_iff.mp hgiven
    cases (hinput input).mp he
  · obtain ⟨e, rfl, hinput⟩ := readInput_ends hread
    have he := (hinput input).mpr rfl
    have henv : unmarshalEnvelope input = some env := by simpa [he] using hgiven
    rw [henv] at hverify
    exact ⟨e, es₂, rfl, by simp [he], hverify⟩

/-- A process `verify` that was given `env`, has opened the database and exited
with status 0. -/
structure Accepted (args : List Bytes) (es : List (Event ProcSig)) (ended : Ended) (env : AttestationEnvelope) :
    Prop where
  command : (extractStoreFlag args).1.head? = some (lit "verify")
  given : (es.head?.bind inputOf).bind unmarshalEnvelope = some env
  connected : Connected es
  status : ∃ out, ended = .exited out ∧ out.status = 0

/-- The command of a process, and the flag for its store. -/
theorem main_verify {args : List Bytes} (h : (extractStoreFlag args).1.head? = some (lit "verify")) :
    ∃ rest, c.main args = exited (c.runVerify rest (extractStoreFlag args).2) := by
  rw [main]
  cases hargs : (extractStoreFlag args).1 with
  | nil =>
    rw [hargs] at h
    cases h
  | cons cmd rest =>
    rw [hargs] at h
    obtain rfl : cmd = lit "verify" := Option.some.inj h
    exact ⟨rest, rfl⟩

/-- A process that accepts an envelope runs a verification of it that accepts. -/
theorem Accepted.ends {args : List Bytes} {es : List (Event ProcSig)} {ended : Ended} {env : AttestationEnvelope}
    (h : Accepted args es ended env) (hends : (c.main args).Ends es ended) :
    ∃ priv es₁ es₂ bs, es = es₁ ++ es₂ ∧ ((c.newBroker priv).verifyAttestation env).Ends bs none ∧
      Covers (c.pgImpl priv) bs es₂ := by
  obtain ⟨rest, hmain⟩ := main_verify (c := c) h.command
  obtain ⟨out, hout, hstatus⟩ := h.status
  rw [hmain] at hends
  have hrun := exited_ok (runVerify_stops rest _) hends hout hstatus
  obtain ⟨e, es', rfl, hinput, hverify⟩ := runVerify_given hrun h.given
  rcases withBroker_ends.mp hverify with ⟨_, -, heq⟩ | ⟨es₁, es₂, store, priv, rfl, hstart, hbroker⟩
  · cases heq
  have hconnected : Connected (es₁ ++ es₂) := by
    have hc := h.connected
    rcases List.mem_cons.mp hc with rfl | hc
    · cases hinput
    · exact hc
  obtain rfl := store_eq_pg hstart hbroker hconnected
  obtain ⟨bs, hbs, hcov⟩ := runBroker_pg hbroker
  obtain ⟨r, hr, heq⟩ := ends_map.mp hbs
  cases r with
  | some e => cases heq
  | none => exact ⟨priv, e :: es₁, es₂, bs, rfl, hr, hcov⟩

/-! ## Replay -/

theorem proc_behind : Db.Behind ProcHandler where
  faulty := id
  rest := by
    intro o db a db' h
    cases o with
    | selectSigils => exact h.1
    | _ => exact h

section Runs

variable {ι : Type} [DecidableEq ι] {ps ps₁ ps' : ι → Prog ProcSig Ended} {db db₁ db' : Db}
  {tr tr' : List (ι × Event ProcSig)}

/-- Replay safety of the command line. Whatever processes run concurrently over
one database, with whichever keys, clocks and files, and whichever statements
fail: no two `verify` processes that share a nonce exit with status 0, and none
does for an envelope that has a nonce twice. -/
theorem processes_replay_safe (h : Run ProcHandler ps db tr ps' db') :
    NoReplay fun i env => ∃ (c : Cli) (args : List Bytes) (ended : Ended), ps i = c.main args ∧ ps' i = .ret ended ∧
      Accepted args (of i tr) ended env := by
  refine noReplay_of_primaryKey (proc_behind.nonceTable.primaryKey h.exec) ?_
  rintro i env ⟨c, args, ended, hi, hret, hacc⟩
  obtain ⟨priv, es₁, es₂, bs, hes, hbs, hcov⟩ := hacc.ends (hi ▸ h.ends hret)
  exact ⟨c.pgImpl priv, _, bs, es₂, recordsNonces_pg fun _ => rfl, hbs, hcov,
    hes ▸ List.sublist_append_right es₁ es₂⟩

end Runs

namespace Sample

open Hanko.Sample

theorem signatureValid_env (priv : Bytes) : (cli.newBroker priv).SignatureValid env := by
  have hvalid : Hanko.Sample.broker.SignatureValid env := signatureValid_envelope _ (by decide)
  exact Broker.signatureValid_iff.mpr (Broker.signatureValid_iff.mp hvalid)

theorem exists_text : ∃ text, unmarshalEnvelope text = some env := by
  obtain ⟨text, -, hread⟩ := unmarshalEnvelope_indent env_marshals
  exact ⟨_, hread.trans (congrArg some env_transported)⟩

/-- A process that is given the text of `env`. -/
theorem exec_verify {text : Bytes} (htext : unmarshalEnvelope text = some env) (db : Db) (n : Nat) :
    (cli.runVerify [] []).run.exec procStep (db, world text n) =
      (cli.runBroker key (verdict <$> Broker.verifySigned env) .pg).exec procStep (db, world text n) := by
  have hread : (readInput []).run.exec procStep (db, world text n) = (.ok text, (db, world text n)) := rfl
  refine (exec_exceptBind hread).trans ?_
  simp only [htext]
  refine (exec_exceptBind (exec_start db text n)).trans ?_
  simp only [Broker.verifyAttestation_of_valid (signatureValid_env key)]
  rfl

theorem trace_verify {text : Bytes} (htext : unmarshalEnvelope text = some env) (db : Db) (n : Nat) :
    ∃ es, (cli.main [lit "verify"]).trace procStep (db, world text n) = ⟨.inr .readStdin, .ok text⟩ ::
      ((cli.withBroker [] fun b => verdict <$> b.verifyAttestation env).run.trace procStep
        (db, world text n) ++ es) := by
  have hread : (readInput []).run.exec procStep (db, world text n) = (.ok text, (db, world text n)) := rfl
  have htrace : (cli.runVerify [] []).run.trace procStep (db, world text n) = _ := trace_exceptBind hread
  simp only [htext] at htrace
  have hmain : (cli.main [lit "verify"]).trace procStep (db, world text n) = _ :=
    Prog.trace_bind (cli.runVerify [] []).run _ _
  rw [htrace] at hmain
  exact ⟨_, hmain⟩

theorem accepted_verify {text : Bytes} (htext : unmarshalEnvelope text = some env) (db : Db) (n : Nat) {out : Output}
    (hout : out.status = 0) :
    Accepted [lit "verify"] ((cli.main [lit "verify"]).trace procStep (db, world text n)) (.exited out) env := by
  obtain ⟨es, htrace⟩ := trace_verify htext db n
  rw [htrace]
  exact ⟨rfl, htext, List.mem_cons_of_mem _ (List.mem_append_left _ (connected_withBroker _ _ _ _)), out, rfl, hout⟩

theorem exec_main_verify {text : Bytes} (htext : unmarshalEnvelope text = some env) :
    ((cli.main [lit "verify"]).exec procStep (.empty, world text 0)).1 = .exited (prints (lit "OK\n")) := by
  have hmain : (cli.main [lit "verify"]).exec procStep (.empty, world text 0) = _ :=
    Prog.exec_bind procStep (cli.runVerify [] []).run _ _
  rw [hmain, exec_verify htext]
  rfl

end Sample

/-- A process has accepted an envelope; no other will. -/
theorem processes_replay_safe_sample :
    ∃ tr ps₁ db₁, Run ProcHandler (fun _ : Bool => Hanko.Sample.cli.main [lit "verify"]) .empty tr ps₁ db₁ ∧
      ps₁ false = .ret (.exited (prints (lit "OK\n"))) ∧
      ∀ tr' ps' db' ended, Run ProcHandler ps₁ db₁ tr' ps' db' → ps' true = .ret ended →
        ¬ Accepted [lit "verify"] (of true (tr ++ tr')) ended Hanko.Sample.env := by
  obtain ⟨text, htext⟩ := Sample.exists_text
  have hrun := Run.traced Hanko.Sample.procStep_refines (fun _ : Bool => Hanko.Sample.cli.main [lit "verify"]) false
    (.empty, Hanko.Sample.world text 0)
  rw [Sample.exec_main_verify htext] at hrun
  refine ⟨_, _, _, hrun, rfl, fun tr' ps' db' ended hrun' hret hacc => ?_⟩
  obtain ⟨hnone, hfirst⟩ := path_ret.mp (hrun'.path false)
  have hmem : ([7] : Bytes) ∈ Hanko.Sample.env.nonces := List.mem_cons_self
  refine (processes_replay_safe (hrun.append hrun')).once false true _ _ (by decide)
    ⟨Hanko.Sample.cli, _, _, rfl, hfirst, ?_⟩ ⟨Hanko.Sample.cli, _, ended, rfl, hret, hacc⟩ _ hmem hmem
  rw [of_append, of_map_self, hnone, List.append_nil]
  exact Sample.accepted_verify htext _ _ rfl

section Runs

variable {ι : Type} [DecidableEq ι] {ps ps₁ ps' : ι → Prog ProcSig Ended} {db db₁ db' : Db}
  {tr tr' : List (ι × Event ProcSig)}

/-! ## Revocation -/

/-- A process `revoke` for `id` that has opened the database and exited with
status 0. -/
structure Revoked (args : List Bytes) (es : List (Event ProcSig)) (ended : Ended) (id : Bytes) : Prop where
  command : ∃ kind flags, (extractStoreFlag args).1 = lit "revoke" :: kind :: id :: flags
  connected : Connected es
  status : ∃ out, ended = .exited out ∧ out.status = 0

/-- A process that revokes an id has asked the store to. -/
theorem Revoked.ends {args : List Bytes} {es : List (Event ProcSig)} {ended : Ended} {id : Bytes}
    (h : Revoked args es ended id) (hends : (c.main args).Ends es ended) :
    ∃ priv es₂ bs entry, es₂ ⊆ es ∧ entry.id = id ∧ storeEvent (.revoke entry) (.ok ()) ∈ bs ∧
      Covers (c.pgImpl priv) bs es₂ := by
  obtain ⟨kind, flags, hargs⟩ := h.command
  obtain ⟨out, hout, hstatus⟩ := h.status
  have hmain : c.main args = exited (c.runRevoke (kind :: id :: flags) (extractStoreFlag args).2) := by
    rw [main, hargs]
    rfl
  rw [hmain] at hends
  have hrun := exited_ok (runRevoke_stops _ _) hends hout hstatus
  rcases ends_exceptBind.mp hrun with ⟨_, -, heq⟩ | ⟨fs, gs, reason, rfl, hflags, hbroker⟩
  · cases heq
  obtain ⟨rfl, -⟩ := ends_ret.mp hflags
  rcases withBroker_ends.mp hbroker with ⟨_, -, heq⟩ | ⟨es₁, es₂, store, priv, rfl, hstart, hbroker⟩
  · cases heq
  obtain rfl := store_eq_pg hstart hbroker h.connected
  obtain ⟨bs, hbs, hcov⟩ := runBroker_pg hbroker
  have hsub : es₂ ⊆ [] ++ (es₁ ++ es₂) := List.subset_append_right _ _
  split at hbs
  · obtain ⟨r, hr, heq⟩ := ends_map.mp hbs
    cases r with
    | some e => cases heq
    | none =>
      obtain ⟨entry, hentry, -, he⟩ := revokeSigil_ends hr
      exact ⟨priv, es₂, bs, entry, hsub, hentry, he, hcov⟩
  · split at hbs
    · obtain ⟨r, hr, heq⟩ := ends_map.mp hbs
      cases r with
      | some e => cases heq
      | none =>
        obtain ⟨entry, hentry, -, he⟩ := revokeCap_ends hr
        exact ⟨priv, es₂, bs, entry, hsub, hentry, he, hcov⟩
    · cases (ends_ret.mp hbs).2

theorem proc_revocationTable (c : Cli) (priv : Bytes) : RevocationTable (c.pgImpl priv) ProcHandler Db.HasRevocation
    fun id g => ∃ e, g = ⟨.inl (.existsRevocation id), .error e⟩ :=
  proc_behind.revocationTable fun _ => rfl

/-- Revocation by the command line is final. Once a process has revoked a sigil
or a cap, no `verify` process that starts later accepts an envelope that has it,
spelled in any way, whichever statements fail, unless a lookup of it by this
process does. -/
theorem processes_revocation_final (h : Run ProcHandler ps db tr ps₁ db₁) (h' : Run ProcHandler ps₁ db₁ tr' ps' db')
    (i j : ι) (c c' : Cli) (args args' : List Bytes) (ended ended' : Ended) (id id' : Bytes)
    (env : AttestationEnvelope) (hi : ps i = c.main args) (hret : ps₁ i = .ret ended)
    (hrev : Revoked args (of i tr) ended id) (hj : ps j = c'.main args') (hstart : of j tr = [])
    (hret' : ps' j = .ret ended') (hid : id' = env.sigilID ∨ ∃ cap ∈ env.capList, id' = cap.id)
    (hsame : uuidIn id' = uuidIn id) (hlookup : ∀ e, (j, ⟨.inl (.existsRevocation id'), .error e⟩) ∉ tr') :
    ¬ Accepted args' (of j tr') ended' env := by
  intro hacc
  obtain ⟨priv, fs, bs, entry, hsub, rfl, he, hcov⟩ := hrev.ends (hi ▸ h.ends hret)
  obtain ⟨u, hu, hmem⟩ := (proc_revocationTable c priv).has h.exec hcov
    (List.Subset.trans hsub (of_sublist i tr).subset) he
  have hrevoked : db₁.HasRevocation id' := ⟨u, hsame.trans hu, hmem⟩
  have hends := (h.append h').ends hret'
  rw [hj, of_append, hstart, List.nil_append] at hends
  obtain ⟨priv', es₁, es₂, bs', hes, hbs, hcov'⟩ := hacc.ends hends
  have hlate : es₂ ⊆ of j tr' := hes ▸ List.subset_append_right _ _
  obtain ⟨g, hg, e, rfl⟩ := (proc_revocationTable c' priv').failed h'.exec hrevoked hbs hcov'
    (List.Subset.trans hlate (of_sublist j tr').subset) hid
  exact hlookup e (mem_of.mp (hlate hg))

end Runs

namespace Sample

open Hanko.Sample

/-- The sigil of `env` is revoked, and then `env` verified. -/
def revokeThenVerify (verify : Bool) : Prog ProcSig Ended :=
  cli.main (bif verify then [lit "verify"] else [lit "revoke", lit "sigil", uuid 1])

theorem exec_revoke (text : Bytes) :
    ((revokeThenVerify false).exec procStep (.empty, world text 0)).1 =
      Ended.of .exited (cli.revoked "sigil" "RevokeSigil" (uuid 1) none) := by
  have hflags : (parsed (parseFlags reasonFlag ignored [] (lit "operator revocation"))).run.exec procStep
      (.empty, world text 0) = (.ok (lit "operator revocation"), (.empty, world text 0)) := rfl
  have hmain : (revokeThenVerify false).exec procStep (.empty, world text 0) = _ :=
    Prog.exec_bind procStep (cli.runRevoke [lit "sigil", uuid 1] []).run _ _
  rw [hmain, runRevoke, exec_exceptBind hflags, withBroker, exec_exceptBind (exec_start .empty text 0)]
  rfl

theorem connected_revoke (text : Bytes) :
    Connected ((revokeThenVerify false).trace procStep (.empty, world text 0)) := by
  have hflags : (parsed (parseFlags reasonFlag ignored [] (lit "operator revocation"))).run.exec procStep
      (.empty, world text 0) = (.ok (lit "operator revocation"), (.empty, world text 0)) := rfl
  have hmain : (revokeThenVerify false).trace procStep (.empty, world text 0) = _ :=
    Prog.trace_bind (cli.runRevoke [lit "sigil", uuid 1] []).run _ _
  rw [hmain, runRevoke, trace_exceptBind hflags]
  exact List.mem_append_left _ (List.mem_append_right _ (connected_withBroker _ _ _ _))

end Sample

/-- A sigil is revoked, and an envelope of it is not accepted. -/
theorem processes_revocation_final_sample :
    ∃ tr ps₁ db₁ tr' ps' db' ended, Run ProcHandler Sample.revokeThenVerify .empty tr ps₁ db₁ ∧
      Run ProcHandler ps₁ db₁ tr' ps' db' ∧ ps' true = .ret ended ∧
      ((of true tr').head?.bind inputOf).bind unmarshalEnvelope = some Hanko.Sample.env ∧
      ¬ Accepted [lit "verify"] (of true tr') ended Hanko.Sample.env := by
  obtain ⟨text, htext⟩ := Sample.exists_text
  have h := Run.traced Hanko.Sample.procStep_refines Sample.revokeThenVerify false (.empty, Hanko.Sample.world text 0)
  rw [Sample.exec_revoke] at h
  generalize Prod.fst (Prog.exec Hanko.Sample.procStep _ _).2 = db₁ at h
  have h' := Run.traced Hanko.Sample.procStep_refines (Function.update Sample.revokeThenVerify false
    (.ret (Ended.of .exited (Hanko.Sample.cli.revoked "sigil" "RevokeSigil" (Hanko.Sample.uuid 1) none)))) true
    (db₁, Hanko.Sample.world text 0)
  have htrace := Prog.trace_ends (h := Hanko.Sample.procStep) (Hanko.Sample.cli.main [lit "verify"])
    (db₁, Hanko.Sample.world text 0)
  refine ⟨_, _, _, _, _, _, _, h, h', rfl, ?_, ?_⟩
  · obtain ⟨es, hes⟩ := Sample.trace_verify htext db₁ 0
    rw [of_map_self]
    exact (congrArg (fun es : List (Event ProcSig) => (es.head?.bind inputOf).bind unmarshalEnvelope) hes).trans htext
  · refine processes_revocation_final h h' false true Hanko.Sample.cli Hanko.Sample.cli _ [lit "verify"] _ _
      (Hanko.Sample.uuid 1) (Hanko.Sample.uuid 1) Hanko.Sample.env rfl rfl ?_ rfl (of_map_ne (by decide) _) rfl
      (.inl rfl) rfl fun e he => ?_
    · rw [of_map_self]
      exact ⟨⟨_, _, rfl⟩, Sample.connected_revoke text, _, rfl, rfl⟩
    · obtain ⟨_, he, heq⟩ := List.mem_map.mp he
      cases heq
      refine htrace.2.forall_mem (I := fun _ => True) (fun _ _ _ _ _ _ => trivial) trivial
        (P := fun e' => e' ≠ ⟨.inl (.existsRevocation (Hanko.Sample.uuid 1)), .error e⟩) ?_ _ he rfl
      rintro _ ⟨db, w⟩ s - hstep rfl
      cases (Prod.mk.inj hstep).1

end Cli

end Hanko
