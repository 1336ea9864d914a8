import Hanko.Proof.Postgres
import Hanko.Proof.Runs

/-!
# Replay

A nonce is accepted once. Every acceptance has been the first user of all the
nonces of its envelope, one event for each (`verifyAttestation_accepts`), and
a store lets at most one caller be the first user of a nonce: the in-memory
store because a consumed nonce stays consumed, a database because of the primary
key of its table (`PrimaryKey`). What a database has to do for it is stated of any
handler (`NonceTable`, `noReplay_of_primaryKey`).

* `replay_safety`: no two accepted calls share a nonce, and none has one twice;
* `exactly_one_winner`: of calls that race for one envelope, one is accepted.
-/

namespace Hanko

open Bytes Interact

/-- No two accepted calls share a nonce, and no accepted envelope has one twice. -/
structure NoReplay {ι : Type} (accepted : ι → AttestationEnvelope → Prop) : Prop where
  once : ∀ i j env env', i ≠ j → accepted i env → accepted j env' → ∀ n ∈ env.nonces, n ∉ env'.nonces
  distinct : ∀ i env, accepted i env → env.nonces.Nodup

/-- It is enough that every acceptance has its own event for each of its nonces,
and that there is at most one for each. -/
theorem noReplay_of_countP {ι : Type} [DecidableEq ι] {U : Sig} (tr : List (ι × Event U))
    {accepted : ι → AttestationEnvelope → Prop} {P : Bytes → Event U → Bool}
    (hacc : ∀ i env, accepted i env → ∀ n, env.nonces.count n ≤ (of i tr).countP (P n))
    (hone : ∀ n, (tr.map Prod.snd).countP (P n) ≤ 1) : NoReplay accepted where
  once i j env env' hij hi hj n hn hn' := by
    have h₁ : 1 ≤ env.nonces.count n := List.one_le_count_iff.mpr hn
    have h₂ : 1 ≤ env'.nonces.count n := List.one_le_count_iff.mpr hn'
    have h₃ := hacc i env hi n
    have h₄ := hacc j env' hj n
    have h₅ := countP_of_add_le hij (P n) tr
    have h₆ := hone n
    omega
  distinct i env hi := by
    rw [List.nodup_iff_count_le_one]
    intro n
    have h₁ := hacc i env hi n
    have h₂ := (of_sublist i tr).countP_le (p := P n)
    have h₃ := hone n
    omega

/-! ## Tables of nonces -/

section Table

variable {T : Sig} {σ : Type} {inserts : Option Bytes → Event T → Bool}

/-- The primary key of a table of nonces: one row is reported for each value at
most once, and never for `NULL`. -/
structure PrimaryKey (inserts : Option Bytes → Event T → Bool) (es : List (Event T)) : Prop where
  once : ∀ n, es.countP (inserts (some n)) ≤ 1
  not_null : es.countP (inserts none) = 0

/-- The handler keeps a table of nonces, `Consumed n s` saying that `n` is in it: no
row is removed, and one is reported only for a value that is new. -/
structure NonceTable (H : Handler T σ) (inserts : Option Bytes → Event T → Bool) (Consumed : Bytes → σ → Prop) :
    Prop where
  kept : ∀ n o s a s', H o s a s' → Consumed n s → Consumed n s'
  new : ∀ m e s s', inserts m e = true → H e.op s e.ans s' → ∃ n, m = some n ∧ ¬ Consumed n s ∧ Consumed n s'

theorem NonceTable.primaryKey {H : Handler T σ} {Consumed : Bytes → σ → Prop} (hH : NonceTable H inserts Consumed)
    {s s' : σ} {es : List (Event T)} (h : Exec H s es s') : PrimaryKey inserts es := by
  constructor
  · intro n
    refine h.countP_le_one (I := Consumed n) (hH.kept n) ?_
    intro e s s' hins hstep
    obtain ⟨_, heq, hbefore, hafter⟩ := hH.new _ _ _ _ hins hstep
    obtain rfl := Option.some.inj heq
    exact ⟨hbefore, hafter⟩
  · rw [List.countP_eq_zero]
    refine h.forall_mem (I := fun _ => True) (fun _ _ _ _ _ _ => trivial) trivial ?_
    intro e s s' _ hstep hins
    obtain ⟨_, hnone, -⟩ := hH.new _ _ _ _ hins hstep
    cases hnone

/-- The statement reported one row for the nonce `n`, `nil` being the empty
one. -/
def reports (inserts : Option Bytes → Event T → Bool) (n : Bytes) (e : Event T) : Bool :=
  inserts (some n) e || inserts none e

theorem PrimaryKey.reports_le_one {es : List (Event T)} (h : PrimaryKey inserts es) (n : Bytes) :
    es.countP (reports inserts n) ≤ 1 := by
  have hnull := List.countP_eq_zero.mp h.not_null
  have hcongr : es.countP (reports inserts n) = es.countP (inserts (some n)) :=
    List.countP_congr fun e he => by simp [reports, hnull e he]
  rw [hcongr]
  exact h.once n

/-- `TryRecordNonce` answers yes only if one row was reported for its nonce. -/
def RecordsNonces (f : (o : BrokerSig.Op) → Prog T (BrokerSig.Ans o)) (inserts : Option Bytes → Event T → Bool) :
    Prop :=
  ∀ m gs, (f (.inl (.tryRecordNonce m))).Ends gs true → ∃ g ∈ gs, inserts m g = true

theorem RecordsNonces.wins_le {f : (o : BrokerSig.Op) → Prog T (BrokerSig.Ans o)} (hf : RecordsNonces f inserts)
    {es : List (Event BrokerSig)} {fs : List (Event T)} (hcov : Covers f es fs) (n : Bytes) :
    es.countP (wins n) ≤ fs.countP (reports inserts n) := by
  refine hcov.countP_le fun e gs hgs hw => ?_
  obtain ⟨m, rfl, rfl⟩ := wins_iff.mp hw
  obtain ⟨g, hg, hins⟩ := hf m gs hgs
  refine List.one_le_countP_iff.mpr ⟨g, hg, ?_⟩
  cases m <;> simp [reports, nonceBytes, hins]

/-- No nonce is accepted twice where every acceptance is by a store that records
nonces in the table. -/
theorem noReplay_of_primaryKey {ι : Type} [DecidableEq ι] {tr : List (ι × Event T)}
    {accepted : ι → AttestationEnvelope → Prop} (hkey : PrimaryKey inserts (tr.map Prod.snd))
    (hacc : ∀ i env, accepted i env → ∃ f b es fs, RecordsNonces f inserts ∧
      (Broker.verifyAttestation b env).Ends es none ∧ Covers f es fs ∧ fs.Sublist (of i tr)) :
    NoReplay accepted := by
  refine noReplay_of_countP tr (fun i env hi n => ?_) hkey.reports_le_one
  obtain ⟨f, b, es, fs, hf, hes, hcov, hsub⟩ := hacc i env hi
  calc env.nonces.count n ≤ es.countP (wins n) := (Broker.verifyAttestation_accepts hes).2.2.2 n
    _ ≤ fs.countP (reports inserts n) := hf.wins_le hcov n
    _ ≤ (of i tr).countP (reports inserts n) := hsub.countP_le

end Table

/-! ## Postgres -/

section Pg

variable {T : Sig} {f : (o : BrokerSig.Op) → Prog (SqlSig.sum T) (BrokerSig.Ans o)} {pg : PgStore}

/-- The statement inserted the nonce, and said so. -/
def inserts (nonce : Option Bytes) : Event (SqlSig.sum T) → Bool
  | ⟨.inl (.insertNonce m), .ok 1⟩ => decide (m = nonce)
  | _ => false

theorem recordsNonces_pg (hf : ∀ o, f (.inl o) = (pg.impl o).inl T) : RecordsNonces f inserts := by
  intro m gs h
  rw [hf] at h
  obtain ⟨ans, fs, rfl, hret⟩ := (ends_ask (S := SqlSig.sum T) (o := .inl (.insertNonce m))).mp h
  cases ans with
  | error e => cases (ends_ret.mp hret).2
  | ok k =>
    obtain rfl : k = 1 := of_decide_eq_true (ends_ret.mp hret).2.symm
    exact ⟨_, List.mem_cons_self, decide_eq_true rfl⟩

/-- The modelled database keeps its primary key, however its statements fail. -/
theorem Db.Behind.nonceTable {H : Handler (SqlSig.sum T) Db} (hH : Db.Behind H) :
    NonceTable H inserts fun n db => db.consumedNonces n = true where
  kept n o db a db' hstep hn := (hH.extends hstep).consumedNonces n hn
  new := by
    rintro m ⟨o, a⟩ db db' hins hstep
    unfold inserts at hins
    split at hins
    · rename_i m' heq
      obtain rfl := of_decide_eq_true hins
      cases heq
      obtain ⟨n, rfl, hbefore, hafter⟩ := Db.Faulty.insertNonce (hH.faulty hstep)
      exact ⟨n, rfl, by simp [hbefore], hafter⟩
    · cases hins

end Pg

/-! ## Replay safety -/

/-- Replay safety. Whatever clients do concurrently, no nonce is accepted
twice: over a `MemStore`; and over a `PgStore` whose database answers anything
at all, as long as it reports the insertion of each nonce at most once. -/
theorem replay_safety (S : Service) :
    (∀ (ι : Type) [DecidableEq ι] (ps ps' : ι → Prog BrokerSig Reply) (m m' : MemStore)
      (tr : List (ι × Event BrokerSig)), Run MemHandler ps m tr ps' m' →
      NoReplay fun i env => ps i = (Call.verifyAttestation env).prog S ∧ ps' i = .ret (.err none)) ∧
    ∀ (ι : Type) [DecidableEq ι] (σ : Type) (H : Handler (SqlSig.sum HostSig) σ) (pg : PgStore)
      (ps ps' : ι → Prog (SqlSig.sum HostSig) Reply) (s s' : σ)
      (tr : List (ι × Event (SqlSig.sum HostSig))), Run H ps s tr ps' s' → PrimaryKey inserts (tr.map Prod.snd) →
      NoReplay fun i env =>
        ps i = overPg ((Call.verifyAttestation env).prog S) pg ∧ ps' i = .ret (.err none) := by
  constructor
  · intro ι _ ps ps' m m' tr h
    refine noReplay_of_countP tr ?_ (exec_wins_le_one (exec_ledger h))
    rintro i env ⟨hi, hr⟩ n
    exact (Broker.verifyAttestation_accepts (verify_ends h hi hr)).2.2.2 n
  · intro ι _ σ H pg ps ps' s s' tr h hkey
    refine noReplay_of_primaryKey hkey ?_
    rintro i env ⟨hi, hr⟩
    obtain ⟨es, hes, hcov⟩ := Ends.of_interp (hi ▸ h.ends hr)
    obtain ⟨r, hes, heq⟩ := ends_map.mp hes
    cases heq
    exact ⟨_, _, es, _, recordsNonces_pg fun _ => rfl, hes, hcov, .refl _⟩

/-- An envelope that is verified twice, over either store. -/
theorem replay_safety_sample :
    (∃ tr ps' m', Run MemHandler (fun _ : Bool => (Call.verifyAttestation Sample.env).prog Sample.service)
      .new tr ps' m' ∧ ps' false = .ret (.err none) ∧ ps' true ≠ .ret (.err none)) ∧
    ∃ tr ps' db', Run PgHandler
      (fun _ : Bool => overPg ((Call.verifyAttestation Sample.env).prog Sample.service) ⟨fun _ => 0⟩)
      .empty tr ps' db' ∧ ps' false = .ret (.err none) ∧ ps' true ≠ .ret (.err none) := by
  have hmem : ([7] : Bytes) ∈ Sample.env.nonces := List.mem_cons_self
  constructor
  · obtain ⟨es, es', _, _, -, h, h'⟩ := Run.two runMem_refines
      (fun _ : Bool => (Call.verifyAttestation Sample.env).prog Sample.service) (.new, Sample.host 0)
      (show false ≠ true by decide) (a := .err none) (by rw [Sample.verify_env]; rfl) rfl
    refine ⟨_, _, _, h.append h', rfl, fun hacc => ?_⟩
    exact ((replay_safety Sample.service).1 _ _ _ _ _ _ (h.append h')).once false true _ _ (by decide)
      ⟨rfl, rfl⟩ ⟨rfl, hacc⟩ _ hmem hmem
  · obtain ⟨es, es', _, _, -, h, h'⟩ := Run.two runPg_refines
      (fun _ : Bool => overPg ((Call.verifyAttestation Sample.env).prog Sample.service) ⟨fun _ => 0⟩)
      (.empty, Sample.host 0) (show false ≠ true by decide) (a := .err none) (by rw [Sample.verify_env]; rfl) rfl
    have hkey := pg_behind.nonceTable.primaryKey (h.append h').exec
    refine ⟨_, _, _, h.append h', rfl, fun hacc => ?_⟩
    exact ((replay_safety Sample.service).2 _ _ _ _ _ _ _ _ _ (h.append h') hkey).once false true _ _
      (by decide) ⟨rfl, rfl⟩ ⟨rfl, hacc⟩ _ hmem hmem

/-! ## A race for one envelope -/

/-- The operation consumes a nonce of the envelope, or revokes its sigil or one of
its caps. -/
def Touches (env : AttestationEnvelope) : StoreOp → Prop
  | .recordNonce n => nonceBytes n ∈ env.nonces
  | .tryRecordNonce n => nonceBytes n ∈ env.nonces
  | .revoke e => e.id = env.sigilID ∨ ∃ c ∈ env.capList, e.id = c.id
  | _ => False

/-- A run in which `N` calls verify one envelope that is new to the store, not
revoked, and does not expire, while the clients `κ` do not touch it. -/
structure Race {N : Nat} {κ : Type} (S : Service) (env : AttestationEnvelope) (m : MemStore)
    (ps : Fin N ⊕ κ → Prog BrokerSig Reply) (tr : List ((Fin N ⊕ κ) × Event BrokerSig)) : Prop where
  calls : ∀ i, ps (.inl i) = (Call.verifyAttestation env).prog S
  valid : S.broker.SignatureValid env
  caps : env.capList ≠ []
  distinct : env.nonces.Nodup
  fresh : ∀ c ∈ env.capList, m.nonceUsed c.nonce = false
  sigil : m.isRevoked env.sigilID = false
  capIDs : ∀ c ∈ env.capList, m.isRevoked c.id = false
  expired : ∀ i t, (.inl i, hostEvent .timeNow t) ∈ tr →
    t.after env.expiresAt = false ∧ ∀ c ∈ env.capList, t.after c.expiresAt = false
  others : ∀ k o a, (.inr k, storeEvent o a) ∈ tr → ¬ Touches env o

section Race

variable {N : Nat} {κ : Type} [DecidableEq κ] {S : Service} {env : AttestationEnvelope} {m m' : MemStore}
  {ps ps' : Fin N ⊕ κ → Prog BrokerSig Reply} {tr : List ((Fin N ⊕ κ) × Event BrokerSig)}

/-- The calls end along their events after the signature check. -/
theorem Race.ends (hrace : Race S env m ps tr) (h : Run MemHandler ps m tr ps' m') {i : Fin N} {reply : Reply}
    (hi : ps' (.inl i) = .ret reply) :
    ∃ r, reply = .err r ∧ (Broker.verifySigned env).Ends (of (.inl i) tr) r := by
  obtain ⟨r, rfl, hends⟩ := verify_returns h (hrace.calls i) hi
  rw [Broker.verifyAttestation_of_valid hrace.valid] at hends
  exact ⟨r, rfl, hends⟩

/-- The store events of the calls, once these have all finished. -/
theorem Race.store (hrace : Race S env m ps tr) (h : Run MemHandler ps m tr ps' m')
    (hdone : ∀ i, ∃ reply, ps' (.inl i) = .ret reply) {i : Fin N} {o : StoreOp} {a : o.Ans}
    (he : (.inl i, storeEvent o a) ∈ tr) :
    (∃ id, o = .isRevoked id) ∨ ∃ c ∈ env.capList, o = .tryRecordNonce c.nonce := by
  obtain ⟨reply, hi⟩ := hdone i
  obtain ⟨r, -, hends⟩ := hrace.ends h hi
  exact Broker.verifySigned_store hends (mem_of.mpr he)

/-- Nobody revokes the sigil or a cap. -/
theorem Race.not_revokes (hrace : Race S env m ps tr) (h : Run MemHandler ps m tr ps' m')
    (hdone : ∀ i, ∃ reply, ps' (.inl i) = .ret reply) {id : Bytes}
    (hid : id = env.sigilID ∨ ∃ c ∈ env.capList, id = c.id) :
    ∀ e ∈ tr.map Prod.snd, ¬ OnStore (Ledger.Revokes id) e := by
  simp only [List.mem_map, Prod.exists, exists_eq_right]
  rintro ⟨o | o, a⟩ ⟨x, he⟩ hrev
  · obtain ⟨entry, a', rfl, heq⟩ := hrev
    cases heq
    rcases x with i | k
    · rcases hrace.store h hdone he with ⟨id, hid⟩ | ⟨c, -, hc⟩ <;> cases ‹_ = _›
    · exact hrace.others k _ _ he hid
  · exact hrev

/-- No call finds anything revoked or expired. -/
theorem Race.clean (hrace : Race S env m ps tr) (h : Run MemHandler ps m tr ps' m')
    (hdone : ∀ i, ∃ reply, ps' (.inl i) = .ret reply) (i : Fin N) : Broker.Clean env (of (.inl i) tr) where
  revoked id he := by
    have hmem := (of_sublist _ _).subset he
    have hsafe : ∀ id', (id' = env.sigilID ∨ ∃ c ∈ env.capList, id' = c.id) → m.isRevoked id' = false →
        id ≠ id' := by
      rintro id' hid' hnot rfl
      refine exec_not_revoked (exec_ledger h) ?_ (hrace.not_revokes h hdone hid') hmem
      exact fun hin => absurd hin (by simpa [MemStore.ledger, MemStore.isRevoked] using hnot)
    exact ⟨hsafe _ (.inl rfl) hrace.sigil, fun c hc => hsafe _ (.inr ⟨c, hc, rfl⟩) (hrace.capIDs c hc)⟩
  expired t ht := hrace.expired i t (mem_of.mp ht)

/-- A call records nonces of the envelope only, as their first user. -/
theorem Race.wins_of_records (hrace : Race S env m ps tr) (h : Run MemHandler ps m tr ps' m')
    (hdone : ∀ i, ∃ reply, ps' (.inl i) = .ret reply) {i : Fin N} {n : Bytes} {e : Event BrokerSig}
    (he : (.inl i, e) ∈ tr) (hrec : OnStore (Ledger.Records n) e) : wins n e = true ∧ n ∈ env.nonces := by
  obtain ⟨o | o, a⟩ := e
  · rcases hrec with ⟨k, rfl, heq⟩ | ⟨k, rfl, heq⟩
    · cases heq
      rcases hrace.store h hdone he with ⟨id, hid⟩ | ⟨c, -, hc⟩ <;> cases ‹_ = _›
    · cases heq
      rcases hrace.store h hdone he with ⟨id, hid⟩ | ⟨c, hc, heq⟩
      · cases hid
      · cases heq
        exact ⟨by simp [wins], List.mem_map_of_mem hc⟩
  · exact hrec.elim

/-- The nonces of the envelope are recorded by its calls. -/
theorem Race.recorder (hrace : Race S env m ps tr) (h : Run MemHandler ps m tr ps' m')
    (hdone : ∀ i, ∃ reply, ps' (.inl i) = .ret reply) {c : CapabilityToken} (hc : c ∈ env.capList)
    {i : Fin N} {a : Bool} (htried : storeEvent (.tryRecordNonce c.nonce) a ∈ of (.inl i) tr) :
    ∃ w e, e ∈ of (.inl w) tr ∧ wins (nonceBytes c.nonce) e = true := by
  have hfresh : nonceBytes c.nonce ∉ m.ledger.consumed := by
    have := hrace.fresh c hc
    simpa [MemStore.ledger, MemStore.nonceUsed, MemStore.hexEncodeNonce] using this
  obtain ⟨_, hmap, hrec⟩ := exec_recorded (exec_ledger h) ((of_sublist _ _).subset htried) hfresh
  obtain ⟨⟨x, e⟩, he, rfl⟩ := List.mem_map.mp hmap
  rcases x with w | k
  · exact ⟨w, e, mem_of.mpr he, (hrace.wins_of_records h hdone he hrec).1⟩
  · obtain ⟨o | o, a⟩ := e
    · rcases hrec with ⟨n, hn, heq⟩ | ⟨n, hn, heq⟩ <;>
      · have hmem : nonceBytes n ∈ env.nonces := hn ▸ List.mem_map_of_mem hc
        cases heq
        exact absurd hmem (hrace.others k _ _ he)
    · exact hrec.elim

/-- A call that was the first user of a nonce keeps the others from it. -/
theorem Race.loses (h : Run MemHandler ps m tr ps' m') {n : Bytes} {w j : Fin N} (hj : j ≠ w)
    {e : Event BrokerSig} (he : e ∈ of (.inl w) tr) (hw : wins n e = true) :
    (of (.inl j) tr).countP (wins n) = 0 := by
  have h₁ : 0 < (of (.inl w) tr).countP (wins n) := List.countP_pos_iff.mpr ⟨e, he, hw⟩
  have h₂ := countP_of_add_le (Sum.inl_injective.ne hj.symm) (wins n) tr
  have h₃ := exec_wins_le_one (exec_ledger h) n
  omega

/-- Exactly one winner. Of `N` concurrent calls for one envelope, one is accepted
and the others are told of a replay; and the consumed nonces grow by those of
the envelope, besides what others record. -/
theorem exactly_one_winner (hN : 0 < N) (h : Run MemHandler ps m tr ps' m') (hrace : Race S env m ps tr)
    (hdone : ∀ i, ∃ reply, ps' (.inl i) = .ret reply) :
    (∃ w, ps' (.inl w) = .ret (.err none) ∧
      ∀ j ≠ w, ps' (.inl j) = .ret (.err (some (.verify errReplayAttack)))) ∧
    ∀ n, m'.nonceUsed n = true ↔ m.nonceUsed n = true ∨ nonceBytes n ∈ env.nonces ∨
      ∃ k e, (.inr k, e) ∈ tr ∧ OnStore (Ledger.Records (nonceBytes n)) e := by
  obtain ⟨c, cs, hcaps⟩ := List.exists_cons_of_ne_nil hrace.caps
  have hclean := hrace.clean h hdone
  -- The winner is the call that was the first user of the first nonce.
  obtain ⟨w, e, he, hw⟩ : ∃ w e, e ∈ of (.inl w) tr ∧ wins (nonceBytes c.nonce) e = true := by
    obtain ⟨reply, hi⟩ := hdone ⟨0, hN⟩
    obtain ⟨r, -, hends⟩ := hrace.ends h hi
    rcases Broker.verifySigned_first hends (hclean _) hcaps with ht | ⟨ht, -⟩
    · exact hrace.recorder h hdone (by simp [hcaps]) ht
    · exact hrace.recorder h hdone (by simp [hcaps]) ht
  have hlosers : ∀ j ≠ w, ps' (.inl j) = .ret (.err (some (.verify errReplayAttack))) ∧
      ∀ n, (of (.inl j) tr).countP (wins n) = 0 := by
    intro j hj
    obtain ⟨reply, hr⟩ := hdone j
    obtain ⟨r, rfl, hends⟩ := hrace.ends h hr
    have hzero := Race.loses h hj he hw
    rcases Broker.verifySigned_first hends (hclean _) hcaps with ht | ⟨-, rfl, hnone⟩
    · exact absurd (List.countP_eq_zero.mp hzero _ ht) (by simp [wins])
    · exact ⟨hr, hnone⟩
  have hwinner : ps' (.inl w) = .ret (.err none) := by
    obtain ⟨reply, hr⟩ := hdone w
    obtain ⟨r, rfl, hends⟩ := hrace.ends h hr
    rcases Broker.verifySigned_verdict hends (hclean _) with rfl | ⟨-, c', hc', hlost⟩
    · exact hr
    · -- A nonce it lost would have been taken by itself, since the losers take none.
      obtain ⟨w', e', he', hw'⟩ := hrace.recorder h hdone hc' hlost
      by_cases hww : w' = w
      · subst hww
        have hnone := Broker.not_wins_of_lost hends hrace.distinct hlost
        exact absurd hw' (List.countP_eq_zero.mp hnone _ he')
      · exact absurd hw' (List.countP_eq_zero.mp ((hlosers w' hww).2 _) _ he')
  refine ⟨⟨w, hwinner, fun j hj => (hlosers j hj).1⟩, fun n => ?_⟩
  have hconsumed := exec_consumed_iff (exec_ledger h) (nonceBytes n)
  refine hconsumed.trans (or_congr Iff.rfl ?_)
  constructor
  · rintro ⟨_, hmap, hrec⟩
    obtain ⟨⟨x, e⟩, he, rfl⟩ := List.mem_map.mp hmap
    rcases x with i | k
    · exact .inl (hrace.wins_of_records h hdone he hrec).2
    · exact .inr ⟨k, e, he, hrec⟩
  · rintro (hn | ⟨k, e, he, hrec⟩)
    · have hcount := (Broker.verifyAttestation_accepts (verify_ends h (hrace.calls w) hwinner)).2.2.2
        (nonceBytes n)
      have hpos := List.one_le_count_iff.mpr hn
      obtain ⟨e, he, hwin⟩ := List.countP_pos_iff.mp (Nat.lt_of_lt_of_le hpos hcount)
      refine ⟨e, (of_sublist _ _).subset he, ?_⟩
      obtain ⟨k, hk, rfl⟩ := wins_iff.mp hwin
      exact .inr ⟨k, hk, rfl⟩
    · exact ⟨e, List.mem_map_of_mem he, hrec⟩

end Race

/-- Two calls for an envelope with two caps, and nobody else. -/
theorem exactly_one_winner_sample :
    ∃ tr ps' m', Run MemHandler
      (fun _ : Fin 2 ⊕ Empty => (Call.verifyAttestation Sample.twoCaps).prog Sample.service) .new tr ps' m' ∧
      (∃ w, ps' (.inl w) = .ret (.err none) ∧
        ∀ j ≠ w, ps' (.inl j) = .ret (.err (some (.verify errReplayAttack)))) ∧
      m'.nonceUsed (some [7]) = true ∧ m'.nonceUsed (some [8]) = true := by
  obtain ⟨es, es', _, _, hx, h, h'⟩ := Run.two runMem_refines
    (fun _ : Fin 2 ⊕ Empty => (Call.verifyAttestation Sample.twoCaps).prog Sample.service) (.new, Sample.host 0)
    (show Sum.inl 0 ≠ Sum.inl 1 by decide) (a := .err none)
    (b := .err (some (.verify errReplayAttack)))
    (by rw [Sample.verify_twoCaps]; rfl) (by rw [Sample.verify_twoCaps]; rfl)
  have hnow : Sample.noon.after Sample.twoCaps.expiresAt = false ∧
      ∀ c ∈ Sample.twoCaps.capList, Sample.noon.after c.expiresAt = false := by
    decide
  have hmem : ∀ (x : Fin 2 ⊕ Empty) e, (x, e) ∈ es.map (Sum.inl 0, ·) ++ es'.map (Sum.inl 1, ·) → e ∈ es ++ es' := by
    intro x e he
    rcases List.mem_append.mp he with he | he <;> obtain ⟨e, he, heq⟩ := List.mem_map.mp he <;> cases heq
    · exact List.mem_append_left _ he
    · exact List.mem_append_right _ he
  have hrace : Race Sample.service Sample.twoCaps .new
      (fun _ : Fin 2 ⊕ Empty => (Call.verifyAttestation Sample.twoCaps).prog Sample.service)
      (es.map (Sum.inl 0, ·) ++ es'.map (Sum.inl 1, ·)) :=
    { calls := fun _ => rfl
      valid := Sample.twoCaps_valid
      caps := List.cons_ne_nil _ _
      distinct := by decide
      fresh := fun _ _ => rfl
      sigil := rfl
      capIDs := fun _ _ => rfl
      expired := fun i t ht => by
        obtain ⟨k, rfl⟩ := exec_timeNow hx (hmem _ _ ht)
        exact hnow
      others := fun k => k.elim }
  have hwin := exactly_one_winner (by decide) (h.append h') hrace
    (Fin.forall_fin_two.mpr ⟨⟨_, rfl⟩, ⟨_, rfl⟩⟩)
  exact ⟨_, _, _, h.append h', hwin.1, (hwin.2 _).mpr (.inr (.inl List.mem_cons_self)),
    (hwin.2 _).mpr (.inr (.inl (List.mem_cons_of_mem _ List.mem_cons_self)))⟩

end Hanko
