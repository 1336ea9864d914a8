import Hanko.Impl.ConfigReload
import Hanko.Framework.Serial
import Hanko.Framework.Refine

/-!
# Reloads of the configuration

`ApplyReload` copies the live configuration in one critical section and
replaces it in another. What a call does alone is its effect (`reloaded`): a
table that is accepted replaces exactly the values of its keys, in whatever
order the entries are visited, and any other table nothing.

* `ConfigKey`: the keys of the configuration, and their values as one map;
* `applyKeys_eq_ok`: the tables that are accepted, and what they make of a
  configuration;
* `applyReload_outcome`: what a call asked and published, up to the order of its
  entries;
* `reload_all_or_nothing`: a call that runs alone;
* `reloads_serialisable`: no reload is lost as long as no call replaces the
  value of a key that it does not set and that was changed since it looked.
-/

namespace Hanko

open Bytes Interact

/-! ## Keys and values -/

inductive ConfigKey where
  | jwksRotationPolicy
  | bruteForceThreshold
  | bruteForceWindowSec
  | logLevel
  | natsWorkspaceID
  | redactionPatterns
deriving DecidableEq

namespace ConfigKey

def name : ConfigKey → Bytes
  | jwksRotationPolicy => lit "jwks_rotation_policy"
  | bruteForceThreshold => lit "brute_force_threshold"
  | bruteForceWindowSec => lit "brute_force_window_sec"
  | logLevel => lit "log_level"
  | natsWorkspaceID => lit "nats_workspace_id"
  | redactionPatterns => lit "redaction_patterns"

theorem mem_reloadableKeys {key : Bytes} : key ∈ reloadableKeys ↔ ∃ k : ConfigKey, k.name = key := by
  simp only [reloadableKeys, List.mem_cons, List.not_mem_nil, or_false]
  constructor
  · rintro (rfl | rfl | rfl | rfl | rfl | rfl)
    exacts [⟨jwksRotationPolicy, rfl⟩, ⟨bruteForceThreshold, rfl⟩, ⟨bruteForceWindowSec, rfl⟩, ⟨logLevel, rfl⟩,
      ⟨natsWorkspaceID, rfl⟩, ⟨redactionPatterns, rfl⟩]
  · rintro ⟨k, rfl⟩
    cases k <;> simp [name]

theorem name_injective : Function.Injective name := by
  intro j k
  cases j <;> cases k <;> first | exact fun _ => rfl | exact fun h => absurd h (by decide)

/-- The values a key takes: a string, a number, or an array of strings. -/
def Fits : ConfigKey → TomlValue → Prop
  | jwksRotationPolicy, v | logLevel, v | natsWorkspaceID, v => ∃ s, v = .string s
  | bruteForceThreshold, v | bruteForceWindowSec, v => ∃ n, v = .int64 n ∨ v = .float64 n
  | redactionPatterns, v => ∃ out : List Bytes, v = .array (out.map .string)

end ConfigKey

/-- The value that is kept: a float is truncated. -/
def TomlValue.kept : TomlValue → TomlValue
  | .float64 n => .int64 n
  | v => v

/-- The value of a key. -/
def ReloadableConfig.get (cfg : ReloadableConfig) : ConfigKey → TomlValue
  | .jwksRotationPolicy => .string cfg.jwksRotationPolicy
  | .bruteForceThreshold => .int64 cfg.bruteForceThreshold
  | .bruteForceWindowSec => .int64 cfg.bruteForceWindowSec
  | .logLevel => .string cfg.logLevel
  | .natsWorkspaceID => .string cfg.natsWorkspaceID
  | .redactionPatterns => .array (cfg.redactionPatterns.map .string)

theorem ReloadableConfig.ext_get {c d : ReloadableConfig} (h : ∀ k, c.get k = d.get k) : c = d := by
  have hinj : Function.Injective TomlValue.string := fun _ _ => TomlValue.string.inj
  have hpolicy := TomlValue.string.inj (h .jwksRotationPolicy)
  have hthreshold := TomlValue.int64.inj (h .bruteForceThreshold)
  have hwindow := TomlValue.int64.inj (h .bruteForceWindowSec)
  have hlevel := TomlValue.string.inj (h .logLevel)
  have hworkspace := TomlValue.string.inj (h .natsWorkspaceID)
  have hpatterns := hinj.list_map (TomlValue.array.inj (h .redactionPatterns))
  cases c
  cases d
  simp_all

theorem mapM_asString {key : Bytes} {want : String} (out : List Bytes) :
    (out.map TomlValue.string).mapM (asString key want) = .ok out := by
  induction out with
  | nil => rfl
  | cons s out ih => simp only [List.map_cons, List.mapM_cons, ih]; rfl

theorem eq_map_of_mapM_asString {key : Bytes} {want : String} {vs : List TomlValue} {out : List Bytes}
    (h : vs.mapM (asString key want) = .ok out) : vs = out.map .string := by
  induction vs generalizing out with
  | nil => cases h; rfl
  | cons v vs ih =>
    rw [List.mapM_cons] at h
    cases v with
    | string s =>
      cases hvs : vs.mapM (asString key want) with
      | ok rest =>
        rw [hvs] at h
        obtain rfl : s :: rest = out := Except.ok.inj h
        rw [List.map_cons, ih hvs]
      | error e => rw [hvs] at h; cases h
    | int64 | float64 | array | other => cases h

/-! ## One key -/

/-- A value that fits its key is set, and nothing else changes. -/
theorem applyKey_of_fits (c : ReloadableConfig) {k : ConfigKey} {v : TomlValue} (h : k.Fits v) :
    ∃ c', applyKey c k.name v = .ok c' ∧ ∀ j, c'.get j = if j = k then v.kept else c.get j := by
  cases k with
  | jwksRotationPolicy =>
    obtain ⟨s, rfl⟩ := h
    exact ⟨{ c with jwksRotationPolicy := s }, rfl, fun j => by cases j <;> rfl⟩
  | bruteForceThreshold =>
    obtain ⟨n, rfl | rfl⟩ := h <;>
      exact ⟨{ c with bruteForceThreshold := n }, rfl, fun j => by cases j <;> rfl⟩
  | bruteForceWindowSec =>
    obtain ⟨n, rfl | rfl⟩ := h <;>
      exact ⟨{ c with bruteForceWindowSec := n }, rfl, fun j => by cases j <;> rfl⟩
  | logLevel =>
    obtain ⟨s, rfl⟩ := h
    exact ⟨{ c with logLevel := s }, rfl, fun j => by cases j <;> rfl⟩
  | natsWorkspaceID =>
    obtain ⟨s, rfl⟩ := h
    exact ⟨{ c with natsWorkspaceID := s }, rfl, fun j => by cases j <;> rfl⟩
  | redactionPatterns =>
    obtain ⟨out, rfl⟩ := h
    refine ⟨{ c with redactionPatterns := out }, ?_, fun j => by cases j <;> rfl⟩
    change (asStrings (lit "redaction_patterns") (.array (out.map .string))).map _ = _
    rw [asStrings, mapM_asString]
    rfl

/-- Nothing else is accepted. -/
theorem fits_of_applyKey {c c' : ReloadableConfig} {key : Bytes} {v : TomlValue} (h : applyKey c key v = .ok c') :
    ∃ k : ConfigKey, k.name = key ∧ k.Fits v := by
  rw [applyKey] at h
  split_ifs at h with h₁ h₂ h₃ h₄ h₅ h₆
  · refine ⟨.jwksRotationPolicy, h₁.symm, ?_⟩
    cases v <;> first | exact ⟨_, rfl⟩ | cases h
  · refine ⟨.bruteForceThreshold, h₂.symm, ?_⟩
    cases v <;> first | exact ⟨_, .inl rfl⟩ | exact ⟨_, .inr rfl⟩ | cases h
  · refine ⟨.bruteForceWindowSec, h₃.symm, ?_⟩
    cases v <;> first | exact ⟨_, .inl rfl⟩ | exact ⟨_, .inr rfl⟩ | cases h
  · refine ⟨.logLevel, h₄.symm, ?_⟩
    cases v <;> first | exact ⟨_, rfl⟩ | cases h
  · refine ⟨.natsWorkspaceID, h₅.symm, ?_⟩
    cases v <;> first | exact ⟨_, rfl⟩ | cases h
  · refine ⟨.redactionPatterns, h₆.symm, ?_⟩
    cases v with
    | array vs =>
      rw [asStrings] at h
      cases hvs : vs.mapM (asString key "array of string") with
      | ok out => exact ⟨out, congrArg _ (eq_map_of_mapM_asString hvs)⟩
      | error e => rw [hvs] at h; cases h
    | string | int64 | float64 | other => cases h

/-! ## The entries of a table -/

/-- Every key is one of the configuration, and its value fits it. -/
def Accepted (es : TomlEntries) : Prop := ∀ e ∈ es, ∃ k : ConfigKey, k.name = e.1 ∧ k.Fits e.2

/-- `c'` is `c` with the values of the keys of `es` replaced. -/
structure Replaces (es : TomlEntries) (c c' : ReloadableConfig) : Prop where
  set : ∀ k v, (ConfigKey.name k, v) ∈ es → c'.get k = v.kept
  kept : ∀ k, ConfigKey.name k ∉ es.map Prod.fst → c'.get k = c.get k

/-- `c` and `d` have the same values for the keys that are not in `es`. -/
def AgreeOutside (es : TomlEntries) (c d : ReloadableConfig) : Prop :=
  ∀ k, ConfigKey.name k ∉ es.map Prod.fst → c.get k = d.get k

theorem Replaces.unique {es : TomlEntries} {c d e : ReloadableConfig} (h : Replaces es c d) (h' : Replaces es c e) :
    d = e := by
  refine ReloadableConfig.ext_get fun k => ?_
  by_cases hk : k.name ∈ es.map Prod.fst
  · obtain ⟨⟨key, v⟩, hv, rfl⟩ := List.mem_map.mp hk
    rw [h.set k v hv, h'.set k v hv]
  · rw [h.kept k hk, h'.kept k hk]

theorem Replaces.perm {es es' : TomlEntries} {c c' : ReloadableConfig} (h : Replaces es c c') (hp : es.Perm es') :
    Replaces es' c c' :=
  ⟨fun k v hv => h.set k v (hp.mem_iff.mpr hv), fun k hk => h.kept k fun hk' => hk ((hp.map _).mem_iff.mp hk')⟩

theorem Replaces.of_agree {es : TomlEntries} {c c' d : ReloadableConfig} (h : Replaces es c c')
    (hd : AgreeOutside es c d) : Replaces es d c' :=
  ⟨h.set, fun k hk => (h.kept k hk).trans (hd k hk)⟩

theorem accepted_perm {es es' : TomlEntries} (hp : es.Perm es') : Accepted es ↔ Accepted es' :=
  forall_congr' fun _ => imp_congr_left hp.mem_iff

theorem accepted_of_applyKeys {c c' : ReloadableConfig} {es : TomlEntries} (h : applyKeys c es = .ok c') :
    Accepted es := by
  induction es generalizing c with
  | nil => exact fun e he => absurd he List.not_mem_nil
  | cons e es ih =>
    rw [applyKeys, List.foldlM_cons] at h
    cases he : applyKey c e.1 e.2 with
    | ok c₁ =>
      rw [he] at h
      exact List.forall_mem_cons.mpr ⟨fits_of_applyKey he, ih h⟩
    | error => rw [he] at h; cases h

/-- An accepted table is applied whatever the order of its entries. -/
theorem applyKeys_of_accepted (c : ReloadableConfig) {es : TomlEntries} (hn : (es.map Prod.fst).Nodup)
    (h : Accepted es) : ∃ c', applyKeys c es = .ok c' ∧ Replaces es c c' := by
  induction es generalizing c with
  | nil => exact ⟨c, rfl, fun _ _ hv => absurd hv List.not_mem_nil, fun _ _ => rfl⟩
  | cons e es ih =>
    obtain ⟨key, v⟩ := e
    obtain ⟨⟨k, rfl, hfits⟩, hes⟩ := List.forall_mem_cons.mp h
    obtain ⟨hk, hn⟩ := List.nodup_cons.mp hn
    obtain ⟨c₁, happly, hget⟩ := applyKey_of_fits c hfits
    obtain ⟨c', happlies, hset, hkept⟩ := ih c₁ hn hes
    refine ⟨c', by rw [applyKeys, List.foldlM_cons, happly]; exact happlies, fun j w hw => ?_, fun j hj => ?_⟩
    · rcases List.mem_cons.mp hw with heq | hw
      · obtain ⟨hname, rfl⟩ := Prod.mk.inj heq
        obtain rfl := ConfigKey.name_injective hname
        rw [hkept j hk, hget, if_pos rfl]
      · exact hset j w hw
    · rw [List.map_cons, List.mem_cons, not_or] at hj
      have hjk : j ≠ k := fun heq => hj.1 (congrArg _ heq)
      rw [hkept j hj.2, hget, if_neg hjk]

theorem applyKeys_eq_ok {c c' : ReloadableConfig} {es : TomlEntries} (hn : (es.map Prod.fst).Nodup) :
    applyKeys c es = .ok c' ↔ Accepted es ∧ Replaces es c c' := by
  constructor
  · intro h
    obtain ⟨d, hd, hreplaces⟩ := applyKeys_of_accepted c hn (accepted_of_applyKeys h)
    obtain rfl : d = c' := Except.ok.inj (hd.symm.trans h)
    exact ⟨accepted_of_applyKeys h, hreplaces⟩
  · rintro ⟨haccepted, h⟩
    obtain ⟨d, hd, hreplaces⟩ := applyKeys_of_accepted c hn haccepted
    rw [hd, hreplaces.unique h]

/-- The first loop lets a table of the configuration's keys through. -/
theorem rejectKeys_of_accepted {es : TomlEntries} (h : Accepted es) : rejectKeys es = none := by
  induction es with
  | nil => rfl
  | cons e es ih =>
    obtain ⟨⟨k, hk, -⟩, hes⟩ := List.forall_mem_cons.mp h
    have hnot : e.1 ∉ nonReloadableKeys := by rw [← hk]; cases k <;> decide
    have hmem : e.1 ∈ reloadableKeys := ConfigKey.mem_reloadableKeys.mpr ⟨k, hk⟩
    rw [rejectKeys, if_neg hnot, if_neg (not_not.mpr hmem), ih hes]

/-! ## One call -/

/-- The assignments to the live configuration. -/
def isCommit : Event ReloadSig → Bool
  | ⟨.inl (.commit _), _⟩ => true
  | _ => false

/-- The questions that leave the live configuration alone. -/
def Aside : ReloadSig.Op → Prop
  | .inl _ => False
  | .inr _ => True

theorem Aside.not_commit {x : Event ReloadSig} (h : Aside x.op) : isCommit x = false := by
  obtain ⟨_ | _, _⟩ := x
  · cases h
  · rfl

theorem reload_unchanged {o : ReloadSig.Op} {c c' : ReloadableConfig} {a : ReloadSig.Ans o}
    (h : isCommit ⟨o, a⟩ = false) (hstep : ReloadHandler o c a c') : c' = c := by
  match o, a, h, hstep with
  | .inl .snapshot, _, _, hstep => exact (Prod.mk.inj hstep).2.symm
  | .inr _, _, _, hstep => exact hstep

/-- What an event publishes. -/
def publication : Event ReloadSig → Option (NATSSubject × ConfigEvent)
  | ⟨.inr (.publish subject ev), _⟩ => some (subject, ev)
  | _ => none

namespace ConfigReloader

variable (r : ConfigReloader) (req : ReloadRequest)

/-- The entries of the request's table. -/
def entries : TomlEntries :=
  match r.tomlUnmarshal req.tomlPayload with
  | .ok raw => raw.entries
  | .error _ => []

/-- The payload is TOML, and its table is accepted. -/
def Accepts : Prop := ∃ raw, r.tomlUnmarshal req.tomlPayload = .ok raw ∧ Accepted raw.entries

/-- The configuration after the call, run alone. -/
def reloaded (c : ReloadableConfig) : ReloadableConfig :=
  match r.tomlUnmarshal req.tomlPayload with
  | .ok raw => (applyKeys c raw.entries).toOption.getD c
  | .error _ => c

variable {r req}

theorem replaces_reloaded (h : r.Accepts req) (c : ReloadableConfig) :
    Replaces (r.entries req) c (r.reloaded req c) := by
  obtain ⟨raw, hraw, haccepted⟩ := h
  obtain ⟨c', happly, hreplaces⟩ := applyKeys_of_accepted c raw.nodup haccepted
  simp only [entries, reloaded, hraw, happly]
  exact hreplaces

theorem reloaded_of_not_accepts (h : ¬ r.Accepts req) (c : ReloadableConfig) : r.reloaded req c = c := by
  rw [reloaded]
  split
  · rename_i raw hraw
    cases happly : applyKeys c raw.entries with
    | ok c' => exact absurd ⟨raw, hraw, accepted_of_applyKeys happly⟩ h
    | error => rfl
  · rfl

theorem fail_asks (keys : List Bytes) (reason : Bytes) : (r.fail req keys reason).Asks Aside := by
  rw [fail]
  cases r.metrics <;> simp [Aside]

theorem succeed_asks (start : Time) (keys : List Bytes) : (r.succeed req start keys).Asks Aside := by
  rw [succeed]
  cases r.metrics <;> cases r.jwksKidFunc <;> simp [Aside]

/-- A failure is reported once. -/
theorem fail_ends {keys : List Bytes} {reason : Bytes} {es : List (Event ReloadSig)} {e : Option GoError}
    (h : (r.fail req keys reason).Ends es e) :
    e = some (.text (lit "config reload failed: " ++ reason)) ∧
      ∃ ts, es.filterMap publication = [(configSubject r.workspaceID "reload_failed" req.corrID,
        .reloadFailed ⟨ts, req.corrID, r.workspaceID, keys, reason, true⟩)] := by
  cases hmetrics : r.metrics <;>
    simp only [fail, hmetrics, Bool.false_eq_true, ↓reduceIte, askReloadHost_eq, Prog.bind_eq, Prog.ask_bind,
      Prog.ret_bind, Prog.pure_eq, ends_ask, ends_ret] at h
  · obtain ⟨ts, es, rfl, _, es, rfl, rfl, rfl⟩ := h
    exact ⟨rfl, ts.utc.format, rfl⟩
  · obtain ⟨ts, es, rfl, _, es, rfl, _, es, rfl, rfl, rfl⟩ := h
    exact ⟨rfl, ts.utc.format, rfl⟩

/-- So is a success. -/
theorem succeed_ends {start : Time} {keys : List Bytes} {es : List (Event ReloadSig)} {e : Option GoError}
    (h : (r.succeed req start keys).Ends es e) :
    e = none ∧ ∃ ts durationMS kid, es.filterMap publication = [(configSubject r.workspaceID "reloaded" req.corrID,
      .reloaded ⟨ts, req.corrID, r.workspaceID, keys, durationMS, kid⟩)] := by
  cases hkid : r.jwksKidFunc <;> cases hmetrics : r.metrics <;>
    simp only [succeed, hkid, hmetrics, Bool.false_eq_true, ↓reduceIte, askReloadHost_eq, Prog.bind_eq,
      Prog.ask_bind, Prog.ret_bind, Prog.pure_eq, ends_ask, ends_ret] at h
  · obtain ⟨ts, es, rfl, now, es, rfl, _, es, rfl, rfl, rfl⟩ := h
    exact ⟨rfl, ts.utc.format, now.sinceMilliseconds start, [], rfl⟩
  · obtain ⟨ts, es, rfl, now, es, rfl, _, es, rfl, _, es, rfl, rfl, rfl⟩ := h
    exact ⟨rfl, ts.utc.format, now.sinceMilliseconds start, [], rfl⟩
  · obtain ⟨kid, es, rfl, ts, es, rfl, now, es, rfl, _, es, rfl, rfl, rfl⟩ := h
    exact ⟨rfl, ts.utc.format, now.sinceMilliseconds start, kid, rfl⟩
  · obtain ⟨kid, es, rfl, ts, es, rfl, now, es, rfl, _, es, rfl, _, es, rfl, rfl, rfl⟩ := h
    exact ⟨rfl, ts.utc.format, now.sinceMilliseconds start, kid, rfl⟩

/-- The questions of a call that replaced the configuration. -/
structure Commits (r : ConfigReloader) (req : ReloadRequest) (es : List (Event ReloadSig)) : Prop where
  accepts : r.Accepts req
  events : ∃ before snap middle candidate after,
    es = (before ++ ⟨.inl .snapshot, snap⟩ :: middle) ++ ⟨.inl (.commit candidate), ()⟩ :: after ∧
    (∀ x ∈ before, Aside x.op) ∧ (∀ x ∈ middle, Aside x.op) ∧ (∀ x ∈ after, Aside x.op) ∧
    Replaces (r.entries req) snap candidate

/-- The keys of a table as `keysOf` lists them. -/
structure KeysListed (es : TomlEntries) (keys : List Bytes) : Prop where
  sorted : keys.Pairwise (· ≤ ·)
  perm : keys.Perm (es.map Prod.fst)

/-- A call that replaced the configuration, and reported it once. -/
structure Succeeds (r : ConfigReloader) (req : ReloadRequest) (es : List (Event ReloadSig)) (e : Option GoError) :
    Prop extends r.Commits req es where
  result : e = none
  reported : ∃ ev, es.filterMap publication =
    [(configSubject r.workspaceID "reloaded" req.corrID, .reloaded ev)] ∧ KeysListed (r.entries req) ev.keysApplied

/-- A call that left the configuration alone, and reported a failure once. -/
structure Fails (r : ConfigReloader) (req : ReloadRequest) (es : List (Event ReloadSig)) (e : Option GoError) :
    Prop where
  refuses : ¬ r.Accepts req
  aside : ∀ x ∈ es, isCommit x = false
  result : e ≠ none
  reported : ∃ ev, es.filterMap publication =
    [(configSubject r.workspaceID "reload_failed" req.corrID, .reloadFailed ev)] ∧ ev.rollbackApplied = true

theorem Fails.of_fail {keys : List Bytes} {reason : Bytes} {es : List (Event ReloadSig)} {e : Option GoError}
    (before : List (Event ReloadSig)) (hrefuses : ¬ r.Accepts req)
    (hbefore : ∀ x ∈ before, isCommit x = false ∧ publication x = none)
    (h : (r.fail req keys reason).Ends es e) : r.Fails req (before ++ es) e := by
  obtain ⟨rfl, ts, hpub⟩ := fail_ends h
  have hes := Path.asks h (fail_asks _ _)
  refine ⟨hrefuses, ?_, nofun, ⟨⟨ts, req.corrID, r.workspaceID, keys, reason, true⟩, ?_, rfl⟩⟩
  · exact List.forall_mem_append.mpr ⟨fun x hx => (hbefore x hx).1, fun x hx => (hes x hx).not_commit⟩
  · rw [List.filterMap_append, List.filterMap_eq_nil_iff.mpr fun x hx => (hbefore x hx).2, List.nil_append, hpub]

/-- A call replaces the configuration that it looked at if it accepts the
table, and leaves it alone otherwise; either way it says so. -/
theorem applyReload_outcome {es : List (Event ReloadSig)} {e : Option GoError} (h : (r.applyReload req).Ends es e) :
    r.Succeeds req es e ∨ r.Fails req es e := by
  simp only [applyReload, keysOf, askReloadHost_eq, askLive_eq, Prog.bind_eq, Prog.ask_bind, Prog.ret_bind,
    Prog.pure_eq, ends_ask] at h
  obtain ⟨start, es, rfl, h⟩ := h
  cases hraw : r.tomlUnmarshal req.tomlPayload with
  | error raw =>
    simp only [hraw, ends_ask] at h
    obtain ⟨order, es, rfl, h⟩ := h
    refine .inr (.of_fail [_, _] ?_ (by simp [isCommit, publication]) h)
    rintro ⟨raw', hraw', -⟩
    rw [hraw] at hraw'
    cases hraw'
  | ok raw =>
    simp only [hraw, ends_ask] at h
    obtain ⟨order₁, es, rfl, order₂, es, rfl, h⟩ := h
    have haccepts : r.Accepts req ↔ Accepted raw.entries := by
      simp [Accepts, hraw]
    cases hreject : rejectKeys order₂.val with
    | some reason =>
      rw [hreject] at h
      refine .inr (.of_fail [_, _, _] (fun hacc => ?_) (by simp [isCommit, publication]) h)
      rw [haccepts, ← accepted_perm order₂.property] at hacc
      rw [rejectKeys_of_accepted hacc] at hreject
      cases hreject
    | none =>
      simp only [hreject, ends_ask] at h
      obtain ⟨snap, es, rfl, order₃, es, rfl, h⟩ := h
      have hn : (order₃.val.map Prod.fst).Nodup := (order₃.property.map _).nodup_iff.mpr raw.nodup
      cases happly : applyKeys snap order₃.val with
      | error reason =>
        rw [happly] at h
        refine .inr (.of_fail [_, _, _, _, _] (fun hacc => ?_) (by simp [isCommit, publication]) h)
        rw [haccepts, ← accepted_perm order₃.property] at hacc
        obtain ⟨c', hc', -⟩ := applyKeys_of_accepted snap hn hacc
        rw [hc'] at happly
        cases happly
      | ok candidate =>
        simp only [happly, ends_ask] at h
        obtain ⟨_, es, rfl, h⟩ := h
        obtain ⟨haccepted, hreplaces⟩ := (applyKeys_eq_ok hn).mp happly
        obtain ⟨rfl, ts, durationMS, kid, hpub⟩ := succeed_ends h
        have hentries : r.entries req = raw.entries := by simp [entries, hraw]
        refine .inl ⟨⟨haccepts.mpr ((accepted_perm order₃.property).mp haccepted),
          [_, _, _], snap, [_], candidate, es, rfl, by simp [Aside], by simp [Aside],
          Path.asks h (succeed_asks _ _), ?_⟩, rfl, ⟨_, hpub, ?_, ?_⟩⟩
        · rw [hentries]
          exact hreplaces.perm order₃.property
        · exact List.pairwise_insertionSort _ _
        · rw [hentries]
          exact (List.perm_insertionSort _ _).trans (order₁.property.map _)

theorem applyReload_ends {es : List (Event ReloadSig)} {e : Option GoError} (h : (r.applyReload req).Ends es e) :
    r.Commits req es ∨ ¬ r.Accepts req ∧ ∀ x ∈ es, isCommit x = false :=
  (applyReload_outcome h).imp Succeeds.toCommits fun hfails => ⟨hfails.refuses, hfails.aside⟩

theorem Commits.countP {es : List (Event ReloadSig)} (h : r.Commits req es) : es.countP isCommit = 1 := by
  obtain ⟨before, snap, middle, candidate, after, rfl, hbefore, hmiddle, hafter, -⟩ := h.events
  have hzero : ∀ {l : List (Event ReloadSig)}, (∀ x ∈ l, Aside x.op) → l.countP isCommit = 0 := by
    intro l hl
    rw [List.countP_eq_zero]
    intro x hx
    rw [(hl x hx).not_commit]
    exact Bool.false_ne_true
  rw [List.countP_append, List.countP_append, List.countP_cons_of_neg (by exact Bool.false_ne_true),
    List.countP_cons_of_pos (by rfl), hzero hbefore, hzero hmiddle, hzero hafter]

/-- The question at which a call replaces the configuration, and the one at
which it looked at it. -/
theorem Commits.split {es es₁ es₂ : List (Event ReloadSig)} {x : Event ReloadSig} (h : r.Commits req es)
    (hes : es = es₁ ++ x :: es₂) (hx : isCommit x = true) :
    ∃ snap candidate, x = ⟨.inl (.commit candidate), ()⟩ ∧ ⟨.inl .snapshot, snap⟩ ∈ es₁ ∧
      Replaces (r.entries req) snap candidate := by
  obtain ⟨before, snap, middle, candidate, after, rfl, hbefore, hmiddle, hafter, hreplaces⟩ := h.events
  have hfirst : ∀ y ∈ before ++ ⟨.inl .snapshot, snap⟩ :: middle, isCommit y = false := by
    simp only [List.forall_mem_append, List.forall_mem_cons]
    exact ⟨fun y hy => (hbefore y hy).not_commit, rfl, fun y hy => (hmiddle y hy).not_commit⟩
  obtain ⟨rfl, rfl, -⟩ := split_at_write hes.symm hx hfirst fun y hy => (hafter y hy).not_commit
  exact ⟨snap, candidate, rfl, by simp, hreplaces⟩

/-- Alone, a call that replaces the configuration has its effect on it. -/
theorem Commits.exec {es : List (Event ReloadSig)} (h : r.Commits req es) {c c' : ReloadableConfig}
    (hx : Exec ReloadHandler c es c') : c' = r.reloaded req c := by
  obtain ⟨before, snap, middle, candidate, after, rfl, hbefore, hmiddle, hafter, hreplaces⟩ := h.events
  obtain ⟨c₂, hx₁, hx₂⟩ := exec_append_iff.mp hx
  obtain ⟨c₁, hx₀, hx₁⟩ := exec_append_iff.mp hx₁
  obtain ⟨c₃, hsnap, hx₁⟩ := exec_cons_iff.mp hx₁
  obtain ⟨c₄, hcommit, hx₂⟩ := exec_cons_iff.mp hx₂
  have hread := fun o s a s' => @reload_unchanged o s s' a
  obtain rfl := hx₀.unwritten hread fun y hy => (hbefore y hy).not_commit
  obtain ⟨rfl, -⟩ : c₁ = snap ∧ c₁ = c₃ := Prod.mk.inj hsnap
  obtain rfl : candidate = c₄ := (Prod.mk.inj hcommit).2
  obtain rfl := hx₂.unwritten hread fun y hy => (hafter y hy).not_commit
  exact hreplaces.unique (replaces_reloaded h.accepts c₁)

/-- Surroundings that answer something. -/
def quiet : (o : ReloadHostOp) → Unit → o.Ans × Unit
  | .timeNow, _ => (.zero, ())
  | .range m, _ => (⟨m.entries, .refl _⟩, ())
  | .jwksKid, _ => ([], ())
  | .publish .., _ => ((), ())
  | .incConfigReload _, _ => ((), ())

theorem quiet_refines : Refines (Handler.graph (both LiveOp.step quiet)) ReloadHandler Prod.fst :=
  .both fun _ _ _ _ h => h

theorem effect (r : ConfigReloader) (req : ReloadRequest) :
    (r.applyReload req).Effect ReloadHandler (r.reloaded req) := by
  have honly : ∀ {c c' : ReloadableConfig} {es : List (Event ReloadSig)} {e : Option GoError},
      (r.applyReload req).Ends es e → Exec ReloadHandler c es c' → c' = r.reloaded req c := by
    intro c c' es e hends hx
    rcases applyReload_ends hends with hcommits | ⟨hnot, hes⟩
    · exact hcommits.exec hx
    · rw [reloaded_of_not_accepts hnot]
      exact hx.unwritten (fun o s a s' => @reload_unchanged o s s' a) hes
  intro c c'
  constructor
  · rintro ⟨es, e, hends, hx⟩
    exact honly hends hx
  · rintro rfl
    obtain ⟨es, hends, hx⟩ := Prog.exec_ends (both LiveOp.step quiet) (r.applyReload req) (c, ())
    have hx := hx.refine quiet_refines
    refine ⟨es, _, hends, ?_⟩
    rw [← honly hends hx]
    exact hx

end ConfigReloader

/-- A reload that runs alone, whatever its surroundings answer and in whatever
order they let it visit the entries of the table. It returns; it succeeds iff the
payload is TOML whose keys are all known and have values that fit them. Then the
configuration has the values of the table for its keys and is unchanged for the
others, and one event lists the keys, sorted. Otherwise the configuration is
unchanged, and one event reports the failure. Another order makes no difference to
the result and to the configuration. -/
theorem reload_all_or_nothing (r : ConfigReloader) (req : ReloadRequest) (c : ReloadableConfig) :
    (∀ (τ : Type) (host : (o : ReloadHostOp) → τ → o.Ans × τ) (t : τ),
      ∃ es, (r.applyReload req).Ends es ((r.applyReload req).exec (both LiveOp.step host) (c, t)).1 ∧
        Exec ReloadHandler c es ((r.applyReload req).exec (both LiveOp.step host) (c, t)).2.1) ∧
    ∀ es e c', (r.applyReload req).Ends es e → Exec ReloadHandler c es c' →
      (e = none ↔ r.Accepts req) ∧
      (r.Accepts req → Replaces (r.entries req) c c' ∧
        ∃ ev, es.filterMap publication = [(configSubject r.workspaceID "reloaded" req.corrID, .reloaded ev)] ∧
          ev.keysApplied.Pairwise (· ≤ ·) ∧ ev.keysApplied.Perm ((r.entries req).map Prod.fst)) ∧
      (¬ r.Accepts req → c' = c ∧
        ∃ ev, es.filterMap publication = [(configSubject r.workspaceID "reload_failed" req.corrID, .reloadFailed ev)] ∧
          ev.rollbackApplied = true) ∧
      ∀ es₂ e₂ c₂, (r.applyReload req).Ends es₂ e₂ → Exec ReloadHandler c es₂ c₂ →
        (e₂ = none ↔ e = none) ∧ c₂ = c' := by
  have hresult : ∀ {es : List (Event ReloadSig)} {e : Option GoError}, (r.applyReload req).Ends es e →
      (e = none ↔ r.Accepts req) := by
    intro es e hends
    rcases ConfigReloader.applyReload_outcome hends with hs | hf
    · exact iff_of_true hs.result hs.accepts
    · exact iff_of_false hf.result hf.refuses
  have hconfig : ∀ {es : List (Event ReloadSig)} {e : Option GoError} {c' : ReloadableConfig},
      (r.applyReload req).Ends es e → Exec ReloadHandler c es c' → c' = r.reloaded req c :=
    fun hends hx => (r.effect req c _).mp ⟨_, _, hends, hx⟩
  refine ⟨fun τ host t => ?_, fun es e c' hends hx => ⟨hresult hends, fun hacc => ?_, fun hnot => ?_, ?_⟩⟩
  · obtain ⟨es, hends, hx⟩ := Prog.exec_ends (both LiveOp.step host) (r.applyReload req) (c, t)
    exact ⟨es, hends, hx.refine (.both fun _ _ _ _ h => h)⟩
  · refine ⟨hconfig hends hx ▸ ConfigReloader.replaces_reloaded hacc c, ?_⟩
    rcases ConfigReloader.applyReload_outcome hends with hs | hf
    · obtain ⟨ev, hpub, hkeys⟩ := hs.reported
      exact ⟨ev, hpub, hkeys.sorted, hkeys.perm⟩
    · exact absurd hacc hf.refuses
  · refine ⟨(hconfig hends hx).trans (ConfigReloader.reloaded_of_not_accepts hnot c), ?_⟩
    rcases ConfigReloader.applyReload_outcome hends with hs | hf
    · exact absurd hs.accepts hnot
    · exact hf.reported
  · intro es₂ e₂ c₂ hends₂ hx₂
    exact ⟨(hresult hends₂).trans (hresult hends).symm, (hconfig hends₂ hx₂).trans (hconfig hends hx).symm⟩

/-! ## Concurrent calls -/

/-- Whenever a call replaces the configuration, the one it looked at agrees
with the live one on the keys that the call does not set. -/
def Undisturbed {ι : Type} (r : ConfigReloader) (req : ι → ReloadRequest) (c : ReloadableConfig)
    (tr : List (ι × Event ReloadSig)) : Prop :=
  ∀ before i candidate after snap live, tr = before ++ (i, ⟨.inl (.commit candidate), ()⟩) :: after →
    (i, ⟨.inl .snapshot, snap⟩) ∈ before → Exec ReloadHandler c (before.map Prod.snd) live →
    AgreeOutside (r.entries (req i)) snap live

/-- No reload is lost: the configuration at the end is the one that the calls
lead to one after the other, in some order. -/
theorem reloads_serialisable {ι : Type} [DecidableEq ι] [Fintype ι] (r : ConfigReloader) (req : ι → ReloadRequest)
    {c c' : ReloadableConfig} {tr : List (ι × Event ReloadSig)} {ps' : ι → Prog ReloadSig (Option GoError)}
    (h : Run ReloadHandler (fun i => r.applyReload (req i)) c tr ps' c') (hret : ∀ i, ∃ e, ps' i = .ret e)
    (hund : Undisturbed r req c tr) :
    ∃ order : List ι, order.Nodup ∧ (∀ i, i ∈ order) ∧
      ∀ d, Serially ReloadHandler (fun i => r.applyReload (req i)) order c d ↔ d = c' := by
  have hends : ∀ i, r.Commits (req i) (of i tr) ∨ ¬ r.Accepts (req i) ∧ ∀ x ∈ of i tr, isCommit x = false := by
    intro i
    obtain ⟨e, he⟩ := hret i
    exact ConfigReloader.applyReload_ends (h.ends he)
  have hserial : ∃ order : List ι, order.Nodup ∧ (∀ i, i ∈ order) ∧
      c' = compose (fun i => r.reloaded (req i)) order c := by
    refine h.exec.serial (W := isCommit) (fun o s a s' => @reload_unchanged o s s' a) ?_ ?_ ?_
    · -- what a call assigns to the live configuration is its effect on it
      rintro before i x after live d rfl hx hlive hstep
      have hof : of i (before ++ (i, x) :: after) = of i before ++ x :: of i after := by
        rw [of_append, of_cons, if_pos rfl]
      rcases hends i with hcommits | ⟨-, hnone⟩
      · obtain ⟨snap, candidate, rfl, hsnap, hreplaces⟩ := hcommits.split hof hx
        have hagree := hund before i candidate after snap live rfl (mem_of.mp hsnap) hlive
        obtain rfl : candidate = d := (Prod.mk.inj hstep).2
        exact (hreplaces.of_agree hagree).unique (ConfigReloader.replaces_reloaded hcommits.accepts live)
      · rw [hof] at hnone
        rw [hnone x (List.mem_append_right _ List.mem_cons_self)] at hx
        cases hx
    · intro i
      rcases hends i with hcommits | ⟨-, hnone⟩
      · exact hcommits.countP.le
      · rw [List.countP_eq_zero.mpr fun x hx => by rw [hnone x hx]; exact Bool.false_ne_true]
        exact Nat.zero_le _
    · intro i hnone
      rcases hends i with hcommits | ⟨hnot, -⟩
      · have hcount := hcommits.countP
        rw [List.countP_eq_zero.mpr fun x hx => by rw [hnone x hx]; exact Bool.false_ne_true] at hcount
        cases hcount
      · exact ConfigReloader.reloaded_of_not_accepts hnot
  obtain ⟨order, hnodup, hall, hc⟩ := hserial
  exact ⟨order, hnodup, hall, fun d => by rw [serially_iff fun i => r.effect (req i), hc]⟩

namespace Sample

/-- A table with every key. -/
def fullTable (s : Bytes) (n : Int) : TomlTable where
  entries := [(lit "jwks_rotation_policy", .string s), (lit "brute_force_threshold", .int64 n),
    (lit "brute_force_window_sec", .int64 n), (lit "log_level", .string s), (lit "nats_workspace_id", .string s),
    (lit "redaction_patterns", .array [.string s])]
  nodup := show reloadableKeys.Nodup by decide

/-- A table with one key. -/
def oneKey (key : Bytes) (v : TomlValue) : TomlTable := ⟨[(key, v)], List.nodup_singleton _⟩

/-- A decoder that knows four payloads. -/
def tomlUnmarshal : Bytes → Except TomlTable TomlTable
  | [0] => .ok (fullTable (lit "a") 1)
  | [1] => .ok (fullTable (lit "b") 2)
  | [2] => .ok (oneKey (lit "log_level") (.string (lit "debug")))
  | [3] => .ok (oneKey (lit "brute_force_threshold") (.int64 25))
  | _ => .error ⟨[], List.nodup_nil⟩

def reloader : ConfigReloader := ⟨lit "w", false, false, tomlUnmarshal⟩

def initial : ReloadableConfig := ⟨lit "manual", 10, 60, lit "info", lit "w", []⟩

/-- Two calls with the given payloads. -/
def reloads (p q : UInt8) (second : Bool) : ReloadRequest := ⟨[], [], [if second then q else p]⟩

/-- The second call runs between the first one's look at the configuration and
its replacement. -/
def overlap : List Bool := List.replicate 5 false ++ List.replicate 9 true ++ List.replicate 4 false

end Sample

/-- Two overlapping calls that set every key. -/
theorem reloads_serialisable_sample :
    ∃ order : List Bool, order.Nodup ∧ (∀ i, i ∈ order) ∧
      ∀ d, Serially ReloadHandler (fun i => Sample.reloader.applyReload (Sample.reloads 0 1 i)) order Sample.initial d ↔
        d = ⟨lit "a", 1, 1, lit "a", lit "a", [lit "a"]⟩ := by
  refine reloads_serialisable Sample.reloader (Sample.reloads 0 1)
    (Run.scheduled ConfigReloader.quiet_refines Sample.overlap _ (Sample.initial, ()))
    (Bool.forall_bool.mpr ⟨⟨none, rfl⟩, ⟨none, rfl⟩⟩) ?_
  rintro before i candidate after snap live - - - k hk
  cases i <;> cases k <;> exact absurd (by decide) hk

/-- Two overlapping calls that both succeed, one to set the log level and one
to set the threshold: the threshold is lost, whatever order is assumed. -/
theorem reload_lost :
    ∃ tr ps' c',
      Run ReloadHandler (fun i => Sample.reloader.applyReload (Sample.reloads 2 3 i)) Sample.initial tr ps' c' ∧
      (∀ i, ps' i = .ret none) ∧ c' = { Sample.initial with logLevel := lit "debug" } ∧
      ¬ ∃ order : List Bool, order.Nodup ∧ (∀ i, i ∈ order) ∧
        Serially ReloadHandler
          (fun i => Sample.reloader.applyReload (Sample.reloads 2 3 i)) order Sample.initial c' := by
  refine ⟨_, _, _, Run.scheduled ConfigReloader.quiet_refines Sample.overlap _ (Sample.initial, ()),
    Bool.forall_bool.mpr ⟨rfl, rfl⟩, rfl, ?_⟩
  rintro ⟨order, hnodup, hall, hserial⟩
  rw [serially_iff fun i => ConfigReloader.effect _ _] at hserial
  have hperm : order.Perm [false, true] := (List.perm_ext_iff_of_nodup hnodup (by decide)).mpr (by simp [hall])
  obtain ⟨i, j, rfl⟩ := List.length_eq_two.mp hperm.length_eq
  have horders : [i, j] = [false, true] ∨ [i, j] = [true, false] := by
    revert hnodup; revert i j; decide
  rcases horders with hij | hij <;> rw [hij] at hserial <;>
    exact absurd (congrArg ReloadableConfig.bruteForceThreshold hserial) (by decide)

end Hanko
