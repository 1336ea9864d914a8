import Hanko.Impl.Broker

/-!
# Reloading the configuration (`internal/observability/config_reload.go`)

`ApplyReload` is a program over the live configuration (`LiveOp`) and over its
surroundings (`ReloadHostOp`). A critical section of `r.mu` is one question:
the copy of `r.current` under the read lock, and the assignment to it under
the write lock. A `range` over a map is a question too, answered by the
entries of the map in any order.
-/

namespace Hanko

open Bytes Interact

/-! ## Decoded TOML -/

/-- What go-toml makes of a value. A `float64` is given by the `int` that it
converts to. -/
inductive TomlValue where
  | string (s : Bytes)
  | int64 (n : Int)
  | float64 (n : Int)
  | array (vs : List TomlValue)
  /-- A boolean, a date, a time or a table. -/
  | other

/-- The entries of a `map[string]any`. -/
abbrev TomlEntries := List (Bytes × TomlValue)

/-- A `map[string]any`. -/
structure TomlTable where
  entries : TomlEntries
  nodup : (entries.map Prod.fst).Nodup

/-! ## The configuration -/

structure ReloadableConfig where
  jwksRotationPolicy : Bytes
  bruteForceThreshold : Int
  bruteForceWindowSec : Int
  logLevel : Bytes
  natsWorkspaceID : Bytes
  redactionPatterns : List Bytes
deriving DecidableEq

def reloadableKeys : List Bytes :=
  [lit "jwks_rotation_policy", lit "brute_force_threshold", lit "brute_force_window_sec", lit "log_level",
    lit "nats_workspace_id", lit "redaction_patterns"]

def nonReloadableKeys : List Bytes := [lit "signing_key", lit "postgres_url"]

def typeErr (key : Bytes) (want : String) : Bytes := lit "type_error:" ++ (key ++ lit (" expected " ++ want))

/-- `v.(string)`. -/
def asString (key : Bytes) (want : String) : TomlValue → Except Bytes Bytes
  | .string s => .ok s
  | _ => .error (typeErr key want)

def asInt : TomlValue → Option Int
  | .int64 n => some n
  | .float64 n => some n
  | _ => none

def setInt (key : Bytes) (v : TomlValue) : Except Bytes Int :=
  match asInt v with
  | some n => .ok n
  | none => .error (typeErr key "int")

/-- `v.([]any)`, each element of which is a string. -/
def asStrings (key : Bytes) : TomlValue → Except Bytes (List Bytes)
  | .array vs => vs.mapM (asString key "array of string")
  | _ => .error (typeErr key "array")

/-- `applyKey`: the changed configuration, or the text of the error. -/
def applyKey (cfg : ReloadableConfig) (key : Bytes) (v : TomlValue) : Except Bytes ReloadableConfig :=
  if key = lit "jwks_rotation_policy" then
    (asString key "string" v).map fun s => { cfg with jwksRotationPolicy := s }
  else if key = lit "brute_force_threshold" then
    (setInt key v).map fun n => { cfg with bruteForceThreshold := n }
  else if key = lit "brute_force_window_sec" then
    (setInt key v).map fun n => { cfg with bruteForceWindowSec := n }
  else if key = lit "log_level" then
    (asString key "string" v).map fun s => { cfg with logLevel := s }
  else if key = lit "nats_workspace_id" then
    (asString key "string" v).map fun s => { cfg with natsWorkspaceID := s }
  else if key = lit "redaction_patterns" then
    (asStrings key v).map fun out => { cfg with redactionPatterns := out }
  else .error (lit "unknown_key:" ++ key)

/-! ## The surroundings -/

structure ReloadRequest where
  corrID : Bytes
  requestedBySubjectID : Bytes
  tomlPayload : Bytes

structure ConfigReloadedEvent where
  ts : Bytes
  corrID : Bytes
  workspaceID : Bytes
  keysApplied : List Bytes
  durationMS : Int
  hankoKidInUse : Bytes

structure ConfigReloadFailedEvent where
  ts : Bytes
  corrID : Bytes
  workspaceID : Bytes
  keysAttempted : List Bytes
  failureReason : Bytes
  rollbackApplied : Bool

inductive ConfigEvent where
  | reloaded (e : ConfigReloadedEvent)
  | reloadFailed (e : ConfigReloadFailedEvent)

def configSubject : Bytes → String → Bytes → NATSSubject := brokerSubject "config"

/-- The critical sections of `r.mu`. -/
inductive LiveOp where
  /-- `candidate := r.current`. -/
  | snapshot
  /-- `r.current = candidate`. -/
  | commit (candidate : ReloadableConfig)

abbrev LiveOp.Ans : LiveOp → Type
  | .snapshot => ReloadableConfig
  | .commit _ => Unit

abbrev LiveSig : Sig := ⟨LiveOp, LiveOp.Ans⟩

def LiveOp.step : (o : LiveOp) → ReloadableConfig → o.Ans × ReloadableConfig
  | .snapshot, current => (current, current)
  | .commit candidate, _ => ((), candidate)

inductive ReloadHostOp where
  | timeNow
  /-- The entries of a map, in the order of one `range` over it. -/
  | range (m : TomlTable)
  /-- `r.JWKSKidFunc()`. -/
  | jwksKid
  | publish (subject : NATSSubject) (ev : ConfigEvent)
  | incConfigReload (result : Bytes)

abbrev ReloadHostOp.Ans : ReloadHostOp → Type
  | .timeNow => Time
  | .range m => { es : TomlEntries // es.Perm m.entries }
  | .jwksKid => Bytes
  | .publish .. => Unit
  | .incConfigReload _ => Unit

abbrev ReloadHostSig : Sig := ⟨ReloadHostOp, ReloadHostOp.Ans⟩

abbrev ReloadSig : Sig := LiveSig.sum ReloadHostSig

def askLive (o : LiveOp) : Prog ReloadSig o.Ans := .call (S := ReloadSig) (.inl o)

def askReloadHost (o : ReloadHostOp) : Prog ReloadSig o.Ans := .call (S := ReloadSig) (.inr o)

@[simp] theorem askLive_eq (o : LiveOp) : askLive o = .ask (S := ReloadSig) (.inl o) .ret := rfl

@[simp] theorem askReloadHost_eq (o : ReloadHostOp) : askReloadHost o = .ask (S := ReloadSig) (.inr o) .ret := rfl

/-- Concurrent programs over one live configuration, whatever their
surroundings answer. -/
def ReloadHandler : Handler ReloadSig ReloadableConfig :=
  Handler.opened ReloadHostSig (Handler.graph LiveOp.step)

/-! ## The reloader -/

/-- `ConfigReloader`, without the live configuration. -/
structure ConfigReloader where
  workspaceID : Bytes
  /-- Whether a Prometheus surface is attached. -/
  metrics : Bool
  /-- Whether `JWKSKidFunc` is set. -/
  jwksKidFunc : Bool
  /-- `toml.Unmarshal` into an empty map: the map, or the part of it that was
  decoded before an error. -/
  tomlUnmarshal : Bytes → Except TomlTable TomlTable

/-- `keysOf`: the keys of a map, sorted. -/
def keysOf (m : TomlTable) : Prog ReloadSig (List Bytes) := do
  let es ← askReloadHost (.range m)
  return (es.val.map Prod.fst).insertionSort (· ≤ ·)

/-- The first key in the way of a reload: the reason to refuse it. -/
def rejectKeys : TomlEntries → Option Bytes
  | [] => none
  | (k, _) :: es =>
    if k ∈ nonReloadableKeys then some (lit "non_reloadable_key:" ++ k)
    else if k ∉ reloadableKeys then some (lit "unknown_key:" ++ k)
    else rejectKeys es

/-- The second loop of `ApplyReload`. -/
def applyKeys (candidate : ReloadableConfig) (es : TomlEntries) : Except Bytes ReloadableConfig :=
  es.foldlM (fun cfg e => applyKey cfg e.1 e.2) candidate

namespace ConfigReloader

def fail (r : ConfigReloader) (req : ReloadRequest) (attempted : List Bytes) (reason : Bytes) :
    Prog ReloadSig (Option GoError) := do
  let ts ← askReloadHost .timeNow
  askReloadHost (.publish (configSubject r.workspaceID "reload_failed" req.corrID) (.reloadFailed
    ⟨ts.utc.format, req.corrID, r.workspaceID, attempted, reason, true⟩))
  if r.metrics then askReloadHost (.incConfigReload (lit "failure"))
  return some (.text (lit "config reload failed: " ++ reason))

/-- What `ApplyReload` does once the new configuration is live. -/
def succeed (r : ConfigReloader) (req : ReloadRequest) (start : Time) (keys : List Bytes) :
    Prog ReloadSig (Option GoError) := do
  let kid ← if r.jwksKidFunc then askReloadHost .jwksKid else pure []
  let ts ← askReloadHost .timeNow
  let now ← askReloadHost .timeNow
  askReloadHost (.publish (configSubject r.workspaceID "reloaded" req.corrID) (.reloaded
    ⟨ts.utc.format, req.corrID, r.workspaceID, keys, now.sinceMilliseconds start, kid⟩))
  if r.metrics then askReloadHost (.incConfigReload (lit "success"))
  return none

def applyReload (r : ConfigReloader) (req : ReloadRequest) : Prog ReloadSig (Option GoError) := do
  let start ← askReloadHost .timeNow
  match r.tomlUnmarshal req.tomlPayload with
  | .error raw => r.fail req (← keysOf raw) (lit "malformed_toml")
  | .ok raw =>
    let keys ← keysOf raw
    let es ← askReloadHost (.range raw)
    match rejectKeys es.val with
    | some reason => r.fail req keys reason
    | none =>
      let current ← askLive .snapshot
      let es ← askReloadHost (.range raw)
      match applyKeys current es.val with
      | .error reason => r.fail req keys reason
      | .ok candidate =>
        askLive (.commit candidate)
        r.succeed req start keys

end ConfigReloader

end Hanko
