import Hanko.Impl.Http

/-!
# The brute-force detector (`internal/observability/brute_force.go`)

The detector keeps, for each client, the times of its recent failures, and
publishes an event when there are enough of them in the window. A call of
`recordFailureAt` holds the mutex to its end, so calls run one after the other
(`run`).
-/

namespace Hanko

open Bytes

def securitySubject : Bytes → String → Bytes → NATSSubject := brokerSubject "security"

structure BruteForceEvent where
  ts : Bytes
  corrID : Bytes
  workspaceID : Bytes
  clientID : Bytes
  attemptCount : Nat
  windowSeconds : Int
  firstSeen : Time
  lastSeen : Time
deriving DecidableEq

/-- `BruteForceDetector`. -/
structure BruteForceDetector where
  workspaceID : Bytes
  threshold : Int
  windowSec : Int
  windowSec_pos : 0 < windowSec
  /-- The times of the failures of a client in its window. -/
  failures : Bytes → List Time
  /-- The keys an event was published for. -/
  alerted : Bytes → Bool

namespace BruteForceDetector

/-! ## The settings -/

def defaultBruteForceThreshold : Int := 10

def defaultBruteForceWindowSec : Int := 60

/-- `strconv.Atoi`. -/
def atoi : Bytes → Option Int
  | 43 :: ds => do
    let n ← Json.decimal ds
    if (n : Int) < 2 ^ 63 then some n else none
  | s => Json.parseInt64 s

/-- A positive number from a variable of the environment, or the default. -/
def envPositive (v : Bytes) (default : Int) : Int :=
  if v = [] then default
  else match atoi v with
    | some n => if 0 < n then n else default
    | none => default

theorem envPositive_pos (v : Bytes) {default : Int} (h : 0 < default) : 0 < envPositive v default := by
  rw [envPositive]
  split
  · exact h
  · split
    · split <;> assumption
    · exact h

/-- A detector that has recorded nothing. -/
def init (workspaceID : Bytes) (threshold windowSec : Int) (h : 0 < windowSec) : BruteForceDetector :=
  ⟨workspaceID, threshold, windowSec, h, fun _ => [], fun _ => false⟩

/-- `NewBruteForceDetector`. -/
def newBruteForceDetector (getenv : String → Bytes) (workspaceID : Bytes) : BruteForceDetector :=
  init workspaceID (envPositive (getenv "SHIKKI_BRUTE_FORCE_THRESHOLD") defaultBruteForceThreshold)
    (envPositive (getenv "SHIKKI_BRUTE_FORCE_WINDOW_SEC") defaultBruteForceWindowSec)
    (envPositive_pos _ (by decide))

/-! ## A failure -/

/-- One turn of the loop that prunes. The slices `old` and `fresh` share an
array: the array and the length of `fresh` are updated at index `i`. -/
def pruneAt (cutoff : Time) (s : List Time × Nat) (i : Nat) : List Time × Nat :=
  match s.1[i]? with
  | some t => if t.before cutoff then s else (s.1.set s.2 t, s.2 + 1)
  | none => s

/-- The slice `fresh` after the loop over `old`. -/
def prune (cutoff : Time) (old : List Time) : List Time :=
  let s := (List.range old.length).foldl (pruneAt cutoff) (old, 0)
  s.1.take s.2

/-- `fmt.Sprintf("%s|%d", clientID, n)`. -/
def bucketKey (clientID : Bytes) (n : Int) : Bytes := clientID ++ 124 :: Time.appendInt n 0

/-- `recordFailureAt`, given the next correlation id: the event that is
published. -/
def recordFailureAt (d : BruteForceDetector) (clientID : Bytes) (time : Time) (corrID : Bytes) :
    BruteForceDetector × Option (NATSSubject × BruteForceEvent) :=
  let cutoff := time.add (wrap64 (-d.windowSec * second))
  let fresh := prune cutoff (d.failures clientID) ++ [time]
  let d := { d with failures := Function.update d.failures clientID fresh }
  if (fresh.length : Int) < d.threshold then (d, none)
  else
    let first := fresh.headD time
    let key := bucketKey clientID (first.sec.tdiv d.windowSec)
    if d.alerted key then (d, none)
    else
      let ev : BruteForceEvent :=
        { ts := time.utc.formatMillis, corrID, workspaceID := d.workspaceID, clientID,
          attemptCount := fresh.length, windowSeconds := d.windowSec, firstSeen := first, lastSeen := time }
      ({ d with alerted := Function.update d.alerted key true },
        some (securitySubject d.workspaceID "brute_force_detected" corrID, ev))

/-- A call of `recordFailureAt`. -/
structure FailureCall where
  clientID : Bytes
  time : Time
  corrID : Bytes
deriving DecidableEq

/-- The detector after a call, and the calls that have published an event. -/
def record (s : BruteForceDetector × List (FailureCall × NATSSubject × BruteForceEvent)) (c : FailureCall) :
    BruteForceDetector × List (FailureCall × NATSSubject × BruteForceEvent) :=
  let r := s.1.recordFailureAt c.clientID c.time c.corrID
  (r.1, s.2 ++ (r.2.map fun ev => (c, ev)).toList)

/-- Calls, one after the other. -/
def run (d : BruteForceDetector) (calls : List FailureCall) :
    BruteForceDetector × List (FailureCall × NATSSubject × BruteForceEvent) :=
  calls.foldl record (d, [])

end BruteForceDetector

end Hanko
