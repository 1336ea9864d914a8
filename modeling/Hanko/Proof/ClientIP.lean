import Hanko.Proof.BruteForce

/-!
# The address a failure is counted under

* `split_host_port_total_iff`: `splitHostPort` slices behind the bracket that
  ends an address, and so panics on one kind of string: brackets with a colon
  between them and nothing after them.
* `client_key_fixed_iff`: `clientIP` takes the first element of
  `X-Forwarded-For`. A proxy that appends the peer's address leaves the first
  element to the client, so two requests have one key only if the client has
  named one source in both (`clientIP_deliver`).
* `spoofed_failures_unnoticed`: the detector publishes nothing about a client
  that names another source each time.
-/

namespace Hanko

open Bytes

/-! ## Host and port -/

/-- Free of colons and brackets. -/
def Bare (s : Bytes) : Prop := 58 ∉ s ∧ 91 ∉ s ∧ 93 ∉ s

/-- The addresses with a host and a port: `host:port`, `[host]:port`. -/
inductive HostPort : Bytes → Bytes → Bytes → Prop where
  | plain {host port : Bytes} : Bare host → Bare port → HostPort (host ++ 58 :: port) host port
  | bracketed {host port : Bytes} : 91 ∉ host → 93 ∉ host → Bare port →
    HostPort (91 :: (host ++ 93 :: 58 :: port)) host port

/-- An address in brackets, with a colon between them and nothing behind. -/
def BracketsOnly (hostport : Bytes) : Prop := ∃ host, hostport = 91 :: (host ++ [93]) ∧ 93 ∉ host ∧ 58 ∈ host

/-- A string in brackets. -/
theorem splitHostPort_bracket {host : Bytes} (h : 93 ∉ host) (rest : Bytes)
    (hcolon : 58 ∈ host ++ 93 :: rest) :
    splitHostPort (91 :: (host ++ 93 :: rest)) =
      if rest = [] then none else some (.ok (host, rest.tail)) := by
  have hmem : (58 : UInt8) ∈ 91 :: (host ++ 93 :: rest) := List.mem_cons_of_mem _ hcolon
  have hlast : (91 :: (host ++ 93 :: rest)).findIdx (· = 93) = host.length + 1 := by
    have h' : (93 : UInt8) ∉ 91 :: host := by simp [h]
    exact Separators.findIdx_append h' rest
  have hclose : (93 : UInt8) ∈ 91 :: (host ++ 93 :: rest) := by simp
  have hhost : ((91 :: (host ++ 93 :: rest)).take (host.length + 1)).drop 1 = host := by simp
  rw [splitHostPort, if_neg (not_not_intro hmem), if_pos (by rfl), if_neg (not_not_intro hclose)]
  simp only [hlast, hhost, sliceFrom]
  cases rest with
  | nil => simp
  | cons b rest => simp [Nat.add_assoc]

/-- A string without an opening bracket is split at its last colon. -/
theorem splitHostPort_last {host port : Bytes} (hhead : (host ++ 58 :: port).head? ≠ some 91) (hport : 58 ∉ port) :
    splitHostPort (host ++ 58 :: port) = some (.ok (host, port)) := by
  have hlast : ((host ++ 58 :: port).reverse.takeWhile (· ≠ 58)).reverse = port := by
    have hport' : 58 ∉ port.reverse := mt List.mem_reverse.mp hport
    rw [List.reverse_append, List.reverse_cons, List.append_assoc, List.singleton_append,
      Separators.takeWhile_ne_append, Separators.takeWhile_ne hport', List.reverse_reverse]
  have hlength : (host ++ 58 :: port).length - port.length - 1 = host.length := by
    rw [List.length_append, List.length_cons]
    omega
  rw [splitHostPort, if_neg (by simp), if_neg hhead]
  simp only [hlast, hlength, List.take_left]

theorem splitHostPort_eq {hostport host port : Bytes} (h : HostPort hostport host port) :
    splitHostPort hostport = some (.ok (host, port)) := by
  cases h with
  | plain hhost hport =>
    refine splitHostPort_last ?_ hport.1
    cases host with
    | nil => simp
    | cons b host =>
      rw [List.cons_append, List.head?_cons]
      rintro h
      exact hhost.2.1 (Option.some.inj h ▸ List.mem_cons_self)
  | bracketed _ hhost hport => rw [splitHostPort_bracket hhost _ (by simp)]; rfl

/-- The one kind of string on which the slice is out of range. -/
theorem splitHostPort_eq_none {hostport : Bytes} : splitHostPort hostport = none ↔ BracketsOnly hostport := by
  constructor
  · intro h
    by_cases hcolon : (58 : UInt8) ∈ hostport
    · by_cases hopen : hostport.head? = some 91
      · by_cases hclose : (93 : UInt8) ∈ hostport
        · obtain ⟨t, rfl⟩ : ∃ t, hostport = 91 :: t := List.head?_eq_some_iff.mp hopen
          obtain ⟨host, rest, rfl, hhost⟩ :=
            List.eq_append_cons_of_mem (List.mem_of_ne_of_mem (by decide) hclose)
          have hcolon' : (58 : UInt8) ∈ host ++ 93 :: rest := List.mem_of_ne_of_mem (by decide) hcolon
          rw [splitHostPort_bracket hhost rest hcolon'] at h
          cases rest with
          | nil => exact ⟨host, rfl, hhost, by simpa using hcolon'⟩
          | cons b rest => cases h
        · rw [splitHostPort, if_neg (not_not_intro hcolon), if_pos hopen, if_pos hclose] at h
          cases h
      · rw [splitHostPort, if_neg (not_not_intro hcolon), if_neg hopen] at h
        cases h
    · rw [splitHostPort, if_pos hcolon] at h
      cases h
  · rintro ⟨host, rfl, hhost, hcolon⟩
    rw [splitHostPort_bracket hhost [] (List.mem_append_left _ hcolon)]
    rfl

theorem clientIP_of_forwardedFor {r : Request} {ip : Bytes} (h : trimSpace (r.forwardedFor.takeWhile (· ≠ 44)) = ip)
    (hip : ip ≠ []) : clientIP r = some ip := by
  have hxff : r.forwardedFor ≠ [] := by
    intro hnil
    rw [hnil] at h
    exact hip h.symm
  subst h
  exact if_pos ⟨hxff, hip⟩

theorem clientIP_eq_none {r : Request} :
    clientIP r = none ↔ trimSpace (r.forwardedFor.takeWhile (· ≠ 44)) = [] ∧ BracketsOnly r.remoteAddr := by
  by_cases hip : trimSpace (r.forwardedFor.takeWhile (· ≠ 44)) = []
  · rw [clientIP, if_neg fun h => h.2 hip, Option.map_eq_none_iff, splitHostPort_eq_none]
    exact (and_iff_right hip).symm
  · rw [clientIP_of_forwardedFor rfl hip]
    exact ⟨nofun, fun h => absurd h.1 hip⟩

/-- `splitHostPort`, and `clientIP` for a peer of this address, do not slice
out of range, and host and port are those that `net.SplitHostPort` returns, if
and only if the address is not of the one form that stops behind its bracket. -/
theorem split_host_port_total_iff (hostport : Bytes) :
    (splitHostPort hostport ≠ none ∧ (∀ r : Request, r.remoteAddr = hostport → clientIP r ≠ none) ∧
      ∀ host port, HostPort hostport host port → splitHostPort hostport = some (.ok (host, port))) ↔
    ¬ BracketsOnly hostport := by
  constructor
  · rintro ⟨htotal, -, -⟩ h
    exact htotal (splitHostPort_eq_none.mpr h)
  · intro h
    refine ⟨fun hnone => h (splitHostPort_eq_none.mp hnone), ?_, fun _ _ => splitHostPort_eq⟩
    rintro r rfl hnone
    exact h (clientIP_eq_none.mp hnone).2

def Sample.bracketed : Request := ⟨lit "POST", [], [], [], lit "[::1]", []⟩

/-- The loopback address in brackets, without a port. -/
theorem split_host_port_panics : splitHostPort (lit "[::1]") = none ∧ clientIP Sample.bracketed = none := by
  decide

/-! ## Behind a proxy -/

/-- A proxy in front of the broker. -/
structure TrustedProxy where
  /-- Its own address, as the broker sees it. -/
  remoteAddr : Bytes
  host : Bytes
  port : Bytes
  hostPort : HostPort remoteAddr host port
  /-- What it writes between the comma and the address it appends. -/
  blank : Bytes
  /-- An empty header counts as none. -/
  dropsEmpty : Bool

/-- The address of a client: one element of a list, without white space. -/
structure PeerAddr where
  text : Bytes
  ne_nil : text ≠ []
  comma_notMem : 44 ∉ text
  trimmed : trimSpace text = text

namespace TrustedProxy

variable (proxy : TrustedProxy) (peer : PeerAddr)

/-- The list that is passed on for a header, if there was one: the address of
the peer is its last element. -/
def forward : Option Bytes → Bytes
  | none => peer.text
  | some list => if list = [] ∧ proxy.dropsEmpty then peer.text else list ++ 44 :: (proxy.blank ++ peer.text)

/-- The request the broker gets when the peer has sent `r` with this
`X-Forwarded-For`. -/
def deliver (r : Request) (sent : Option Bytes) : Request :=
  { r with forwardedFor := proxy.forward peer sent, remoteAddr := proxy.remoteAddr }

/-- The source that a client names: the first element of its list. Where this
is blank it is the proxy, and without a list the client itself. -/
def named : Option Bytes → Bytes
  | none => peer.text
  | some list =>
    if list = [] ∧ proxy.dropsEmpty then peer.text
    else
      let first := trimSpace (list.takeWhile (· ≠ 44))
      if first = [] then proxy.host else first

theorem clientIP_of_blank {r : Request} {host port : Bytes} (h : trimSpace (r.forwardedFor.takeWhile (· ≠ 44)) = [])
    (haddr : HostPort r.remoteAddr host port) : clientIP r = some host := by
  rw [clientIP, if_neg fun hxff => hxff.2 h, splitHostPort_eq haddr]
  rfl

theorem clientIP_of_peer {r : Request} (h : r.forwardedFor = peer.text) : clientIP r = some peer.text := by
  refine clientIP_of_forwardedFor ?_ peer.ne_nil
  rw [h, Separators.takeWhile_ne peer.comma_notMem, peer.trimmed]

/-- The key of a request is the source its client has named. -/
theorem clientIP_deliver (r : Request) (sent : Option Bytes) :
    clientIP (proxy.deliver peer r sent) = some (proxy.named peer sent) := by
  cases sent with
  | none => exact clientIP_of_peer peer rfl
  | some list =>
    by_cases hdrop : list = [] ∧ proxy.dropsEmpty
    · rw [named, if_pos hdrop]
      exact clientIP_of_peer peer (if_pos hdrop)
    · have hxff : (proxy.deliver peer r (some list)).forwardedFor = list ++ 44 :: (proxy.blank ++ peer.text) :=
        if_neg hdrop
      rw [named, if_neg hdrop]
      dsimp only
      split
      next hblank =>
        refine clientIP_of_blank ?_ proxy.hostPort
        rw [hxff, Separators.takeWhile_ne_append, hblank]
      next hip =>
        refine clientIP_of_forwardedFor ?_ hip
        rw [hxff, Separators.takeWhile_ne_append]

/-- Of two requests of one client, with whatever it has sent as
`X-Forwarded-For`, the keys are equal if and only if it has named one source in
both. -/
theorem client_key_fixed_iff (r₁ r₂ : Request) (sent₁ sent₂ : Option Bytes) :
    clientIP (proxy.deliver peer r₁ sent₁) = clientIP (proxy.deliver peer r₂ sent₂) ↔
      proxy.named peer sent₁ = proxy.named peer sent₂ := by
  rw [clientIP_deliver, clientIP_deliver, Option.some.injEq]

def Sample.caddy : TrustedProxy where
  remoteAddr := lit "10.0.0.1" ++ 58 :: lit "443"
  host := lit "10.0.0.1"
  port := lit "443"
  hostPort := .plain (by unfold Bare; decide) (by unfold Bare; decide)
  blank := lit " "
  dropsEmpty := true

def Sample.client : PeerAddr := ⟨lit "9.9.9.9", by decide, by decide, by decide⟩

/-- A client behind the proxy gets another key by sending another header. -/
theorem client_key_chosen :
    clientIP (Sample.caddy.deliver Sample.client Sample.bracketed (some (lit "6.6.6.6"))) = some (lit "6.6.6.6") ∧
      clientIP (Sample.caddy.deliver Sample.client Sample.bracketed (some (lit "7.7.7.7"))) = some (lit "7.7.7.7") ∧
      lit "6.6.6.6" ≠ lit "7.7.7.7" := by
  decide

/-! ## What the detector sees -/

/-- A request that fails. -/
structure Attempt where
  request : Request
  sent : Option Bytes
  time : Time
  corrID : Bytes

open BruteForceDetector History

/-- The failure that is recorded for it. -/
def failure (a : Attempt) : FailureCall :=
  ⟨(clientIP (proxy.deliver peer a.request a.sent)).getD [], a.time, a.corrID⟩

theorem clientID_failure (a : Attempt) : (proxy.failure peer a).clientID = proxy.named peer a.sent := by
  rw [failure, clientIP_deliver]
  rfl

/-- Failures of as many sources never breach a threshold above one. -/
theorem run_nodup {d : BruteForceDetector} (hd : d.New) (hthreshold : 1 < d.threshold) {calls : List FailureCall}
    (horder : InOrder calls) (hnodup : (calls.map fun x => x.clientID).Nodup) : (d.run calls).2 = [] := by
  rw [← List.map_eq_nil_iff, run_events hd horder, List.eq_nil_iff_forall_not_mem]
  intro x hx
  obtain ⟨before, after, rfl, k, hk, -⟩ := mem_chosen.mp hx
  have hbefore : timesOf x.clientID before = [] := by
    rw [List.eq_nil_iff_forall_not_mem]
    intro t ht
    obtain ⟨y, hy, hclient, -⟩ := mem_timesOf.mp ht
    rw [List.map_append, List.map_cons, List.nodup_append] at hnodup
    exact hnodup.2.2 _ (List.mem_map_of_mem hy) _ List.mem_cons_self hclient
  have hbreach := (keyAt_eq_some.mp hk).1
  rw [Breaches, window, hbefore] at hbreach
  simp at hbreach
  omega

/-- A client that names another source each time can fail as often as it likes:
no event is published. -/
theorem spoofed_failures_unnoticed {d : BruteForceDetector} (hd : d.New) (hthreshold : 1 < d.threshold)
    {attempts : List Attempt} (horder : attempts.Pairwise fun a b => a.time.nanos ≤ b.time.nanos)
    (hnamed : (attempts.map fun a => proxy.named peer a.sent).Nodup) :
    (d.run (attempts.map (proxy.failure peer))).2 = [] := by
  refine run_nodup hd hthreshold (List.pairwise_map.mpr horder) ?_
  simpa only [List.map_map, Function.comp_def, clientID_failure] using hnamed

end TrustedProxy

end Hanko
