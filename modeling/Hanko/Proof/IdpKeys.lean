import Hanko.Impl.IdpKeys

/-!
# Keys of the identity providers

* `rsa_exponent_exact_iff`: the exponent of a key is the number that the bytes
  denote up to `2 ^ 63`; from there on it wraps around, and other documents
  give the same key (`exponent_toNat`).
* `idp_cache_fresh`: over any calls from an empty cache, the entry of a URL is
  its last document (`cached_eq_lastFetch`), so that what a call asks and
  answers is said by what was fetched before it. One call is one of four steps
  (`Step`).
-/

namespace Hanko

open Bytes Interact

/-! ## Exponents -/

/-- The number that bytes denote, the highest first. -/
def bigEndian (bs : Bytes) : Nat := Nat.ofDigits 256 (bs.reverse.map UInt8.toNat)

theorem bigEndian_concat (bs : Bytes) (b : UInt8) : bigEndian (bs ++ [b]) = 256 * bigEndian bs + b.toNat := by
  rw [bigEndian, List.reverse_append, List.reverse_singleton, List.singleton_append, List.map_cons, Nat.ofDigits_cons,
    Nat.add_comm]
  rfl

theorem setBytes_eq (bs : Bytes) : setBytes bs = bigEndian bs := by
  induction bs using List.reverseRecOn with
  | nil => rfl
  | append_singleton bs b ih => rw [bigEndian_concat, ← ih, setBytes, List.foldl_append]; rfl

/-- One turn of the loop: the bits of the byte are free after the shift. -/
theorem toNat_shift_or (e : BitVec 64) (b : UInt8) :
    ((e <<< 8) ||| b.toBitVec.setWidth 64).toNat = (256 * e.toNat + b.toNat) % 2 ^ 64 := by
  have hb := b.toNat_lt
  have hdisjoint : (e <<< 8) &&& b.toBitVec.setWidth 64 = 0 := by
    ext i hi
    by_cases h : i < 8
    · simp [h]
    · simp [BitVec.getLsbD_of_ge b.toBitVec i (by omega)]
  rw [← BitVec.add_eq_or_of_and_eq_zero _ _ hdisjoint, BitVec.toNat_add, BitVec.toNat_shiftLeft, Nat.shiftLeft_eq,
    BitVec.toNat_setWidth, UInt8.toNat_toBitVec]
  omega

/-- The exponent is read modulo `2 ^ 64`. -/
theorem exponent_toNat (bs : Bytes) : (exponent bs).toNat = bigEndian bs % 2 ^ 64 := by
  induction bs using List.reverseRecOn with
  | nil => rfl
  | append_singleton bs b ih =>
    rw [exponent, List.foldl_append, List.foldl_cons, List.foldl_nil, toNat_shift_or, bigEndian_concat, ← exponent, ih]
    omega

theorem exponent_toInt_eq_iff (bs : Bytes) : (exponent bs).toInt = bigEndian bs ↔ bigEndian bs < 2 ^ 63 := by
  have h := exponent_toNat bs
  rw [BitVec.toInt_eq_toNat_cond]
  constructor
  · intro heq
    split at heq <;> omega
  · intro hlt
    rw [if_pos (by omega)]
    omega

/-- The key of a document whose modulus and exponent decode. -/
theorem rsaFromJWK_eq {k : IdpJWKSKey} {nBytes eBytes : Bytes} (hn : rawURLDecode k.n = .ok nBytes)
    (he : rawURLDecode k.e = .ok eBytes) : rsaFromJWK k = .ok ⟨bigEndian nBytes, (exponent eBytes).toInt⟩ := by
  rw [rsaFromJWK, hn, ← setBytes_eq]
  simp only [he]

theorem exponent_eq_iff {bs cs : Bytes} : exponent bs = exponent cs ↔
    bigEndian bs % 2 ^ 64 = bigEndian cs % 2 ^ 64 := by
  rw [← exponent_toNat, ← exponent_toNat, BitVec.toNat_inj]

/-- For keys whose modulus and exponent are base64: the modulus is the number
its bytes denote, and so is the exponent if and only if this is less than
`2 ^ 63`. Two keys are one if and only if their moduli are equal and their
exponents agree modulo `2 ^ 64`. -/
theorem rsa_exponent_exact_iff (k k' : IdpJWKSKey) {nBytes eBytes nBytes' eBytes' : Bytes}
    (hn : rawURLDecode k.n = .ok nBytes) (he : rawURLDecode k.e = .ok eBytes) (hn' : rawURLDecode k'.n = .ok nBytes')
    (he' : rawURLDecode k'.e = .ok eBytes') :
    (∃ key, rsaFromJWK k = .ok key ∧ key.n = bigEndian nBytes ∧
      (key.e = bigEndian eBytes ↔ bigEndian eBytes < 2 ^ 63)) ∧
    (rsaFromJWK k = rsaFromJWK k' ↔
      bigEndian nBytes = bigEndian nBytes' ∧ bigEndian eBytes % 2 ^ 64 = bigEndian eBytes' % 2 ^ 64) := by
  constructor
  · exact ⟨_, rsaFromJWK_eq hn he, rfl, exponent_toInt_eq_iff eBytes⟩
  · rw [rsaFromJWK_eq hn he, rsaFromJWK_eq hn' he', Except.ok.injEq, RSAPublicKey.mk.injEq, BitVec.toInt_inj,
      exponent_eq_iff]

/-- A key with this exponent. -/
def Sample.jwk (eBytes : Bytes) : IdpJWKSKey :=
  ⟨lit "RSA", lit "k1", lit "RS256", lit "sig", rawURLEncode [193, 7], rawURLEncode eBytes⟩

theorem rsa_exponent_exact_sample :
    (∃ key, rsaFromJWK (Sample.jwk [1, 0, 1]) = .ok key ∧ key.e = 65537) ∧
      rsaFromJWK (Sample.jwk [1, 0, 1]) ≠ rsaFromJWK (Sample.jwk [3]) := by
  have hdecode (bs : Bytes) : rawURLDecode (rawURLEncode bs) = .ok bs := rawURLDecode_rawURLEncode bs
  obtain ⟨⟨key, hkey, -, he⟩, hdiffer⟩ :=
    rsa_exponent_exact_iff (Sample.jwk [1, 0, 1]) (Sample.jwk [3]) (hdecode _) (hdecode _) (hdecode _) (hdecode _)
  exact ⟨⟨key, hkey, (he.mpr (by decide)).trans (by decide)⟩, fun heq => absurd (hdiffer.mp heq).2 (by decide)⟩

/-- The exponents 65537 and `2 ^ 64 + 65537` give one key. -/
theorem rsa_exponent_wraps :
    bigEndian [1, 0, 0, 0, 0, 0, 1, 0, 1] = 2 ^ 64 + 65537 ∧ bigEndian [1, 0, 1] = 65537 ∧
      rsaFromJWK (Sample.jwk [1, 0, 0, 0, 0, 0, 1, 0, 1]) = .ok ⟨49415, 65537⟩ ∧
      rsaFromJWK (Sample.jwk [1, 0, 1]) = .ok ⟨49415, 65537⟩ := by
  refine ⟨by decide, by decide, ?_, ?_⟩ <;>
    rw [rsaFromJWK_eq (rawURLDecode_rawURLEncode _) (rawURLDecode_rawURLEncode _)] <;> decide

/-! ## The clock -/

/-- Readings are too close for the difference to overflow. -/
theorem Reading.sub_eq (t u : Reading) : t.sub u = t.ns - u.ns := by
  have ht := t.nonneg
  have ht' := t.lt
  have hu := u.nonneg
  have hu' := u.lt
  have hd : wrap64 (t.ns - u.ns) = t.ns - u.ns := by
    rw [wrap64, Int.bmod_eq_of_le (by omega) (by omega)]
  rw [Reading.sub, hd, if_neg (by omega), if_neg (by omega)]

/-! ## One call -/

namespace IdpJWKSCache

variable {c c' : IdpJWKSCache} {url kid : Bytes}

/-- The cache with a document fetched at `now`. -/
def store (c : IdpJWKSCache) (url : Bytes) (doc : IdpJWKS) (now : Reading) : IdpJWKSCache :=
  { c with cached := Function.update c.cached url (some ⟨doc, now⟩) }

/-- There is no entry of a URL, or it is too old. -/
def Stale (c : IdpJWKSCache) (url : Bytes) (now : Reading) : Prop :=
  ∀ e, c.cached url = some e → c.ttl < now.ns - e.fetched.ns

/-- What a call can do: its questions, its result and the cache it leaves. -/
inductive Step (c : IdpJWKSCache) (url kid : Bytes) :
    List (Event IdpSig) → Option (Except GoError RSAPublicKey) → IdpJWKSCache → Prop where
  | hit {now : Reading} {e : IdpJWKSEntry} : ¬ c.Stale url now → c.cached url = some e →
    Step c url kid [⟨.now, now⟩] (some (c.searchKeys url kid e.doc.list)) c
  | refreshed {now : Reading} {a : Except GoError HTTPResponse} {doc : IdpJWKS} : c.Stale url now →
    fetchResult a = .ok doc →
    Step c url kid [⟨.now, now⟩, ⟨.get url, a⟩] (some (c.searchKeys url kid doc.list)) (c.store url doc now)
  | outage {now : Reading} {a : Except GoError HTTPResponse} {err : GoError} {e : IdpJWKSEntry} :
    c.Stale url now → fetchResult a = .error err → c.cached url = some e →
    Step c url kid [⟨.now, now⟩, ⟨.get url, a⟩] (some (c.searchKeys url kid e.doc.list)) c
  | missed {now : Reading} {a : Except GoError HTTPResponse} {err : GoError} : c.Stale url now →
    fetchResult a = .error err → c.cached url = none →
    Step c url kid [⟨.now, now⟩, ⟨.get url, a⟩]
      (some (.error (.text (lit "oidc: fetch " ++ (url ++ (lit ": " ++ err.error)))))) c

theorem stale_iff {now : Reading} :
    ((c.cached url).all fun e => c.ttl < now.sub e.fetched) = true ↔ c.Stale url now := by
  simp only [Option.all_eq_true, decide_eq_true_eq, Reading.sub_eq, Stale]

theorem searchKeys_store (c : IdpJWKSCache) (url kid : Bytes) (doc : IdpJWKS) (now : Reading) (ks : List IdpJWKSKey) :
    (c.store url doc now).searchKeys url kid ks = c.searchKeys url kid ks := by
  induction ks with
  | nil => rfl
  | cons k ks ih => rw [searchKeys, searchKeys, ih]; rfl

/-- Every call is one of these steps: it never dereferences a nil entry. -/
theorem keyByKid_step {es : List (Event IdpSig)} {res : Option (Except GoError RSAPublicKey)}
    (h : (c.keyByKid url kid).Ends es (res, c')) : c.Step url kid es res c' := by
  simp only [keyByKid, askIdp_eq, Prog.bind_eq, Prog.ask_bind, Prog.ret_bind, ends_ask] at h
  obtain ⟨now, es, rfl, h⟩ := h
  rw [refresh] at h
  by_cases hstale : c.Stale url now
  · simp only [stale_iff.mpr hstale, ↓reduceIte, fetch, askIdp_eq, Prog.bind_eq, Prog.ask_bind, Prog.ret_bind,
      Prog.pure_eq, ends_ask] at h
    obtain ⟨a, es, rfl, h⟩ := h
    cases hfetch : fetchResult a with
    | error err =>
      cases he : c.cached url with
      | none =>
        simp only [hfetch, he, Prog.ret_bind, ends_ret, Prod.mk.injEq] at h
        obtain ⟨rfl, rfl, rfl⟩ := h
        exact .missed hstale hfetch he
      | some e =>
        simp only [hfetch, he, Prog.ret_bind, ends_ret, Prod.mk.injEq] at h
        obtain ⟨rfl, rfl, rfl⟩ := h
        exact .outage hstale hfetch he
    | ok doc =>
      simp only [hfetch, Function.update_self, Prog.ret_bind, ends_ret, Prod.mk.injEq] at h
      obtain ⟨rfl, rfl, rfl⟩ := h
      exact searchKeys_store c url kid doc now doc.list ▸ .refreshed hstale hfetch
  · simp only [stale_iff.not.mpr hstale, Bool.false_eq_true, ↓reduceIte, Prog.pure_eq, Prog.ret_bind] at h
    cases he : c.cached url with
    | none => exact absurd (fun e h' => by rw [he] at h'; cases h') hstale
    | some e =>
      simp only [he, ends_ret, Prod.mk.injEq] at h
      obtain ⟨rfl, rfl, rfl⟩ := h
      exact .hit hstale he

/-- Each of the steps can be taken. -/
theorem Step.ends {es : List (Event IdpSig)} {res : Option (Except GoError RSAPublicKey)}
    (h : c.Step url kid es res c') : (c.keyByKid url kid).Ends es (res, c') := by
  have hget {now : Reading} (hstale : c.Stale url now) := stale_iff.mpr hstale
  simp only [keyByKid, refresh, fetch, askIdp_eq, Prog.bind_eq, Prog.ask_bind, Prog.ret_bind, Prog.pure_eq, ends_ask]
  cases h with
  | hit hfresh he =>
    refine ⟨_, _, rfl, ?_⟩
    rw [if_neg (stale_iff.not.mpr hfresh), he]
    exact ends_ret.mpr ⟨rfl, rfl⟩
  | refreshed hstale hfetch =>
    refine ⟨_, _, rfl, ?_⟩
    rw [if_pos (hget hstale)]
    refine ends_ask.mpr ⟨_, _, rfl, ?_⟩
    simp only [hfetch, Function.update_self, Prog.ret_bind, ends_ret, true_and, Prod.mk.injEq, Option.some.injEq]
    exact ⟨(searchKeys_store c url kid _ _ _).symm, rfl⟩
  | outage hstale hfetch he | missed hstale hfetch he =>
    refine ⟨_, _, rfl, ?_⟩
    rw [if_pos (hget hstale)]
    refine ends_ask.mpr ⟨_, _, rfl, ?_⟩
    simp only [hfetch, he]
    exact ends_ret.mpr ⟨rfl, rfl⟩

/-- A key that is found is made of the first entry with its id. -/
theorem searchKeys_eq_ok {ks : List IdpJWKSKey} {key : RSAPublicKey} (h : c.searchKeys url kid ks = .ok key) :
    ∃ k, (ks.find? fun k => k.kid = kid) = some k ∧ k.kty = lit "RSA" ∧ rsaFromJWK k = .ok key := by
  induction ks with
  | nil => cases h
  | cons k ks ih =>
    rw [searchKeys] at h
    rw [List.find?_cons]
    by_cases hkid : k.kid = kid
    · rw [if_neg (not_not_intro hkid)] at h
      split at h
      · cases h
      · next hkty => exact ⟨k, by simp [hkid], not_not.mp hkty, h⟩
    · rw [if_pos hkid] at h
      simpa [hkid] using ih h

/-! ## Histories -/

/-- A call of `keyByKid`. -/
structure Call where
  url : Bytes
  kid : Bytes
  events : List (Event IdpSig)
  result : Option (Except GoError RSAPublicKey)

/-- The call asks for the document of a URL. -/
def Call.Attempts (x : Call) (url : Bytes) : Prop := ∃ a, (⟨.get url, a⟩ : Event IdpSig) ∈ x.events

/-- The document that a call has fetched, and when. -/
def Call.fetched (x : Call) : Option IdpJWKSEntry :=
  match x.events with
  | ⟨.now, now⟩ :: ⟨.get _, a⟩ :: _ => (fetchResult a).toOption.map fun doc => ⟨doc, now⟩
  | _ => none

/-- `Calls c₀ xs c`: the calls `xs` take the cache from `c₀` to `c`, one after
the other. -/
inductive Calls (c₀ : IdpJWKSCache) : List Call → IdpJWKSCache → Prop where
  | nil : Calls c₀ [] c₀
  | snoc {xs : List Call} {x : Call} {c c' : IdpJWKSCache} : Calls c₀ xs c →
    (c.keyByKid x.url x.kid).Ends x.events (x.result, c') → Calls c₀ (xs ++ [x]) c'

/-- The last document of a URL that was fetched. -/
def lastFetch (url : Bytes) (xs : List Call) : Option IdpJWKSEntry :=
  ((xs.filter fun x => x.url = url).filterMap Call.fetched).getLast?

theorem lastFetch_concat (url : Bytes) (xs : List Call) (x : Call) :
    lastFetch url (xs ++ [x]) = if x.url = url then x.fetched.or (lastFetch url xs) else lastFetch url xs := by
  rw [lastFetch, List.filter_append, List.filterMap_append, List.filter_singleton]
  split
  next hurl => cases hfetched : x.fetched <;> simp [hurl, hfetched, lastFetch]
  next hurl => simp [hurl, lastFetch]

/-- A call sets the entry of its URL to what it has fetched, if it has, and
leaves the others. -/
theorem Step.cached {x : Call} (h : c.Step x.url x.kid x.events x.result c') (url : Bytes) :
    c'.cached url = if x.url = url then x.fetched.or (c.cached url) else c.cached url := by
  obtain ⟨url', kid, es, res⟩ := x
  dsimp only at h
  cases h with
  | hit => simp [Call.fetched]
  | refreshed hstale hfetch =>
    simp [store, Function.update_apply, Call.fetched, hfetch, Except.toOption, eq_comm]
  | outage hstale hfetch => simp [Call.fetched, hfetch, Except.toOption]
  | missed hstale hfetch => simp [Call.fetched, hfetch, Except.toOption]

/-- The entry of a URL is the last document that was fetched. -/
theorem cached_eq_lastFetch {ttl : Duration} {isPrint : Char → Bool} {xs : List Call}
    (h : Calls (newIDPJWKSCache ttl isPrint) xs c) (url : Bytes) : c.cached url = lastFetch url xs := by
  induction h generalizing url with
  | nil => rfl
  | snoc _ hends ih => rw [lastFetch_concat, (keyByKid_step hends).cached, ih]

theorem Step.ttl {es : List (Event IdpSig)} {res : Option (Except GoError RSAPublicKey)}
    (h : c.Step url kid es res c') :
    c'.ttl = c.ttl := by
  cases h <;> rfl

theorem Calls.ttl {c₀ : IdpJWKSCache} {xs : List Call} (h : Calls c₀ xs c) : c.ttl = c₀.ttl := by
  induction h with
  | nil => rfl
  | snoc _ hends ih => rw [(keyByKid_step hends).ttl, ih]

/-- What a call asks. -/
theorem Step.attempts {x : Call} (h : c.Step x.url x.kid x.events x.result c') :
    ∃ now, x.events.head? = some ⟨.now, now⟩ ∧ ∀ url, x.Attempts url ↔ url = x.url ∧ c.Stale x.url now := by
  obtain ⟨url', kid, es, res⟩ := x
  dsimp only at h
  cases h with
  | hit hfresh =>
    refine ⟨_, rfl, fun url => ?_⟩
    simp [Call.Attempts, hfresh]
  | refreshed hstale | outage hstale | missed hstale =>
    refine ⟨_, rfl, fun url => ?_⟩
    simp [Call.Attempts, hstale]

/-- What a call answers with: the entry of its URL, as the call leaves it. -/
theorem Step.searched {x : Call} (h : c.Step x.url x.kid x.events x.result c') :
    (∃ e, c'.cached x.url = some e ∧ x.result = some (c.searchKeys x.url x.kid e.doc.list)) ∨
      ∃ err, x.result = some (.error err) := by
  obtain ⟨url', kid, es, res⟩ := x
  dsimp only at h ⊢
  cases h with
  | hit _ he => exact .inl ⟨_, he, rfl⟩
  | refreshed => exact .inl ⟨_, Function.update_self .., rfl⟩
  | outage _ _ he => exact .inl ⟨_, he, rfl⟩
  | missed => exact .inr ⟨_, rfl⟩

/-- A call that has fetched a document has asked for it, and has marked it with
its own time. -/
theorem Step.of_fetched {x : Call} (h : c.Step x.url x.kid x.events x.result c') {e : IdpJWKSEntry}
    (he : x.fetched = some e) : x.Attempts x.url ∧ x.events.head? = some ⟨.now, e.fetched⟩ := by
  obtain ⟨url', kid, es, res⟩ := x
  dsimp only at h
  cases h with
  | hit => cases he
  | refreshed _ hfetch =>
    simp only [Call.fetched, hfetch, Except.toOption, Option.map_some, Option.some.injEq] at he
    subst he
    exact ⟨⟨_, List.mem_cons_of_mem _ List.mem_cons_self⟩, rfl⟩
  | outage _ hfetch | missed _ hfetch => simp [Call.fetched, hfetch, Except.toOption] at he

/-- A call that leaves an entry older than `ttl` has tried for another. -/
theorem Step.attempts_of_old {x : Call} (h : c.Step x.url x.kid x.events x.result c') {now : Reading}
    (hnow : x.events.head? = some ⟨.now, now⟩) {e : IdpJWKSEntry} (he : c'.cached x.url = some e)
    (hold : c.ttl < now.ns - e.fetched.ns) : x.Attempts x.url ∧ (x.fetched = none ∨ c.ttl < 0) := by
  rw [h.cached, if_pos rfl] at he
  cases hfetched : x.fetched with
  | some f =>
    -- a document is not older than the call that has fetched it
    rw [hfetched, Option.some_or, Option.some.injEq] at he
    subst he
    obtain ⟨hattempt, hnow'⟩ := h.of_fetched hfetched
    rw [hnow] at hnow'
    cases hnow'
    rw [sub_self] at hold
    exact ⟨hattempt, .inr hold⟩
  | none =>
    rw [hfetched, Option.none_or] at he
    obtain ⟨now', hnow', hattempts⟩ := h.attempts
    rw [hnow] at hnow'
    cases hnow'
    refine ⟨(hattempts x.url).mpr ⟨rfl, fun e' he' => ?_⟩, .inl rfl⟩
    rw [he, Option.some.injEq] at he'
    rwa [← he']

/-- After any calls from an empty cache, a call fetches the document of its URL,
and no other, if and only if none was fetched yet or the last one is older than
`ttl`. A key it returns is made of the first entry with its id in the last
document that was fetched, by this call if it has fetched one; a document that
is older is used only if the call has tried for another and failed (or is new,
and `ttl` is negative). A fetch that fails leaves the cache, a call leaves the
entries of other URLs, and there is always an entry to search. -/
theorem idp_cache_fresh (ttl : Duration) (isPrint : Char → Bool) (xs : List Call) (c : IdpJWKSCache)
    (h : Calls (newIDPJWKSCache ttl isPrint) xs c) (x : Call) (c' : IdpJWKSCache)
    (hx : (c.keyByKid x.url x.kid).Ends x.events (x.result, c')) :
    ∃ now, x.events.head? = some ⟨.now, now⟩ ∧
      (∀ url, x.Attempts url ↔
        url = x.url ∧ ∀ e, lastFetch x.url xs = some e → ttl < now.ns - e.fetched.ns) ∧
      (∀ key, x.result = some (.ok key) →
        ∃ e k, lastFetch x.url (xs ++ [x]) = some e ∧ (e.doc.list.find? fun k => k.kid = x.kid) = some k ∧
          k.kty = lit "RSA" ∧ rsaFromJWK k = .ok key ∧
          (ttl < now.ns - e.fetched.ns → x.Attempts x.url ∧ (x.fetched = none ∨ ttl < 0))) ∧
      (x.Attempts x.url → x.fetched = none → c'.cached = c.cached) ∧
      (∀ url, url ≠ x.url → c'.cached url = c.cached url) ∧
      x.result ≠ none := by
  have hstep := keyByKid_step hx
  have hcached := hstep.cached
  have hlast := cached_eq_lastFetch h
  have httl : c.ttl = ttl := h.ttl
  obtain ⟨now, hnow, hattempts⟩ := hstep.attempts
  have hstale : c.Stale x.url now ↔ ∀ e, lastFetch x.url xs = some e → ttl < now.ns - e.fetched.ns := by
    rw [Stale, hlast, httl]
  refine ⟨now, hnow, fun url => by rw [hattempts, hstale], ?_, ?_, ?_, ?_⟩
  · intro key hkey
    rcases hstep.searched with ⟨e, he, hresult⟩ | ⟨err, hresult⟩
    · rw [hresult, Option.some.injEq] at hkey
      obtain ⟨k, hfind, hkty, hrsa⟩ := searchKeys_eq_ok hkey
      refine ⟨e, k, ?_, hfind, hkty, hrsa, fun hold => ?_⟩
      · rw [← cached_eq_lastFetch (h.snoc hx), he]
      · rw [← httl] at hold ⊢
        exact hstep.attempts_of_old hnow he hold
    · rw [hresult] at hkey
      cases hkey
  · intro _ hnone
    funext url
    rw [hcached, hnone, Option.none_or, ite_self]
  · intro url hne
    rw [hcached, if_neg (Ne.symm hne)]
  · rcases hstep.searched with ⟨e, -, hresult⟩ | ⟨err, hresult⟩ <;> simp [hresult]

/-- A document with one key. -/
def Sample.docTree : Json :=
  .obj [(lit "keys", .arr [.obj [(lit "kty", .str (lit "RSA")), (lit "kid", .str (lit "k1")),
    (lit "n", .str (lit "wQc")), (lit "e", .str (lit "AQAB"))]])]

def Sample.doc : IdpJWKS := ⟨some ⟨[⟨lit "RSA", lit "k1", [], [], lit "wQc", lit "AQAB"⟩], []⟩⟩

def Sample.answer : Except GoError HTTPResponse :=
  .ok ⟨200, Json.print Json.compact 0 (Sample.docTree.mapStr Json.quote), none⟩

theorem fetchResult_sample : fetchResult Sample.answer = .ok Sample.doc := by
  have hlit := Json.isLit_quote
  have hwf : Json.WF (Sample.docTree.mapStr Json.quote) :=
    ⟨hlit _, ⟨⟨hlit _, hlit _, hlit _, hlit _, hlit _, hlit _, hlit _, hlit _, trivial⟩, trivial⟩, trivial⟩
  have hparse := Json.parse_print_append Json.compact_ok hwf (by decide) (w := []) (by simp)
  rw [List.append_nil] at hparse
  have hread : HTTPResponse.readAll ⟨200, Json.print Json.compact 0 (Sample.docTree.mapStr Json.quote), none⟩ 1048576 =
      .ok (Json.print Json.compact 0 (Sample.docTree.mapStr Json.quote)) :=
    congrArg Except.ok (List.take_of_length_le (by decide))
  have hdecode : decodeIdpJWKS (Json.print Json.compact 0 (Sample.docTree.mapStr Json.quote)) = some Sample.doc := by
    rw [decodeIdpJWKS, hparse]
    rfl
  rw [Sample.answer, fetchResult, if_neg (by decide), hread]
  simp only [hdecode]

def Sample.now : Reading := ⟨7, by decide, by decide⟩

def Sample.soon : Reading := ⟨8, by decide, by decide⟩

/-- More than an hour later. -/
def Sample.later : Reading := ⟨3601000000007, by decide, by decide⟩

/-- More than two hours later. -/
def Sample.latest : Reading := ⟨7202000000007, by decide, by decide⟩

def Sample.jwksURL : Bytes := lit "https://idp/jwks"

/-- A call for the key of the document, with what the provider answered. -/
def Sample.call (now : Reading) (answers : List (Except GoError HTTPResponse)) : Call :=
  ⟨Sample.jwksURL, lit "k1", ⟨.now, now⟩ :: answers.map (⟨.get Sample.jwksURL, ·⟩), some (.ok ⟨49415, 65537⟩)⟩

/-- A document is kept for an hour. -/
def Sample.cache : IdpJWKSCache := newIDPJWKSCache (3600 * second) fun _ => true

/-- The calls before the provider is down: the document is fetched, found in the cache, and
fetched again when it has expired. -/
def Sample.calls : List Call :=
  [Sample.call Sample.now [Sample.answer], Sample.call Sample.soon [], Sample.call Sample.later [Sample.answer]]

/-- The provider is down, and the document has expired. -/
def Sample.outage : Call := Sample.call Sample.latest [.error (.text (lit "timeout"))]

theorem Sample.calls_outage : ∃ c₁ c₂ c', Calls Sample.cache [Sample.call Sample.now [Sample.answer]] c₁ ∧
    c₁.cached Sample.jwksURL = some ⟨Sample.doc, Sample.now⟩ ∧
    (c₁.keyByKid Sample.jwksURL (lit "k1")).Ends (Sample.call Sample.soon []).events (some (.ok ⟨49415, 65537⟩), c₁) ∧
    Calls Sample.cache Sample.calls c₂ ∧ c₂.cached Sample.jwksURL = some ⟨Sample.doc, Sample.later⟩ ∧
    (c₂.keyByKid Sample.jwksURL (lit "k1")).Ends Sample.outage.events (some (.ok ⟨49415, 65537⟩), c') := by
  let c₁ := Sample.cache.store Sample.jwksURL Sample.doc Sample.now
  let c₂ := c₁.store Sample.jwksURL Sample.doc Sample.later
  have hold : c₁.cached Sample.jwksURL = some ⟨Sample.doc, Sample.now⟩ := by simp [c₁, store]
  have hnew : c₂.cached Sample.jwksURL = some ⟨Sample.doc, Sample.later⟩ := by simp [c₂, store]
  have hage {c : IdpJWKSCache} {then_ now : Reading} (h : c.cached Sample.jwksURL = some ⟨Sample.doc, then_⟩) :
      c.Stale Sample.jwksURL now ↔ c.ttl < now.ns - then_.ns := by
    simp [Stale, h]
  have hfirst : Calls Sample.cache [Sample.call Sample.now [Sample.answer]] c₁ :=
    .snoc .nil (Step.ends (.refreshed (by simp [Stale, Sample.cache, newIDPJWKSCache]) fetchResult_sample))
  have hhit : (c₁.keyByKid Sample.jwksURL (lit "k1")).Ends (Sample.call Sample.soon []).events
      (some (.ok ⟨49415, 65537⟩), c₁) :=
    Step.ends (.hit ((hage hold).not.mpr (by decide)) hold)
  have hrefresh : Calls Sample.cache Sample.calls c₂ :=
    .snoc (.snoc hfirst hhit) (Step.ends (.refreshed ((hage hold).mpr (by decide)) fetchResult_sample))
  exact ⟨c₁, c₂, c₂, hfirst, hold, hhit, hrefresh, hnew, Step.ends (.outage ((hage hnew).mpr (by decide)) rfl hnew)⟩

/-- A hit, an expired document that is fetched again, and one that is used for want of a new
one. -/
theorem idp_cache_fresh_sample : ∃ c c' e, Calls Sample.cache Sample.calls c ∧
    (c.keyByKid Sample.jwksURL (lit "k1")).Ends Sample.outage.events (Sample.outage.result, c') ∧
    ¬ (Sample.call Sample.soon []).Attempts Sample.jwksURL ∧ Sample.outage.Attempts Sample.jwksURL ∧
    lastFetch Sample.jwksURL (Sample.calls ++ [Sample.outage]) = some e ∧ e.fetched = Sample.later ∧
    c'.cached = c.cached := by
  obtain ⟨c₁, c₂, c', hfirst, hold, hhit, hcalls, hnew, hout⟩ := Sample.calls_outage
  rw [cached_eq_lastFetch hfirst] at hold
  rw [cached_eq_lastFetch hcalls] at hnew
  obtain ⟨now, hnow, hattempts, -⟩ := idp_cache_fresh _ _ _ _ hfirst (Sample.call Sample.soon []) _ hhit
  obtain rfl : Sample.soon = now := by cases hnow; rfl
  obtain ⟨now', hnow', hattempts', -, hkept, -⟩ := idp_cache_fresh _ _ _ _ hcalls Sample.outage _ hout
  obtain rfl : Sample.latest = now' := by cases hnow'; rfl
  have hattempted : Sample.outage.Attempts Sample.jwksURL := by
    refine (hattempts' _).mpr ⟨rfl, fun e he => ?_⟩
    obtain rfl := Option.some.inj (hnew.symm.trans he)
    decide
  refine ⟨c₂, c', ⟨Sample.doc, Sample.later⟩, hcalls, hout, fun h => ?_, hattempted, ?_, rfl, hkept hattempted rfl⟩
  · exact absurd (((hattempts _).mp h).2 _ hold) (by decide)
  · rw [lastFetch_concat, hnew]
    rfl

end IdpJWKSCache

end Hanko
