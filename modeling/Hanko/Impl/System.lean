import Hanko.Framework.Refine
import Hanko.Impl.Http
import Hanko.Impl.Postgres

/-!
# The service

The calls that clients make to a broker (`Call`), each a program over the
store and the surroundings; and surroundings that answer from given streams
of clock readings, uuids and nonces (`Host`), for calls that run alone.
-/

namespace Hanko

open Bytes Interact

/-- A broker and its two HTTP surfaces. -/
structure Service where
  broker : Broker
  oidc : OIDCBootstrap
  server : HTTPServer
  oidc_broker : oidc.broker = broker
  server_broker : server.broker = broker

/-- A call of a client. -/
inductive Call where
  | issueSigil (subject : Bytes) (pubKey : Option Bytes) (expiresAt : Option Time)
      (metadata : Option (List (Bytes × Bytes)))
  | issueCap (sigilID scope : Bytes) (expiresAt : Time)
  | issueAttestation (sigilID : Bytes) (caps : Option (List CapabilityToken)) (expiresAt : Time)
  | verifyAttestation (env : AttestationEnvelope)
  | revokeSigil (sigilID reason revokedBy : Bytes)
  | revokeCap (capID reason revokedBy : Bytes)
  /-- `POST /api/v1/sigils/bootstrap-oidc`. -/
  | bootstrapOIDC (r : Request)
  /-- `POST /admin/revoke`. -/
  | adminRevoke (r : Request)

/-- What a call returns. -/
inductive Reply where
  | sigil (r : Except GoError Sigil)
  | cap (r : Except GoError CapabilityToken)
  | envelope (r : Except GoError AttestationEnvelope)
  | err (e : Option GoError)
  | http (r : Option Response)

/-- The program of a call. -/
def Call.prog (S : Service) : Call → Prog BrokerSig Reply
  | .issueSigil subject pubKey expiresAt metadata =>
    Reply.sigil <$> S.broker.issueSigil subject pubKey expiresAt metadata
  | .issueCap sigilID scope expiresAt => Reply.cap <$> Broker.issueCap sigilID scope expiresAt
  | .issueAttestation sigilID caps expiresAt =>
    Reply.envelope <$> Broker.issueAttestation sigilID caps expiresAt
  | .verifyAttestation env => Reply.err <$> S.broker.verifyAttestation env
  | .revokeSigil sigilID reason revokedBy => Reply.err <$> S.broker.revokeSigil sigilID reason revokedBy
  | .revokeCap capID reason revokedBy => Reply.err <$> Broker.revokeCap capID reason revokedBy
  | .bootstrapOIDC r => Reply.http <$> S.oidc.handle r
  | .adminRevoke r => (fun x => Reply.http (some x)) <$> S.server.adminRevoke r

/-- Surroundings that answer from given streams, and keep what they are told. -/
structure Host where
  clock : Nat → Time
  oidcClock : Nat → Time
  uuids : Nat → Bytes
  nonces : Nat → Except GoError Bytes
  sign : Bytes → Bytes
  /-- The validator of provider tokens: token, key set, issuer, audience, time. -/
  validate : Bytes → Bytes → Bytes → Bytes → Time → Except GoError Bytes
  published : List (NATSSubject × Payload)
  auditLog : List Bytes
  failures : List Bytes
  sigilIssued : List (Bytes × Bytes)
  revocationAllowed : Nat
  revocationDenied : Nat

def Host.step : (o : HostSig.Op) → Host → HostSig.Ans o × Host
  | .timeNow, w => (w.clock 0, { w with clock := fun n => w.clock (n + 1) })
  | .cfgNow, w => (w.oidcClock 0, { w with oidcClock := fun n => w.oidcClock (n + 1) })
  | .newUUID, w => (w.uuids 0, { w with uuids := fun n => w.uuids (n + 1) })
  | .generateNonce, w => (w.nonces 0, { w with nonces := fun n => w.nonces (n + 1) })
  | .sign message, w => (w.sign message, w)
  | .verifyJWT tok jwksURL issuer audience, w =>
    (w.validate tok jwksURL issuer audience (w.oidcClock 0),
      { w with oidcClock := fun n => w.oidcClock (n + 1) })
  | .publish subject payload, w => ((), { w with published := w.published ++ [(subject, payload)] })
  | .auditAppend line, w => ((), { w with auditLog := w.auditLog ++ [line] })
  | .recordFailure clientID, w => ((), { w with failures := w.failures ++ [clientID] })
  | .incSigilIssued capabilitySet clientID, w =>
    ((), { w with sigilIssued := w.sigilIssued ++ [(capabilitySet, clientID)] })
  | .addRevocationAllowed, w => ((), { w with revocationAllowed := w.revocationAllowed + 1 })
  | .addRevocationDenied, w => ((), { w with revocationDenied := w.revocationDenied + 1 })

/-- A program of the broker, run alone over a `MemStore`. -/
def runMem {α : Type} (p : Prog BrokerSig α) (m : MemStore) (w : Host) : α × (MemStore × Host) :=
  p.exec (both MemStore.step Host.step) (m, w)

/-- A program of the broker over a `PgStore`. -/
def overPg {α : Type} (p : Prog BrokerSig α) (pg : PgStore) : Prog (SqlSig.sum HostSig) α :=
  p.interp (Prog.lift HostSig pg.impl)

/-- A program of the broker, run alone over a `PgStore` whose database does not
fail. -/
def runPg {α : Type} (p : Prog BrokerSig α) (pg : PgStore) (db : Db) (w : Host) : α × (Db × Host) :=
  (overPg p pg).exec (both Db.step Host.step) (db, w)

/-- Programs of clients that run concurrently over one `MemStore`. Their
surroundings may answer anything. -/
def MemHandler : Handler BrokerSig MemStore := Handler.opened HostSig (Handler.graph MemStore.step)

/-- Programs of clients that run concurrently over one database, any statement
of which may fail. -/
def PgHandler : Handler (SqlSig.sum HostSig) Db := Handler.opened HostSig Db.Faulty

end Hanko
