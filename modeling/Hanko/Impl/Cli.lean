import Hanko.Impl.Serve

/-!
# The commands (`cmd/hanko-broker/main.go`)

`main` and its commands: `keygen`, `status`, `issue`, `verify`, `revoke`,
`list`, `serve` and `demo`. A command parses its flags, which may end the
process, and then runs a program of the broker.
-/

namespace Hanko

open Bytes Interact

/-! ## Printing -/

/-- `printJSON`. A value that has no JSON is an empty line. -/
def printJSON : Except Bytes Json → Bytes
  | .ok v => Json.print Json.indent 0 (v.mapStr Json.quote) ++ [10]
  | .error _ => [10]

/-- A `Sigil` in JSON. The keys of a map are sorted. -/
def Sigil.toJson (s : Sigil) : Except Bytes Json := do
  let createdAt ← s.createdAt.marshalJSON
  let expiresAt ← s.expiresAt.mapM Time.marshalJSON
  return .obj ([(lit "id", .str s.id), (lit "subject", .str s.subject), (lit "public_key", bytesJson s.publicKey),
    (lit "created_at", .str createdAt)] ++ (expiresAt.map fun x => (lit "expires_at", Json.str x)).toList ++
    [(lit "metadata", (PgStore.metadataJson s.metadata).sortKeys)])

/-- A `[]*Sigil`, which is `nil` if it is empty. -/
def sigilsJson (sigils : List Sigil) : Except Bytes Json :=
  if sigils = [] then .ok .null else Json.arr <$> sigils.mapM Sigil.toJson

namespace Cli

variable (c : Cli)

/-! ## Arguments -/

/-- The loop of `extractStoreFlag`: a `--store` without a value is an argument
like any other. -/
def extractStoreFlagFrom (out : List Bytes) (storeVal : Bytes) : List Bytes → List Bytes × Bytes
  | [] => (out, storeVal)
  | [arg] => (out ++ [arg], storeVal)
  | arg :: value :: args =>
    if arg = lit "--store" then extractStoreFlagFrom out value args
    else extractStoreFlagFrom (out ++ [arg]) storeVal (value :: args)

/-- `extractStoreFlag`. -/
def extractStoreFlag (args : List Bytes) : List Bytes × Bytes := extractStoreFlagFrom [] [] args

/-- A flag that has to be given. -/
def required (value : Bytes) (msg : String) : Except Output Unit :=
  if value = [] then .error (die (lit msg)) else .ok ()

/-- The value of `--ttl`. -/
def parseTTL (ttlStr : Bytes) : Except Output Duration :=
  match c.parseDuration ttlStr with
  | .ok ttl => .ok ttl
  | .error e => .error (die (lit "invalid --ttl " ++ (c.quoted ttlStr ++ (lit ": " ++ e.error))))

/-- What parsing gives, or the end of the process. -/
def parsed {α : Type} (r : Except Output α) : Cmd α := ExceptT.mk (.ret r)

/-- A successful command: what it prints. -/
def prints (text : Bytes) : Output := ⟨text, [], 0⟩

/-! ## `issue` -/

structure SigilFlags where
  subject : Bytes
  pubkeyHex : Bytes
  metadata : List (Bytes × Bytes)

def sigilFlag (flag : Bytes) : Option (Bytes → SigilFlags → Except Output SigilFlags) :=
  if flag = lit "--subject" then some fun v f => .ok { f with subject := v }
  else if flag = lit "--pubkey" then some fun v f => .ok { f with pubkeyHex := v }
  else if flag = lit "--meta" then some fun kv f =>
    if 61 ∉ kv then .error (die (lit "--meta value must be key=value, got " ++ c.quoted kv))
    else .ok { f with metadata := mapSet f.metadata (kv.takeWhile (· ≠ 61)) (kv.dropWhile (· ≠ 61)).tail }
  else none

/-- The subject, public key and metadata of a sigil to issue. -/
def parseIssueSigil (args : List Bytes) : Except Output (Bytes × Bytes × List (Bytes × Bytes)) := do
  let f ← parseFlags c.sigilFlag ignored args ⟨[], [], []⟩
  required f.subject "--subject is required"
  required f.pubkeyHex "--pubkey is required"
  match (hexDecode f.pubkeyHex).filter fun pub => pub.length = publicKeySize with
  | none => .error (die (lit "--pubkey must be 32-byte hex-encoded Ed25519 public key"))
  | some pub => .ok (f.subject, pub, f.metadata)

def runIssueSigil (args : List Bytes) (storeFlag : Bytes) : Cmd Output := do
  let (subject, pub, metadata) ← parsed (c.parseIssueSigil args)
  c.withBroker storeFlag fun b => do
    match ← b.issueSigil subject (some pub) none (some metadata) with
    | .error e => return .error (die (lit "IssueSigil: " ++ e.error))
    | .ok sigil => return .ok (prints (printJSON sigil.toJson))

structure CapFlags where
  sigilID : Bytes
  scope : Bytes
  ttlStr : Bytes

def capFlag (flag : Bytes) : Option (Bytes → CapFlags → Except Output CapFlags) :=
  if flag = lit "--sigil" then some fun v f => .ok { f with sigilID := v }
  else if flag = lit "--scope" then some fun v f => .ok { f with scope := v }
  else if flag = lit "--ttl" then some fun v f => .ok { f with ttlStr := v }
  else none

/-- The sigil, scope and lifetime of a cap to issue. -/
def parseIssueCap (args : List Bytes) : Except Output (Bytes × Bytes × Duration) := do
  let f ← parseFlags capFlag ignored args ⟨[], [], []⟩
  required f.sigilID "--sigil is required"
  required f.scope "--scope is required"
  required f.ttlStr "--ttl is required (e.g. 1h, 30m, 24h)"
  let ttl ← c.parseTTL f.ttlStr
  return (f.sigilID, f.scope, ttl)

def runIssueCap (args : List Bytes) (storeFlag : Bytes) : Cmd Output := do
  let (sigilID, scope, ttl) ← parsed (c.parseIssueCap args)
  c.withBroker storeFlag fun _ => do
    let now ← askHost .timeNow
    match ← Broker.issueCap sigilID scope (now.add ttl) with
    | .error e => return .error (die (lit "IssueCap: " ++ e.error))
    | .ok cap => return .ok (prints (printJSON cap.toJson))

structure AttestationFlags where
  sigilID : Bytes
  capIDs : List Bytes
  ttlStr : Bytes

def attestationFlag (flag : Bytes) : Option (Bytes → AttestationFlags → Except Output AttestationFlags) :=
  if flag = lit "--sigil" then some fun v f => .ok { f with sigilID := v }
  else if flag = lit "--cap" then some fun v f => .ok { f with capIDs := f.capIDs ++ [v] }
  else if flag = lit "--ttl" then some fun v f => .ok { f with ttlStr := v }
  else none

/-- The sigil, caps and lifetime of an attestation to issue. -/
def parseIssueAttestation (args : List Bytes) : Except Output (Bytes × List Bytes × Duration) := do
  let f ← parseFlags attestationFlag ignored args ⟨[], [], []⟩
  required f.sigilID "--sigil is required"
  required f.ttlStr "--ttl is required"
  let ttl ← c.parseTTL f.ttlStr
  return (f.sigilID, f.capIDs, ttl)

/-- The caps of the given ids, from the store. -/
def resolveCaps : List Bytes → Prog BrokerSig (Except Output (List CapabilityToken))
  | [] => return .ok []
  | cid :: cids => do
    match ← askStore (.getCap cid) with
    | .error e => return .error (die (lit "cap " ++ (cid ++ (lit " not found: " ++ e.error))))
    | .ok cap =>
      match ← resolveCaps cids with
      | .error out => return .error out
      | .ok caps => return .ok (cap :: caps)

/-- The program of `issue attestation`. -/
def issueResolved (sigilID : Bytes) (capIDs : List Bytes) (ttl : Duration) : Prog BrokerSig (Except Output Output) := do
  match ← resolveCaps capIDs with
  | .error out => return .error out
  | .ok caps =>
    let now ← askHost .timeNow
    match ← Broker.issueAttestation sigilID (some caps) (now.add ttl) with
    | .error e => return .error (die (lit "IssueAttestation: " ++ e.error))
    | .ok env => return .ok (prints (printJSON env.toJson))

def runIssueAttestation (args : List Bytes) (storeFlag : Bytes) : Cmd Output := do
  let (sigilID, capIDs, ttl) ← parsed (c.parseIssueAttestation args)
  c.withBroker storeFlag fun _ => issueResolved sigilID capIDs ttl

def runIssue (args : List Bytes) (storeFlag : Bytes) : Cmd Output :=
  match args with
  | [] => throw (die (lit "issue requires a sub-command: sigil | cap | attestation"))
  | kind :: args =>
    if kind = lit "sigil" then c.runIssueSigil args storeFlag
    else if kind = lit "cap" then c.runIssueCap args storeFlag
    else if kind = lit "attestation" then c.runIssueAttestation args storeFlag
    else throw (die (lit "unknown issue sub-command " ++ (c.quoted kind ++ lit " — want: sigil | cap | attestation")))

/-! ## `verify` -/

def readStdin : Cmd Bytes := do
  match ← sys .readStdin with
  | .ok input => return input
  | .error e => throw (die (lit "cannot read stdin: " ++ e.error))

/-- The envelope a process is given: a file, or its standard input. -/
def readInput : List Bytes → Cmd Bytes
  | [] => readStdin
  | path :: _ =>
    if path = lit "-" then readStdin
    else do
      let file ← sys (.readFile path)
      match file.result path with
      | .ok input => return input
      | .error e => throw (die (lit "cannot read " ++ (path ++ (lit ": " ++ e.error))))

/-- What `verify` says of a verdict. -/
def verdict : Option GoError → Except Output Output
  | some e => .error (exits (lit "DENIED: " ++ e.error))
  | none => .ok (prints (lit "OK\n"))

def runVerify (args : List Bytes) (storeFlag : Bytes) : Cmd Output := do
  let input ← readInput args
  match unmarshalEnvelope input with
  | none => throw (die (lit "invalid JSON: " ++ unmarshalError.error))
  | some env => c.withBroker storeFlag fun b => verdict <$> b.verifyAttestation env

/-! ## `revoke` and `list` -/

def reasonFlag (flag : Bytes) : Option (Bytes → Bytes → Except Output Bytes) :=
  if flag = lit "--reason" then some fun v _ => .ok v else none

/-- What `revoke` says of a revocation. -/
def revoked (kind : String) (method : String) (id : Bytes) : Option GoError → Except Output Output
  | some e => .error (die (lit method ++ (lit ": " ++ e.error)))
  | none => .ok (prints (lit "\x7b\"revoked\":\"" ++ (lit kind ++ (lit "\",\"id\":" ++ (c.quoted id ++ lit "\x7d\n")))))

def runRevoke (args : List Bytes) (storeFlag : Bytes) : Cmd Output :=
  match args with
  | kind :: id :: flags => do
    let reason ← parsed (parseFlags reasonFlag ignored flags (lit "operator revocation"))
    c.withBroker storeFlag fun b =>
      if kind = lit "sigil" then c.revoked "sigil" "RevokeSigil" id <$> b.revokeSigil id reason (lit "cli")
      else if kind = lit "cap" then c.revoked "cap" "RevokeCap" id <$> Broker.revokeCap id reason (lit "cli")
      else return .error (die (lit "unknown revoke target " ++ (c.quoted kind ++ lit " — want: sigil | cap")))
  | _ => throw (die (lit "revoke requires: sigil|cap <id>"))

/-- A row of a listing, as `ListSigils` scans it. -/
def scanSigil (p : PgStore) (row : Bytes × SigilRow) : Sigil :=
  ⟨uuidOut row.1, row.2.subject, some row.2.publicKey, p.scanTime row.2.createdAt, row.2.expiresAt.map p.scanTime,
    PgStore.scanMetadata row.2.metadata⟩

def runList (args : List Bytes) (storeFlag : Bytes) : Cmd Output :=
  if args.head? ≠ some (lit "sigils") then throw (die (lit "list requires sub-command: sigils"))
  else do
    match ← c.openStore storeFlag with
    | .mem => throw (die (lit "store does not support listing sigils"))
    | .pg =>
      match ← sys .selectSigils with
      | .error e => throw (die (lit "ListSigils: store: ListSigils: " ++ e))
      | .ok rows => return prints (printJSON (sigilsJson (rows.map (scanSigil c.pg))))

/-! ## `keygen` -/

/-- `must`. -/
def mustError (context : String) (e : GoError) : Bytes := lit "ERROR [" ++ (lit context ++ (lit "]: " ++ e.error))

/-- The flags of `keygen`: where the key goes, and whether it may replace
another. A `--out` without a value is passed over. -/
def keygenFlags : List Bytes → Bytes × Bool → Bytes × Bool
  | [], f => f
  | arg :: args, (out, force) =>
    if arg = lit "--out" then
      match args with
      | [] => (out, force)
      | value :: args => keygenFlags args (value, force)
    else if arg = lit "--force" then keygenFlags args (out, true)
    else keygenFlags args (out, force)

/-- `filepathDir`. -/
def filepathDir (p : Bytes) : Bytes :=
  let base := (p.reverse.takeWhile (· ≠ 47)).reverse
  if p.length ≤ base.length + 1 then lit "." else p.take (p.length - base.length - 1)

/-- `GenerateKeyPair`: the private key, in which the public one is. -/
def generateKeyPair : Cmd (Except GoError Bytes) := do
  match ← sys .generateKey with
  | .ok priv => return .ok priv
  | .error e => return .error (e.wrap "hanko/crypto: key generation failed")

/-- The key is written; what the process prints. -/
def writeKey (out priv : Bytes) : Cmd Output := do
  match ← sys (.mkdirAll (filepathDir out)) with
  | .error e => throw (exits (mustError "create key directory" e))
  | .ok _ =>
    match ← sys (.writeFile out (hexEncode priv)) with
    | .error e => throw (exits (mustError "write private key" e))
    | .ok _ =>
      let pub := publicKey priv
      return prints (lit "private_key_path   = " ++ (c.quoted out ++ (lit "\npubkey_hex         = " ++
        (c.quoted (hexEncode pub) ++ (lit "\npubkey_fingerprint = " ++
          (c.quoted (lit "sha256:" ++ hexEncode (c.sha256 pub)) ++ [10]))))))

def runKeygen (args : List Bytes) : Cmd Output := do
  let path ← defaultKeyPath
  let (out, force) := keygenFlags args (path, false)
  let found ← sys (.stat out)
  if found ∧ !force then
    throw (exits (lit "refusing to overwrite existing key at " ++ (out ++ lit " (use --force)")))
  else
    match ← generateKeyPair with
    | .error e => throw (exits (mustError "generate broker key pair" e))
    | .ok priv => c.writeKey out priv

/-! ## `main` -/

/-- What becomes of a process. -/
inductive Ended where
  | exited (out : Output)
  | serving (s : Serving)
  /-- The walk-through of the protocol over an in-memory store. -/
  | demonstrated

/-- The end of a process. -/
def Ended.of {α : Type} (f : α → Ended) : Except Output α → Ended
  | .ok a => f a
  | .error out => .exited out

/-- A command that prints something. -/
def exited (cmd : Cmd Output) : Prog ProcSig Ended := Ended.of .exited <$> cmd.run

/-- `printUsage`. -/
def printUsage (status : Nat) : Output := ⟨[], c.usage ++ [10], status⟩

/-- `{"status":"ok",…}`. -/
def statusText : Bytes :=
  lit "\x7b\"status\":\"ok\",\"version\":\"" ++ (version ++ lit "\",\"impl\":\"go-reference\"\x7d\n")

/-- A command with at least one argument. -/
def mustArgs (args : List Bytes) (msg : String) (cmd : Cmd Output) : Prog ProcSig Ended :=
  if args = [] then return .exited (die (lit msg)) else exited cmd

/-- The commands. -/
def dispatch (storeFlag : Bytes) : List Bytes → Prog ProcSig Ended
  | [] => return .exited (c.printUsage 1)
  | cmd :: args =>
    if cmd = lit "demo" then return .demonstrated
    else if cmd = lit "keygen" then exited (c.runKeygen args)
    else if cmd = lit "status" then return .exited (prints statusText)
    else if cmd = lit "issue" then
      mustArgs args "issue requires a sub-command: sigil | cap | attestation" (c.runIssue args storeFlag)
    else if cmd = lit "verify" then exited (c.runVerify args storeFlag)
    else if cmd = lit "revoke" then
      mustArgs args "revoke requires a sub-command: sigil | cap" (c.runRevoke args storeFlag)
    else if cmd = lit "list" then
      mustArgs args "list requires a sub-command: sigils" (c.runList args storeFlag)
    else if cmd = lit "serve" then Ended.of .serving <$> (c.runServe args storeFlag).run
    else if cmd = lit "help" ∨ cmd = lit "--help" ∨ cmd = lit "-h" then return .exited (c.printUsage 0)
    else return .exited ⟨[], lit "unknown command: " ++ (c.quoted cmd ++ 10 :: (c.usage ++ [10])), 1⟩

/-- `main`, on the arguments after the name of the program. -/
def main (args : List Bytes) : Prog ProcSig Ended :=
  c.dispatch (extractStoreFlag args).2 (extractStoreFlag args).1

end Cli

end Hanko
