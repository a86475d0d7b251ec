import Boomerangz.Lib.Run
import Mathlib.Data.List.Dedup
import Mathlib.Data.List.Infix

/-! # Pairing credentials

`CreateListenerPairing` and `RevokePairing` write by write. Random draws are numbered: no two agree.
-/

open Transition

namespace Boomerangz.Control

/-- How a write of a private file ends; a process that stops does so before it. -/
inductive Write where
  | done
  | failed
  | stopped
deriving DecidableEq, Repr

/-- How a write of the token store ends. -/
inductive TokenWrite where
  | done
  | failed
  | unsynced
  | stopped
deriving DecidableEq, Repr

def TokenWrite.takes : TokenWrite → Bool
  | .done => true
  | .unsynced => true
  | _ => false

inductive Halt where
  | error (message : String)
  | stopped
deriving DecidableEq, Repr

structure TokenRecord where
  id : Nat
  scopes : List String
  expires : Option Int
  hash : Nat
deriving DecidableEq, Repr

structure ManagedClientRecord where
  id : Nat
  fingerprint : Nat
  revoked : Bool
deriving DecidableEq, Repr

structure PairingRecord where
  id : Nat
  listener : String
  authMode : String
  tokenID : Option Nat
  clientID : Option Nat
  scopes : List String
  expires : Option Int
  revoked : Bool
deriving DecidableEq, Repr

structure Stores where
  tokens : List TokenRecord
  clients : List ManagedClientRecord
  pairings : List PairingRecord
  next : Nat
deriving DecidableEq, Repr

/-- Assigning to the first element that `p` finds. -/
def setFirst {α : Type} (p : α → Bool) (f : α → α) : List α → List α
  | [] => []
  | a :: rest => if p a then f a :: rest else a :: setFirst p f rest

/-! ## The token store -/

def validScopes : List String := ["admin", "replicate", "status", "trigger"]

def normalizeScopes (scopes : List String) : Except String (List String) :=
  let scopes := (if scopes.isEmpty then ["status"] else scopes).dedup
  if scopes.all validScopes.contains then .ok scopes else .error "unknown token scope %q"

namespace Stores

variable (s : Stores)

/-- `TokenStore.Create` once its scopes are normalized. -/
def createToken (record : TokenRecord) : TokenWrite → Stores × Option Halt
  | .done => ({ s with tokens := s.tokens ++ [record] }, none)
  | .failed => (s, some (.error "write failed"))
  | .unsynced => ({ s with tokens := s.tokens ++ [record] }, some (.error "sync failed"))
  | .stopped => (s, some .stopped)

def revokeToken (id : Nat) (write : TokenWrite) : Stores × Option Halt :=
  if s.tokens.any (·.id == id) then
    let rest := { s with tokens := s.tokens.filter (·.id != id) }
    match write with
    | .done => (rest, none)
    | .failed => (s, some (.error "write failed"))
    | .unsynced => (rest, some (.error "sync failed"))
    | .stopped => (s, some .stopped)
  else (s, some (.error "token %s was not found"))

/-- `TokenStore.Authorize`; a hash is told by its secret. -/
def authorize (id secret : Nat) (scope : String) (now : Int) : Bool :=
  match s.tokens.find? fun r => r.id == id && r.expires.all (now < ·) with
  | none => false
  | some record => record.hash == secret && (record.scopes.contains scope || record.scopes.contains "admin")

/-! ## Managed clients -/

def authorizeManagedClient (fingerprint : Nat) : Bool :=
  s.clients.any fun r => r.fingerprint == fingerprint && !r.revoked

def setRevoked (id : Nat) (clients : List ManagedClientRecord) : List ManagedClientRecord :=
  setFirst (·.id == id) (fun r => { r with revoked := true }) clients

def revokeManagedClient (id : Nat) (write : Write) : Stores × Option Halt :=
  if s.clients.any (·.id == id) then
    match write with
    | .done => ({ s with clients := setRevoked id s.clients }, none)
    | .failed => (s, some (.error "write failed"))
    | .stopped => (s, some .stopped)
  else (s, some (.error "managed client identity %s was not found"))

end Stores

/-! ## Creating a pairing -/

/-- The arguments of `CreateListenerPairing`, and what it finds. -/
structure Request where
  refusal : Option String
  listener : String
  authMode : String
  clientCA : String
  clientCertFile : String
  clientKeyFile : String
  filesRead : Bool
  keyPair : Bool
  hasStore : Bool
  scopes : List String
  expires : Option Int
deriving DecidableEq, Repr

structure CreateWrites where
  token : TokenWrite
  clientCA : Write
  client : Write
  record : Write
  undoToken : TokenWrite
  undoClient : Write
deriving DecidableEq, Repr

def Request.wantsToken (r : Request) : Bool := decide ("token".toList <:+: r.authMode.toList)

inductive ClientEnd where
  | refused (message : String)
  | failed (message : String)
  | stopped
  | passed (managed : Bool)
deriving DecidableEq, Repr

/-- `issueManagedClientIdentity`. -/
def CreateWrites.issues (w : CreateWrites) : ClientEnd :=
  match w.clientCA with
  | .failed => .failed "write failed"
  | .stopped => .stopped
  | .done =>
    match w.client with
    | .failed => .failed "write failed"
    | .stopped => .stopped
    | .done => .passed true

def Request.client (r : Request) (w : CreateWrites) : ClientEnd :=
  if r.authMode = "mtls" || r.authMode = "mtls+token" then
    if r.clientCA = "" then
      if r.clientCertFile ≠ "" || r.clientKeyFile ≠ "" then
        .refused "client certificate files cannot be combined with managed client PKI"
      -- the pair it issues is one
      else w.issues
    else if r.clientCertFile = "" || r.clientKeyFile = "" then
      .refused "external mTLS requires client certificate and key"
    else if !r.filesRead then .failed "client files cannot be read"
    else if !r.keyPair then .failed "client certificate and key do not match"
    else .passed false
  else .passed false

def clientOf (managed : Bool) (id : Nat) : Option ManagedClientRecord :=
  if managed then some ⟨id, id + 3, false⟩ else none

namespace Stores

variable (s : Stores)

def undoToken (token : Option TokenRecord) (write : TokenWrite) : Stores × Bool :=
  match token with
  | none => (s, false)
  | some record =>
    match s.revokeToken record.id write with
    | (s, some .stopped) => (s, true)
    | (s, _) => (s, false)

def undoClient (client : Option ManagedClientRecord) (write : Write) : Stores :=
  match client with
  | none => s
  | some record => (s.revokeManagedClient record.id write).1

def recordPairing (r : Request) (w : CreateWrites) (id : Nat) (token : Option TokenRecord)
    (client : Option ManagedClientRecord) : Stores × Option Halt :=
  match w.record with
  | .done =>
    let record := ⟨id, r.listener, r.authMode, token.map TokenRecord.id, client.map ManagedClientRecord.id,
      (token.map TokenRecord.scopes).getD [], r.expires, false⟩
    ({ s with pairings := s.pairings ++ [record] }, none)
  | .stopped => (s, some .stopped)
  | .failed =>
    match s.undoToken token w.undoToken with
    | (s, true) => (s, some .stopped)
    | (s, false) => (s.undoClient client w.undoClient, some (.error "write failed"))

def finishPairing (r : Request) (w : CreateWrites) (id : Nat) (token : Option TokenRecord) : Stores × Option Halt :=
  match r.client w with
  | .refused message => (s, some (.error message))
  | .stopped => (s, some .stopped)
  | .failed message =>
    match s.undoToken token w.undoToken with
    | (s, true) => (s, some .stopped)
    | (s, false) => (s, some (.error message))
  | .passed managed =>
    let client := clientOf managed id
    { s with clients := s.clients ++ client.toList }.recordPairing r w id token client

/-- The IDs, the secret and the client's key are its draws. -/
def createListenerPairing (r : Request) (w : CreateWrites) : Stores × Option Halt :=
  match r.refusal with
  | some message => (s, some (.error message))
  | none =>
    let id := s.next
    let s := { s with next := s.next + 4 }
    if r.wantsToken then
      if !r.hasStore then (s, some (.error "token store is required"))
      else match normalizeScopes r.scopes with
        | .error message => (s, some (.error message))
        | .ok scopes =>
          let token : TokenRecord := ⟨id + 1, scopes, r.expires, id + 2⟩
          match s.createToken token w.token with
          | (s, some halt) => (s, some halt)
          | (s, none) => s.finishPairing r w id (some token)
    else s.finishPairing r w id none

/-! ## Revoking one -/

structure RevokeWrites where
  mark : Write
  token : TokenWrite
  client : Write
deriving DecidableEq, Repr

def markRevoked (id : Nat) (pairings : List PairingRecord) : List PairingRecord :=
  setFirst (·.id == id) (fun p => { p with revoked := true }) pairings

/-- `errors.Join` of an error and what comes after it. -/
def join (first : Option Halt) : Stores × Option Halt → Stores × Option Halt
  | (s, some .stopped) => (s, some .stopped)
  | (s, second) => (s, first.or second)

def revokeCredentials (record : PairingRecord) (w : RevokeWrites) : Stores × Option Halt :=
  match record.tokenID.elim (s, none) fun id => s.revokeToken id w.token with
  | (s, some .stopped) => (s, some .stopped)
  | (s, first) => join first (record.clientID.elim (s, none) fun id => s.revokeManagedClient id w.client)

def revokePairing (id : Nat) (w : RevokeWrites) : Stores × Option Halt :=
  match s.pairings.find? (·.id == id) with
  | none => (s, some (.error "pairing %s was not found"))
  | some record =>
    match w.mark with
    | .failed => (s, some (.error "write failed"))
    | .stopped => (s, some .stopped)
    | .done => { s with pairings := markRevoked id s.pairings }.revokeCredentials record w

end Stores

inductive PairingCall where
  | create (r : Request) (w : CreateWrites)
  | revoke (id : Nat) (w : Stores.RevokeWrites)
deriving DecidableEq, Repr

def Stores.perform (s : Stores) : PairingCall → Stores
  | .create r w => (s.createListenerPairing r w).1
  | .revoke id w => (s.revokePairing id w).1

def pairing : System Stores PairingCall where
  init s := s = ⟨[], [], [], 0⟩
  step s call := some (s.perform call)

end Boomerangz.Control
