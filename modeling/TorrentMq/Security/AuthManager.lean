import TorrentMq.Runs.Interleaving
import TorrentMq.Security.Scram

/-!
# Authentication manager

The authentication of clients with SCRAM, in the sections in which a call holds a
lock. All calls share one session of the exchange. The final message for
the longer hash is checked without a lock, before and after the section in which
the credential is looked up.
-/

set_option autoImplicit false

namespace TorrentMq.Security.Authentication

open Bytes

structure SessionEntry where
  principal : Bytes
  mechanism : HashAlgorithm
  host : Bytes := []
  createdAt : Int
  ttl : Int
  deriving DecidableEq

structure AuditEntry where
  principal : Bytes
  action : Bytes
  success : Bool
  details : Bytes := []
  deriving DecidableEq

structure AuthManager where
  sasl : SaslProvider := {}
  sessions : OrderedMap Bytes SessionEntry := .empty
  sessionTtl : Int := 300
  audit : List AuditEntry := []

structure Surroundings where
  random : Nat → UInt8 := fun _ => 0
  now : Int := 0

def loginAction : HashAlgorithm → Bytes
  | .sha256 => text "LOGIN_SCRAM_SHA256"
  | .sha512 => text "LOGIN_SCRAM_SHA512"

def handshakeAction : HashAlgorithm → Bytes
  | .sha256 => text "SASL_HANDSHAKE_SCRAM_SHA256"
  | .sha512 => text "SASL_HANDSHAKE_SCRAM_SHA512"

/-- What a call is about to do. A call that has verified a final message keeps the user with whose stored key
it has done so. -/
inductive Point where
  | firstLookup (mechanism : HashAlgorithm) (message : Bytes)
  | firstSave (mechanism : HashAlgorithm) (session : ScramSessionState)
  | finalLocked (message : Bytes)
  | finalCheck (message : Bytes)
  | finalVerify (message proof username : Bytes)
  | scramUsername (mechanism : HashAlgorithm) (message verified : Bytes)
  | registerSession (mechanism : HashAlgorithm) (message verified principal : Bytes)
  | failedUsername (mechanism : HashAlgorithm) (failure : Failure)
  deriving DecidableEq

abbrev Answer := Except Failure Unit

abbrev Stage := Interleaving.Stage Point Answer

namespace AuthManager

variable (crypto : Crypto) (surroundings : Surroundings) (manager : AuthManager)

def logAuth (principal action : Bytes) (success : Bool) (details : Bytes) : AuthManager :=
  { manager with
    audit := manager.audit ++
      [{ principal := principal, action := action, success := success, details := details }] }

def refuseFirst (mechanism : HashAlgorithm) (failure : Failure) : AuthManager × Stage :=
  (manager.logAuth [] (handshakeAction mechanism) false failure.errorMessage, .returned (.error failure))

def firstLookup (mechanism : HashAlgorithm) (message : Bytes) : AuthManager × Stage :=
  match parseClientFirst message with
  | .error failure => manager.refuseFirst mechanism failure
  | .ok (username, clientNonce) =>
    match manager.sasl.lookupScram username mechanism with
    | none => manager.refuseFirst mechanism (authenticationFailed kScramErrUnknownUser)
    | some credential =>
      match startSession crypto {} credential mechanism message username clientNonce surroundings.random with
      | .error failure => manager.refuseFirst mechanism failure
      | .ok (session, _) => (manager, .running (.firstSave mechanism session))

def firstSave (mechanism : HashAlgorithm) (session : ScramSessionState) : AuthManager × Stage :=
  let saved := { session with channelBinding := manager.sasl.defaultChannelBinding }
  (logAuth { manager with sasl := { manager.sasl with scramSession := some saved } } [] (handshakeAction mechanism)
    true [], .returned (.ok ()))

def finalLocked (message : Bytes) : Stage :=
  match manager.sasl.scramSession with
  | none => .running (.failedUsername .sha256 (illegalState (text "No active SCRAM session")))
  | some session =>
    match manager.sasl.scramServerFinalImpl crypto message session.hashAlgorithm with
    | .error failure => .running (.failedUsername .sha256 failure)
    | .ok _ => .running (.scramUsername .sha256 message session.username)

def finalCheck (message : Bytes) : Stage :=
  match manager.sasl.scramSession with
  | none => .running (.failedUsername .sha512 (illegalState kScramErrOther))
  | some session =>
    match checkClientFinal crypto session message with
    | .error failure => .running (.failedUsername .sha512 failure)
    | .ok proof => .running (.finalVerify message proof session.username)

def finalVerify (message proof username : Bytes) : Stage :=
  match manager.sasl.lookupScram username .sha512, manager.sasl.scramSession with
  | none, _ => .running (.failedUsername .sha512 (authenticationFailed kScramErrUnknownUser))
  | _, none => .running (.failedUsername .sha512 (illegalState kScramErrOther))
  | some credential, some session =>
    match verifyClientProof crypto credential .sha512 session.authMessage message proof with
    | .error failure => .running (.failedUsername .sha512 failure)
    | .ok _ => .running (.scramUsername .sha512 message username)

def registerSession (mechanism : HashAlgorithm) (principal : Bytes) : AuthManager :=
  { manager with
    sessions := manager.sessions.insert principal
      { principal := principal, mechanism := mechanism, createdAt := surroundings.now, ttl := manager.sessionTtl } }

def act (point : Point) (surroundings : Surroundings) (manager : AuthManager) : AuthManager × Stage :=
  match point with
  | .firstLookup mechanism message => manager.firstLookup crypto surroundings mechanism message
  | .firstSave mechanism session => manager.firstSave mechanism session
  | .finalLocked message => (manager, manager.finalLocked crypto message)
  | .finalCheck message => (manager, manager.finalCheck crypto message)
  | .finalVerify message proof username => (manager, manager.finalVerify crypto message proof username)
  | .scramUsername mechanism message verified =>
    (manager, .running (.registerSession mechanism message verified manager.sasl.scramUsername))
  | .registerSession mechanism _ _ principal =>
    ((manager.registerSession surroundings mechanism principal).logAuth principal (loginAction mechanism) true [],
      .returned (.ok ()))
  | .failedUsername mechanism failure =>
    (manager.logAuth manager.sasl.scramUsername (loginAction mechanism) false failure.errorMessage,
      .returned (.error failure))

end AuthManager

structure Call where
  mechanism : HashAlgorithm
  credentials : Bytes
  deriving DecidableEq

def Call.first (call : Call) : Point :=
  if kAttrCbind <+: call.credentials then
    match call.mechanism with
    | .sha256 => .finalLocked call.credentials
    | .sha512 => .finalCheck call.credentials
  else .firstLookup call.mechanism call.credentials

abbrev Pool := Interleaving.Pool AuthManager Point Answer

abbrev Event := Interleaving.Event Call Surroundings

def step (crypto : Crypto) (pool : Pool) (event : Event) : Pool :=
  Interleaving.step (AuthManager.act crypto) pool (event.enter Call.first)

end TorrentMq.Security.Authentication
