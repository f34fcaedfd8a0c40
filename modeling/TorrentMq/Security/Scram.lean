import TorrentMq.Bytes.Decimal
import TorrentMq.Bytes.Search
import TorrentMq.Collections.OrderedMap

/-!
# SCRAM

The server side of the SCRAM exchange: the stored credentials, the answer to the
first message of a client, and the check of its final message. The
cryptographic functions and the base64 encoding come from a library.
-/

set_option autoImplicit false

namespace TorrentMq.Security

open Bytes

def kDefaultIterationsSHA256 : Nat := 15000

def kDefaultIterationsSHA512 : Nat := 10000

def kNonceLength : Nat := 24

def kMaxCombinedNonceLength : Nat := 512

def kScramAttrSep : UInt8 := 44

def kAttrNonce : Bytes := text "r="

def kAttrUsername : Bytes := text "n="

def kAttrSalt : Bytes := text "s="

def kAttrIter : Bytes := text "i="

def kAttrCbind : Bytes := text "c="

def kAttrProof : Bytes := text "p="

def kAttrVerifier : Bytes := text "v="

def kScramErrInvalidEncoding : Bytes := text "invalid-encoding"

def kScramErrInvalidProof : Bytes := text "invalid-proof"

def kScramErrChannelBindings : Bytes := text "channel-bindings-dont-match"

def kScramErrUnknownUser : Bytes := text "unknown-user"

def kScramErrInvalidUsername : Bytes := text "invalid-username"

def kScramErrOther : Bytes := text "other-error"

def sha256DigestLength : Nat := 32

def sha512DigestLength : Nat := 64

inductive ErrorCode where
  | illegalSaslState
  | saslAuthenticationFailed
  deriving DecidableEq

structure Failure where
  error : ErrorCode
  errorMessage : Bytes
  deriving DecidableEq

inductive HashAlgorithm where
  | sha256
  | sha512
  deriving DecidableEq

structure Crypto where
  hmacSha256 : Bytes → Bytes → Bytes
  hmacSha512 : Bytes → Bytes → Bytes
  sha256 : Bytes → Bytes
  sha512 : Bytes → Bytes
  pbkdf2 : HashAlgorithm → Bytes → Bytes → Nat → Option Bytes
  base64Encode : Bytes → Bytes
  base64Decode : Bytes → Option Bytes
  length_hmacSha256 : ∀ key message, (hmacSha256 key message).length = sha256DigestLength
  length_hmacSha512 : ∀ key message, (hmacSha512 key message).length = sha512DigestLength
  length_sha256 : ∀ message, (sha256 message).length = sha256DigestLength
  length_sha512 : ∀ message, (sha512 message).length = sha512DigestLength
  base64Decode_base64Encode : ∀ bytes, base64Decode (base64Encode bytes) = some bytes
  separator_notMem_base64Encode : ∀ bytes, kScramAttrSep ∉ base64Encode bytes

def Crypto.hmac (crypto : Crypto) : HashAlgorithm → Bytes → Bytes → Bytes
  | .sha256 => crypto.hmacSha256
  | .sha512 => crypto.hmacSha512

def Crypto.hash (crypto : Crypto) : HashAlgorithm → Bytes → Bytes
  | .sha256 => crypto.sha256
  | .sha512 => crypto.sha512

def xorBytes (left right : Bytes) : Bytes := List.zipWith (· ^^^ ·) left right

structure ScramKeys where
  clientKey : Bytes
  storedKey : Bytes
  serverKey : Bytes
  deriving DecidableEq

def deriveScramKeys (crypto : Crypto) (algorithm : HashAlgorithm) (saltedPassword : Bytes) : ScramKeys where
  clientKey := crypto.hmac algorithm saltedPassword (text "Client Key")
  storedKey := crypto.hash algorithm (crypto.hmac algorithm saltedPassword (text "Client Key"))
  serverKey := crypto.hmac algorithm saltedPassword (text "Server Key")

def deriveScramKeysSha256 (crypto : Crypto) : Bytes → ScramKeys := deriveScramKeys crypto .sha256

def deriveScramKeysSha512 (crypto : Crypto) : Bytes → ScramKeys := deriveScramKeys crypto .sha512

structure StoredScramCredential where
  username : Bytes
  salt : Bytes
  iterations : Nat := kDefaultIterationsSHA256
  storedKey : Bytes
  serverKey : Bytes
  hashAlgorithm : HashAlgorithm
  deriving DecidableEq

inductive ChannelBinding.BindingType where
  | none
  | tlsUnique
  | tlsServerEnd
  deriving DecidableEq

structure ChannelBinding where
  type : ChannelBinding.BindingType := .none
  bindingData : Bytes := []
  deriving DecidableEq

structure ScramSessionState where
  username : Bytes
  nonce : Bytes
  salt : Bytes
  iterations : Nat
  serverKey : Bytes
  authMessage : Bytes
  channelBinding : ChannelBinding
  hashAlgorithm : HashAlgorithm
  deriving DecidableEq

structure SaslProvider where
  scramSession : Option ScramSessionState := none
  scramSha256Iterations : Nat := kDefaultIterationsSHA256
  scramSha512Iterations : Nat := kDefaultIterationsSHA512
  defaultChannelBinding : ChannelBinding := {}
  scramUsersSha256 : OrderedMap Bytes StoredScramCredential := .empty
  scramUsersSha512 : OrderedMap Bytes StoredScramCredential := .empty

def scramCredential (username : Bytes) (algorithm : HashAlgorithm) (salt : Bytes) (iterations : Nat)
    (keys : ScramKeys) : StoredScramCredential where
  username := username
  salt := salt
  iterations := iterations
  storedKey := keys.storedKey
  serverKey := keys.serverKey
  hashAlgorithm := algorithm

namespace SaslProvider

variable (crypto : Crypto) (provider : SaslProvider)

def scramIterations : HashAlgorithm → Nat
  | .sha256 => provider.scramSha256Iterations
  | .sha512 => provider.scramSha512Iterations

def storeScramCredential (username password : Bytes) (algorithm : HashAlgorithm) (salt : Bytes) :
    SaslProvider :=
  match algorithm with
  | .sha256 =>
    let iterations := provider.scramSha256Iterations
    match crypto.pbkdf2 .sha256 password salt iterations with
    | none => provider
    | some salted =>
      { provider with
        scramUsersSha256 := provider.scramUsersSha256.insert username
          (scramCredential username .sha256 salt iterations (deriveScramKeysSha256 crypto salted)) }
  | .sha512 =>
    let iterations := provider.scramSha512Iterations
    match crypto.pbkdf2 .sha512 password salt iterations with
    | none => provider
    | some salted =>
      { provider with
        scramUsersSha512 := provider.scramUsersSha512.insert username
          (scramCredential username .sha512 salt iterations (deriveScramKeysSha512 crypto salted)) }

def lookupScram (username : Bytes) : HashAlgorithm → Option StoredScramCredential
  | .sha256 => provider.scramUsersSha256.find? username
  | .sha512 => provider.scramUsersSha512.find? username

end SaslProvider

def kAlpha : Bytes := text "abcdefghijklmnopqrstuvwxyzABCDEFGHIJKLMNOPQRSTUVWXYZ0123456789"

def generateNonce (random : Nat → UInt8) : Bytes :=
  (List.range kNonceLength).map fun index => kAlpha.getD ((random index).toNat % kAlpha.length) 0

def parseScramAttr (attrs : OrderedMap UInt8 Bytes) : Bytes → OrderedMap UInt8 Bytes
  | key :: 61 :: value => attrs.insert key value
  | _ => attrs

def parseScramAttrs (message : Bytes) : OrderedMap UInt8 Bytes :=
  (message.splitOn kScramAttrSep).foldl parseScramAttr .empty

def illegalState (message : Bytes) : Failure := { error := .illegalSaslState, errorMessage := message }

def authenticationFailed (message : Bytes) : Failure :=
  { error := .saslAuthenticationFailed, errorMessage := message }

/-- What follows the header of a first message: the header ends at the second comma, or, where the third
character is an `a`, at the first comma behind it. -/
def clientAttributes (message : Bytes) : Option Bytes :=
  match findFrom message kScramAttrSep 0 with
  | none => none
  | some firstComma =>
    if firstComma + 2 > message.length then none
    else
      match findFrom message kScramAttrSep (firstComma + 1) with
      | none => none
      | some secondComma =>
        let gs2End :=
          if message.length > 3 ∧ message.take 3 = text "n,a" then
            (findFrom message kScramAttrSep 3).getD secondComma
          else secondComma
        some (message.drop (if message[gs2End]? = some kScramAttrSep then gs2End + 1 else gs2End))

def parseClientFirst (message : Bytes) : Except Failure (Bytes × Bytes) :=
  match clientAttributes message with
  | none => .error (illegalState kScramErrInvalidEncoding)
  | some attributes =>
    let attrs := parseScramAttrs attributes
    match attrs.find? 110, attrs.find? 114 with
    | some username, some clientNonce =>
      if username.isEmpty ∨ clientNonce.isEmpty then .error (illegalState kScramErrInvalidUsername)
      else if kScramAttrSep ∈ username ∨ 61 ∈ username then .error (illegalState kScramErrInvalidUsername)
      else .ok (username, clientNonce)
    | _, _ => .error (illegalState kScramErrInvalidEncoding)

def serverFirst (crypto : Crypto) (credential : StoredScramCredential) (combinedNonce : Bytes) : Bytes :=
  kAttrNonce ++ combinedNonce ++ kScramAttrSep :: (kAttrSalt ++ crypto.base64Encode credential.salt ++
    kScramAttrSep :: (kAttrIter ++ decimal credential.iterations))

def startSession (crypto : Crypto) (channelBinding : ChannelBinding) (credential : StoredScramCredential)
    (algorithm : HashAlgorithm) (message username clientNonce : Bytes) (random : Nat → UInt8) :
    Except Failure (ScramSessionState × Bytes) :=
  let combinedNonce := clientNonce ++ generateNonce random
  if combinedNonce.length > kMaxCombinedNonceLength then .error (illegalState kScramErrInvalidEncoding)
  else
    let first := serverFirst crypto credential combinedNonce
    .ok
      ({ username := username
         nonce := combinedNonce
         salt := credential.salt
         iterations := credential.iterations
         serverKey := credential.serverKey
         authMessage := message ++ kScramAttrSep :: first
         channelBinding := channelBinding
         hashAlgorithm := algorithm }, first)

def checkClientFinal (crypto : Crypto) (session : ScramSessionState) (message : Bytes) :
    Except Failure Bytes :=
  let attrs := parseScramAttrs message
  match attrs.find? 99, attrs.find? 114, attrs.find? 112 with
  | some cbind, some combinedNonce, some proof =>
    if combinedNonce ≠ session.nonce then .error (authenticationFailed kScramErrOther)
    else
      match crypto.base64Decode cbind with
      | none => .error (illegalState kScramErrInvalidEncoding)
      | some decoded =>
        if session.channelBinding.type = .tlsServerEnd ∧ ¬text "p=tls-server-end-point" <+: decoded ∧
            ¬text "n,," <+: decoded then
          .error (authenticationFailed kScramErrChannelBindings)
        else .ok proof
  | _, _, _ => .error (illegalState kScramErrInvalidEncoding)

def stripGs2Header (authMessage : Bytes) : Bytes :=
  match findFrom authMessage kScramAttrSep 3 with
  | some gs2End => if gs2End + 1 < authMessage.length then authMessage.drop (gs2End + 1) else authMessage
  | none => authMessage

def clientFinalWithoutProof (message : Bytes) : Bytes :=
  match findText (text ",p=") message with
  | some position => message.take position
  | none =>
    match findLastText (text "p=") message with
    | some position => if 0 < position then message.take (position - 1) else message
    | none => message

def completeAuthMessage (authMessage message : Bytes) : Bytes :=
  stripGs2Header authMessage ++ kScramAttrSep :: clientFinalWithoutProof message

def verifyClientProof (crypto : Crypto) (credential : StoredScramCredential) (algorithm : HashAlgorithm)
    (authMessage message proof : Bytes) : Except Failure Bytes :=
  let complete := completeAuthMessage authMessage message
  let clientSignature := crypto.hmacSha256 credential.storedKey complete
  match crypto.base64Decode proof with
  | none => .error (authenticationFailed kScramErrInvalidProof)
  | some decoded =>
    if decoded.length ≠ clientSignature.length then .error (authenticationFailed kScramErrInvalidProof)
    else
      let recoveredClientKey := xorBytes decoded clientSignature
      let serverSignature := crypto.hmac algorithm credential.serverKey complete
      match algorithm with
      | .sha256 =>
        if crypto.sha256 recoveredClientKey ≠ credential.storedKey.take sha256DigestLength then
          .error (authenticationFailed kScramErrInvalidProof)
        else .ok (kAttrVerifier ++ crypto.base64Encode serverSignature)
      | .sha512 =>
        if crypto.sha512 recoveredClientKey ≠ credential.storedKey.take sha512DigestLength then
          .error (authenticationFailed kScramErrInvalidProof)
        else .ok (kAttrVerifier ++ crypto.base64Encode serverSignature)

namespace SaslProvider

variable (crypto : Crypto) (provider : SaslProvider)

def scramServerFirstImpl (message : Bytes) (algorithm : HashAlgorithm) (random : Nat → UInt8) :
    SaslProvider × Except Failure Bytes :=
  match parseClientFirst message with
  | .error failure => (provider, .error failure)
  | .ok (username, clientNonce) =>
    match provider.lookupScram username algorithm with
    | none => (provider, .error (authenticationFailed kScramErrUnknownUser))
    | some credential =>
      match startSession crypto provider.defaultChannelBinding credential algorithm message username clientNonce
          random with
      | .error failure => (provider, .error failure)
      | .ok (session, first) => ({ provider with scramSession := some session }, .ok first)

def scramServerFinalImpl (message : Bytes) (algorithm : HashAlgorithm) : Except Failure Bytes :=
  match provider.scramSession with
  | none => .error (illegalState kScramErrOther)
  | some session =>
    match checkClientFinal crypto session message with
    | .error failure => .error failure
    | .ok proof =>
      match provider.lookupScram session.username algorithm with
      | none => .error (authenticationFailed kScramErrUnknownUser)
      | some credential => verifyClientProof crypto credential algorithm session.authMessage message proof

def scramUsername : Bytes :=
  match provider.scramSession with
  | none => []
  | some session => session.username

end SaslProvider

end TorrentMq.Security
