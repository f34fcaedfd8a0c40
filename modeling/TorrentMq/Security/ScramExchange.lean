import Mathlib.Data.List.GetD
import TorrentMq.Bytes.Base64
import TorrentMq.Security.Scram

/-!
# SCRAM exchange

A client that computes its proof as the protocol says, and when the server
accepts it.
-/

set_option autoImplicit false

namespace TorrentMq.Security

open Bytes List OrderedMap SaslProvider

inductive Gs2Header where
  | plain
  | authzid (name : Bytes) (noSeparator : kScramAttrSep ∉ name)
  | tlsServerEndPoint (bindingData : Bytes)
  deriving DecidableEq

def Gs2Header.bytes : Gs2Header → Bytes
  | .plain => text "n,,"
  | .authzid name _ => text "n,a=" ++ name ++ [kScramAttrSep]
  | .tlsServerEndPoint _ => text "p=tls-server-end-point,,"

def Gs2Header.cbindInput : Gs2Header → Bytes
  | .tlsServerEndPoint bindingData => Gs2Header.bytes (.tlsServerEndPoint bindingData) ++ bindingData
  | header => header.bytes

/-!
## A client
-/

structure ScramClient where
  username : Bytes
  password : Bytes
  clientNonce : Bytes
  header : Gs2Header
  algorithm : HashAlgorithm
  username_ne_nil : username ≠ []
  separator_notMem_username : kScramAttrSep ∉ username
  equals_notMem_username : 61 ∉ username
  clientNonce_ne_nil : clientNonce ≠ []
  separator_notMem_clientNonce : kScramAttrSep ∉ clientNonce
  fits : clientNonce.length + kNonceLength ≤ kMaxCombinedNonceLength

namespace ScramClient

variable (crypto : Crypto) (client : ScramClient)

def clientFirstBare : Bytes :=
  kAttrUsername ++ client.username ++ kScramAttrSep :: (kAttrNonce ++ client.clientNonce)

def clientFirst : Bytes := client.header.bytes ++ client.clientFirstBare

def combinedNonce (random : Nat → UInt8) : Bytes :=
  client.clientNonce ++ generateNonce random

def withoutProof (combinedNonce : Bytes) : Bytes :=
  kAttrCbind ++ crypto.base64Encode client.header.cbindInput ++ kScramAttrSep :: (kAttrNonce ++ combinedNonce)

def authMessage (first combinedNonce : Bytes) : Bytes :=
  client.clientFirstBare ++ kScramAttrSep :: (first ++ kScramAttrSep :: client.withoutProof crypto combinedNonce)

def proof (keys : ScramKeys) (message : Bytes) : Bytes :=
  xorBytes keys.clientKey (crypto.hmac client.algorithm keys.storedKey message)

def clientFinal (combinedNonce proof : Bytes) : Bytes :=
  client.withoutProof crypto combinedNonce ++ kScramAttrSep :: (kAttrProof ++ crypto.base64Encode proof)

def verifier (keys : ScramKeys) (message : Bytes) : Bytes :=
  kAttrVerifier ++ crypto.base64Encode (crypto.hmac client.algorithm keys.serverKey message)

def answer (first : Bytes) : Option (Bytes × Bytes) :=
  let attrs := parseScramAttrs first
  match attrs.find? 114, (attrs.find? 115).bind crypto.base64Decode, attrs.find? 105 with
  | some combinedNonce, some salt, some iterations =>
    match crypto.pbkdf2 client.algorithm client.password salt (readDecimal iterations) with
    | none => none
    | some salted =>
      let keys := deriveScramKeys crypto client.algorithm salted
      let message := client.authMessage crypto first combinedNonce
      some (client.clientFinal crypto combinedNonce (client.proof crypto keys message),
        client.verifier crypto keys message)
  | _, _, _ => none

/-- The server answers both messages, and the second one as the client expects. -/
def AcceptedBy (provider : SaslProvider) (random : Nat → UInt8) : Prop :=
  ∃ served first final expected,
    provider.scramServerFirstImpl crypto client.clientFirst client.algorithm random = (served, .ok first) ∧
      client.answer crypto first = some (final, expected) ∧
      served.scramServerFinalImpl crypto final client.algorithm = .ok expected

def session (channelBinding : ChannelBinding)
    (credential : StoredScramCredential) (random : Nat → UInt8) : ScramSessionState where
  username := client.username
  nonce := client.combinedNonce random
  salt := credential.salt
  iterations := credential.iterations
  serverKey := credential.serverKey
  authMessage := client.clientFirst ++ kScramAttrSep :: serverFirst crypto credential (client.combinedNonce random)
  channelBinding := channelBinding
  hashAlgorithm := client.algorithm

end ScramClient

/-!
## Messages
-/

section

variable {front : Bytes} (absent : kScramAttrSep ∉ front) (attrs : OrderedMap UInt8 Bytes)

include absent

theorem parseScramAttrs_append {rest : Bytes} :
    ((front ++ kScramAttrSep :: rest).splitOn kScramAttrSep).foldl parseScramAttr attrs =
      (rest.splitOn kScramAttrSep).foldl parseScramAttr (parseScramAttr attrs front) := by
  rw [splitOn_append_cons_self_of_not_mem absent, foldl_cons]

theorem parseScramAttrs_last :
    (front.splitOn kScramAttrSep).foldl parseScramAttr attrs = parseScramAttr attrs front := by
  rw [splitOn_eq_singleton absent]
  rfl

end

theorem separator_notMem_attribute {name value : Bytes} (short : kScramAttrSep ∉ name)
    (absent : kScramAttrSep ∉ value) : kScramAttrSep ∉ name ++ value := by
  rw [mem_append, not_or]
  exact ⟨short, absent⟩

theorem separator_notMem_decimal (value : Nat) : kScramAttrSep ∉ decimal value := by
  intro member
  exact absurd (mem_decimal member).1 (by decide)

theorem length_generateNonce (random : Nat → UInt8) : (generateNonce random).length = kNonceLength := by
  simp [generateNonce]

theorem separator_notMem_generateNonce (random : Nat → UInt8) : kScramAttrSep ∉ generateNonce random := by
  intro member
  obtain ⟨index, -, same⟩ := mem_map.mp member
  have below : (random index).toNat % kAlpha.length < kAlpha.length := Nat.mod_lt _ (by decide)
  rw [getD_eq_getElem _ _ below] at same
  have letters : kScramAttrSep ∉ kAlpha := by decide
  exact letters (same ▸ getElem_mem below)

variable {crypto : Crypto} {client : ScramClient} {provider : SaslProvider} {salt salted : Bytes}
  {iterations : Nat} {random : Nat → UInt8} {credential : StoredScramCredential} {combinedNonce first : Bytes}

namespace ScramClient

theorem parse_clientFirstBare :
    (parseScramAttrs client.clientFirstBare).find? 110 = some client.username ∧
      (parseScramAttrs client.clientFirstBare).find? 114 = some client.clientNonce := by
  have attrs : parseScramAttrs client.clientFirstBare =
      (OrderedMap.empty.insert 110 client.username).insert 114 client.clientNonce := by
    unfold parseScramAttrs clientFirstBare
    rw [parseScramAttrs_append (separator_notMem_attribute (by decide) client.separator_notMem_username),
      parseScramAttrs_last (separator_notMem_attribute (by decide) client.separator_notMem_clientNonce)]
    rfl
  rw [attrs]
  constructor
  · rw [find?_insert, if_neg (by decide), find?_insert, if_pos rfl]
  · rw [find?_insert, if_pos rfl]

variable {message : Bytes}

theorem clientAttributes_header {flag name bare : Bytes} (noFlag : kScramAttrSep ∉ flag)
    (noName : kScramAttrSep ∉ name) (shape : message = flag ++ kScramAttrSep :: (name ++ kScramAttrSep :: bare))
    (again : message.take 3 = text "n,a" →
      findFrom message kScramAttrSep 3 = some (flag ++ kScramAttrSep :: name).length) :
    clientAttributes message = some bare := by
  have grouped : message = (flag ++ kScramAttrSep :: name) ++ kScramAttrSep :: bare := by simp [shape]
  have one : findFrom message kScramAttrSep 0 = some flag.length := by
    have found := @findFrom_append_cons kScramAttrSep flag (name ++ kScramAttrSep :: bare) [] noFlag
    simpa [shape] using found
  have two : findFrom message kScramAttrSep (flag.length + 1) = some (flag ++ kScramAttrSep :: name).length := by
    have found := @findFrom_append_cons kScramAttrSep name bare (flag ++ [kScramAttrSep]) noName
    simpa [shape, Nat.add_assoc, Nat.add_comm, Nat.add_left_comm] using found
  have long : ¬flag.length + 2 > message.length := by
    simp only [shape, length_append, length_cons]
    omega
  have chosen : (if message.length > 3 ∧ message.take 3 = text "n,a" then
      (findFrom message kScramAttrSep 3).getD (flag ++ kScramAttrSep :: name).length
        else (flag ++ kScramAttrSep :: name).length) = (flag ++ kScramAttrSep :: name).length := by
    split
    next taken => rw [again taken.2, Option.getD_some]
    next => rfl
  have here : message[(flag ++ kScramAttrSep :: name).length]? = some kScramAttrSep := by
    rw [grouped]
    simp
  have beyond : message.drop ((flag ++ kScramAttrSep :: name).length + 1) = bare := by
    rw [grouped, ← drop_drop, drop_left]
    rfl
  unfold clientAttributes
  rw [one]
  dsimp only
  rw [if_neg long, two]
  dsimp only
  rw [chosen, if_pos here, beyond]

theorem clientAttributes_clientFirst : clientAttributes client.clientFirst = some client.clientFirstBare := by
  unfold clientFirst
  generalize client.clientFirstBare = bare
  cases client.header with
  | plain => exact @clientAttributes_header _ (text "n") [] bare (by decide) (by decide) rfl nofun
  | authzid name absent =>
    have split : (Gs2Header.authzid name absent).bytes ++ bare =
        text "n" ++ kScramAttrSep :: (text "a=" ++ name ++ kScramAttrSep :: bare) := by
      simp [Gs2Header.bytes, show text "n,a=" = text "n" ++ kScramAttrSep :: text "a=" from rfl]
    refine clientAttributes_header (by decide) (separator_notMem_attribute (by decide) absent) split ?_
    intro _
    have found := @findFrom_append_cons kScramAttrSep (text "=" ++ name) bare (text "n,a")
      (separator_notMem_attribute (by decide) absent)
    have lengths : (text "n,a").length + (text "=" ++ name).length =
        (text "n" ++ kScramAttrSep :: (text "a=" ++ name)).length := by
      simp only [length_append, length_cons, show (text "n,a").length = 3 from rfl,
        show (text "=").length = 1 from rfl, show (text "n").length = 1 from rfl,
        show (text "a=").length = 2 from rfl]
      omega
    rw [split, ← lengths]
    exact found
  | tlsServerEndPoint bindingData =>
    exact @clientAttributes_header _ (text "p=tls-server-end-point") [] bare (by decide) (by decide) rfl nofun

theorem parseClientFirst_clientFirst :
    parseClientFirst client.clientFirst = .ok (client.username, client.clientNonce) := by
  obtain ⟨username, nonce⟩ := @parse_clientFirstBare client
  have named : ¬(client.username.isEmpty = true ∨ client.clientNonce.isEmpty = true) := by
    simp [client.username_ne_nil, client.clientNonce_ne_nil]
  have allowed : ¬(kScramAttrSep ∈ client.username ∨ 61 ∈ client.username) := by
    simp [client.separator_notMem_username, client.equals_notMem_username]
  unfold parseClientFirst
  rw [clientAttributes_clientFirst]
  dsimp only
  rw [username, nonce]
  dsimp only
  rw [if_neg named, if_neg allowed]

theorem separator_notMem_combinedNonce : kScramAttrSep ∉ client.combinedNonce random :=
  separator_notMem_attribute client.separator_notMem_clientNonce (separator_notMem_generateNonce random)

theorem scramServerFirstImpl_clientFirst
    (stored : provider.lookupScram client.username client.algorithm = some credential) :
    provider.scramServerFirstImpl crypto client.clientFirst client.algorithm random =
      ({ provider with
          scramSession := some (client.session crypto provider.defaultChannelBinding credential random) },
        .ok (serverFirst crypto credential (client.combinedNonce random))) := by
  have fits : ¬(client.clientNonce ++ generateNonce random).length > kMaxCombinedNonceLength := by
    rw [length_append, length_generateNonce]
    exact not_lt.mpr client.fits
  unfold scramServerFirstImpl
  rw [parseClientFirst_clientFirst]
  dsimp only
  rw [stored]
  dsimp only [startSession]
  rw [if_neg fits]
  rfl

theorem parse_serverFirst (absent : kScramAttrSep ∉ combinedNonce) :
    (parseScramAttrs (serverFirst crypto credential combinedNonce)).find? 114 = some combinedNonce ∧
      (parseScramAttrs (serverFirst crypto credential combinedNonce)).find? 115 =
        some (crypto.base64Encode credential.salt) ∧
      (parseScramAttrs (serverFirst crypto credential combinedNonce)).find? 105 =
        some (decimal credential.iterations) := by
  have attrs : parseScramAttrs (serverFirst crypto credential combinedNonce) =
      ((OrderedMap.empty.insert 114 combinedNonce).insert 115 (crypto.base64Encode credential.salt)).insert 105
        (decimal credential.iterations) := by
    unfold parseScramAttrs serverFirst
    rw [parseScramAttrs_append (separator_notMem_attribute (by decide) absent),
      parseScramAttrs_append (separator_notMem_attribute (by decide) (crypto.separator_notMem_base64Encode _)),
      parseScramAttrs_last (separator_notMem_attribute (by decide) (separator_notMem_decimal _))]
    rfl
  rw [attrs]
  refine ⟨?_, ?_, ?_⟩
  · rw [find?_insert, if_neg (by decide), find?_insert, if_neg (by decide),
      find?_insert, if_pos rfl]
  · rw [find?_insert, if_neg (by decide), find?_insert, if_pos rfl]
  · rw [find?_insert, if_pos rfl]

theorem answer_serverFirst (derived : crypto.pbkdf2 client.algorithm client.password credential.salt
    credential.iterations = some salted) (absent : kScramAttrSep ∉ combinedNonce) :
    client.answer crypto (serverFirst crypto credential combinedNonce) =
      some (client.clientFinal crypto combinedNonce (client.proof crypto
          (deriveScramKeys crypto client.algorithm salted)
          (client.authMessage crypto (serverFirst crypto credential combinedNonce) combinedNonce)),
        client.verifier crypto (deriveScramKeys crypto client.algorithm salted)
          (client.authMessage crypto (serverFirst crypto credential combinedNonce) combinedNonce)) := by
  obtain ⟨nonce, salt, iterations⟩ := @parse_serverFirst crypto credential combinedNonce absent
  unfold answer
  dsimp only
  rw [nonce, salt, iterations, Option.bind_some, crypto.base64Decode_base64Encode]
  dsimp only
  rw [readDecimal_decimal, derived]

theorem parse_clientFinal {proof : Bytes} (absent : kScramAttrSep ∉ combinedNonce) :
    (parseScramAttrs (client.clientFinal crypto combinedNonce proof)).find? 99 =
        some (crypto.base64Encode client.header.cbindInput) ∧
      (parseScramAttrs (client.clientFinal crypto combinedNonce proof)).find? 114 = some combinedNonce ∧
      (parseScramAttrs (client.clientFinal crypto combinedNonce proof)).find? 112 =
        some (crypto.base64Encode proof) := by
  have attrs : parseScramAttrs (client.clientFinal crypto combinedNonce proof) =
      ((OrderedMap.empty.insert 99 (crypto.base64Encode client.header.cbindInput)).insert 114 combinedNonce).insert 112
        (crypto.base64Encode proof) := by
    unfold parseScramAttrs clientFinal withoutProof
    rw [append_assoc, cons_append,
      parseScramAttrs_append (separator_notMem_attribute (by decide) (crypto.separator_notMem_base64Encode _)),
      parseScramAttrs_append (separator_notMem_attribute (by decide) absent),
      parseScramAttrs_last (separator_notMem_attribute (by decide) (crypto.separator_notMem_base64Encode _))]
    rfl
  rw [attrs]
  refine ⟨?_, ?_, ?_⟩
  · rw [find?_insert, if_neg (by decide), find?_insert, if_neg (by decide),
      find?_insert, if_pos rfl]
  · rw [find?_insert, if_neg (by decide), find?_insert, if_pos rfl]
  · rw [find?_insert, if_pos rfl]

/-- The header that a channel binding at the server does not let through. -/
def Bound (client : ScramClient) (channelBinding : ChannelBinding) : Prop :=
  channelBinding.type = .tlsServerEnd ∧ ∃ name absent, client.header = .authzid name absent

variable {session : ScramSessionState}

theorem checkClientFinal_clientFinal {proof : Bytes}
    (nonce : session.nonce = combinedNonce) (absent : kScramAttrSep ∉ combinedNonce) :
    (client.Bound session.channelBinding → checkClientFinal crypto session (client.clientFinal crypto combinedNonce proof) =
        .error (authenticationFailed kScramErrChannelBindings)) ∧
      (¬client.Bound session.channelBinding →
        checkClientFinal crypto session (client.clientFinal crypto combinedNonce proof) =
          .ok (crypto.base64Encode proof)) := by
  obtain ⟨cbind, own, proofs⟩ := @parse_clientFinal crypto client combinedNonce proof absent
  have bound : (session.channelBinding.type = .tlsServerEnd ∧
      ¬text "p=tls-server-end-point" <+: client.header.cbindInput ∧ ¬text "n,," <+: client.header.cbindInput) ↔
      client.Bound session.channelBinding := by
    unfold Bound
    refine and_congr_right fun _ => ?_
    cases client.header with
    | plain => exact iff_of_false (fun held => held.2 (prefix_refl _)) nofun
    | authzid name absent =>
      refine iff_of_true ⟨?_, ?_⟩ ⟨name, absent, rfl⟩
      · intro starts
        cases (cons_prefix_cons.mp starts).1
      · intro starts
        cases (cons_prefix_cons.mp (cons_prefix_cons.mp (cons_prefix_cons.mp starts).2).2).1
    | tlsServerEndPoint bindingData =>
      refine iff_of_false ?_ nofun
      intro held
      apply held.1
      have header : text "p=tls-server-end-point,," = text "p=tls-server-end-point" ++ text ",," := rfl
      rw [Gs2Header.cbindInput, Gs2Header.bytes, header, append_assoc]
      exact prefix_append _ _
  unfold checkClientFinal
  dsimp only
  rw [cbind, own, proofs]
  dsimp only
  rw [if_neg (not_not.mpr nonce.symm), crypto.base64Decode_base64Encode]
  dsimp only
  constructor
  · intro held
    rw [if_pos (bound.mpr held)]
  · intro free
    rw [if_neg (mt bound.mp free)]

theorem clientFinalWithoutProof_clientFinal {proof : Bytes} (absent : kScramAttrSep ∉ combinedNonce) :
    clientFinalWithoutProof (client.clientFinal crypto combinedNonce proof) =
      client.withoutProof crypto combinedNonce := by
  have pattern : text ",p=" = kScramAttrSep :: kAttrProof := rfl
  have noCbind : kScramAttrSep ∉ kAttrCbind ++ crypto.base64Encode client.header.cbindInput :=
    separator_notMem_attribute (by decide) (crypto.separator_notMem_base64Encode _)
  have noNonce : kScramAttrSep ∉ kAttrNonce ++ combinedNonce := separator_notMem_attribute (by decide) absent
  have found : findText (text ",p=") (client.clientFinal crypto combinedNonce proof) =
      some (client.withoutProof crypto combinedNonce).length := by
    have other : (kScramAttrSep :: kAttrProof).isPrefixOf (kScramAttrSep :: (kAttrNonce ++ combinedNonce ++
        (kScramAttrSep :: kAttrProof ++ crypto.base64Encode proof))) = false := rfl
    have grouped : client.clientFinal crypto combinedNonce proof =
        (kAttrCbind ++ crypto.base64Encode client.header.cbindInput) ++ kScramAttrSep :: (kAttrNonce ++ combinedNonce ++
          (kScramAttrSep :: kAttrProof ++ crypto.base64Encode proof)) := by
      simp [clientFinal, withoutProof]
    rw [grouped, pattern, findText_append noCbind, findText, if_neg (by rw [other]; decide), findText_append noNonce,
      findText_prefix]
    simp [withoutProof, Nat.add_comm, Nat.add_left_comm]
  unfold clientFinalWithoutProof
  rw [found]
  exact take_left

theorem stripGs2Header_append {skipped front rest : Bytes} (three : skipped.length = 3)
    (absent : kScramAttrSep ∉ front) (more : rest ≠ []) :
    stripGs2Header (skipped ++ (front ++ kScramAttrSep :: rest)) = rest := by
  have found := @findFrom_append_cons kScramAttrSep front rest skipped absent
  have positive := length_pos_iff.mpr more
  have grouped : skipped ++ (front ++ kScramAttrSep :: rest) = (skipped ++ front) ++ kScramAttrSep :: rest := by simp
  rw [three] at found
  unfold stripGs2Header
  rw [found]
  dsimp only
  rw [if_pos (by simp only [length_append, length_cons]; omega), grouped,
    show 3 + front.length + 1 = (skipped ++ front).length + 1 by rw [length_append, three], ← drop_drop,
    drop_left]
  rfl

def serverAuthMessage (crypto : Crypto) (client : ScramClient) (first combinedNonce : Bytes) : Bytes :=
  match client.header with
  | .plain => kAttrNonce ++ client.clientNonce ++ kScramAttrSep :: (first ++ kScramAttrSep ::
      client.withoutProof crypto combinedNonce)
  | .authzid _ _ => client.authMessage crypto first combinedNonce
  | .tlsServerEndPoint _ => kScramAttrSep :: client.authMessage crypto first combinedNonce

theorem completeAuthMessage_clientFinal {proof : Bytes} (absent : kScramAttrSep ∉ combinedNonce) :
    completeAuthMessage (client.clientFirst ++ kScramAttrSep :: first) (client.clientFinal crypto combinedNonce proof) =
      client.serverAuthMessage crypto first combinedNonce := by
  rw [completeAuthMessage, clientFinalWithoutProof_clientFinal absent]
  unfold serverAuthMessage clientFirst authMessage
  cases client.header with
  | plain =>
    have stripped := @stripGs2Header_append (text "n,,") (kAttrUsername ++ client.username)
      (kAttrNonce ++ client.clientNonce ++ kScramAttrSep :: first) rfl
      (separator_notMem_attribute (by decide) client.separator_notMem_username) (by simp)
    have grouped : Gs2Header.plain.bytes ++ client.clientFirstBare ++ kScramAttrSep :: first =
        text "n,," ++ ((kAttrUsername ++ client.username) ++ kScramAttrSep ::
          (kAttrNonce ++ client.clientNonce ++ kScramAttrSep :: first)) := by
      simp [Gs2Header.bytes, clientFirstBare]
    rw [grouped, stripped]
    simp
  | authzid name noSeparator =>
    have stripped := @stripGs2Header_append (text "n,a") (text "=" ++ name)
      (client.clientFirstBare ++ kScramAttrSep :: first) rfl
      (separator_notMem_attribute (by decide) noSeparator) (by simp)
    have grouped : (Gs2Header.authzid name noSeparator).bytes ++ client.clientFirstBare ++ kScramAttrSep :: first =
        text "n,a" ++ ((text "=" ++ name) ++ kScramAttrSep :: (client.clientFirstBare ++ kScramAttrSep :: first)) := by
      simp [Gs2Header.bytes, show text "n,a=" = text "n,a" ++ text "=" from rfl]
    rw [grouped, stripped]
    simp
  | tlsServerEndPoint bindingData =>
    have stripped := @stripGs2Header_append (text "p=t") (text "ls-server-end-point")
      (kScramAttrSep :: (client.clientFirstBare ++ kScramAttrSep :: first)) rfl (by decide) (by simp)
    have grouped : (Gs2Header.tlsServerEndPoint bindingData).bytes ++ client.clientFirstBare ++ kScramAttrSep :: first =
        text "p=t" ++ (text "ls-server-end-point" ++ kScramAttrSep ::
          (kScramAttrSep :: (client.clientFirstBare ++ kScramAttrSep :: first))) := by
      simp [Gs2Header.bytes,
        show text "p=tls-server-end-point,," = text "p=t" ++ (text "ls-server-end-point" ++ [44, 44]) from rfl,
        kScramAttrSep]
    rw [grouped, stripped]
    simp

/-!
## Proofs
-/

/-- What makes the server accept a proof over another message than its own. -/
def Confused (crypto : Crypto) (keys : ScramKeys) (own other : Bytes) : Prop :=
  crypto.sha256 (xorBytes (xorBytes keys.clientKey (crypto.hmacSha256 keys.storedKey own))
      (crypto.hmacSha256 keys.storedKey other)) = keys.storedKey ∧
    crypto.hmacSha256 keys.serverKey other = crypto.hmacSha256 keys.serverKey own

theorem xorBytes_cancel {left right : Bytes} (same : left.length = right.length) :
    xorBytes (xorBytes left right) right = left := by
  induction left generalizing right with
  | nil => rfl
  | cons byte left ih =>
    cases right with
    | nil => cases same
    | cons other right =>
      have rest := @ih right (Nat.succ.inj same)
      simp only [xorBytes, zipWith_cons_cons] at rest ⊢
      rw [rest, UInt8.xor_assoc, UInt8.xor_self, UInt8.xor_zero]

theorem length_xorBytes {left right : Bytes} (same : left.length = right.length) :
    (xorBytes left right).length = left.length := by
  rw [xorBytes, length_zipWith, same, Nat.min_self]

theorem confused_self (message : Bytes) :
    Confused crypto (deriveScramKeys crypto .sha256 salted) message message := by
  refine ⟨?_, rfl⟩
  rw [xorBytes_cancel]
  · rfl
  · exact (crypto.length_hmacSha256 _ _).trans (crypto.length_hmacSha256 _ _).symm

theorem base64Encode_injective : Function.Injective crypto.base64Encode := by
  intro left right same
  have decoded := congrArg crypto.base64Decode same
  rw [crypto.base64Decode_base64Encode, crypto.base64Decode_base64Encode] at decoded
  exact Option.some.inj decoded

variable {authMessage : Bytes}

theorem length_of_verifyClientProof {algorithm : HashAlgorithm} {proof reply : Bytes}
    (verified : verifyClientProof crypto credential algorithm authMessage message (crypto.base64Encode proof) =
      .ok reply) : proof.length = sha256DigestLength := by
  have size := crypto.length_hmacSha256 credential.storedKey (completeAuthMessage authMessage message)
  unfold verifyClientProof at verified
  rw [crypto.base64Decode_base64Encode] at verified
  dsimp only at verified
  by_cases same : proof.length = sha256DigestLength
  · exact same
  · rw [if_pos fun equal => same (equal.trans size)] at verified
    cases verified

theorem verifyClientProof_sha256 {proof reply : Bytes}
    (length : proof.length = sha256DigestLength) :
    verifyClientProof crypto credential .sha256 authMessage message (crypto.base64Encode proof) = .ok reply ↔
      crypto.sha256 (xorBytes proof (crypto.hmacSha256 credential.storedKey (completeAuthMessage authMessage message))) =
          credential.storedKey.take sha256DigestLength ∧
        reply = kAttrVerifier ++ crypto.base64Encode
          (crypto.hmacSha256 credential.serverKey (completeAuthMessage authMessage message)) := by
  have size := crypto.length_hmacSha256 credential.storedKey (completeAuthMessage authMessage message)
  unfold verifyClientProof
  rw [crypto.base64Decode_base64Encode]
  dsimp only
  rw [if_neg (not_not.mpr (length.trans size.symm))]
  split
  next refused => exact iff_of_false nofun fun held => refused held.1
  next accepted =>
    rw [Except.ok.injEq, and_iff_right (not_not.mp accepted)]
    exact eq_comm

theorem length_proof (own : Bytes) : (client.proof crypto (deriveScramKeys crypto client.algorithm salted) own).length =
    match client.algorithm with
    | .sha256 => sha256DigestLength
    | .sha512 => sha512DigestLength := by
  unfold proof deriveScramKeys
  cases client.algorithm with
  | sha256 =>
    rw [length_xorBytes]
    · exact crypto.length_hmacSha256 _ _
    · exact (crypto.length_hmacSha256 _ _).trans (crypto.length_hmacSha256 _ _).symm
  | sha512 =>
    rw [length_xorBytes]
    · exact crypto.length_hmacSha512 _ _
    · exact (crypto.length_hmacSha512 _ _).trans (crypto.length_hmacSha512 _ _).symm

theorem verifies_iff_confused (short : client.algorithm = .sha256) {own other : Bytes}
    (complete : completeAuthMessage authMessage message = other) :
    verifyClientProof crypto (scramCredential client.username client.algorithm salt iterations
        (deriveScramKeys crypto client.algorithm salted)) client.algorithm authMessage message
        (crypto.base64Encode (client.proof crypto (deriveScramKeys crypto client.algorithm salted) own)) =
      .ok (client.verifier crypto (deriveScramKeys crypto client.algorithm salted) own) ↔
      Confused crypto (deriveScramKeys crypto client.algorithm salted) own other := by
  have length := @length_proof crypto client salted own
  have whole : (deriveScramKeys crypto .sha256 salted).storedKey.take sha256DigestLength =
      (deriveScramKeys crypto .sha256 salted).storedKey :=
    take_of_length_le (crypto.length_sha256 _).le
  unfold verifier Confused
  rw [short] at length ⊢
  rw [verifyClientProof_sha256 length, complete, append_cancel_left_eq, base64Encode_injective.eq_iff]
  unfold proof scramCredential
  rw [short, whole]
  exact and_congr_right fun _ => eq_comm

/-- The hash is the shorter one, and the header has a name that the channel binding lets through, or the two
messages that are taken for one have the same hashes. -/
def Suits (crypto : Crypto) (client : ScramClient) (channelBinding : ChannelBinding) (keys : ScramKeys)
    (first combinedNonce : Bytes) : Prop :=
  client.algorithm = .sha256 ∧
    match client.header with
    | .authzid _ _ => channelBinding.type ≠ .tlsServerEnd
    | .plain => Confused crypto keys (client.authMessage crypto first combinedNonce)
        (kAttrNonce ++ client.clientNonce ++ kScramAttrSep :: (first ++ kScramAttrSep ::
          client.withoutProof crypto combinedNonce))
    | .tlsServerEndPoint _ => Confused crypto keys (client.authMessage crypto first combinedNonce)
        (kScramAttrSep :: client.authMessage crypto first combinedNonce)

theorem acceptedBy_iff_final
    (derived : crypto.pbkdf2 client.algorithm client.password credential.salt credential.iterations = some salted)
    (stored : provider.lookupScram client.username client.algorithm = some credential) :
    client.AcceptedBy crypto provider random ↔
      let first := serverFirst crypto credential (client.combinedNonce random)
      let keys := deriveScramKeys crypto client.algorithm salted
      let message := client.authMessage crypto first (client.combinedNonce random)
      scramServerFinalImpl crypto
        { provider with
          scramSession := some (client.session crypto provider.defaultChannelBinding credential random) }
        (client.clientFinal crypto (client.combinedNonce random) (client.proof crypto keys message)) client.algorithm =
          .ok (client.verifier crypto keys message) := by
  have served := @scramServerFirstImpl_clientFirst crypto client provider random credential stored
  have answered := answer_serverFirst derived (@separator_notMem_combinedNonce client random)
  dsimp only
  constructor
  · intro accepted
    obtain ⟨after, first, final, expected, sent, replied, verified⟩ := accepted
    rw [served] at sent
    cases sent
    rw [answered] at replied
    cases replied
    exact verified
  · intro verified
    exact ⟨_, _, _, _, served, answered, verified⟩

theorem scramServerFinalImpl_of_checked {algorithm : HashAlgorithm}
    {proof : Bytes} (checked : checkClientFinal crypto session message = .ok proof)
    (found : provider.lookupScram session.username algorithm = some credential) :
    scramServerFinalImpl crypto { provider with scramSession := some session } message algorithm =
      verifyClientProof crypto credential algorithm session.authMessage message proof := by
  have same : lookupScram { provider with scramSession := some session } session.username algorithm =
      some credential := found
  unfold scramServerFinalImpl
  dsimp only
  rw [checked]
  dsimp only
  rw [same]

theorem scramServerFinalImpl_of_refused {algorithm : HashAlgorithm} {failure : Failure}
    (refused : checkClientFinal crypto session message = .error failure) :
    scramServerFinalImpl crypto { provider with scramSession := some session } message algorithm =
      .error failure := by
  unfold scramServerFinalImpl
  dsimp only
  rw [refused]

/-- The credential of a user is the one that was made from the password. -/
structure StoredIn (crypto : Crypto) (client : ScramClient) (provider : SaslProvider) (salt : Bytes)
    (iterations : Nat) (salted : Bytes) : Prop where
  derived : crypto.pbkdf2 client.algorithm client.password salt iterations = some salted
  found : provider.lookupScram client.username client.algorithm = some (scramCredential client.username
    client.algorithm salt iterations (deriveScramKeys crypto client.algorithm salted))

theorem storedIn_store
    (derived : crypto.pbkdf2 client.algorithm client.password salt (provider.scramIterations client.algorithm) =
      some salted) :
    client.StoredIn crypto
      (provider.storeScramCredential crypto client.username client.password client.algorithm salt) salt
      (provider.scramIterations client.algorithm) salted := by
  refine ⟨derived, ?_⟩
  cases algorithm : client.algorithm with
  | sha256 | sha512 =>
    rw [algorithm] at derived
    simp only [scramIterations] at derived ⊢
    simp only [storeScramCredential, derived, lookupScram]
    rw [find?_insert, if_pos rfl]
    rfl

/-- The server accepts a client exactly if the client suits it. -/
theorem acceptedBy_iff_suits (stored : client.StoredIn crypto provider salt iterations salted) :
    client.AcceptedBy crypto provider random ↔
      client.Suits crypto provider.defaultChannelBinding (deriveScramKeys crypto client.algorithm salted)
        (serverFirst crypto (scramCredential client.username client.algorithm salt iterations
          (deriveScramKeys crypto client.algorithm salted)) (client.combinedNonce random))
        (client.combinedNonce random) := by
  refine (acceptedBy_iff_final stored.derived stored.found).trans ?_
  dsimp only
  obtain ⟨refused, passed⟩ := @checkClientFinal_clientFinal crypto client (client.combinedNonce random)
    (client.session crypto provider.defaultChannelBinding (scramCredential client.username client.algorithm salt
      iterations (deriveScramKeys crypto client.algorithm salted)) random)
    (client.proof crypto (deriveScramKeys crypto client.algorithm salted) (client.authMessage crypto
      (serverFirst crypto (scramCredential client.username client.algorithm salt iterations
        (deriveScramKeys crypto client.algorithm salted)) (client.combinedNonce random))
      (client.combinedNonce random))) rfl separator_notMem_combinedNonce
  by_cases bound : client.Bound provider.defaultChannelBinding
  · rw [scramServerFinalImpl_of_refused (refused bound)]
    refine iff_of_false nofun ?_
    intro suits
    obtain ⟨type, name, absent, header⟩ := bound
    have through := suits.2
    rw [header] at through
    exact through type
  · rw [scramServerFinalImpl_of_checked (passed bound) stored.found]
    unfold Suits
    by_cases short : client.algorithm = .sha256
    · rw [and_iff_right short]
      refine (verifies_iff_confused short (completeAuthMessage_clientFinal separator_notMem_combinedNonce)).trans ?_
      unfold serverAuthMessage
      cases header : client.header with
      | plain => exact Iff.rfl
      | tlsServerEndPoint bindingData => exact Iff.rfl
      | authzid name absent =>
        refine iff_of_true (short ▸ confused_self _) ?_
        intro type
        exact bound ⟨type, name, absent, header⟩
    · refine iff_of_false ?_ fun held => short held.1
      intro verified
      have length := length_of_verifyClientProof verified
      rw [length_proof] at length
      cases long : client.algorithm with
      | sha256 => exact short long
      | sha512 =>
        rw [long] at length
        exact absurd length (by decide)

end ScramClient

/-!
## A recorded exchange
-/

def bigEndian (length value : Nat) : Bytes :=
  (List.range length).map fun index => UInt8.ofNat (value >>> (8 * (length - 1 - index)))

theorem length_bigEndian (length value : Nat) : (bigEndian length value).length = length := by
  simp [bigEndian]

def recordedSalt : Bytes := bigEndian 16 0x5b6d99689d12358eeca04b141236fa81

def recordedPassword : Bytes :=
  bigEndian 32 0xadb7579b9d15e0093d06bf7ce3e2f195108adc80fdad9bc2c8f8b55a15bd6705

def recordedKeys : ScramKeys where
  clientKey := bigEndian 32 0xf47afcbf4c542d63e1ef4a3e48f36d1bbd1466063c8900064c32efdbfcb55509
  storedKey := bigEndian 32 0x88dc210ff525a0c8539fa802e2f08c033bc80d698ae1173e752e6c730e341f60
  serverKey := bigEndian 32 0x37f74c841c631cd1229d0f24fddb410268051a1c49d441143a93bf447d66d008

def recordedTail (cbind : String) : Bytes :=
  text "r=rOprNGfwEbeRWgbNEkqO,r=rOprNGfwEbeRWgbNEkqOabcdefghijklmnopqrstuvwx,s=W22ZaJ0SNY7soEsUEjb6gQ==,i=15000,c=" ++
    text cbind ++ text ",r=rOprNGfwEbeRWgbNEkqOabcdefghijklmnopqrstuvwx"

def recordedHmacs : List ((Bytes × Bytes) × Nat) :=
  [((recordedPassword, text "Client Key"), 0xf47afcbf4c542d63e1ef4a3e48f36d1bbd1466063c8900064c32efdbfcb55509),
    ((recordedPassword, text "Server Key"), 0x37f74c841c631cd1229d0f24fddb410268051a1c49d441143a93bf447d66d008),
    ((recordedKeys.storedKey, text "n=user," ++ recordedTail "bixhPWFkbWluLA=="),
      0xbc98932658947afe1c027a2e89c684203802a8c13a5ea22d7ac6520e1024acdc),
    ((recordedKeys.serverKey, text "n=user," ++ recordedTail "bixhPWFkbWluLA=="),
      0x3983fc89dfabc4fac7e8a36db3094e0a258145d45370b9866865077192aafb2d),
    ((recordedKeys.storedKey, text "n=user," ++ recordedTail "biws"),
      0x5f95273af2ff3571e69948e0147809073c1aacc1c83bcdc11c5569ab0ed85daf),
    ((recordedKeys.storedKey, recordedTail "biws"),
      0xf4e3ab466cc5dc2a7962edd3f6ec28f8cb19d78a13b1339ff2f80e24d229d4eb),
    ((recordedKeys.serverKey, text "n=user," ++ recordedTail "biws"),
      0x046ca4565acd3d768aabd2052438d92e5638bb814d80890bd20af0fbbb9b7b1e)]

def recordedDigests : List (Bytes × Nat) :=
  [(recordedKeys.clientKey, 0x88dc210ff525a0c8539fa802e2f08c033bc80d698ae1173e752e6c730e341f60),
    (bigEndian 32 0x5f0c70c3d26ec4387e14ef0daa674ce44a171d4de703fe58a29f88542044dc4d,
      0xdd4173649af5423823a2df9d0a185bdb5646a1438a7cc83cd2100c6fd38b6131)]

def recordedCrypto : Crypto where
  hmacSha256 key message := bigEndian 32 (((recordedHmacs.find? fun entry => entry.1 = (key, message)).map (·.2)).getD 0)
  hmacSha512 _ _ := bigEndian 64 0
  sha256 message := bigEndian 32 (((recordedDigests.find? fun entry => entry.1 = message).map (·.2)).getD 0)
  sha512 _ := bigEndian 64 0
  pbkdf2 algorithm password salt iterations :=
    if algorithm = .sha256 ∧ password = text "pencil" ∧ salt = recordedSalt ∧ iterations = kDefaultIterationsSHA256 then
      some recordedPassword
    else none
  base64Encode := Base64.encode
  base64Decode := Base64.decode
  length_hmacSha256 _ _ := length_bigEndian _ _
  length_hmacSha512 _ _ := length_bigEndian _ _
  length_sha256 _ := length_bigEndian _ _
  length_sha512 _ := length_bigEndian _ _
  base64Decode_base64Encode := Base64.decode_encode
  separator_notMem_base64Encode := by
    intro bytes member
    rcases Base64.mem_encode bytes member with padding | letter
    · exact absurd padding (by decide)
    · exact absurd letter (by decide)

def recordedClient (header : Gs2Header) : ScramClient where
  username := text "user"
  password := text "pencil"
  clientNonce := text "rOprNGfwEbeRWgbNEkqO"
  header := header
  algorithm := .sha256
  username_ne_nil := by decide
  separator_notMem_username := by decide
  equals_notMem_username := by decide
  clientNonce_ne_nil := by decide
  separator_notMem_clientNonce := by decide
  fits := by decide

def recordedProvider : SaslProvider :=
  storeScramCredential recordedCrypto {} (text "user") (text "pencil") .sha256 recordedSalt

theorem recordedClient_storedIn (header : Gs2Header) :
    (recordedClient header).StoredIn recordedCrypto recordedProvider recordedSalt kDefaultIterationsSHA256
      recordedPassword := by
  have derived : recordedCrypto.pbkdf2 .sha256 (text "pencil") recordedSalt kDefaultIterationsSHA256 =
      some recordedPassword := by decide +kernel
  exact @ScramClient.storedIn_store recordedCrypto (recordedClient header) {} recordedSalt recordedPassword derived

namespace ScramClient

/-- With a name in its header the recorded client is accepted. -/
theorem acceptedBy_recordedProvider :
    (recordedClient (.authzid (text "admin") (by decide))).AcceptedBy recordedCrypto recordedProvider UInt8.ofNat :=
  (acceptedBy_iff_suits (recordedClient_storedIn _)).mpr ⟨rfl, nofun⟩

/-- Without one it is not, as the server cuts the name of the user off. -/
theorem plainClient_not_acceptedBy :
    ¬(recordedClient .plain).AcceptedBy recordedCrypto recordedProvider UInt8.ofNat := by
  have stored := recordedClient_storedIn .plain
  rw [acceptedBy_iff_final stored.derived stored.found]
  decide +kernel

end ScramClient

end TorrentMq.Security
