import TorrentMq.Security.AuthManager
import TorrentMq.Security.ScramExchange

/-! When the user that a call is registered as is the one it was verified as, in every interleaving. -/

set_option autoImplicit false

namespace TorrentMq.Security.Authentication

open Bytes Runs Interleaving AuthManager

variable {crypto : Crypto}

/-- A final message passes the check with the stored key of a user. -/
def VerifiedAs (crypto : Crypto) (manager : AuthManager) (message user : Bytes) : Prop :=
  ∃ algorithm credential authMessage proof reply, manager.sasl.lookupScram user algorithm = some credential ∧
    (parseScramAttrs message).find? 112 = some proof ∧
      verifyClientProof crypto credential algorithm authMessage message proof = .ok reply

/-- A call that registers a session has verified its message with the stored key of the user it registers. -/
def Owned (crypto : Crypto) (pool : Pool) : Prop :=
  ∀ index mechanism message verified principal,
    pool.At index (.registerSession mechanism message verified principal) →
      verified = principal ∧ VerifiedAs crypto pool.shared message principal

def ReadsOwn (pool : Pool) : Event → Prop
  | .start _ => True
  | .advance index _ =>
    ∀ mechanism message verified, pool.At index (.scramUsername mechanism message verified) →
      verified = pool.shared.sasl.scramUsername

variable {manager : AuthManager} {surroundings : Surroundings} {point next : Point}

variable {session : ScramSessionState} {message : Bytes}

theorem proof_of_checkClientFinal {proof : Bytes}
    (checked : checkClientFinal crypto session message = .ok proof) :
    (parseScramAttrs message).find? 112 = some proof := by
  unfold checkClientFinal at checked
  dsimp only at checked
  split at checked
  next cbind combinedNonce found _ _ own =>
    split at checked
    · cases checked
    · split at checked
      · cases checked
      · split at checked
        · cases checked
        · cases checked
          exact own
  next => cases checked

theorem lookupScram_act (username : Bytes) (algorithm : HashAlgorithm) :
    (act crypto point surroundings manager).1.sasl.lookupScram username algorithm =
      manager.sasl.lookupScram username algorithm := by
  cases point with
  | firstLookup mechanism message =>
    simp only [act]
    unfold firstLookup
    split
    · rfl
    · split
      · rfl
      · split <;> rfl
  | firstSave mechanism session => cases algorithm <;> rfl
  | finalLocked | finalCheck | finalVerify | scramUsername | registerSession | failedUsername => rfl

theorem VerifiedAs.act {user : Bytes} (verified : VerifiedAs crypto manager message user) :
    VerifiedAs crypto (act crypto point surroundings manager).1 message user := by
  obtain ⟨algorithm, credential, authMessage, proof, reply, found, rest⟩ := verified
  exact ⟨algorithm, credential, authMessage, proof, reply, (lookupScram_act user algorithm).trans found, rest⟩

/-- What a call knows: its proof is the one of its message, and a user it has verified has passed the check. -/
def Knows (crypto : Crypto) (point : Point) (manager : AuthManager) : Prop :=
  match point with
  | .finalVerify message proof _ => (parseScramAttrs message).find? 112 = some proof
  | .scramUsername _ message verified
  | .registerSession _ message verified _ => VerifiedAs crypto manager message verified
  | _ => True

theorem Knows.act {other : Point} (knows : Knows crypto other manager) :
    Knows crypto other (act crypto point surroundings manager).1 := by
  cases other with
  | scramUsername | registerSession => exact VerifiedAs.act knows
  | finalVerify => exact knows
  | firstLookup | firstSave | finalLocked | finalCheck | failedUsername => trivial

theorem verifiedAs_of_scramServerFinalImpl {algorithm : HashAlgorithm}
    {reply : Bytes} (saved : manager.sasl.scramSession = some session)
    (accepted : manager.sasl.scramServerFinalImpl crypto message algorithm = .ok reply) :
    VerifiedAs crypto manager message session.username := by
  unfold SaslProvider.scramServerFinalImpl at accepted
  rw [saved] at accepted
  dsimp only at accepted
  split at accepted
  next => cases accepted
  next proof checked =>
    split at accepted
    next => cases accepted
    next credential found =>
      exact ⟨algorithm, credential, session.authMessage, proof, reply, found, proof_of_checkClientFinal checked, accepted⟩

inductive Continues (crypto : Crypto) (manager : AuthManager) : Point → Point → Prop where
  | saves {mechanism message session} :
      Continues crypto manager (.firstLookup mechanism message) (.firstSave mechanism session)
  | fails {point mechanism failure} : Continues crypto manager point (.failedUsername mechanism failure)
  | verifiesLocked {message reply session} : manager.sasl.scramSession = some session →
      manager.sasl.scramServerFinalImpl crypto message session.hashAlgorithm = .ok reply →
      Continues crypto manager (.finalLocked message) (.scramUsername .sha256 message session.username)
  | checks {message proof session} : manager.sasl.scramSession = some session →
      checkClientFinal crypto session message = .ok proof →
      Continues crypto manager (.finalCheck message) (.finalVerify message proof session.username)
  | verifies {message proof username reply session credential} :
      manager.sasl.lookupScram username .sha512 = some credential → manager.sasl.scramSession = some session →
      verifyClientProof crypto credential .sha512 session.authMessage message proof = .ok reply →
      Continues crypto manager (.finalVerify message proof username) (.scramUsername .sha512 message username)
  | reads {mechanism message verified} :
      Continues crypto manager (.scramUsername mechanism message verified)
        (.registerSession mechanism message verified manager.sasl.scramUsername)

theorem continues_of_running (running : (act crypto point surroundings manager).2 = .running next) :
    Continues crypto manager point next := by
  cases point with
  | firstLookup mechanism message =>
    simp only [act] at running
    unfold firstLookup at running
    split at running
    · cases running
    · split at running
      · cases running
      · split at running
        · cases running
        · cases running
          exact .saves
  | firstSave | registerSession | failedUsername => cases running
  | finalLocked message =>
    simp only [act] at running
    unfold finalLocked at running
    split at running
    next =>
      cases running
      exact .fails
    next session saved =>
      split at running
      next =>
        cases running
        exact .fails
      next reply accepted =>
        cases running
        exact .verifiesLocked saved accepted
  | finalCheck message =>
    simp only [act] at running
    unfold finalCheck at running
    split at running
    next =>
      cases running
      exact .fails
    next session saved =>
      split at running
      next =>
        cases running
        exact .fails
      next proof checked =>
        cases running
        exact .checks saved checked
  | finalVerify message proof username =>
    simp only [act] at running
    unfold finalVerify at running
    split at running
    next =>
      cases running
      exact .fails
    next =>
      cases running
      exact .fails
    next credential session found saved =>
      split at running
      next =>
        cases running
        exact .fails
      next reply accepted =>
        cases running
        exact .verifies found saved accepted
  | scramUsername mechanism message verified =>
    cases running
    exact .reads

theorem Continues.knows (continues : Continues crypto manager point next) (knows : Knows crypto point manager) :
    Knows crypto next manager := by
  cases continues with
  | saves => trivial
  | fails => trivial
  | verifiesLocked saved accepted => exact verifiedAs_of_scramServerFinalImpl saved accepted
  | checks saved checked => exact proof_of_checkClientFinal checked
  | @verifies message proof username reply session credential found saved accepted =>
    exact ⟨.sha512, credential, session.authMessage, proof, reply, found, knows, accepted⟩
  | reads => exact knows

def Entered (_ : Pool) : Interleaving.Event Point Surroundings → Prop
  | .start point => ∃ call : Call, point = call.first
  | .advance _ _ => True

theorem first_cases (call : Call) :
    (∃ mechanism message, call.first = .firstLookup mechanism message) ∨ (∃ message, call.first = .finalLocked message) ∨
      ∃ message, call.first = .finalCheck message := by
  unfold Call.first
  split
  next =>
    split
    next => exact .inr (.inl ⟨_, rfl⟩)
    next => exact .inr (.inr ⟨_, rfl⟩)
  next => exact .inl ⟨_, _, rfl⟩

theorem outline (crypto : Crypto) :
    Outline (act crypto) Entered (fun _ => True) (Knows crypto) (fun _ _ => True) where
  starts := by
    intro pool point entered _
    refine ⟨?_, fun _ _ _ => ⟨trivial, trivial⟩⟩
    obtain ⟨call, rfl⟩ := entered
    rcases first_cases call with ⟨_, _, first⟩ | ⟨_, first⟩ | ⟨_, first⟩
    · rw [first]
      trivial
    · rw [first]
      trivial
    · rw [first]
      trivial
  keeps := fun _ _ _ _ _ _ _ _ => trivial
  moves := fun _ _ _ _ _ _ _ _ knows running => ((continues_of_running running).knows knows).act
  stable := fun _ _ _ _ _ _ _ _ _ _ _ _ knows_other _ => knows_other.act
  separates := fun _ _ _ _ _ _ _ _ _ _ _ _ _ _ _ _ => ⟨trivial, trivial⟩

section

variable {pool : Pool} (holds : Holds (fun _ => True) (Knows crypto) (fun _ _ => True) pool)

include holds

theorem owned_step_iff
    (owned : Owned crypto pool) (event : Event) : Owned crypto (step crypto pool event) ↔ ReadsOwn pool event := by
  cases event with
  | start call =>
    refine iff_of_true ?_ trivial
    intro index mechanism message verified principal registers
    rcases at_append.mp registers with old | ⟨-, new⟩
    · exact owned index mechanism message verified principal old
    · rcases first_cases call with ⟨_, _, first⟩ | ⟨_, first⟩ | ⟨_, first⟩ <;> cases new.trans first
  | advance index surroundings =>
    by_cases running : ∃ point, pool.At index point
    · obtain ⟨point, running⟩ := running
      have known := holds.knows index point running
      unfold step
      dsimp only [Event.enter]
      rw [step_advance running]
      constructor
      · intro after mechanism message verified reads
        cases running.symm.trans reads
        exact (after index mechanism message verified _ ((at_set running).mpr (by rw [if_pos rfl]; rfl))).1
      · intro own other mechanism message verified principal registers
        have there := (at_set running).mp registers
        split at there
        next same =>
          cases continues_of_running there with
          | reads =>
            have equal := own mechanism message verified running
            exact ⟨equal, equal ▸ VerifiedAs.act known⟩
        next =>
          obtain ⟨equal, verifies⟩ := owned other mechanism message verified principal there
          exact ⟨equal, verifies.act⟩
    · have idle := not_exists.mp running
      unfold step
      dsimp only [Event.enter]
      rw [step_idle idle]
      refine iff_of_true owned ?_
      intro mechanism message verified reads
      exact absurd reads (idle _)

theorem holds_step (event : Event) :
    Holds (fun _ => True) (Knows crypto) (fun _ _ => True) (step crypto pool event) := by
  refine (outline crypto).step holds ?_
  cases event with
  | start call => exact ⟨call, rfl⟩
  | advance index surroundings => trivial

end

/-- All through a run every call registers the user it has verified exactly if every call, when it reads the name
of its user, finds a session of that user. -/
theorem owned_iff_readsOwn (manager : AuthManager) (events : List Event) :
    (∀ reached, reached <+: events → Owned crypto (run (step crypto) { shared := manager } reached)) ↔
      Meets (step crypto) ReadsOwn { shared := manager } events := by
  have initial : Owned crypto { shared := manager } := by
    intro index mechanism message verified principal registers
    cases registers
  exact (meets_iff_prefixes_of (Holds (fun _ => True) (Knows crypto) (fun _ _ => True)) (Owned crypto)
    (fun pool event holds owned => owned_step_iff holds owned event)
    (fun pool event holds _ _ => holds_step holds event) ⟨Holds.initial trivial, initial⟩ events).symm

def finalMessage : Bytes :=
  text "c=bixhPWFkbWluLA==,r=rOprNGfwEbeRWgbNEkqOabcdefghijklmnopqrstuvwx,p=SOJvmRTAV5397TAQwTXpO4UWzscG16IrNvS91eyR+dU="

def twoUsers : AuthManager where
  sasl := recordedProvider.storeScramCredential recordedCrypto (text "admin") (text "pencil") .sha256 recordedSalt

/-- The user `user` is verified, and before the name is read the first message of a login as `admin` is
saved. -/
def replacedEvents : List Event :=
  [.start { mechanism := .sha256, credentials := text "n,a=admin,n=user,r=rOprNGfwEbeRWgbNEkqO" },
    .advance 0 { random := UInt8.ofNat }, .advance 0 {},
    .start { mechanism := .sha256, credentials := finalMessage }, .advance 1 {},
    .start { mechanism := .sha256, credentials := text "n,,n=admin,r=other" }, .advance 2 {}, .advance 2 {},
    .advance 1 {}]

theorem replacedEvents_not_owned :
    ¬Owned recordedCrypto (run (step recordedCrypto) { shared := twoUsers } replacedEvents) := by
  intro owned
  have registers : (run (step recordedCrypto) { shared := twoUsers } replacedEvents).At 1
      (.registerSession .sha256 finalMessage (text "user") (text "admin")) := by
    unfold Pool.At
    decide +kernel
  exact absurd (owned 1 _ _ _ _ registers).1 (by decide)

end TorrentMq.Security.Authentication
