import Hyoui.Lib.Transition
import Hyoui.Auth.Refresh
import Hyoui.Auth.Pending
/-!
# Registering a credential

`/auth/challenge` and `/auth/register` of any number of gateway processes on one state directory. A
registration is checked, stored and consumed in three locked updates, and the WebAuthn verification runs
between the first two. What the WebAuthn crate and the reading of the jwt answer is a parameter.
-/

namespace Hyoui.Auth

open Hyoui.Lib

/-! ## The handlers -/

/-- What the handlers ask of the jwt and of the WebAuthn crate. -/
structure Ceremony where
  sha256Hex : List UInt8 → String
  /-- The relying party of an endpoint. -/
  forEndpoint : Endpoint → Except String Unit
  peekJti : String → Except String String
  /-- The endpoint of the claims, when the jwt verifies. -/
  verifyRegistration : String → List UInt8 → Nat → Except String Endpoint
  /-- The options and the state of a ceremony. -/
  startRegistration : Endpoint → List UInt8 → String → Except String (Json × Json)
  startAuthentication : Endpoint → List Credential → Except String (Json × Json)
  /-- Whether a stored state reads back. -/
  registrationState : Json → Except String Unit
  finishRegistration : Endpoint → Json → Json → Except String Credential

structure ChallengeRequest where
  endpoint : Endpoint
  purpose : ChallengePurpose
  jwt : Option String
  deriving DecidableEq, Repr

structure RegisterRequest where
  endpoint : Endpoint
  challengeId : String
  jwt : String
  code : String
  credential : Json
  deviceLabel : Option String
  deriving DecidableEq, Repr

structure ChallengeResponse where
  challengeId : String
  endpoint : Endpoint
  options : Json
  deriving DecidableEq, Repr

/-- What a registration that passed its code hands on. -/
structure AcceptedRegistration where
  sub : String
  userId : List UInt8
  access : Access
  issuedLabel : Option String
  jti : String
  state : Json
  deriving DecidableEq, Repr

section Handlers

variable (W : Ceremony)

/-- The options and the state of a challenge, and the jti it is bound to. -/
def challengeOptions (auth : AuthFile) (pending : PendingFile) (request : ChallengeRequest) (nowMs : Nat) :
    Except AuthFailure (Json × Json × Option String) := do
  (W.forEndpoint request.endpoint).mapError AuthFailure.bad
  match request.purpose with
  | .assert =>
    let credentials := (auth.liveCredentials request.endpoint).map (·.credential)
    if credentials.isEmpty then
      throw (.denied s!"no credential is registered for {request.endpoint}")
    let (options, state) ← (W.startAuthentication request.endpoint credentials).mapError AuthFailure.denied
    pure (options, state, none)
  | .register =>
    match request.jwt with
    | none => throw (.denied "register challenge without a jwt")
    | some jwt =>
      let jti ← (W.peekJti jwt).mapError AuthFailure.denied
      match (pending.registration request.endpoint jti).filter (·.isLive nowMs) with
      | none => throw (.denied s!"no live registration for {jti}")
      | some registration =>
        let endpoint ← (W.verifyRegistration jwt registration.hmacSecret nowMs).mapError AuthFailure.denied
        if endpoint ≠ request.endpoint then
          throw (.denied "the jwt was issued for another endpoint")
        let (options, state) ←
          (W.startRegistration request.endpoint registration.userId registration.sub).mapError AuthFailure.denied
        pure (options, state, some jti)

/-- The part of `/auth/challenge` that reads the files: the options, and the challenge to store. -/
def challengeRecord (auth : AuthFile) (pending : PendingFile) (request : ChallengeRequest) (challengeId : String)
    (nowMs : Nat) : Except AuthFailure (Json × PendingChallenge) :=
  (challengeOptions W auth pending request nowMs).map fun (options, state, jti) => (options, {
    id := challengeId, endpoint := request.endpoint, purpose := request.purpose, jti, state
    expiresAtMs := nowMs + challengeTtlMs })

variable {W} in
theorem challengeRecord_id {auth : AuthFile} {pending : PendingFile} {request : ChallengeRequest} {challengeId : String}
    {nowMs : Nat} {options : Json} {record : PendingChallenge}
    (h : challengeRecord W auth pending request challengeId nowMs = .ok (options, record)) : record.id = challengeId := by
  simp only [challengeRecord] at h
  cases ho : challengeOptions W auth pending request nowMs with
  | error e =>
    rw [ho] at h
    cases h
  | ok o =>
    rw [ho] at h
    obtain ⟨-, rfl⟩ := Prod.mk.inj (Except.ok.inj h)
    rfl

/-- The live registration of a request whose jwt verifies. -/
def findRegistration (pending : PendingFile) (request : RegisterRequest) (jti : String) (nowMs : Nat) :
    Except AuthFailure PendingRegistration :=
  match pending.registrations[request.endpoint]? with
  | none => .error (.denied "no registration for this endpoint")
  | some byJti =>
    match (byJti[jti]?).filter (·.isLive nowMs) with
    | none => .error (.denied s!"no live registration for {jti}")
    | some registration =>
      match W.verifyRegistration request.jwt registration.hmacSecret nowMs with
      | .error reason => .error (.denied reason)
      | .ok endpoint =>
        if endpoint = request.endpoint then
          .ok registration
        else
          .error (.denied "the jwt was issued for another endpoint")

/-- The first update of `/auth/register`: the jwt, the code, and the challenge, which stays. -/
def checkRegistration (pending : PendingFile) (request : RegisterRequest) (jti : String) (nowMs : Nat) :
    PendingFile × Except AuthFailure AcceptedRegistration :=
  let pending := pending.sweepExpired nowMs
  match findRegistration W pending request jti nowMs with
  | .error e => (pending, .error e)
  | .ok registration =>
    match registration.checkCode W.sha256Hex request.code with
    | (registration, .rejected remaining) =>
      (pending.insertRegistration request.endpoint jti registration,
        .error (.denied s!"wrong code for {jti} ({remaining} attempts left)"))
    | (_, .burned) =>
      (pending.removeRegistration request.endpoint jti,
        .error (.denied s!"registration {jti} is burned after too many wrong codes"))
    | (registration, .accepted) =>
      match (pending.challenge request.endpoint request.challengeId .register nowMs).filter (·.jti = some jti) with
      | none => (pending, .error (.denied "no register challenge for this registration"))
      | some challenge =>
        match W.registrationState challenge.state with
        | .error reason => (pending, .error (.denied s!"stored registration state: {reason}"))
        | .ok () => (pending, .ok {
            sub := registration.sub, userId := registration.userId, access := registration.access
            issuedLabel := registration.issuedLabel, jti, state := challenge.state })

/-- The record a verified registration stores. -/
def registeredCredential (request : RegisterRequest) (accepted : AcceptedRegistration) (credential : Credential)
    (userAgent : Option String) (nowMs : Nat) : CredentialRecord :=
  { sub := accepted.sub
    userId := accepted.userId
    access := accepted.access
    credential
    signCount := credential.counter
    backupEligible := credential.backupEligible
    backupState := credential.backupState
    issuedLabel := accepted.issuedLabel
    deviceLabel := request.deviceLabel
    registeredAtMs := nowMs
    registeredUserAgent := userAgent
    lastUsedAtMs := none
    lastUsedUserAgent := none
    tombstonedAtMs := none }

/-- The last update of `/auth/register`. -/
def consumeRegistration (pending : PendingFile) (request : RegisterRequest) (jti : String) (nowMs : Nat) :
    PendingFile :=
  let pending := pending.removeRegistration request.endpoint jti
  let (pending, _) := pending.consumeChallenge request.endpoint request.challengeId .register nowMs
  pending.sweepExpired nowMs

/-- The check has compared a code, and it was wrong. -/
def wrongCode (pending : PendingFile) (request : RegisterRequest) (jti : String) (nowMs : Nat) : Bool :=
  match findRegistration W (pending.sweepExpired nowMs) request jti nowMs with
  | .error _ => false
  | .ok registration => !registration.holdsCode W.sha256Hex request.code

/-- The check has burned the registration. -/
def burns (pending : PendingFile) (request : RegisterRequest) (jti : String) (nowMs : Nat) : Bool :=
  match findRegistration W (pending.sweepExpired nowMs) request jti nowMs with
  | .error _ => false
  | .ok registration => (registration.checkCode W.sha256Hex request.code).2 = .burned

end Handlers

/-! ## The runs -/

/-- A register request past its check. -/
structure Registering where
  request : RegisterRequest
  userAgent : Option String
  nowMs : Nat
  accepted : AcceptedRegistration
  deriving DecidableEq, Repr

namespace Registering

def jti (r : Registering) : String := r.accepted.jti

end Registering

/-- Where a request stands between the updates. -/
inductive Phase
  | idle
  | offering (response : ChallengeResponse) (record : PendingChallenge) (nowMs : Nat)
  | accepted (r : Registering)
  | verified (r : Registering) (credential : Credential)
  | stored (r : Registering) (minted : MintedSession)
  | answered
  deriving DecidableEq, Repr

namespace Phase

/-- The register request that stands there. -/
def registering : Phase → Option Registering
  | accepted r | verified r _ | stored r _ => some r
  | _ => none

/-- The registration that the request is about. -/
def jti : Phase → Option String
  | offering _ record _ => record.jti
  | accepted r | verified r _ | stored r _ => some r.jti
  | _ => none

end Phase

/-- A stored credential record and the session minted with it, and how many wrong codes its registration
had seen then. -/
structure Registered where
  jti : String
  challengeId : String
  record : CredentialRecord
  minted : MintedSession
  wrongCodes : Nat
  deriving DecidableEq, Repr

/-- What happens: the command line issues a registration; a request reads the files, or makes one of its
updates; or a request stops, as its process dies or an update fails before its rename. -/
inductive RegistrarMove
  | add (endpoint : Endpoint) (registration : PendingRegistration) (nowMs : Nat)
  | challenge (i : Nat) (request : ChallengeRequest) (challengeId : String) (nowMs : Nat)
  | offer (i : Nat)
  | register (i : Nat) (request : RegisterRequest) (userAgent : Option String) (nowMs : Nat)
  | verify (i : Nat)
  | store (i : Nat) (id access refresh : String)
  | consume (i : Nat)
  | stop (i : Nat)
  deriving DecidableEq, Repr

/-- The two files and the requests. Noted besides: the registrations issued and the challenges drawn, how many
wrong codes each registration has seen, which registrations were consumed or burned, what was stored, and how
many wrong codes a registration had seen when a challenge was stored for it and when a request of it was
answered with a session. -/
structure Registrar where
  pending : PendingFile := {}
  auth : AuthFile := {}
  phase : Nat → Phase := fun _ => .idle
  issued : List (Endpoint × String) := []
  offered : List (String × Option String) := []
  wrong : String → Nat := fun _ => 0
  taken : List String := []
  burned : List String := []
  stores : List Registered := []
  offers : List (String × Nat) := []
  answers : List (String × Nat) := []

namespace Registrar

def setPhase (s : Registrar) (i : Nat) (phase : Phase) : Registrar :=
  { s with phase := fun j => if j = i then phase else s.phase j }

end Registrar

/-- The runs of the registrations. A jti and a challenge id are drawn once. -/
def registrar (W : Ceremony) : System Registrar RegistrarMove where
  init s := s = {}
  step s
    | .add endpoint registration nowMs =>
      if registration.jti ∉ s.issued.map (·.2) ∧ registration.codeAttempts = 0 then
        some { s with
          pending := (s.pending.sweepExpired nowMs).insertRegistration endpoint registration.jti registration
          issued := (endpoint, registration.jti) :: s.issued }
      else
        none
    | .challenge i request challengeId nowMs =>
      if s.phase i = .idle ∧ challengeId ∉ s.offered.map (·.1) then
        match challengeRecord W s.auth s.pending request challengeId nowMs with
        | .error _ => some (s.setPhase i .answered)
        | .ok (options, record) => some
            { s.setPhase i (.offering ⟨challengeId, request.endpoint, options⟩ record nowMs) with
              offered := (record.id, record.jti) :: s.offered }
      else
        none
    | .offer i =>
      match s.phase i with
      | .offering _ record nowMs => some
          { s.setPhase i .answered with
            pending := (s.pending.sweepExpired nowMs).insertChallenge record.endpoint record
            offers := (record.jti.map fun jti => (jti, s.wrong jti)).toList ++ s.offers }
      | _ => none
    | .register i request userAgent nowMs =>
      if s.phase i = .idle then
        match W.forEndpoint request.endpoint, W.peekJti request.jwt with
        | .ok (), .ok jti =>
          let (pending, outcome) := checkRegistration W s.pending request jti nowMs
          some
            { s.setPhase i (match outcome with
                | .error _ => .answered
                | .ok accepted => .accepted ⟨request, userAgent, nowMs, accepted⟩) with
              pending
              wrong := fun j => if j = jti ∧ wrongCode W s.pending request jti nowMs then s.wrong j + 1 else s.wrong j
              burned := if burns W s.pending request jti nowMs then jti :: s.burned else s.burned }
        | _, _ => some (s.setPhase i .answered)
      else
        none
    | .verify i =>
      match s.phase i with
      | .accepted r =>
        match W.finishRegistration r.request.endpoint r.request.credential r.accepted.state with
        | .error _ => some (s.setPhase i .answered)
        | .ok credential => some (s.setPhase i (.verified r credential))
      | _ => none
    | .store i id access refresh =>
      match s.phase i with
      | .verified r credential =>
        let record := registeredCredential r.request r.accepted credential r.userAgent r.nowMs
        let (auth, minted) :=
          mint (s.auth.insertCredential r.request.endpoint record) r.request.endpoint r.accepted.sub id access refresh r.nowMs
        some
          { s.setPhase i (.stored r minted) with
            auth
            stores := ⟨r.jti, r.request.challengeId, record, minted, s.wrong r.jti⟩ :: s.stores }
      | _ => none
    | .consume i =>
      match s.phase i with
      | .stored r _ => some
          { s.setPhase i .answered with
            pending := consumeRegistration s.pending r.request r.jti r.nowMs
            taken := r.jti :: s.taken
            answers := (r.jti, s.wrong r.jti) :: s.answers }
      | _ => none
    | .stop i => some (s.setPhase i .answered)

/-! ## What the requests do to a registration -/

inductive Deed
  | stored
  | consumed
  | burned
  deriving DecidableEq, Repr

section Deeds

variable (W : Ceremony)

/-- What a step does to a registration: a request stores a credential for it, consumes it, or burns it with a
wrong code. -/
def deed (s : Registrar) : RegistrarMove → Option (String × Deed)
  | .store i _ _ _ =>
    match s.phase i with
    | .verified r _ => some (r.jti, .stored)
    | _ => none
  | .consume i =>
    match s.phase i with
    | .stored r _ => some (r.jti, .consumed)
    | _ => none
  | .register _ request _ nowMs =>
    match W.forEndpoint request.endpoint, W.peekJti request.jwt with
    | .ok (), .ok jti => if burns W s.pending request jti nowMs then some (jti, .burned) else none
    | _, _ => none
  | _ => none

/-- One of the steps did this to the registration. -/
def Did (steps : List (Registrar × RegistrarMove × Registrar)) (jti : String) (d : Deed) : Prop :=
  ∃ t ∈ steps, deed W t.1 t.2.1 = some (jti, d)

end Deeds

/-- With this move a request reads `pending.json`: its check, or what a challenge is made of. -/
def RegistrarMove.begins (i : Nat) : RegistrarMove → Bool
  | .challenge j _ _ _ | .register j _ _ _ => j = i
  | _ => false

/-- The steps taken since request `i` read the file, and those up to then. -/
def since (i : Nat) (steps : List (Registrar × RegistrarMove × Registrar)) :=
  steps.takeWhile fun t => !t.2.1.begins i

def upTo (i : Nat) (steps : List (Registrar × RegistrarMove × Registrar)) :=
  steps.dropWhile fun t => !t.2.1.begins i

end Hyoui.Auth
