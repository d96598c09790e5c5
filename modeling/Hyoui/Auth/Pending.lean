import Mathlib.Algebra.Group.Nat.Defs
import Hyoui.Auth.Record
/-!
# The records of `pending.json`

The registrations the command line has issued and the challenges the gateway has handed out.
-/

namespace Hyoui.Auth

open Hyoui.Lib

/-- What a challenge is for. -/
inductive ChallengePurpose
  | assert
  | register
  deriving DecidableEq, Repr

/-- A value of the JSON library, as text. -/
abbrev Json := String

def registrationTtlMs : Nat := 10 * 60 * 1000

def challengeTtlMs : Nat := 10 * 60 * 1000

def codeAttemptLimit : Nat := 5

/-- One issued registration. -/
structure PendingRegistration where
  jti : String
  sub : String
  userId : List UInt8
  access : Access
  hmacSecret : List UInt8
  codeHash : String
  codeAttempts : Nat
  issuedLabel : Option String
  expiresAtMs : Nat
  deriving DecidableEq, Repr

/-- The result of comparing a code. -/
inductive CodeOutcome
  | accepted
  | rejected (remaining : Nat)
  | burned
  deriving DecidableEq, Repr

namespace PendingRegistration

def isLive (registration : PendingRegistration) (nowMs : Nat) : Bool := nowMs < registration.expiresAtMs

/-- The code is the one the command line has shown. -/
def holdsCode (sha256Hex : List UInt8 → String) (registration : PendingRegistration) (presented : String) : Bool :=
  constantTimeEq (bytesOf registration.codeHash) (bytesOf (sha256Hex (bytesOf presented)))

/-- Compares a code and counts the attempt where it is wrong. The count saturates at 32 bits. -/
def checkCode (sha256Hex : List UInt8 → String) (registration : PendingRegistration) (presented : String) :
    PendingRegistration × CodeOutcome :=
  if registration.holdsCode sha256Hex presented then
    (registration, .accepted)
  else
    let registration := { registration with codeAttempts := min (registration.codeAttempts + 1) (2 ^ 32 - 1) }
    if registration.codeAttempts ≥ codeAttemptLimit then
      (registration, .burned)
    else
      (registration, .rejected (codeAttemptLimit - registration.codeAttempts))

end PendingRegistration

/-- One challenge, with the state of the WebAuthn crate. A register challenge is bound to its registration. -/
structure PendingChallenge where
  id : String
  endpoint : Endpoint
  purpose : ChallengePurpose
  jti : Option String
  state : Json
  expiresAtMs : Nat
  deriving DecidableEq, Repr

/-- The contents of `pending.json`, by endpoint and id. -/
structure PendingFile where
  registrations : Nested Endpoint String PendingRegistration := ∅
  challenges : Nested Endpoint String PendingChallenge := ∅

namespace PendingFile

/-- The registration of an endpoint and a jti. -/
def registration (file : PendingFile) (endpoint : Endpoint) (jti : String) : Option PendingRegistration :=
  file.registrations.look endpoint jti

/-- The challenge of an endpoint and an id, whatever it is for. -/
def stored (file : PendingFile) (endpoint : Endpoint) (id : String) : Option PendingChallenge :=
  file.challenges.look endpoint id

def sweepExpired (file : PendingFile) (nowMs : Nat) : PendingFile :=
  { registrations := file.registrations.retain (·.isLive nowMs)
    challenges := file.challenges.retain (nowMs < ·.expiresAtMs) }

def challenge (file : PendingFile) (endpoint : Endpoint) (id : String) (purpose : ChallengePurpose) (nowMs : Nat) :
    Option PendingChallenge :=
  match file.stored endpoint id with
  | none => none
  | some challenge =>
    if challenge.purpose ≠ purpose ∨ nowMs ≥ challenge.expiresAtMs ∨ challenge.endpoint ≠ endpoint then
      none
    else
      some challenge

def insertRegistration (file : PendingFile) (endpoint : Endpoint) (jti : String) (registration : PendingRegistration) :
    PendingFile :=
  { file with registrations := file.registrations.put endpoint jti registration }

def removeRegistration (file : PendingFile) (endpoint : Endpoint) (jti : String) : PendingFile :=
  { file with registrations := file.registrations.remove endpoint jti }

def insertChallenge (file : PendingFile) (endpoint : Endpoint) (challenge : PendingChallenge) : PendingFile :=
  { file with challenges := file.challenges.put endpoint challenge.id challenge }

/-- Takes a challenge out of the file, if it is there and fits. -/
def consumeChallenge (file : PendingFile) (endpoint : Endpoint) (id : String) (purpose : ChallengePurpose) (nowMs : Nat) :
    PendingFile × Option PendingChallenge :=
  match file.challenge endpoint id purpose nowMs with
  | none => (file, none)
  | some challenge =>
    ({ file with challenges := file.challenges.remove endpoint id }, some challenge)

/-! ### What the updates do to a registration and a challenge -/

variable {file : PendingFile} {endpoint endpoint' : Endpoint} {jti jti' id id' : String} {nowMs : Nat}

theorem registration_sweepExpired :
    (file.sweepExpired nowMs).registration endpoint jti = (file.registration endpoint jti).filter (·.isLive nowMs) :=
  Nested.look_retain

theorem stored_sweepExpired :
    (file.sweepExpired nowMs).stored endpoint id = (file.stored endpoint id).filter (nowMs < ·.expiresAtMs) :=
  Nested.look_retain

theorem registration_insertRegistration {r : PendingRegistration} :
    (file.insertRegistration endpoint jti r).registration endpoint' jti' =
      if endpoint = endpoint' ∧ jti = jti' then some r else file.registration endpoint' jti' := Nested.look_put

theorem registration_removeRegistration : (file.removeRegistration endpoint jti).registration endpoint' jti' =
    if endpoint = endpoint' ∧ jti = jti' then none else file.registration endpoint' jti' := Nested.look_remove

theorem stored_insertChallenge {c : PendingChallenge} : (file.insertChallenge endpoint c).stored endpoint' id' =
    if endpoint = endpoint' ∧ c.id = id' then some c else file.stored endpoint' id' := Nested.look_put

theorem challenge_eq_some {purpose : ChallengePurpose} {c : PendingChallenge}
    (h : file.challenge endpoint id purpose nowMs = some c) : file.stored endpoint id = some c := by
  simp only [challenge] at h
  split at h
  · cases h
  · rename_i hc
    split at h
    · cases h
    · rw [hc, Option.some.inj h]

theorem registration_consumeChallenge {purpose : ChallengePurpose} :
    (file.consumeChallenge endpoint id purpose nowMs).1.registration endpoint' jti = file.registration endpoint' jti := by
  simp only [consumeChallenge]
  split <;> rfl

/-- Consuming a challenge removes at most that one. -/
theorem stored_of_consumeChallenge {purpose : ChallengePurpose} {c : PendingChallenge}
    (h : (file.consumeChallenge endpoint id purpose nowMs).1.stored endpoint' id' = some c) :
    file.stored endpoint' id' = some c := by
  simp only [consumeChallenge] at h
  split at h
  · exact h
  · simp only [stored, Nested.look_remove] at h
    split at h
    · cases h
    · exact h

end PendingFile

end Hyoui.Auth
