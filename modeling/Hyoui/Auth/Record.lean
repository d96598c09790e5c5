import Mathlib.Data.List.Basic
import Hyoui.Lib.Nested
/-!
# The records of `auth.json`

The credentials and the token families of the web endpoints, and what the gateway and the command line
do to them. The digest of a retired refresh value is computed by a third-party crate and is a parameter.
-/

namespace Hyoui.Auth

open Hyoui.Lib
open Std (TreeMap)

/-- A sequence that succeeds has succeeded at each step. -/
theorem bind_ok {ε α β : Type} {x : Except ε α} {f : α → Except ε β} {b : β} :
    (x >>= f) = .ok b ↔ ∃ a, x = .ok a ∧ f a = .ok b := by
  constructor
  · intro h
    cases x with
    | ok a => exact ⟨a, rfl, h⟩
    | error e => cases h
  · rintro ⟨a, rfl, h⟩
    exact h

/-! ## Comparing secrets -/

/-- The bytes of a text. -/
def bytesOf (text : String) : List UInt8 := text.toByteArray.data.toList

theorem bytesOf_inj {a b : String} : bytesOf a = bytesOf b ↔ a = b := by
  refine ⟨fun h => ?_, fun h => h ▸ rfl⟩
  simp only [bytesOf, Array.toList_inj] at h
  exact String.toByteArray_inj.1 (ByteArray.ext h)

def constantTimeEq (a b : List UInt8) : Bool :=
  if a.length != b.length then
    false
  else
    (a.zip b).foldl (fun diff e => diff ||| (e.1 ^^^ e.2)) 0 == 0

theorem UInt8_or_eq_zero (a b : UInt8) : a ||| b = 0 ↔ a = 0 ∧ b = 0 := by
  simp only [← UInt8.toBitVec_inj, UInt8.toBitVec_or]
  exact BitVec.or_eq_zero_iff

theorem foldl_or_xor_eq_zero (l : List (UInt8 × UInt8)) (diff : UInt8) :
    l.foldl (fun diff e => diff ||| (e.1 ^^^ e.2)) diff = 0 ↔ diff = 0 ∧ ∀ e ∈ l, e.1 = e.2 := by
  induction l generalizing diff with
  | nil => simp
  | cons e l ih =>
    rw [List.foldl_cons, ih, UInt8_or_eq_zero, UInt8.xor_eq_zero_iff, and_assoc]
    simp

/-- The comparison that takes the same time for all texts of a length is equality. -/
theorem constantTimeEq_iff {a b : List UInt8} : constantTimeEq a b = true ↔ a = b := by
  unfold constantTimeEq
  by_cases hlen : a.length = b.length
  · simp only [hlen, bne_self_eq_false, Bool.false_eq_true, if_false, beq_iff_eq, foldl_or_xor_eq_zero, true_and]
    refine ⟨fun h => List.ext_getElem hlen fun i ha hb => ?_, fun h e he => ?_⟩
    · exact h (a[i], b[i]) (List.mem_iff_getElem.2 ⟨i, by rw [List.length_zip]; exact Nat.lt_min.2 ⟨ha, hb⟩, by simp⟩)
    · subst h
      obtain ⟨i, hi, rfl⟩ := List.mem_iff_getElem.1 he
      simp
  · have : a ≠ b := fun h => hlen (h ▸ rfl)
    simp [hlen, this]

@[simp] theorem constantTimeEq_bytesOf {a b : String} : constantTimeEq (bytesOf a) (bytesOf b) = true ↔ a = b := by
  rw [constantTimeEq_iff, bytesOf_inj]

/-! ## Token families -/

/-- An endpoint, in its normal form. -/
abbrev Endpoint := String

/-- One generation of an access or a refresh token. -/
structure TokenGeneration where
  value : String
  expiresAtMs : Nat
  deriving DecidableEq, Repr

namespace TokenGeneration

def isLive (generation : TokenGeneration) (nowMs : Nat) : Bool := nowMs < generation.expiresAtMs

def hasHalfLifeLeft (generation : TokenGeneration) (nowMs ttlMs : Nat) : Bool :=
  (generation.expiresAtMs - nowMs) * 2 ≥ ttlMs

end TokenGeneration

/-- A retired refresh value: its digest, when it expires, and when it was replaced. -/
structure RetiredRefresh where
  digest : String
  expiresAtMs : Nat
  retiredAtMs : Nat
  deriving DecidableEq, Repr

/-- A token family. The newest retired value is the last of `retired`. -/
structure FamilyRecord where
  id : String
  sub : String
  endpoint : Endpoint
  access : TokenGeneration
  refresh : TokenGeneration
  retired : List RetiredRefresh
  tombstonedAtMs : Option Nat
  deriving DecidableEq, Repr

def refreshReplayGraceMs : Nat := 60000

def refreshTtlMs : Nat := 7 * 24 * 60 * 60 * 1000

def accessTtlMs : Nat := 4 * 60 * 60 * 1000

/-- What a presented refresh value is to a family. -/
inductive RefreshOutcome
  | current
  | replay
  | reused
  | unknown
  deriving DecidableEq, Repr

namespace FamilyRecord

def isTombstoned (family : FamilyRecord) : Bool := family.tombstonedAtMs.isSome

def holdsLiveAccess (family : FamilyRecord) (presented : String) (nowMs : Nat) : Bool :=
  !family.isTombstoned && family.access.isLive nowMs
    && constantTimeEq (bytesOf family.access.value) (bytesOf presented)

/-- The family, revoked at `nowMs`. -/
def tombstone (family : FamilyRecord) (nowMs : Nat) : FamilyRecord := { family with tombstonedAtMs := some nowMs }

section

variable (sha256Hex : List UInt8 → String)

def classifyRefresh (family : FamilyRecord) (presented : String) (nowMs : Nat) : RefreshOutcome :=
  if constantTimeEq (bytesOf family.refresh.value) (bytesOf presented) then
    .current
  else
    let digest := sha256Hex (bytesOf presented)
    if family.retired.getLast?.any fun previous =>
        constantTimeEq (bytesOf previous.digest) (bytesOf digest) && nowMs - previous.retiredAtMs ≤ refreshReplayGraceMs then
      .replay
    else if family.retired.any fun retired => constantTimeEq (bytesOf retired.digest) (bytesOf digest) then
      .reused
    else
      .unknown

/-- Replaces the refresh value, and the access token when it is dead or past half its life. The retired
values that have expired are swept. -/
def rotateRefresh (family : FamilyRecord) (newRefresh newAccess : String) (nowMs : Nat) : FamilyRecord :=
  let retired := family.retired ++ [⟨sha256Hex (bytesOf family.refresh.value), family.refresh.expiresAtMs, nowMs⟩]
  { family with
    retired := retired.filter fun retired => nowMs < retired.expiresAtMs
    refresh := ⟨newRefresh, nowMs + refreshTtlMs⟩
    access :=
      if !family.access.isLive nowMs || !family.access.hasHalfLifeLeft nowMs accessTtlMs then
        ⟨newAccess, nowMs + accessTtlMs⟩
      else
        family.access }

end

end FamilyRecord

/-! ## The file -/

/-- What the WebAuthn crate keeps of a credential, as far as the records read it. -/
structure Credential where
  credId : List UInt8
  counter : Nat
  backupEligible : Bool
  backupState : Bool
  deriving DecidableEq, Repr

/-- What the holder of a credential may do. -/
inductive Access
  | rw
  | ro
  deriving DecidableEq, Repr

/-- One registered credential. -/
structure CredentialRecord where
  sub : String
  userId : List UInt8
  access : Access
  credential : Credential
  signCount : Nat
  backupEligible : Bool
  backupState : Bool
  issuedLabel : Option String
  deviceLabel : Option String
  registeredAtMs : Nat
  registeredUserAgent : Option String
  lastUsedAtMs : Option Nat
  lastUsedUserAgent : Option String
  tombstonedAtMs : Option Nat
  deriving DecidableEq, Repr

namespace CredentialRecord

def isTombstoned (record : CredentialRecord) : Bool := record.tombstonedAtMs.isSome

def credentialId (record : CredentialRecord) : List UInt8 := record.credential.credId

end CredentialRecord

/-- The character of six bits. -/
def base64urlChar (n : Nat) : Char :=
  if n < 26 then Char.ofNat (65 + n)
  else if n < 52 then Char.ofNat (97 + (n - 26))
  else if n < 62 then Char.ofNat (48 + (n - 52))
  else if n = 62 then '-'
  else '_'

def base64urlChars : List UInt8 → List Char
  | a :: b :: c :: rest =>
    let n := a.toNat * 65536 + b.toNat * 256 + c.toNat
    [n / 262144, n / 4096 % 64, n / 64 % 64, n % 64].map base64urlChar ++ base64urlChars rest
  | [a, b] =>
    let n := a.toNat * 256 + b.toNat
    [n / 1024, n / 16 % 64, n % 16 * 4].map base64urlChar
  | [a] => [a.toNat / 4, a.toNat % 4 * 16].map base64urlChar
  | [] => []

/-- base64 in the alphabet of URLs, without padding. -/
def base64url (bytes : List UInt8) : String := String.ofList (base64urlChars bytes)

example : base64url [251, 239, 190, 255] = "----_w" := by decide +kernel

/-- The contents of `auth.json`. -/
structure AuthFile where
  /-- By endpoint, `sub` and credential id. -/
  credentials : TreeMap Endpoint (TreeMap String (TreeMap String CredentialRecord)) := ∅
  /-- By endpoint and family id. -/
  families : Nested Endpoint String FamilyRecord := ∅

namespace AuthFile

/-- The stored credential record of an endpoint, a `sub` and a credential id. -/
def credential (file : AuthFile) (endpoint : Endpoint) (sub id : String) : Option CredentialRecord :=
  ((file.credentials[endpoint]?).bind (·[sub]?)).bind (·[id]?)

def liveCredentials (file : AuthFile) (endpoint : Endpoint) : List CredentialRecord :=
  (((file.credentials[endpoint]?).elim [] (·.values)).flatMap (·.values)).filter (!·.isTombstoned)

def insertCredential (file : AuthFile) (endpoint : Endpoint) (record : CredentialRecord) : AuthFile :=
  let subs := file.credentials.getD endpoint ∅
  let records := subs.getD record.sub ∅
  { file with
    credentials :=
      file.credentials.insert endpoint
        (subs.insert record.sub (records.insert (base64url record.credentialId) record)) }

def findLiveFamilyByAccess (file : AuthFile) (presented : String) (nowMs : Nat) : Option FamilyRecord :=
  (file.families.values.flatMap (·.values)).find? (·.holdsLiveAccess presented nowMs)

def family (file : AuthFile) (endpoint : Endpoint) (id : String) : Option FamilyRecord :=
  file.families.look endpoint id

/-- Puts a family's record into the file. -/
def putFamily (file : AuthFile) (endpoint : Endpoint) (id : String) (record : FamilyRecord) : AuthFile :=
  { file with families := file.families.put endpoint id record }

def mintFamily (file : AuthFile) (endpoint : Endpoint) (sub id access refresh : String) (nowMs : Nat) :
    AuthFile × FamilyRecord :=
  let record : FamilyRecord := {
    id, sub, endpoint
    access := ⟨access, nowMs + accessTtlMs⟩
    refresh := ⟨refresh, nowMs + refreshTtlMs⟩
    retired := []
    tombstonedAtMs := none }
  (file.putFamily endpoint id record, record)

/-- Revokes the credentials and the families of a `sub`, and counts those it revoked. -/
def tombstoneSub (file : AuthFile) (sub : String) (nowMs : Nat) : AuthFile × Nat × Nat :=
  let credentials := (file.credentials.values.filterMap (·[sub]?)).flatMap (·.values)
  let families := (file.families.values.flatMap (·.values)).filter (·.sub = sub)
  ({ credentials := file.credentials.map fun _ subs => subs.modify sub fun records => records.map fun _ record =>
        if record.isTombstoned then record else { record with tombstonedAtMs := some nowMs }
     families := file.families.map fun _ byId => byId.map fun _ family =>
        if family.sub = sub ∧ !family.isTombstoned then family.tombstone nowMs else family },
    credentials.countP (!·.isTombstoned), families.countP (!·.isTombstoned))

/-- `session remove`: revokes the family of an id under every endpoint, and counts those it revoked. -/
def sessionRemove (file : AuthFile) (id : String) (nowMs : Nat) : AuthFile × Nat :=
  ({ file with families := file.families.map fun _ byId => byId.modify id fun family =>
        if family.isTombstoned then family else family.tombstone nowMs },
    (file.families.values.filterMap (·[id]?)).countP (!·.isTombstoned))

/-! ### What the updates do to a family -/

variable {file : AuthFile} {endpoint endpoint' : Endpoint} {id id' sub : String} {nowMs : Nat}

theorem family_eq_some {record : FamilyRecord} : file.family endpoint id = some record ↔
    ∃ byId, file.families[endpoint]? = some byId ∧ byId[id]? = some record := Nested.look_eq_some

theorem family_putFamily {record : FamilyRecord} : (file.putFamily endpoint id record).family endpoint' id' =
    if endpoint = endpoint' ∧ id = id' then some record else file.family endpoint' id' := Nested.look_put

theorem family_tombstoneSub : (file.tombstoneSub sub nowMs).1.family endpoint id =
    (file.family endpoint id).map fun family =>
      if family.sub = sub ∧ !family.isTombstoned then family.tombstone nowMs else family := by
  simp only [family, Nested.look, tombstoneSub, TreeMap.getElem?_map]
  cases file.families[endpoint]? <;> simp [TreeMap.getElem?_map]

/-- A live access token is found in a family's record. -/
theorem findLiveFamilyByAccess_some {family : FamilyRecord} {presented : String}
    (h : file.findLiveFamilyByAccess presented nowMs = some family) :
    (∃ endpoint id, file.family endpoint id = some family) ∧ family.isTombstoned = false ∧
      family.access.isLive nowMs = true ∧ family.access.value = presented := by
  have hlive := List.find?_some h
  simp only [FamilyRecord.holdsLiveAccess, Bool.and_eq_true, Bool.not_eq_true', constantTimeEq_bytesOf] at hlive
  exact ⟨Nested.mem_values_values.1 (List.mem_of_find?_eq_some h), hlive.1.1, hlive.1.2, hlive.2⟩

theorem family_sessionRemove : (file.sessionRemove id' nowMs).1.family endpoint id =
    if id' = id then (file.family endpoint id).map fun family =>
      if family.isTombstoned then family else family.tombstone nowMs
    else file.family endpoint id := by
  simp only [family, Nested.look, sessionRemove, TreeMap.getElem?_map]
  cases file.families[endpoint]? with
  | none => simp
  | some byId =>
    by_cases hi : id' = id
    · subst hi
      simp
    · simp [TreeMap.getElem?_modify, hi]

end AuthFile

/-- The answer to an authenticated request. -/
structure MintedSession where
  endpoint : Endpoint
  sub : String
  access : String
  accessExpiresAtMs : Nat
  refresh : String
  deriving DecidableEq, Repr

def MintedSession.fromFamily (family : FamilyRecord) : MintedSession :=
  { endpoint := family.endpoint
    sub := family.sub
    access := family.access.value
    accessExpiresAtMs := family.access.expiresAtMs
    refresh := family.refresh.value }

/-- Mints a family with three tokens that were drawn for it. -/
def mint (file : AuthFile) (endpoint : Endpoint) (sub id access refresh : String) (nowMs : Nat) :
    AuthFile × MintedSession :=
  let (file, family) := file.mintFamily endpoint sub id access refresh nowMs
  (file, .fromFamily family)

end Hyoui.Auth
