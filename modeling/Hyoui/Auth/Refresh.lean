import Hyoui.Auth.Record
/-!
# Refreshing a session

`/auth/refresh` rotates the refresh value of a token family, answers a repeated request within a grace
time, and revokes the family when an older value comes back.
-/

namespace Hyoui.Auth

open Std (TreeMap)

/-- The failures of `/auth/*`. -/
inductive AuthFailure
  | bad (reason : String)
  | denied (reason : String)
  | revoked
  | reused
  | internal (reason : String)
  deriving DecidableEq, Repr

section Refresh

variable (sha256Hex : List UInt8 → String)

/-- The update of `auth.json` a refresh makes, with the two tokens drawn for it. The access token is used
only when the one the family has is replaced. -/
def refreshBlocking (file : AuthFile) (endpoint : Endpoint) (presented newRefresh newAccess : String) (nowMs : Nat) :
    AuthFile × Except AuthFailure MintedSession :=
  let answer (family : FamilyRecord) : Except AuthFailure MintedSession :=
    if !family.refresh.isLive nowMs || !family.access.isLive nowMs then .error .revoked else .ok (.fromFamily family)
  match file.families[endpoint]? with
  | none => (file, .error (.denied "no family for this endpoint"))
  | some families =>
    match families.toList.find? fun entry => entry.2.classifyRefresh sha256Hex presented nowMs ≠ .unknown with
    | none => (file, .error (.denied "no family holds that refresh"))
    | some (id, family) =>
      if family.isTombstoned then
        (file, .error .revoked)
      else
        match family.classifyRefresh sha256Hex presented nowMs with
        | .current =>
          let family := family.rotateRefresh sha256Hex newRefresh newAccess nowMs
          (file.putFamily endpoint id family, answer family)
        | .replay => (file, answer family)
        | .reused => (file.putFamily endpoint id (family.tombstone nowMs), .error .reused)
        -- The search above has no such family: the code panics here.
        | .unknown => (file, .error (.internal "refresh join error"))

namespace FamilyRecord

variable {sha256Hex} {family : FamilyRecord} {presented : String} {nowMs : Nat}

theorem classifyRefresh_current :
    family.classifyRefresh sha256Hex presented nowMs = .current ↔ family.refresh.value = presented := by
  simp only [classifyRefresh, constantTimeEq_bytesOf]
  split
  · simp [*]
  · split
    · simp [*]
    · split <;> simp [*]

/-- The value is the last one retired, within the grace. -/
theorem classifyRefresh_replay (h : family.classifyRefresh sha256Hex presented nowMs = .replay) :
    ∃ r, family.retired.getLast? = some r ∧ r.digest = sha256Hex (bytesOf presented) ∧
      nowMs - r.retiredAtMs ≤ refreshReplayGraceMs := by
  simp only [classifyRefresh, constantTimeEq_bytesOf] at h
  split at h
  · cases h
  · split at h
    · rename_i hlast
      simp only [Option.any_eq_true, Bool.and_eq_true, constantTimeEq_bytesOf, decide_eq_true_eq] at hlast
      exact hlast
    · split at h <;> cases h

theorem classifyRefresh_reused (h : family.classifyRefresh sha256Hex presented nowMs = .reused) :
    ∃ r ∈ family.retired, r.digest = sha256Hex (bytesOf presented) := by
  simp only [classifyRefresh, constantTimeEq_bytesOf] at h
  split at h
  · cases h
  · split at h
    · cases h
    · split at h
      · rename_i hseen
        simpa using hseen
      · cases h

/-- An unknown value is neither the current one nor a retired one. -/
theorem classifyRefresh_unknown (h : family.classifyRefresh sha256Hex presented nowMs = .unknown) :
    family.refresh.value ≠ presented ∧ ∀ r ∈ family.retired, r.digest ≠ sha256Hex (bytesOf presented) := by
  refine ⟨fun he => ?_, ?_⟩
  · rw [classifyRefresh_current.2 he] at h
    cases h
  · simp only [classifyRefresh, constantTimeEq_bytesOf] at h
    split at h
    · cases h
    · split at h
      · cases h
      · split at h
        · cases h
        · rename_i hseen
          simpa using hseen

end FamilyRecord

/-- The check that follows a rotation sees the new tokens. -/
theorem FamilyRecord.rotateRefresh_live (family : FamilyRecord) (newRefresh newAccess : String) (nowMs : Nat) :
    (family.rotateRefresh sha256Hex newRefresh newAccess nowMs).refresh.isLive nowMs = true ∧
      (family.rotateRefresh sha256Hex newRefresh newAccess nowMs).access.isLive nowMs = true := by
  constructor
  · simp [FamilyRecord.rotateRefresh, TokenGeneration.isLive, refreshTtlMs]
  · simp only [FamilyRecord.rotateRefresh]
    split
    · simp [TokenGeneration.isLive, accessTtlMs]
    · rename_i h
      simp only [Bool.or_eq_true, Bool.not_eq_true', not_or, Bool.not_eq_false] at h
      exact h.1

/-- What a refresh does to the file and answers. -/
inductive Refreshed (file : AuthFile) (endpoint : Endpoint) (presented newRefresh newAccess : String) (nowMs : Nat) :
    AuthFile → Except AuthFailure MintedSession → Prop
  | unknown {reason} :
      (∀ id family, file.family endpoint id = some family →
        family.classifyRefresh sha256Hex presented nowMs = .unknown) →
      Refreshed file endpoint presented newRefresh newAccess nowMs file (.error (.denied reason))
  | tombstoned {id family} :
      file.family endpoint id = some family → family.isTombstoned = true →
      family.classifyRefresh sha256Hex presented nowMs ≠ .unknown →
      Refreshed file endpoint presented newRefresh newAccess nowMs file (.error .revoked)
  | current {id family} :
      file.family endpoint id = some family → family.isTombstoned = false →
      family.classifyRefresh sha256Hex presented nowMs = .current →
      Refreshed file endpoint presented newRefresh newAccess nowMs
        (file.putFamily endpoint id (family.rotateRefresh sha256Hex newRefresh newAccess nowMs))
        (.ok (.fromFamily (family.rotateRefresh sha256Hex newRefresh newAccess nowMs)))
  | replay {id family} :
      file.family endpoint id = some family → family.isTombstoned = false →
      family.classifyRefresh sha256Hex presented nowMs = .replay →
      Refreshed file endpoint presented newRefresh newAccess nowMs file (.ok (.fromFamily family))
  | lapsed {id family} :
      file.family endpoint id = some family → family.isTombstoned = false →
      family.classifyRefresh sha256Hex presented nowMs = .replay →
      Refreshed file endpoint presented newRefresh newAccess nowMs file (.error .revoked)
  | reused {id family} :
      file.family endpoint id = some family → family.isTombstoned = false →
      family.classifyRefresh sha256Hex presented nowMs = .reused →
      Refreshed file endpoint presented newRefresh newAccess nowMs
        (file.putFamily endpoint id (family.tombstone nowMs)) (.error .reused)

theorem refreshBlocking_refreshed (file : AuthFile) (endpoint : Endpoint) (presented newRefresh newAccess : String)
    (nowMs : Nat) :
    Refreshed sha256Hex file endpoint presented newRefresh newAccess nowMs
      (refreshBlocking sha256Hex file endpoint presented newRefresh newAccess nowMs).1
      (refreshBlocking sha256Hex file endpoint presented newRefresh newAccess nowMs).2 := by
  simp only [refreshBlocking]
  cases hfamilies : file.families[endpoint]? with
  | none =>
    refine .unknown fun id family hf => ?_
    obtain ⟨byId, hbyId, -⟩ := AuthFile.family_eq_some.1 hf
    rw [hfamilies] at hbyId
    cases hbyId
  | some families =>
    simp only
    cases hfind : families.toList.find? fun entry => entry.2.classifyRefresh sha256Hex presented nowMs ≠ .unknown with
    | none =>
      refine .unknown fun id family hf => ?_
      obtain ⟨byId, hbyId, hid⟩ := AuthFile.family_eq_some.1 hf
      obtain rfl : families = byId := by simpa [hfamilies] using hbyId
      have := List.find?_eq_none.1 hfind (id, family) (TreeMap.mem_toList_iff_getElem?_eq_some.2 hid)
      simpa using this
    | some entry =>
      obtain ⟨id, family⟩ := entry
      have hclass : family.classifyRefresh sha256Hex presented nowMs ≠ .unknown := by
        simpa using List.find?_some hfind
      have hf : file.family endpoint id = some family := AuthFile.family_eq_some.2
        ⟨families, hfamilies, TreeMap.mem_toList_iff_getElem?_eq_some.1 (List.mem_of_find?_eq_some hfind)⟩
      simp only
      cases htomb : family.isTombstoned with
      | true => exact .tombstoned hf htomb hclass
      | false =>
        cases hcase : family.classifyRefresh sha256Hex presented nowMs with
        | current =>
          have hlive := family.rotateRefresh_live sha256Hex newRefresh newAccess nowMs
          have hcurrent : Refreshed sha256Hex file endpoint presented newRefresh newAccess nowMs _ _ :=
            .current hf htomb hcase
          simpa [hlive.1, hlive.2] using hcurrent
        | replay =>
          simp only [Bool.false_eq_true, if_false]
          split
          · exact .lapsed hf htomb hcase
          · exact .replay hf htomb hcase
        | reused => exact .reused hf htomb hcase
        | unknown => exact absurd hcase hclass

end Refresh

end Hyoui.Auth
