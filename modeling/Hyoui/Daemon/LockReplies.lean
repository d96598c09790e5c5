import Hyoui.Lib.Transition
import Hyoui.Daemon.Lock
/-!
# Runs of the lock

The lock's reducer over every sequence of its messages. `LockStep` says in eight cases what one
message does; what holds in every run is read off it.
-/

namespace Hyoui.Daemon

open Hyoui.Protocol Hyoui.Lib

/-- The lock on its own, from the empty state. -/
def lockRuns : System LockState LockMsg where
  init s := s = {}
  step s msg := some (s.reduceMsg msg).1

/-! ## What one message does -/

def lockAnswer (id : ClientId) (result : LockResult) (token : Option String) : EffectKind :=
  .clientReply id (.lockResponse { result, token, queuePosition := none })

def lockNews (sessionMode : SessionMode) (lockHolder : Option ClientId) : EffectKind :=
  .clientBroadcast (.modeChange { sessionMode, lockHolder, clientMode := none })

def lockNotHeld (id : ClientId) : EffectKind :=
  .clientReply id (.error { code := .lockNotHeld, message := "lock token mismatch or not the lock holder" })

/-- A free lock, its effects numbered from `seq` on. -/
def LockState.freed (seq : Nat) : LockState := { nextEffectSeq := seq }

inductive LockStep (s : LockState) : LockMsg → LockState → List EffectKind → Prop
  | granted (id : ClientId) (token : String) : s.holder = none →
      LockStep s (.acquire id (some token))
        { holder := some id, token := some token, processBound := true, nextEffectSeq := s.nextEffectSeq + 2 }
        [lockAnswer id .acquired (some token), lockNews .locked (some id)]
  | repeated (id : ClientId) (token : Option String) : s.holder = some id →
      LockStep s (.acquire id token) { s with nextEffectSeq := s.nextEffectSeq + 1 } [lockAnswer id .acquired s.token]
  | held (id other : ClientId) (token : Option String) : s.holder = some other → other ≠ id →
      LockStep s (.acquire id token) { s with nextEffectSeq := s.nextEffectSeq + 1 } [lockAnswer id .denied none]
  | tokenless (id : ClientId) : s.holder = none → LockStep s (.acquire id none) s []
  | released (id : ClientId) (token : String) : s.holder = some id → s.token = some token →
      LockStep s (.release id token) (.freed (s.nextEffectSeq + 1)) [lockNews .rw none]
  | refused (id : ClientId) (token : String) : ¬ (s.holder = some id ∧ s.token = some token) →
      LockStep s (.release id token) { s with nextEffectSeq := s.nextEffectSeq + 1 } [lockNotHeld id]
  | gone (id : ClientId) : s.processBound = true → s.holder = some id →
      LockStep s (.clientDisconnected id) (.freed (s.nextEffectSeq + 1)) [lockNews .rw none]
  | bystander (id : ClientId) : ¬ (s.processBound = true ∧ s.holder = some id) →
      LockStep s (.clientDisconnected id) s []

theorem reduceMsg_step (s : LockState) (msg : LockMsg) :
    LockStep s msg (s.reduceMsg msg).1 ((s.reduceMsg msg).2.1.map (·.kind)) := by
  cases msg with
  | acquire id token =>
    by_cases hself : s.holder = some id
    · simp only [LockState.reduceMsg, LockState.reduce, if_pos hself]
      exact .repeated id token hself
    · cases hholder : s.holder with
      | some other =>
        have hother : other ≠ id := fun h => hself (h ▸ hholder)
        have hheld : s.holder.isSome = true := by rw [hholder]; rfl
        simp only [LockState.reduceMsg, LockState.reduce, if_neg hself, if_pos hheld]
        exact .held id other token hholder hother
      | none =>
        have hfree : ¬ s.holder.isSome = true := by rw [hholder]; exact Bool.false_ne_true
        simp only [LockState.reduceMsg, LockState.reduce, if_neg hself, if_neg hfree]
        cases token with
        | none => exact .tokenless id hholder
        | some token => exact .granted id token hholder
  | release id token =>
    simp only [LockState.reduceMsg, LockState.reduce]
    split
    · rename_i hmatch
      exact .released id token hmatch.1 hmatch.2
    · rename_i hmatch
      exact .refused id token hmatch
  | clientDisconnected id =>
    simp only [LockState.reduceMsg, LockState.reduce]
    split
    · rename_i hholder
      exact .gone id hholder.1 hholder.2
    · rename_i hholder
      exact .bystander id hholder

/-! ## What every run keeps -/

/-- Holder, token and process binding are set together. -/
structure LockState.Paired (s : LockState) : Prop where
  token : s.token.isSome = s.holder.isSome
  bound : s.processBound = s.holder.isSome

/-- The moves of the holder: a grant to the requester of a free lock, a release by the holder with
its token, and the holder's disconnect. -/
def Entitled (s : LockState) (holder : Option ClientId) : LockMsg → Prop
  | .acquire id token => s.holder = none ∧ token.isSome = true ∧ holder = some id
  | .release id token => s.holder = some id ∧ s.token = some token ∧ holder = none
  | .clientDisconnected id => s.holder = some id ∧ holder = none

def LockMsg.requester : LockMsg → Option ClientId
  | .acquire id _ => some id
  | .release id _ => some id
  | .clientDisconnected _ => none

/-- A request that has no reply of its own: for a free lock without a token (the caller sends it
again with one), and a release that succeeds (the broadcast is the notice). -/
def Unreplied (s : LockState) : LockMsg → Prop
  | .acquire _ token => s.holder = none ∧ token = none
  | .release id token => s.holder = some id ∧ s.token = some token
  | .clientDisconnected _ => False

def EffectKind.repliesTo : EffectKind → Option ClientId
  | .clientReply id _ => some id
  | _ => none

/-- The `mode.change` of a broadcast. -/
def EffectKind.notice : EffectKind → Option (SessionMode × Option ClientId)
  | .clientBroadcast (.modeChange m) => some (m.sessionMode, m.lockHolder)
  | _ => none

/-- The laws of one message in state `s`, with what it leaves and the effects it has. -/
structure LockLaws (s : LockState) (msg : LockMsg) (s' : LockState) (kinds : List EffectKind) : Prop where
  paired : s'.Paired
  moves : s'.holder ≠ s.holder ↔ Entitled s s'.holder msg
  announced : kinds.filterMap (·.notice) = if s'.holder = s.holder then [] else [(s'.sessionMode, s'.holder)]
  replied : ¬ Unreplied s msg → kinds.filterMap (·.repliesTo) = msg.requester.toList
  silent : Unreplied s msg → kinds.filterMap (·.repliesTo) = []
  unchanged : ¬ Entitled s s'.holder msg → (s.reduce msg).1 = s ∧ s' = { s with nextEffectSeq := s'.nextEffectSeq }

theorem reduce_unchanged {s : LockState} {msg : LockMsg} (h : ∀ holder, ¬ Entitled s holder msg) :
    (s.reduce msg).1 = s := by
  cases msg with
  | acquire id token =>
    simp only [LockState.reduce]
    split
    · rfl
    · split
      · rfl
      · rename_i hheld
        cases token with
        | none => rfl
        | some token =>
          have hfree : s.holder = none := by simpa using hheld
          exact absurd ⟨hfree, rfl, rfl⟩ (h (some id))
  | release id token =>
    simp only [LockState.reduce]
    split
    · rename_i hmatch
      exact absurd ⟨hmatch.1, hmatch.2, rfl⟩ (h none)
    · rfl
  | clientDisconnected id =>
    simp only [LockState.reduce]
    split
    · rename_i hmatch
      exact absurd ⟨hmatch.2, rfl⟩ (h none)
    · rfl

theorem LockStep.paired {s s' : LockState} {msg : LockMsg} {kinds : List EffectKind} (h : LockStep s msg s' kinds)
    (hs : s.Paired) : s'.Paired := by
  cases h with
  | granted id token hfree => exact ⟨rfl, rfl⟩
  | released id token hholder htoken => exact ⟨rfl, rfl⟩
  | gone id hbound hholder => exact ⟨rfl, rfl⟩
  | repeated => exact ⟨hs.token, hs.bound⟩
  | held => exact ⟨hs.token, hs.bound⟩
  | refused => exact ⟨hs.token, hs.bound⟩
  | tokenless => exact hs
  | bystander => exact hs

theorem lock_paired {s : LockState} (h : lockRuns.Reachable s) : s.Paired := by
  refine h.inv _ ?_ ?_
  · rintro _ rfl
    exact ⟨rfl, rfl⟩
  · intro s msg s' _ hs _ hstep
    obtain rfl := Option.some.inj hstep
    exact (reduceMsg_step s msg).paired hs

/-- One message in a state whose three fields agree. -/
theorem LockStep.laws {s s' : LockState} {msg : LockMsg} {kinds : List EffectKind} (h : LockStep s msg s' kinds)
    (hs : s.Paired) : LockLaws s msg s' kinds := by
  have hpaired := h.paired hs
  -- a message that leaves the holder alone
  have hsame : ∀ n, s' = { s with nextEffectSeq := n } → (∀ holder, ¬ Entitled s holder msg) →
      (s'.holder ≠ s.holder ↔ Entitled s s'.holder msg) ∧
        (¬ Entitled s s'.holder msg → (s.reduce msg).1 = s ∧ s' = { s with nextEffectSeq := s'.nextEffectSeq }) := by
    rintro n rfl hno
    exact ⟨⟨fun hne => absurd rfl hne, fun he => absurd he (hno _)⟩, fun _ => ⟨reduce_unchanged hno, rfl⟩⟩
  cases h with
  | granted id token hfree =>
    have hne : (some id : Option ClientId) ≠ s.holder := by
      rw [hfree]
      exact Option.some_ne_none id
    exact
      { paired := hpaired
        moves := ⟨fun _ => ⟨hfree, rfl, rfl⟩, fun _ => hne⟩
        announced := (if_neg hne).symm
        replied := fun _ => rfl
        silent := fun hun => absurd hun.2 (Option.some_ne_none token)
        unchanged := fun hno => absurd ⟨hfree, rfl, rfl⟩ hno }
  | repeated id token hself =>
    have hheld : s.holder ≠ none := by
      rw [hself]
      exact Option.some_ne_none id
    obtain ⟨hmoves, hunchanged⟩ := hsame _ rfl fun _ he => hheld he.1
    exact ⟨hpaired, hmoves, (if_pos rfl).symm, fun _ => rfl, fun hun => absurd hun.1 hheld, hunchanged⟩
  | held id other token hother hne =>
    have hheld : s.holder ≠ none := by
      rw [hother]
      exact Option.some_ne_none other
    obtain ⟨hmoves, hunchanged⟩ := hsame _ rfl fun _ he => hheld he.1
    exact ⟨hpaired, hmoves, (if_pos rfl).symm, fun _ => rfl, fun hun => absurd hun.1 hheld, hunchanged⟩
  | tokenless id hfree =>
    obtain ⟨hmoves, hunchanged⟩ := hsame s.nextEffectSeq rfl fun _ he => Bool.false_ne_true he.2.1
    exact ⟨hpaired, hmoves, (if_pos rfl).symm, fun hun => absurd ⟨hfree, rfl⟩ hun, fun _ => rfl, hunchanged⟩
  | released id token hholder htoken =>
    have hne : (none : Option ClientId) ≠ s.holder := by
      rw [hholder]
      exact (Option.some_ne_none id).symm
    exact
      { paired := hpaired
        moves := ⟨fun _ => ⟨hholder, htoken, rfl⟩, fun _ => hne⟩
        announced := (if_neg hne).symm
        replied := fun hun => absurd ⟨hholder, htoken⟩ hun
        silent := fun _ => rfl
        unchanged := fun hno => absurd ⟨hholder, htoken, rfl⟩ hno }
  | refused id token hno =>
    obtain ⟨hmoves, hunchanged⟩ := hsame _ rfl fun _ he => hno ⟨he.1, he.2.1⟩
    exact ⟨hpaired, hmoves, (if_pos rfl).symm, fun _ => rfl, fun hun => absurd hun hno, hunchanged⟩
  | gone id hbound hholder =>
    have hne : (none : Option ClientId) ≠ s.holder := by
      rw [hholder]
      exact (Option.some_ne_none id).symm
    exact
      { paired := hpaired
        moves := ⟨fun _ => ⟨hholder, rfl⟩, fun _ => hne⟩
        announced := (if_neg hne).symm
        replied := fun _ => rfl
        silent := fun _ => rfl
        unchanged := fun hno => absurd ⟨hholder, rfl⟩ hno }
  | bystander id hno =>
    have hother : s.holder ≠ some id := by
      intro hholder
      -- who holds the lock is bound to it
      exact hno ⟨by rw [hs.bound, hholder]; rfl, hholder⟩
    obtain ⟨hmoves, hunchanged⟩ := hsame s.nextEffectSeq rfl fun _ he => hother he.1
    exact ⟨hpaired, hmoves, (if_pos rfl).symm, fun _ => rfl, fun _ => rfl, hunchanged⟩

/-- After every sequence of messages, the laws of the next one. -/
theorem lock_laws {s : LockState} (h : lockRuns.Reachable s) (msg : LockMsg) :
    s.Paired ∧ LockLaws s msg (s.reduceMsg msg).1 ((s.reduceMsg msg).2.1.map (·.kind)) :=
  ⟨lock_paired h, (reduceMsg_step s msg).laws (lock_paired h)⟩

theorem lock_laws_first :
    let s : LockState := {}
    s.Paired ∧ LockLaws s (.acquire 0 (some "t")) (s.reduceMsg (.acquire 0 (some "t"))).1
      ((s.reduceMsg (.acquire 0 (some "t"))).2.1.map (·.kind)) :=
  lock_laws (.init rfl) (.acquire 0 (some "t"))

/-- The holder releases its lock: the request itself has no reply. -/
theorem release_unreplied :
    ¬ ∀ s, lockRuns.Reachable s → ∀ msg id, msg.requester = some id →
      ((s.reduceMsg msg).2.1.map (·.kind)).filterMap (·.repliesTo) = [id] := by
  intro h
  have hheld : lockRuns.Reachable (({} : LockState).reduceMsg (.acquire 0 (some "t"))).1 :=
    .step (.init rfl) trivial rfl
  exact absurd (h _ hheld (.release 0 "t") 0 rfl) (by decide)

end Hyoui.Daemon
