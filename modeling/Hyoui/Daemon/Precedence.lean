import Hyoui.Daemon.Timeline
import Hyoui.Daemon.Acks
/-!
# What comes before what

Every log is read to the end (`log_read`). `Past` is what the journal then knows of the entries
read so far, and one entry keeps it (`Past.entry`): everything somebody did stands after its attach and
before its detach, input stands between lock changes that let it through, and what the PTY took stands
right before the record of who typed it.
-/

namespace Hyoui.Daemon

open Hyoui.Protocol Hyoui.Lib

/-! ## Entries -/

namespace LogEntry

def attach (id : ClientId) (mode : Mode) : LogEntry := .push (.lifecycle (.clientAttached id mode))

def detach (id : ClientId) : LogEntry := .push (.lifecycle (.clientDetached id))

def acquire (id : ClientId) : LogEntry := .push (.lifecycle (.lockAcquired id))

def release (id : ClientId) : LogEntry := .push (.lifecycle (.lockReleased id))

/-- The id an attach gives out. -/
def attachedId : LogEntry → List ClientId
  | .push (.lifecycle (.clientAttached id _)) => [id]
  | _ => []

def isFailedUpgrade : LogEntry → Bool
  | .push (.lifecycle (.sessionTerminatedByCondition reason)) => isUpgradeFailure reason
  | _ => false

/-- Who typed it, whether the PTY took it or broke off. -/
def typedBy : LogEntry → Option ClientId
  | .push (.bytesIn id _) | .push (.inWriteError id _ _ _ _) => some id
  | _ => none

/-- Whose doing it is. -/
def doneBy : LogEntry → Option ClientId
  | .push (.lifecycle (.clientDetached id)) | .push (.lifecycle (.lockReleased id))
  | .push (.lifecycle (.resumeRequestReceived id)) | .push (.inRejected id _ _ _ _) | .recordStart _ id _ => some id
  | .push (.lifecycle (.lockAcquired id)) | .push (.lifecycle (.policyChanged _ _ id)) => some id
  | e => e.typedBy

/-- Whether it needs a client that is not read-only. -/
def isWriting : LogEntry → Bool
  | .push (.lifecycle (.lockAcquired _)) | .push (.lifecycle (.policyChanged _ _ _)) => true
  | .push (.bytesIn _ _) | .push (.inWriteError _ _ _ _ _) => true
  | .ptyWrite _ | .ptyResize _ _ | .kill _ => true
  | _ => false

/-- Whether it leaves alone who is attached, who holds the lock and what is typed. -/
def isAside : LogEntry → Bool
  | .push (.lifecycle (.clientAttached _ _)) | .push (.lifecycle (.clientDetached _)) => false
  | .push (.lifecycle (.lockAcquired _)) | .push (.lifecycle (.lockReleased _)) => false
  | .push (.lifecycle (.sessionTerminatedByCondition reason)) => !isUpgradeFailure reason
  | .push (.inRejected _ _ _ _ _) | .push (.bytesIn _ _) | .push (.inWriteError _ _ _ _ _) | .ptyWrite _ => false
  | _ => true

def written : LogEntry → Bytes
  | .ptyWrite bytes => bytes
  | _ => []

def typed : LogEntry → Bytes
  | .push (.bytesIn _ bytes) => bytes
  | _ => []

end LogEntry

open LogEntry

/-- The client was let in with this mode, and is still there. -/
def Attended (id : ClientId) (mode : Mode) : Log → Prop := Since (· = attach id mode) (· ≠ detach id)

/-- The client took the lock, and nothing happened since that takes it away. -/
def LockTaken (id : ClientId) : Log → Prop :=
  Since (· = acquire id) fun e => e ≠ release id ∧ e ≠ detach id ∧ e.isFailedUpgrade = false

/-- The client took the lock as the last one, and has not given it back. -/
def LockOwed (id : ClientId) : Log → Prop :=
  Since (· = acquire id) fun e => e ≠ release id ∧ (∀ other, e ≠ acquire other) ∧ e.isFailedUpgrade = false

structure Journal.Past (j : Journal) (log : Log) : Prop where
  attended : ∀ id w, (id, w) ∈ j.present → ∃ mode, w = decide (mode ≠ .ro) ∧ Attended id mode log
  counted : log.flatMap attachedId = List.range j.nextId
  taken : ∀ id, LockTaken id log → j.lock = .held id
  owed : ∀ id, j.lock = .held id ∨ j.lock = .abandoned id → LockOwed id log
  fed : j.unrecorded ≠ [] → ∃ before, log = before ++ [.ptyWrite j.unrecorded]

/-! ## One entry -/

section Entry

variable {j j' : Journal} {e : LogEntry} {log : Log} {id : ClientId}

theorem isWriter_iff : j.isWriter id = true ↔ (id, true) ∈ j.present := by
  simp [Journal.isWriter]

theorem attached_iff : j.attached id = true ↔ ∃ w, (id, w) ∈ j.present := by
  simp [Journal.attached]

/-- An entry that is read is not kept back by bytes nobody is recorded to have typed. -/
theorem entry_guard (h : j.entry e = some j') : j.unrecorded = [] ∨ e.isInput = true := by
  unfold Journal.entry at h
  split at h
  · cases h
  · rename_i hguard
    by_cases hu : j.unrecorded = []
    · exact .inl hu
    · exact .inr (by simpa [hu] using hguard)

/-- What reading an entry amounts to. -/
inductive Journal.Read (j : Journal) : LogEntry → Journal → Prop
  | attach (mode : Mode) :
    Read j (attach j.nextId mode)
      { j with present := j.present ++ [(j.nextId, decide (mode ≠ .ro))], nextId := j.nextId + 1 }
  | detach {id : ClientId} : j.attached id = true →
    Read j (detach id) { j with present := j.present.filter (·.1 ≠ id), lock := j.lock.without id }
  | acquire {id : ClientId} : j.isWriter id = true → j.lock.admits none = true → Read j (acquire id) { j with lock := .held id }
  | release {id : ClientId} : j.attached id = true → j.lock = .held id → Read j (release id) { j with lock := .free }
  | failed {reason : String} : isUpgradeFailure reason = true →
    Read j (.push (.lifecycle (.sessionTerminatedByCondition reason))) { j with lock := .free }
  | rejected {id : ClientId} {mode : Mode} {lockHolder : Option ClientId} {reason : InRejectedReason} {bytes : Bytes} :
    j.lock.admits lockHolder = true → j.refused id mode lockHolder reason = true →
    Read j (.push (.inRejected id mode lockHolder reason bytes)) { j with lock := .of lockHolder }
  | typed {id : ClientId} : j.mayType id = true → j.unrecorded ≠ [] →
    Read j (.push (.bytesIn id j.unrecorded)) { j with lock := j.lock.afterInput, unrecorded := [] }
  | broken {id : ClientId} {requested written : Nat} {error : WriteErrorKind} {unwritten : Bytes} : j.mayType id = true →
    Read j (.push (.inWriteError id requested written error unwritten)) { j with lock := j.lock.afterInput }
  | wrote {bytes : Bytes} : j.someWriter = true → Read j (.ptyWrite bytes) { j with unrecorded := bytes }
  | aside {e : LogEntry} {j' : Journal} : e.isAside = true → j'.present = j.present → j'.nextId = j.nextId → j'.lock = j.lock →
    j'.unrecorded = j.unrecorded →
    (∀ id, e.doneBy = some id → j.attached id = true ∧ (e.isWriting = true → j.isWriter id = true)) →
    (e.isWriting = true → j.someWriter = true) → Read j e j'

theorem LockTale.of_admits_some {lock : LockTale} (h : lock.admits (some id) = true) :
    lock = .held id ∨ lock = .abandoned id := by
  cases lock with
  | free => cases h
  | held holder => exact .inl (congrArg LockTale.held (Option.some.inj (of_decide_eq_true h)).symm)
  | abandoned holder => simpa [LockTale.admits, eq_comm] using h

theorem LockTale.held_of_afterInput {lock : LockTale} (h : lock.afterInput = .held id ∨ lock.afterInput = .abandoned id) :
    lock = .held id := by
  cases lock with
  | held holder => exact h.resolve_right (by rintro ⟨⟩)
  | free | abandoned _ => rcases h with h | h <;> cases h

/-- An entry beside the point lets nobody in, is nobody's input and no failed upgrade. -/
structure LogEntry.Quiet (e : LogEntry) : Prop where
  attachedId : e.attachedId = []
  isInput : e.isInput = false
  isFailedUpgrade : e.isFailedUpgrade = false
  written : e.written = []
  typed : e.typed = []
  typedBy : e.typedBy = none

theorem aside_quiet (h : e.isAside = true) : e.Quiet := by
  obtain (e | _ | _ | _ | _ | _ | _ | _) := e
  · cases e with
    | lifecycle e => cases e with
      | sessionTerminatedByCondition reason => exact ⟨rfl, rfl, by simpa [isAside, isFailedUpgrade] using h, rfl, rfl, rfl⟩
      | clientAttached => cases h
      | _ => exact ⟨rfl, rfl, rfl, rfl, rfl, rfl⟩
    | bytesIn | inWriteError => cases h
    | _ => exact ⟨rfl, rfl, rfl, rfl, rfl, rfl⟩
  · exact ⟨rfl, rfl, rfl, rfl, rfl, rfl⟩
  · exact ⟨rfl, rfl, rfl, rfl, rfl, rfl⟩
  · exact ⟨rfl, rfl, rfl, rfl, rfl, rfl⟩
  · cases h
  · exact ⟨rfl, rfl, rfl, rfl, rfl, rfl⟩
  · exact ⟨rfl, rfl, rfl, rfl, rfl, rfl⟩
  · exact ⟨rfl, rfl, rfl, rfl, rfl, rfl⟩

theorem attached_of_writer (h : j.isWriter id = true) : j.attached id = true :=
  attached_iff.2 ⟨true, isWriter_iff.1 h⟩

theorem lifecycle_read {ev : LifecycleEvent} (h : j.lifecycle ev = some j') : j.Read (.push (.lifecycle ev)) j' := by
  cases ev with
  | clientAttached id mode =>
    obtain ⟨rfl, rfl⟩ := Option.ite_some_none_eq_some.1 h
    exact .attach mode
  | clientDetached id =>
    obtain ⟨hid, rfl⟩ := Option.ite_some_none_eq_some.1 h
    exact .detach hid
  | lockAcquired id =>
    obtain ⟨⟨hid, hlock⟩, rfl⟩ := Option.ite_some_none_eq_some.1 h
    exact .acquire hid hlock
  | lockReleased id =>
    obtain ⟨⟨hid, hlock⟩, rfl⟩ := Option.ite_some_none_eq_some.1 h
    exact .release hid hlock
  | policyChanged key value id =>
    obtain ⟨⟨hid, -⟩, h⟩ := Option.ite_none_right_eq_some.1 h
    obtain ⟨policy, -, rfl⟩ := Option.map_eq_some_iff.1 h
    refine .aside rfl rfl rfl rfl rfl ?_ fun _ => Journal.someWriter_of hid
    intro id' hid'
    obtain rfl := Option.some.inj hid'
    exact ⟨attached_of_writer hid, fun _ => hid⟩
  | resumeRequestReceived id =>
    obtain ⟨hid, rfl⟩ := Option.ite_some_none_eq_some.1 h
    refine .aside rfl rfl rfl rfl rfl ?_ (by rintro ⟨⟩)
    intro id' hid'
    obtain rfl := Option.some.inj hid'
    exact ⟨hid, by rintro ⟨⟩⟩
  | sessionTerminatedByCondition reason =>
    obtain rfl := Option.some.inj h
    cases hr : isUpgradeFailure reason with
    | true =>
      rw [if_pos rfl]
      exact .failed hr
    | false => exact .aside (by simp [isAside, hr]) (by simp) (by simp) (by simp) (by simp) (by rintro _ ⟨⟩) (by rintro ⟨⟩)
  | recordAborted _ _ _ => cases h
  | childStoppedObserved _ _ _ | childContinuedObserved _ _ _ | sigcontSent _ =>
    obtain rfl := Option.some.inj h
    exact .aside rfl rfl rfl rfl rfl (by rintro _ ⟨⟩) (by rintro ⟨⟩)

theorem event_read {ev : RecordEvent} (h : j.event ev = some j') : j.Read (.push ev) j' := by
  cases ev with
  | lifecycle ev => exact lifecycle_read h
  | bytesIn id bytes =>
    obtain ⟨⟨hid, hne, rfl⟩, rfl⟩ := Option.ite_some_none_eq_some.1 h
    exact .typed hid hne
  | bytesOut bytes =>
    obtain rfl := Option.some.inj h
    exact .aside rfl rfl rfl rfl rfl (by rintro _ ⟨⟩) (by rintro ⟨⟩)
  | inRejected id mode lockHolder reason bytes =>
    obtain ⟨⟨hlock, hid⟩, rfl⟩ := Option.ite_some_none_eq_some.1 h
    exact .rejected hlock hid
  | inWriteError id requested written error unwritten =>
    obtain ⟨⟨hid, -, -⟩, rfl⟩ := Option.ite_some_none_eq_some.1 h
    exact .broken hid
  | inSecretRedacted _ _ _ => cases h

theorem entry_read (h : j.entry e = some j') : j.Read e j' := by
  unfold Journal.entry at h
  split at h
  · cases h
  · cases e with
    | push ev => exact event_read h
    | recordStart req id info =>
      obtain ⟨hid, rfl⟩ := Option.ite_some_none_eq_some.1 h
      refine .aside rfl rfl rfl rfl rfl ?_ (by rintro ⟨⟩)
      intro id' hid'
      obtain rfl := Option.some.inj hid'
      exact ⟨hid, by rintro ⟨⟩⟩
    | recordStop id | recordStopAll =>
      obtain rfl := Option.some.inj h
      exact .aside rfl rfl rfl rfl rfl (by rintro _ ⟨⟩) (by rintro ⟨⟩)
    | ptyWrite bytes =>
      obtain ⟨hw, rfl⟩ := Option.ite_some_none_eq_some.1 h
      exact .wrote hw
    | ptyResize cols rows | kill sig =>
      obtain ⟨hw, rfl⟩ := Option.ite_some_none_eq_some.1 h
      exact .aside rfl rfl rfl rfl rfl (by rintro _ ⟨⟩) fun _ => hw
    | killPgrp sig =>
      obtain ⟨-, rfl⟩ := Option.ite_some_none_eq_some.1 h
      exact .aside rfl rfl rfl rfl rfl (by rintro _ ⟨⟩) (by rintro ⟨⟩)

theorem Journal.Read.present (h : j.Read e j') {w : Bool} (hid : (id, w) ∈ j'.present) :
    ((id, w) ∈ j.present ∧ e ≠ LogEntry.detach id) ∨ ∃ mode, e = LogEntry.attach id mode ∧ w = decide (mode ≠ .ro) := by
  cases h with
  | attach mode =>
    rcases List.mem_append.1 hid with hid | hid
    · exact .inl ⟨hid, by rintro ⟨⟩⟩
    · obtain ⟨rfl, rfl⟩ := Prod.mk.inj (List.mem_singleton.1 hid)
      exact .inr ⟨mode, rfl, rfl⟩
  | detach _ =>
    obtain ⟨hid, hne⟩ := List.mem_filter.1 hid
    refine .inl ⟨hid, ?_⟩
    rintro ⟨⟩
    simp at hne
  | aside he hp => exact .inl ⟨hp ▸ hid, by rintro rfl; cases he⟩
  | acquire _ _ | release _ _ | failed _ | rejected _ _ | typed _ _ | broken _ | wrote _ => exact .inl ⟨hid, by rintro ⟨⟩⟩

theorem Journal.Read.counted (h : j.Read e j') : List.range j'.nextId = List.range j.nextId ++ e.attachedId := by
  cases h with
  | attach mode => exact List.range_succ
  | aside he _ hn => rw [(aside_quiet he).attachedId, hn, List.append_nil]
  | detach _ | acquire _ _ | release _ _ | failed _ | rejected _ _ | typed _ _ | broken _ | wrote _ =>
    exact (List.append_nil _).symm

/-- A lock that is held stays so until it is given back, its holder leaves or an upgrade fails. -/
theorem Journal.Read.held (h : j.Read e j') (hheld : j.lock = .held id) (hrelease : e ≠ LogEntry.release id)
    (hdetach : e ≠ LogEntry.detach id) (hfailed : e.isFailedUpgrade = false) : j'.lock = .held id := by
  cases h with
  | attach _ | wrote _ => exact hheld
  | @detach other _ =>
    have hne : other ≠ id := by
      rintro rfl
      exact hdetach rfl
    simp [LockTale.without, hheld, Ne.symm hne]
  | acquire _ hlock =>
    rw [hheld] at hlock
    simp [LockTale.admits] at hlock
  | release _ hlock =>
    obtain rfl := LockTale.held.inj (hheld.symm.trans hlock)
    exact absurd rfl hrelease
  | failed hr => cases hr.symm.trans hfailed
  | rejected hlock _ =>
    rw [hheld] at hlock
    obtain rfl := of_decide_eq_true hlock
    rfl
  | typed _ _ | broken _ => simp [LockTale.afterInput, hheld]
  | aside _ _ _ hl => exact hl.trans hheld

/-- A lock somebody has was taken by this entry, or was theirs and is not given back. -/
theorem Journal.Read.owed (h : j.Read e j') (hlock : j'.lock = .held id ∨ j'.lock = .abandoned id) :
    e = LogEntry.acquire id ∨ (j.lock = .held id ∨ j.lock = .abandoned id) ∧
      e ≠ LogEntry.release id ∧ (∀ other, e ≠ LogEntry.acquire other) ∧ e.isFailedUpgrade = false := by
  cases h with
  | attach _ | wrote _ => exact .inr ⟨hlock, by rintro ⟨⟩, by rintro _ ⟨⟩, rfl⟩
  | @detach other _ =>
    refine .inr ⟨?_, by rintro ⟨⟩, by rintro _ ⟨⟩, rfl⟩
    dsimp only [LockTale.without] at hlock
    split at hlock
    · rename_i hheld
      rcases hlock with hlock | hlock
      · cases hlock
      · exact .inl (hheld.trans (congrArg LockTale.held (LockTale.abandoned.inj hlock)))
    · exact hlock
  | acquire _ _ =>
    rcases hlock with hlock | hlock
    · exact .inl (congrArg LogEntry.acquire (LockTale.held.inj hlock))
    · cases hlock
  | release _ _ | failed _ => rcases hlock with hlock | hlock <;> cases hlock
  | @rejected _ _ lockHolder _ _ hadmits _ =>
    refine .inr ⟨?_, by rintro ⟨⟩, by rintro _ ⟨⟩, rfl⟩
    cases lockHolder with
    | none => rcases hlock with hlock | hlock <;> cases hlock
    | some holder =>
      have hid : holder = id := by
        rcases hlock with hlock | hlock
        · exact LockTale.held.inj hlock
        · cases hlock
      exact LockTale.of_admits_some (hid ▸ hadmits)
  | typed _ _ | broken _ => exact .inr ⟨.inl (LockTale.held_of_afterInput hlock), by rintro ⟨⟩, by rintro _ ⟨⟩, rfl⟩
  | @aside e _ he _ _ hl =>
    refine .inr ⟨hl ▸ hlock, (by rintro rfl; cases he), (by rintro _ rfl; cases he), ?_⟩
    exact (aside_quiet he).isFailedUpgrade

theorem Journal.Read.fed (h : j.Read e j') (hu : j'.unrecorded ≠ []) (hguard : j.unrecorded = [] ∨ e.isInput = true) :
    e = .ptyWrite j'.unrecorded := by
  have hquiet : j.unrecorded ≠ [] → e.isInput = true := fun hne => hguard.resolve_left hne
  cases h with
  | wrote _ => rfl
  | typed _ _ => exact absurd rfl hu
  | attach _ | detach _ | acquire _ _ | release _ _ | failed _ | rejected _ _ | broken _ => cases hquiet hu
  | aside he _ _ _ hun => cases (hquiet (hun ▸ hu)).symm.trans (aside_quiet he).isInput

theorem Journal.Read.acquired (h : j.Read (LogEntry.acquire id) j') : j'.lock = .held id := by
  cases h with
  | acquire _ _ => rfl
  | aside he => cases he

/-- What a journal knows of the entries so far, it knows with the next one. -/
theorem Journal.Past.entry (h : j.Past log) (he : j.entry e = some j') : j'.Past (log ++ [e]) := by
  have hread := entry_read he
  constructor
  · intro id w hid
    rcases hread.present hid with ⟨hid, hne⟩ | ⟨mode, rfl, hw⟩
    · obtain ⟨mode, hw, hat⟩ := h.attended id w hid
      exact ⟨mode, hw, since_snoc.2 (.inr ⟨hat, hne⟩)⟩
    · exact ⟨mode, hw, since_snoc.2 (.inl rfl)⟩
  · rw [List.flatMap_append, h.counted, hread.counted, List.flatMap_singleton]
  · intro id htaken
    rcases since_snoc.1 htaken with rfl | ⟨htaken, hrelease, hdetach, hfailed⟩
    · exact hread.acquired
    · exact hread.held (h.taken id htaken) hrelease hdetach hfailed
  · intro id hlock
    refine since_snoc.2 ?_
    rcases hread.owed hlock with rfl | ⟨hlock, hkeeps⟩
    · exact .inl rfl
    · exact .inr ⟨h.owed id hlock, hkeeps⟩
  · intro hu
    exact ⟨log, by rw [hread.fed hu (entry_guard he)]⟩

theorem mayType_writer (h : j.mayType id = true) : j.isWriter id = true := ((Bool.and_eq_true _ _).mp h).1

theorem mayType_lets {holder : ClientId} (h : j.mayType id = true) (hheld : j.lock = .held holder) : holder = id := by
  have hlets := ((Bool.and_eq_true _ _).mp h).2
  rw [hheld] at hlets
  exact of_decide_eq_true hlets

/-- Whoever does something is attached, and is more than a reader where that takes one. -/
theorem Journal.Read.standing (h : j.Read e j') (hid : e.doneBy = some id) :
    j.attached id = true ∧ (e.isWriting = true → j.isWriter id = true) := by
  cases h with
  | attach _ | failed _ | wrote _ => cases hid
  | detach hat | release hat _ =>
    obtain rfl := Option.some.inj hid
    exact ⟨hat, by rintro ⟨⟩⟩
  | acquire hw _ =>
    obtain rfl := Option.some.inj hid
    exact ⟨attached_of_writer hw, fun _ => hw⟩
  | typed hmay _ | broken hmay =>
    obtain rfl := Option.some.inj hid
    exact ⟨attached_of_writer (mayType_writer hmay), fun _ => mayType_writer hmay⟩
  | @rejected _ _ _ reason _ _ href =>
    obtain rfl := Option.some.inj hid
    refine ⟨?_, by rintro ⟨⟩⟩
    cases reason with
    | roClient => exact attached_iff.2 ⟨false, (of_decide_eq_true href).1⟩
    | lockNotHeld => exact attached_of_writer (of_decide_eq_true href).1
  | aside _ _ _ _ _ hby _ => exact hby id hid

theorem Journal.Read.someWriter (h : j.Read e j') (hw : e.isWriting = true) : j.someWriter = true := by
  cases h with
  | aside _ _ _ _ _ _ hsome => exact hsome hw
  | wrote hsome => exact hsome
  | acquire hid _ => exact Journal.someWriter_of hid
  | typed hmay _ | broken hmay => exact Journal.someWriter_of (mayType_writer hmay)
  | attach _ | detach _ | release _ _ | failed _ | rejected _ _ => cases hw

end Entry

/-! ## Every log -/

section Runs

variable {W : World} {cfg : Config} {st : State} {before after : Log} {e : LogEntry}

theorem start_past (cfg : Config) (resumed : Bytes) : (Journal.start cfg resumed).Past [] where
  attended _ _ h := nomatch h
  counted := rfl
  taken _ h := absurd h not_since_nil
  owed _ h := by rcases h with h | h <;> cases h
  fed h := absurd rfl h

/-- The journal an entry of a log is read into, and what it knows by then. -/
theorem journal_at (h : (loop W cfg).Reachable st) (hlog : st.sess.log = before ++ e :: after) :
    ∃ j j' jEnd : Journal, j.Past before ∧ j.entry e = some j' ∧ replay Journal.entry j' after = some jEnd ∧
      jEnd.unrecorded = [] := by
  obtain ⟨resumed, jEnd, hread, htells⟩ := log_read h
  rw [hlog] at hread
  obtain ⟨j, j', hpast, hentry, hrest⟩ :=
    replay_at (fun log j => j.Past log) (fun _ _ _ _ => Journal.Past.entry) hread (start_past cfg resumed)
  exact ⟨j, j', jEnd, hpast, hentry, hrest, htells.recorded⟩

/-- Reading an entry, what is recorded as typed is what the PTY took. -/
theorem Journal.Read.balance {j j' : Journal} (h : j.Read e j') (hguard : j.unrecorded = [] ∨ e.isInput = true) :
    j.unrecorded ++ e.written = e.typed ++ j'.unrecorded := by
  cases h with
  | typed _ _ => rfl
  | wrote _ => rw [hguard.resolve_right (by rintro ⟨⟩), List.nil_append]; rfl
  | aside he _ _ _ hun => rw [(aside_quiet he).written, (aside_quiet he).typed, hun, List.append_nil, List.nil_append]
  | attach _ | detach _ | acquire _ _ | release _ _ | failed _ | rejected _ _ | broken _ => exact List.append_nil _

/-- A write is followed at once by the record of who typed it. -/
theorem write_followed (h : (loop W cfg).Reachable st) {bytes : Bytes}
    (hlog : st.sess.log = before ++ .ptyWrite bytes :: after) (hne : bytes ≠ []) :
    ∃ id rest, after = .push (.bytesIn id bytes) :: rest := by
  obtain ⟨j, j', jEnd, -, hentry, hrest, hpaid⟩ := journal_at h hlog
  have hfed : j'.unrecorded = bytes := by
    cases entry_read hentry with
    | wrote _ => rfl
    | aside he => cases he
  cases after with
  | nil =>
    obtain rfl := Option.some.inj hrest
    exact absurd (hfed.symm.trans hpaid) hne
  | cons next rest =>
    rw [replay_cons, Option.bind_eq_some_iff] at hrest
    obtain ⟨j'', hnext, -⟩ := hrest
    have hinput : next.isInput = true := (entry_guard hnext).resolve_left (hfed ▸ hne)
    cases entry_read hnext with
    | @typed id _ _ => exact ⟨id, rest, by rw [hfed]⟩
    | aside he => cases (aside_quiet he).isInput.symm.trans hinput
    | attach _ | detach _ | acquire _ _ | release _ _ | failed _ | rejected _ _ | broken _ | wrote _ => cases hinput

/-- What the PTY took is what is recorded as typed, piece by piece: a write is followed at once by the
record of the client that typed it, and such a record follows only its write. -/
theorem writes_are_typed (h : (loop W cfg).Reachable st) :
    st.sess.log.flatMap written = st.sess.log.flatMap typed ∧
    (∀ before bytes after, st.sess.log = before ++ .ptyWrite bytes :: after → bytes ≠ [] →
      ∃ id rest, after = .push (.bytesIn id bytes) :: rest) ∧
    ∀ before id bytes after, st.sess.log = before ++ .push (.bytesIn id bytes) :: after →
      ∃ earlier, before = earlier ++ [.ptyWrite bytes] := by
  refine ⟨?_, ?_, ?_⟩
  · obtain ⟨resumed, jEnd, hread, htells⟩ := log_read h
    have hall := replay_balance Journal.unrecorded written typed
      (fun j e j' he => (entry_read he).balance (entry_guard he)) hread
    rw [htells.recorded, List.append_nil] at hall
    exact hall
  · exact fun before bytes after hlog hne => write_followed h hlog hne
  · intro before id bytes after hlog
    obtain ⟨j, j', jEnd, hpast, hentry, -, -⟩ := journal_at h hlog
    cases entry_read hentry with
    | typed _ hne => exact hpast.fed hne
    | aside he => cases he

/-- The first client takes the lock and types, and the PTY takes it all. -/
def typedMoves : List Move :=
  lockedMoves ++ [.turn { recvInput [(0, rawBytes [104, 105])] with
    frameEnv := fun _ => { token := .ok "0123456789abcdeffedcba9876543210", tty := [.wrote 2] } }]

theorem typed_run : ∃ st, (loop World.pristine {}).Reachable st ∧ st.sess.log =
    [attach 0 .rwNoLeader, acquire 0, .ptyWrite [104, 105], .push (.bytesIn 0 [104, 105])] :=
  (pristineStart_reach {} {} fun _ _ => True).exists_run typedMoves (by decide +kernel)

theorem writes_are_typed_two : ∃ st : State, st.sess.log.flatMap written = [104, 105] ∧
    st.sess.log.flatMap written = st.sess.log.flatMap typed := by
  obtain ⟨st, hreach, hlog⟩ := typed_run
  exact ⟨st, by rw [hlog]; rfl, (writes_are_typed hreach).1⟩

/-- Who does something was let in before and has not left since, and is not read-only where that needs more. -/
theorem author_attended (h : (loop W cfg).Reachable st) (hlog : st.sess.log = before ++ e :: after) {id : ClientId}
    (hid : e.doneBy = some id) : ∃ mode, Attended id mode before ∧ (e.isWriting = true → mode ≠ .ro) := by
  obtain ⟨j, j', jEnd, hpast, hentry, -, -⟩ := journal_at h hlog
  obtain ⟨hat, hw⟩ := (entry_read hentry).standing hid
  cases hwriting : e.isWriting with
  | true =>
    obtain ⟨mode, hmode, hat⟩ := hpast.attended id true (isWriter_iff.1 (hw hwriting))
    exact ⟨mode, hat, fun _ => of_decide_eq_true hmode.symm⟩
  | false =>
    obtain ⟨w, hmem⟩ := attached_iff.1 hat
    obtain ⟨mode, -, hmode⟩ := hpast.attended id w hmem
    exact ⟨mode, hmode, by rintro ⟨⟩⟩

/-- While a client has the lock, nobody else's bytes reach the child, nobody else gives the lock back and
nobody takes it, and whoever is refused is told of this holder; and a holder somebody is told of took the
lock as the last one and has not given it back. -/
theorem lock_excludes (h : (loop W cfg).Reachable st) (hlog : st.sess.log = before ++ e :: after) :
    (∀ a, LockTaken a before → (∀ id, e.typedBy = some id → id = a) ∧ (∀ id, e = release id → id = a) ∧
      (∀ id, e ≠ acquire id) ∧
      ∀ id mode holder reason bytes, e = .push (.inRejected id mode holder reason bytes) → holder = some a) ∧
    ∀ a id mode reason bytes, e = .push (.inRejected id mode (some a) reason bytes) → LockOwed a before := by
  obtain ⟨j, j', jEnd, hpast, hentry, -, -⟩ := journal_at h hlog
  have hread := entry_read hentry
  refine ⟨?_, ?_⟩
  · intro a htaken
    have hheld := hpast.taken a htaken
    refine ⟨?_, ?_, ?_, ?_⟩
    · intro id hid
      cases hread with
      | typed hmay _ | broken hmay =>
        obtain rfl := Option.some.inj hid
        exact (mayType_lets hmay hheld).symm
      | aside he => cases (aside_quiet he).typedBy.symm.trans hid
      | attach _ | detach _ | acquire _ _ | release _ _ | failed _ | rejected _ _ | wrote _ => cases hid
    · rintro id rfl
      cases hread with
      | release _ hlock => exact LockTale.held.inj (hlock.symm.trans hheld)
      | aside he => cases he
    · rintro id rfl
      cases hread with
      | acquire _ hlock =>
        rw [hheld] at hlock
        simp [LockTale.admits] at hlock
      | aside he => cases he
    · rintro id mode holder reason bytes rfl
      cases hread with
      | rejected hadmits _ =>
        rw [hheld] at hadmits
        exact of_decide_eq_true hadmits
      | aside he => cases he
  · rintro a id mode reason bytes rfl
    cases hread with
    | rejected hadmits _ => exact hpast.owed a (LockTale.of_admits_some hadmits)
    | aside he => cases he

theorem lock_excludes_typing : ∃ before : Log, LockTaken 0 before ∧
    ∀ id, (LogEntry.push (.bytesIn 0 [104, 105])).typedBy = some id → id = 0 := by
  obtain ⟨st, hreach, hlog⟩ := typed_run
  have hlog : st.sess.log =
      [attach 0 .rwNoLeader, acquire 0, .ptyWrite [104, 105]] ++ .push (.bytesIn 0 [104, 105]) :: [] := hlog
  have htaken : LockTaken 0 [attach 0 .rwNoLeader, acquire 0, .ptyWrite [104, 105]] :=
    ⟨[attach 0 .rwNoLeader], acquire 0, [.ptyWrite [104, 105]], rfl, rfl, by simp [release, detach, isFailedUpgrade]⟩
  exact ⟨_, htaken, ((lock_excludes hreach hlog).1 0 htaken).1⟩

end Runs

end Hyoui.Daemon
