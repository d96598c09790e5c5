import Hyoui.Daemon.Loop
import Hyoui.Daemon.InputRecords
import Hyoui.Lib.Replay
/-!
# What the log tells of a session

`Journal` is an account of a session by somebody who sees only its log: who is attached and may
type, who holds the lock, whether the child is stopped, what the screen was fed. `Journal.entry` reads
one entry and refuses what cannot be: input of a client that was not let in, that is read-only or kept
out by the lock, bytes the PTY took that nobody is recorded to have typed.
-/

namespace Hyoui.Daemon

open Hyoui.Protocol Hyoui.Lib

/-! ## The lock as it is told of -/

inductive LockTale where
  | free
  | held (id : ClientId)
  /-- The holder is gone, and the log does not say whether the lock went with it. -/
  | abandoned (id : ClientId)
deriving DecidableEq

namespace LockTale

def of : Option ClientId → LockTale
  | none => .free
  | some id => .held id

/-- Whether the lock may be in these hands. -/
def admits (lock : LockTale) (holder : Option ClientId) : Bool :=
  match lock with
  | .free => holder = none
  | .held id => holder = some id
  | .abandoned id => holder = none || holder = some id

/-- Whether the client may type: nobody holds the lock, or it does. -/
def lets (lock : LockTale) (id : ClientId) : Bool :=
  match lock with
  | .free | .abandoned _ => true
  | .held holder => holder = id

/-- Input went through: an abandoned lock has gone with its holder. -/
def afterInput : LockTale → LockTale
  | .abandoned _ => .free
  | lock => lock

def without (lock : LockTale) (id : ClientId) : LockTale := if lock = .held id then .abandoned id else lock

end LockTale

/-! ## Reading the log -/

structure Journal where
  present : List (ClientId × Bool) := []
  nextId : ClientId := 0
  lock : LockTale := .free
  stopped : Bool := false
  policy : ChildSuspendPolicy
  screen : Screen := []
  /-- Bytes the PTY took, not recorded yet as anybody's input. -/
  unrecorded : Bytes := []
deriving DecidableEq

/-- The reasons of attempts to upgrade that failed. -/
def isUpgradeFailure (reason : String) : Bool :=
  ["upgrade-precheck-failed: ", "upgrade-execve-failed: "].any (·.toList.isPrefixOf reason.toList)

def LogEntry.isInput : LogEntry → Bool
  | .push (.bytesIn _ _) => true
  | _ => false

namespace Journal

def attached (j : Journal) (id : ClientId) : Bool := j.present.any (·.1 = id)

/-- Somebody is attached who is not read-only. -/
def someWriter (j : Journal) : Bool := j.present.any (·.2)

def isWriter (j : Journal) (id : ClientId) : Bool := (id, true) ∈ j.present

def mayType (j : Journal) (id : ClientId) : Bool := j.isWriter id && j.lock.lets id

def lifecycle (j : Journal) : LifecycleEvent → Option Journal
  | .clientAttached id mode =>
    if id = j.nextId then some { j with present := j.present ++ [(id, decide (mode ≠ .ro))], nextId := j.nextId + 1 } else none
  | .clientDetached id =>
    if j.attached id then some { j with present := j.present.filter (·.1 ≠ id), lock := j.lock.without id } else none
  | .lockAcquired id =>
    if j.isWriter id ∧ j.lock.admits none then some { j with lock := .held id } else none
  | .lockReleased id => if j.attached id ∧ j.lock = .held id then some { j with lock := .free } else none
  | .childStoppedObserved _ _ _ => some { j with stopped := true }
  | .childContinuedObserved _ _ _ => some { j with stopped := false }
  | .policyChanged key value id =>
    if j.isWriter id ∧ key = "on-child-suspend" then
      (ChildSuspendPolicy.fromWire value).map fun policy => { j with policy }
    else none
  | .resumeRequestReceived id => if j.attached id then some j else none
  | .sigcontSent _ => some j
  | .sessionTerminatedByCondition reason => some (if isUpgradeFailure reason then { j with lock := .free } else j)
  | .recordAborted _ _ _ => none

def refused (j : Journal) (id : ClientId) (mode : Mode) (lockHolder : Option ClientId) : InRejectedReason → Bool
  | .roClient => (id, false) ∈ j.present ∧ mode = .ro
  | .lockNotHeld => j.isWriter id ∧ mode ≠ .ro ∧ lockHolder ≠ none ∧ lockHolder ≠ some id

def event (j : Journal) : RecordEvent → Option Journal
  | .lifecycle e => j.lifecycle e
  | .bytesIn id bytes =>
    if j.mayType id ∧ bytes ≠ [] ∧ bytes = j.unrecorded then
      some { j with lock := j.lock.afterInput, unrecorded := [] }
    else none
  | .bytesOut bytes => some { j with screen := j.screen ++ [.process bytes] }
  | .inRejected id mode lockHolder reason _ =>
    if j.lock.admits lockHolder ∧ j.refused id mode lockHolder reason then some { j with lock := .of lockHolder } else none
  | .inWriteError id requested written _ unwritten =>
    if j.mayType id ∧ unwritten ≠ [] ∧ written + unwritten.length = requested then
      some { j with lock := j.lock.afterInput }
    else none
  | .inSecretRedacted _ _ _ => none

/-- The journal after an entry that can be. -/
def entry (j : Journal) (e : LogEntry) : Option Journal :=
  if j.unrecorded ≠ [] ∧ ¬ e.isInput then none
  else match e with
    | .push e => j.event e
    | .recordStart _ id _ => if j.attached id then some j else none
    | .recordStop _ | .recordStopAll => some j
    | .ptyWrite bytes => if j.someWriter then some { j with unrecorded := bytes } else none
    | .ptyResize cols rows =>
      if j.someWriter then some { j with screen := j.screen ++ [.resize rows cols] } else none
    | .kill _ => if j.someWriter then some j else none
    | .killPgrp sig => if sig = sigCont ∨ sig = sigTerm then some j else none

end Journal

/-! ## The session it tells of -/

/-- The attached clients, and whether each is more than a reader. -/
def Session.present (s : Session) : List (ClientId × Bool) := s.clients.map fun ch => (ch.id, decide (ch.mode ≠ .ro))

structure Journal.Tells (j : Journal) (s : Session) (holder : Option ClientId) : Prop where
  present : j.present = s.present
  nextId : j.nextId = s.nextClientId
  fresh : ∀ p ∈ j.present, p.1 < j.nextId
  lock : j.lock.admits holder = true
  gone : ∀ id, j.lock = .abandoned id → j.attached id = false ∧ id < j.nextId
  stopped : j.stopped = s.childStopped
  policy : j.policy = s.childSuspendPolicy
  screen : j.screen = s.screen
  recorded : j.unrecorded = []

/-- What was logged on the way leads every account of the one state to an account of the other. -/
abbrev Retold (s : Session) (d : DaemonState) (s' : Session) (d' : DaemonState) : Prop :=
  Retells Journal.entry (fun p : Session × DaemonState => p.1.log) (fun j p => j.Tells p.1 p.2.lock.holder) (s, d) (s', d')

/-- Nothing was logged, and nothing happened that a journal tells of. -/
structure Silent (s s' : Session) : Prop where
  present : s'.present = s.present
  nextId : s'.nextClientId = s.nextClientId
  stopped : s'.childStopped = s.childStopped
  policy : s'.childSuspendPolicy = s.childSuspendPolicy
  screen : s'.screen = s.screen
  log : s'.log = s.log

section Retold

variable {s s' s'' : Session} {d d' d'' : DaemonState} {ov : List ClientId}

theorem Silent.refl (s : Session) : Silent s s := ⟨rfl, rfl, rfl, rfl, rfl, rfl⟩

theorem Silent.trans (h : Silent s s') (h' : Silent s' s'') : Silent s s'' :=
  ⟨h'.present.trans h.present, h'.nextId.trans h.nextId, h'.stopped.trans h.stopped, h'.policy.trans h.policy,
    h'.screen.trans h.screen, h'.log.trans h.log⟩

theorem Journal.Tells.silent {j : Journal} {holder : Option ClientId} (h : j.Tells s holder) (hs : Silent s s') :
    j.Tells s' holder :=
  ⟨h.present.trans hs.present.symm, h.nextId.trans hs.nextId.symm, h.fresh, h.lock, h.gone,
    h.stopped.trans hs.stopped.symm, h.policy.trans hs.policy.symm, h.screen.trans hs.screen.symm, h.recorded⟩

theorem Silent.retold (h : Silent s s') (hd : d'.lock.holder = d.lock.holder) : Retold s d s' d' :=
  .same h.log fun _ hj => hd ▸ hj.silent h

theorem Retold.refl (s : Session) (d : DaemonState) : Retold s d s d := Retells.refl _

/-- An entry is read, and the session it leads to is told of. -/
theorem retold_entry {e : LogEntry} (hlog : s'.log = s.log ++ [e]) (h : ∀ j : Journal, j.Tells s d.lock.holder →
    ∃ j', j.entry e = some j' ∧ j'.Tells s' d'.lock.holder) : Retold s d s' d' :=
  .entry e hlog h

/-- An entry that says nothing about what a journal tells. -/
theorem retold_plain {e : LogEntry} (hlog : s'.log = s.log ++ [e]) (hs : Silent (s.logs e) s')
    (hd : d'.lock.holder = d.lock.holder) (h : ∀ j : Journal, j.Tells s d.lock.holder → j.entry e = some j) :
    Retold s d s' d' :=
  retold_entry hlog fun j hj => ⟨j, h j hj, by
    rw [hd]
    exact ⟨hj.present.trans hs.present.symm, hj.nextId.trans hs.nextId.symm, hj.fresh, hj.lock, hj.gone,
      hj.stopped.trans hs.stopped.symm, hj.policy.trans hs.policy.symm, hj.screen.trans hs.screen.symm, hj.recorded⟩⟩

end Retold

end Hyoui.Daemon
