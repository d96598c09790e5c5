import Hyoui.Lib.Holders
import Hyoui.Lib.Transition
/-!
# One socket path and the processes that work on it

`UnixSock::listen`, the `Drop` of a `UnixSock` and the prune of `query_status`, one system call a
step. A process is the place it has reached (`Phase`), with what it then holds: the flock of the
directory's `.dir.lock`, the flock of the name lock, the listening socket. Dying lets go of all of
it. What the kernel answers a call is `Answer`; a flock is granted when no process holds it, and
`bind` succeeds only where the path is free.
-/

namespace Hyoui.Sys

open Hyoui.Lib

abbrev Inode := Nat

/-- The two names beside each other in the directory: the socket path and `<name>.lock`. -/
structure Links where
  sock : Option Inode
  /-- What the socket path names is a socket. -/
  isSocket : Bool
  lock : Option Inode
deriving DecidableEq

/-- The inodes of a `UnixSock`: its socket and its name lock, which it has flocked. -/
structure UnixSock where
  sock : Inode
  lock : Inode
deriving DecidableEq

/-- Who asked for the directory lock. -/
inductive Task where
  | listen
  | drop (own : UnixSock)
  | prune
deriving DecidableEq

/-- What a `listen` knows once it has opened the name lock. `found` is what stood in the directory
when it got the directory lock; the code does not keep it. -/
structure Opened where
  found : Links
  /-- `lock_existed` -/
  existed : Bool
  lock : Inode
deriving DecidableEq

/-- The next system call of a process. From `dirCloexec` to the release the directory lock is held. -/
inductive Phase where
  | checkParentDir
  -- `lock_socket_dir`
  | dirOpen (t : Task)
  | dirFlock (t : Task)
  | dirCloexec (t : Task)
  -- `listen`
  | lockStat (found : Links)
  | lockOpen (found : Links) (existed : Bool)
  | lockFlock (o : Opened)
  | lockCloexec (o : Opened)
  | makeSocket (o : Opened)
  | bind (o : Opened)
  | listenCall (o : Opened) (sock : Inode)
  | unlinkBound (o : Opened) (sock : Inode)
  | unlinkLock (o : Opened)
  | dropLock (o : Opened)
  | failed (found : Links)
  | listening (own : UnixSock)
  | serving (own : UnixSock)
  -- `Drop`
  | dropStat (own : UnixSock)
  | dropUnlinkSock (own : UnixSock)
  | dropUnlinkLock (own : UnixSock)
  | dropRelease (own : UnixSock)
  | dropClose (own : UnixSock)
  -- the prune of `query_status`
  | pruneOpen
  | pruneFlock (lock : Inode)
  | pruneStat (lock : Inode)
  | pruneUnlinkSock (lock : Inode)
  | pruneUnlinkLock (lock : Inode)
  | pruneUnlock (lock : Inode)
  | pruneRelease
  | returned
  | dead
deriving DecidableEq

namespace Phase

/-- The process holds the flock of the directory. -/
def dirLock : Phase → Option Unit
  | dirCloexec _ | lockStat _ | lockOpen .. | lockFlock _ | lockCloexec _ | makeSocket _ | bind _ | listenCall ..
  | unlinkBound .. | unlinkLock _ | dropLock _ | failed _ | listening _ | dropStat _ | dropUnlinkSock _
  | dropUnlinkLock _ | dropRelease _ | pruneOpen | pruneFlock _ | pruneStat _ | pruneUnlinkSock _ | pruneUnlinkLock _
  | pruneUnlock _ | pruneRelease => some ()
  | checkParentDir | dirOpen _ | dirFlock _ | serving _ | dropClose _ | returned | dead => none

/-- The name lock file whose flock the process holds. -/
def nameLock : Phase → Option Inode
  | lockCloexec o | makeSocket o | bind o | listenCall o _ | unlinkBound o _ | unlinkLock o | dropLock o => some o.lock
  | listening own | serving own | dirOpen (.drop own) | dirFlock (.drop own) | dirCloexec (.drop own) | dropStat own
  | dropUnlinkSock own | dropUnlinkLock own | dropRelease own | dropClose own => some own.lock
  | pruneStat lock | pruneUnlinkSock lock | pruneUnlinkLock lock | pruneUnlock lock => some lock
  | _ => none

/-- The socket the process is bound to. -/
def listener : Phase → Option Inode
  | listenCall _ sock => some sock
  | listening own | serving own | dirOpen (.drop own) | dirFlock (.drop own) | dirCloexec (.drop own) | dropStat own
  | dropUnlinkSock own | dropUnlinkLock own | dropRelease own | dropClose own => some own.sock
  | _ => none

/-- The lock file the process has open. -/
def lockFd : Phase → Option Inode
  | lockFlock o => some o.lock
  | pruneFlock lock => some lock
  | p => p.nameLock

end Phase

/-- What the kernel answers a call. `lost` is the `bind` of a forked child whose exit is not seen. -/
inductive Answer where
  | ok
  | fails
  | lost
deriving DecidableEq

/-- What a call meets. -/
structure View where
  links : Links
  dirFree : Bool
  lockFree : Inode → Bool
  /-- An inode not in use. -/
  fresh : Inode

/-- `lock_socket_dir` failed: a `listen` and a prune return, a `Drop` goes on to close its files. -/
def Task.giveUp : Task → Phase
  | .listen | .prune => .returned
  | .drop own => .dropClose own

def Task.start (found : Links) : Task → Phase
  | .listen => .lockStat found
  | .drop own => .dropStat own
  | .prune => .pruneOpen

/-- After a failed bind or listen: a lock file it made is removed. -/
def Opened.cleanup (o : Opened) : Phase := if o.existed then .dropLock o else .unlinkLock o

/-- One system call, and the directory after it; `none` while it blocks. -/
def Phase.next (v : View) (a : Answer) (p : Phase) : Option (Phase × Links) :=
  let l := v.links
  match p, a with
  | .checkParentDir, .ok => some (.dirOpen .listen, l)
  | .checkParentDir, _ => some (.returned, l)
  | .dirOpen t, .ok => some (.dirFlock t, l)
  | .dirOpen t, _ => some (t.giveUp, l)
  | .dirFlock t, .ok => if v.dirFree then some (.dirCloexec t, l) else none
  | .dirFlock t, _ => some (t.giveUp, l)
  | .dirCloexec t, .ok => some (t.start l, l)
  | .dirCloexec t, _ => some (t.giveUp, l)
  | .lockStat found, .ok => some (.lockOpen found l.lock.isSome, l)
  | .lockStat found, _ => some (.lockOpen found false, l)
  | .lockOpen found existed, .ok =>
    match l.lock with
    | some lock => some (.lockFlock ⟨found, existed, lock⟩, l)
    | none => some (.lockFlock ⟨found, existed, v.fresh⟩, { l with lock := some v.fresh })
  | .lockOpen found _, _ => some (.failed found, l)
  | .lockFlock o, .ok => if v.lockFree o.lock then some (.lockCloexec o, l) else some (.failed o.found, l)
  | .lockFlock o, _ => some (.failed o.found, l)
  | .lockCloexec o, .ok => some (.makeSocket o, l)
  | .lockCloexec o, _ => some (.failed o.found, l)
  | .makeSocket o, .ok => some (.bind o, l)
  | .makeSocket o, _ => some (o.cleanup, l)
  | .bind o, .ok =>
    match l.sock with
    | some _ => some (o.cleanup, l)
    | none => some (.listenCall o v.fresh, { l with sock := some v.fresh, isSocket := true })
  | .bind o, .lost =>
    match l.sock with
    | some _ => some (o.cleanup, l)
    | none => some (o.cleanup, { l with sock := some v.fresh, isSocket := true })
  | .bind o, .fails => some (o.cleanup, l)
  | .listenCall o sock, .ok => some (.listening ⟨sock, o.lock⟩, l)
  | .listenCall o sock, _ => some (.unlinkBound o sock, l)
  | .unlinkBound o _, .ok => some (o.cleanup, { l with sock := none })
  | .unlinkBound o _, _ => some (o.cleanup, l)
  | .unlinkLock o, .ok => some (.dropLock o, { l with lock := none })
  | .unlinkLock o, _ => some (.dropLock o, l)
  | .dropLock o, _ => some (.failed o.found, l)
  | .failed _, _ => some (.returned, l)
  | .listening own, _ => some (.serving own, l)
  | .serving own, _ => some (.dirOpen (.drop own), l)
  | .dropStat own, .ok => if l.lock = some own.lock then some (.dropUnlinkSock own, l) else some (.dropRelease own, l)
  | .dropStat own, _ => some (.dropRelease own, l)
  | .dropUnlinkSock own, .ok => some (.dropUnlinkLock own, { l with sock := none })
  | .dropUnlinkSock own, _ => some (.dropUnlinkLock own, l)
  | .dropUnlinkLock own, .ok => some (.dropRelease own, { l with lock := none })
  | .dropUnlinkLock own, _ => some (.dropRelease own, l)
  | .dropRelease own, _ => some (.dropClose own, l)
  | .dropClose _, _ => some (.returned, l)
  | .pruneOpen, .ok =>
    match l.lock with
    | some lock => some (.pruneFlock lock, l)
    | none => some (.pruneRelease, l)
  | .pruneOpen, _ => some (.pruneRelease, l)
  | .pruneFlock lock, .ok => if v.lockFree lock then some (.pruneStat lock, l) else some (.pruneRelease, l)
  | .pruneFlock _, _ => some (.pruneRelease, l)
  | .pruneStat lock, .ok =>
    if l.sock.isSome && l.isSocket then some (.pruneUnlinkSock lock, l) else some (.pruneUnlock lock, l)
  | .pruneStat lock, _ => some (.pruneUnlock lock, l)
  | .pruneUnlinkSock lock, .ok => some (.pruneUnlinkLock lock, { l with sock := none })
  | .pruneUnlinkSock lock, _ => some (.pruneUnlinkLock lock, l)
  | .pruneUnlinkLock lock, .ok => some (.pruneUnlock lock, { l with lock := none })
  | .pruneUnlinkLock lock, _ => some (.pruneUnlock lock, l)
  | .pruneUnlock _, _ => some (.pruneRelease, l)
  | .pruneRelease, _ => some (.returned, l)
  | .returned, _ => none
  | .dead, _ => none

structure State where
  procs : List Phase
  links : Links
deriving DecidableEq

/-- The inode is neither linked nor open anywhere. -/
def State.Unused (s : State) (n : Inode) : Prop :=
  s.links.sock ≠ some n ∧ s.links.lock ≠ some n ∧ Free Phase.listener n s.procs ∧ Free Phase.lockFd n s.procs

instance (s : State) (n : Inode) : Decidable (s.Unused n) := inferInstanceAs (Decidable (_ ∧ _ ∧ _ ∧ _))

def State.view (s : State) (fresh : Inode) : View where
  links := s.links
  dirFree := decide (Free Phase.dirLock () s.procs)
  lockFree n := decide (Free Phase.nameLock n s.procs)
  fresh := fresh

inductive Label where
  /-- A process begins to listen. -/
  | listen
  /-- A process was refused by the socket and begins to prune. -/
  | prune
  | call (proc : Nat) (answer : Answer) (fresh : Inode)
  | die (proc : Nat)
deriving DecidableEq

def State.step (s : State) : Label → Option State
  | .listen => some { s with procs := s.procs ++ [.checkParentDir] }
  | .prune => some { s with procs := s.procs ++ [.dirOpen .prune] }
  | .call i a fresh =>
    if s.Unused fresh then
      (s.procs[i]?).bind fun p =>
        (p.next (s.view fresh) a).map fun (p', links) => { procs := s.procs.set i p', links }
    else none
  | .die i => (s.procs[i]?).map fun _ => { s with procs := s.procs.set i .dead }

/-- Any files may lie in the directory at the start, and no process works on it. -/
def sockets : System State Label where
  init s := s.procs = []
  step := State.step

end Hyoui.Sys
