import Hyoui.Sys.Socket
/-!
# The owner of a socket path

Whatever the order of the calls and whoever dies between them, the process whose socket is the one
linked at the path holds the flock of the lock file linked beside it, and nobody else removes
either. A `listen` that fails leaves the directory as it found it, unless a call fails where the
code does not clean up (`Answered`).
-/

namespace Hyoui.Sys

open Hyoui.Lib

/-! ## What one call can do -/

/-- The process takes no lock and no socket. -/
structure Keeps (p p' : Phase) : Prop where
  dirLock : p'.dirLock = none ∨ p'.dirLock = p.dirLock
  nameLock : p'.nameLock = none ∨ p'.nameLock = p.nameLock
  listener : p'.listener = none ∨ p'.listener = p.listener

section Keeps

variable {p p' : Phase} {t : Task} {found : Links} {o : Opened}

/-- A process that gives up on the directory lock has what its task came with. -/
theorem giveUp_keeps (hp : p = .dirOpen t ∨ p = .dirFlock t ∨ p = .dirCloexec t) : Keeps p t.giveUp := by
  rcases hp with rfl | rfl | rfl <;> cases t
  all_goals first
    | exact ⟨.inl rfl, .inl rfl, .inl rfl⟩
    | exact ⟨.inl rfl, .inr rfl, .inr rfl⟩

theorem dirOpen_keeps : Keeps (.dirOpen t) (.dirFlock t) := by
  cases t <;> exact ⟨.inl rfl, .inr rfl, .inr rfl⟩

theorem start_keeps : Keeps (.dirCloexec t) (t.start found) := by
  cases t <;> exact ⟨.inr rfl, .inr rfl, .inr rfl⟩

theorem cleanup_keeps (hd : p.dirLock = some ()) (hn : p.nameLock = some o.lock) : Keeps p o.cleanup := by
  unfold Opened.cleanup
  split
  · exact ⟨.inr hd.symm, .inr hn.symm, .inl rfl⟩
  · exact ⟨.inr hd.symm, .inr hn.symm, .inl rfl⟩

theorem cleanup_dirLock : o.cleanup.dirLock = some () := by
  unfold Opened.cleanup
  split <;> rfl

theorem cleanup_nameLock : o.cleanup.nameLock = some o.lock := by
  unfold Opened.cleanup
  split <;> rfl

theorem cleanup_listener : o.cleanup.listener = none := by
  unfold Opened.cleanup
  split <;> rfl

end Keeps

/-- The lock file a process has found linked since it has the directory lock. -/
def Phase.linkedLock : Phase → Option Inode
  | .lockFlock o | .lockCloexec o | .makeSocket o | .bind o | .listenCall o _ | .unlinkBound o _ | .unlinkLock o =>
    some o.lock
  | .dropUnlinkSock own | .dropUnlinkLock own => some own.lock
  | .pruneFlock lock | .pruneStat lock | .pruneUnlinkSock lock | .pruneUnlinkLock lock => some lock
  | _ => none

/-- What one call does to the directory and to what the process holds. -/
inductive Effect (v : View) (p : Phase) : Phase → Links → Prop
  | quiet {p'} : Keeps p p' → Effect v p p' v.links
  | takesDir {t} : p = .dirFlock t → v.dirFree = true → Effect v p (.dirCloexec t) v.links
  | takesName {p' n} : p.lockFd = some n → v.lockFree n = true → p.dirLock = some () → p'.dirLock = some () →
    p'.nameLock = some n → p'.listener = none → Effect v p p' v.links
  | makesLock {found existed} : p = .lockOpen found existed → v.links.lock = none →
    Effect v p (.lockFlock ⟨found, existed, v.fresh⟩) { v.links with lock := some v.fresh }
  | binds {o p'} : p = .bind o → v.links.sock = none → p'.dirLock = some () → p'.nameLock = some o.lock →
    (p'.listener = none ∨ p'.listener = some v.fresh) →
    Effect v p p' { v.links with sock := some v.fresh, isSocket := true }
  | unlinksSock {p' n} : p.dirLock = some () → p.linkedLock = some n → p.nameLock = some n → Keeps p p' →
    Effect v p p' { v.links with sock := none }
  | unlinksLock {p' n} : p.dirLock = some () → p.linkedLock = some n → p.nameLock = some n → Keeps p p' →
    (p.listener = none ∨ ∃ own, p = .dropUnlinkLock own) → Effect v p p' { v.links with lock := none }

theorem next_effect {v : View} {a : Answer} {p p' : Phase} {l : Links} (h : p.next v a = some (p', l)) :
    Effect v p p' l := by
  revert h
  fun_cases Phase.next v a p <;> intro h <;> simp only [Option.some.injEq, Prod.mk.injEq, reduceCtorEq] at h
  all_goals obtain ⟨rfl, rfl⟩ := h
  all_goals first
    | exact .quiet ⟨.inl rfl, .inl rfl, .inl rfl⟩
    | exact .quiet ⟨.inr rfl, .inl rfl, .inl rfl⟩
    | exact .quiet ⟨.inr rfl, .inr rfl, .inl rfl⟩
    | exact .quiet ⟨.inr rfl, .inr rfl, .inr rfl⟩
    | exact .quiet ⟨.inl rfl, .inr rfl, .inr rfl⟩
    | exact .quiet dirOpen_keeps
    | exact .quiet (giveUp_keeps (.inl rfl))
    | exact .quiet (giveUp_keeps (.inr (.inl rfl)))
    | exact .quiet (giveUp_keeps (.inr (.inr rfl)))
    | exact .quiet start_keeps
    | exact .quiet (cleanup_keeps rfl rfl)
    | exact .takesDir rfl ‹_›
    | exact .takesName rfl ‹_› rfl rfl rfl rfl
    | exact .makesLock rfl ‹_›
    | exact .binds rfl ‹_› rfl rfl (.inr rfl)
    | exact .binds rfl ‹_› cleanup_dirLock cleanup_nameLock (.inl cleanup_listener)
    | exact .unlinksSock rfl rfl rfl (cleanup_keeps rfl rfl)
    | exact .unlinksSock rfl rfl rfl ⟨.inr rfl, .inr rfl, .inr rfl⟩
    | exact .unlinksLock rfl rfl rfl ⟨.inr rfl, .inr rfl, .inr rfl⟩ (.inl rfl)
    | exact .unlinksLock rfl rfl rfl ⟨.inr rfl, .inr rfl, .inr rfl⟩ (.inr ⟨_, rfl⟩)

/-! ## What a process knows of the directory while it has the directory lock -/

/-- The directory as a `listen` found it; a socket where there was none does no harm. -/
structure LeftAlone (found l : Links) : Prop where
  sock : ∀ n, found.sock = some n → l.sock = some n
  lock : l.lock = found.lock

structure Opened.Ok (o : Opened) (l : Links) : Prop where
  linked : l.lock = some o.lock
  existed : o.existed = o.found.lock.isSome
  found : ∀ n, o.found.lock = some n → n = o.lock

def Phase.Ok (l : Links) : Phase → Prop
  | .lockStat found => l = found
  | .lockOpen found existed => l = found ∧ existed = found.lock.isSome
  | .lockFlock o | .lockCloexec o | .makeSocket o | .bind o => o.Ok l ∧ l.sock = o.found.sock
  | .listenCall o _ | .unlinkBound o _ => o.Ok l ∧ o.found.sock = none
  | .unlinkLock o => o.Ok l ∧ o.existed = false ∧ ∀ n, o.found.sock = some n → l.sock = some n
  | .dropLock o => LeftAlone o.found l
  | .failed found => LeftAlone found l
  | .dropUnlinkSock own => l.lock = some own.lock
  | .dropUnlinkLock own => l.lock = some own.lock ∧ l.sock ≠ some own.sock
  | .pruneFlock lock | .pruneStat lock | .pruneUnlinkSock lock | .pruneUnlinkLock lock => l.lock = some lock
  | _ => True

/-- The calls whose failure the code does not make up for do not fail: looking up a lock file that
is there, locking the lock file just made, removing it again, and removing the socket in `Drop`. -/
def Phase.Answered (l : Links) (a : Answer) : Phase → Prop
  | .lockStat _ => a = .ok ∨ l.lock = none
  | .lockFlock o | .lockCloexec o => a = .ok ∨ o.existed = true
  | .unlinkLock _ => a = .ok
  | .dropUnlinkSock own => a = .ok ∨ l.sock ≠ some own.sock
  | _ => True

instance (l : Links) (a : Answer) (p : Phase) : Decidable (p.Answered l a) := by
  unfold Phase.Answered
  split <;> infer_instance

section Ok

variable {v : View} {a : Answer} {p p' : Phase} {l : Links} {o : Opened}

theorem ok_of_unlocked (h : p.dirLock = none) (l : Links) : p.Ok l := by
  cases p <;> trivial

theorem Phase.Ok.linkedLock {n : Inode} (h : p.Ok l) (hn : p.linkedLock = some n) : l.lock = some n := by
  cases p <;> cases hn
  all_goals first
    | exact h.1.linked
    | exact h.1
    | exact h

theorem Opened.Ok.leftAlone (h : o.Ok l) (he : o.existed = true) (hs : ∀ n, o.found.sock = some n → l.sock = some n) :
    LeftAlone o.found l := by
  refine ⟨hs, ?_⟩
  obtain ⟨n, hn⟩ := Option.isSome_iff_exists.1 (h.existed.symm.trans he)
  rw [h.linked, hn, h.found n hn]

theorem cleanup_ok (h : o.Ok l) (hs : ∀ n, o.found.sock = some n → l.sock = some n) : o.cleanup.Ok l := by
  unfold Opened.cleanup
  split
  · rename_i he
    exact h.leftAlone he hs
  · rename_i he
    exact ⟨h, Bool.eq_false_iff.2 he, hs⟩

theorem giveUp_ok (t : Task) : t.giveUp.Ok l := by cases t <;> trivial

theorem start_ok (t : Task) : (t.start l).Ok l := by
  cases t with
  | listen => exact rfl
  | drop => trivial
  | prune => trivial

/-- A failed `listen` that had found a lock file leaves it. -/
theorem Opened.Ok.failed (h : o.Ok l) (hs : l.sock = o.found.sock) (he : o.existed = true) : LeftAlone o.found l :=
  h.leftAlone he fun _ hn => hs.trans hn

theorem lockOpen_ok {found : Links} {existed : Bool} (hok : (Phase.lockOpen found existed).Ok l) (n : Inode)
    (hn : ∀ m, l.lock = some m → m = n) :
    (Phase.lockFlock ⟨found, existed, n⟩).Ok { l with lock := some n } := by
  obtain ⟨rfl, he⟩ := hok
  exact ⟨⟨rfl, he, hn⟩, rfl⟩

theorem next_ok (h : p.next v a = some (p', l)) (hok : p.Ok v.links) (ha : p.Answered v.links a)
    (hmade : ∀ o, p = .lockFlock o → o.existed = false → v.lockFree o.lock = true) : p'.Ok l := by
  revert h
  fun_cases Phase.next v a p <;> intro h <;> simp only [Option.some.injEq, Prod.mk.injEq, reduceCtorEq] at h
  all_goals obtain ⟨rfl, rfl⟩ := h
  all_goals first
    | trivial
    | exact hok
    | exact hok.1
    | exact giveUp_ok _
    | exact start_ok _
    | skip
  case case10 => exact ⟨hok, congrArg (fun l : Links => l.lock.isSome) hok⟩
  case case11 hf =>
    have hnone : v.links.lock = none := ha.resolve_left hf
    cases hok
    exact ⟨rfl, by rw [hnone]; rfl⟩
  case case12 hn =>
    have hopen := lockOpen_ok hok _ fun m hm => Option.some.inj (hm.symm.trans hn)
    rw [← hn] at hopen
    exact hopen
  case case13 hn =>
    refine lockOpen_ok hok _ fun m hm => ?_
    cases hn.symm.trans hm
  case case14 => exact ⟨fun n hn => (congrArg Links.sock hok.1).trans hn, congrArg Links.lock hok.1⟩
  -- Somebody else holds the name lock: then the file was there before.
  case case16 o hfree =>
    refine hok.1.failed hok.2 ?_
    cases he : o.existed with
    | false => exact absurd (hmade o rfl he) hfree
    | true => rfl
  case case17 hf => exact hok.1.failed hok.2 (ha.resolve_left hf)
  case case19 hf => exact hok.1.failed hok.2 (ha.resolve_left hf)
  case case21 => exact cleanup_ok hok.1 fun n hn => hok.2.trans hn
  case case22 => exact cleanup_ok hok.1 fun n hn => hok.2.trans hn
  case case23 hn => exact ⟨⟨hok.1.linked, hok.1.existed, hok.1.found⟩, hok.2.symm.trans hn⟩
  case case24 => exact cleanup_ok hok.1 fun n hn => hok.2.trans hn
  case case25 hn =>
    refine cleanup_ok ⟨hok.1.linked, hok.1.existed, hok.1.found⟩ fun n hs => ?_
    cases (hok.2.symm.trans hn).symm.trans hs
  case case26 => exact cleanup_ok hok.1 fun n hn => hok.2.trans hn
  case case29 =>
    refine cleanup_ok ⟨hok.1.linked, hok.1.existed, hok.1.found⟩ fun n hs => ?_
    cases hok.2.symm.trans hs
  case case30 =>
    refine cleanup_ok hok.1 fun n hs => ?_
    cases hok.2.symm.trans hs
  case case31 o =>
    -- It had not been there, and it is gone again.
    refine ⟨hok.2.2, ?_⟩
    have hnone : o.found.lock.isSome = false := hok.1.existed.symm.trans hok.2.1
    exact (Option.not_isSome_iff_eq_none.1 (Bool.eq_false_iff.1 hnone)).symm
  case case40 => exact ⟨hok, fun hs => by cases hs⟩
  case case41 hf => exact ⟨hok, ha.resolve_left hf⟩

/-- A lock file that had not been there is made by the process that opens it. -/
theorem next_lockFlock (h : p.next v a = some (.lockFlock o, l)) (hok : p.Ok v.links) (hnew : o.existed = false) :
    o.lock = v.fresh := by
  revert h
  fun_cases Phase.next v a p <;> intro h <;>
    simp only [Option.some.injEq, Prod.mk.injEq, reduceCtorEq, Phase.lockFlock.injEq, false_and] at h
  case case4 t _ => cases t <;> cases h.1
  case case7 t _ => cases t <;> cases h.1
  case case8 t => cases t <;> cases h.1
  case case9 t _ => cases t <;> cases h.1
  case case12 found existed lock hn =>
    obtain ⟨rfl, -⟩ := h
    have hsome : existed = true := by
      rw [hok.2, ← hok.1]
      exact Option.isSome_iff_exists.2 ⟨_, hn⟩
    cases hsome.symm.trans hnew
  case case13 =>
    obtain ⟨rfl, -⟩ := h
    rfl
  all_goals
    unfold Opened.cleanup at h
    split at h <;> cases h.1

end Ok

/-! ## The invariant -/

/-- The call is answered so that a failed `listen` and a `Drop` can do what they set out to do. -/
def Answered (s : State) : Label → Prop
  | .call i a _ => ∀ p ∈ s.procs[i]?, p.Answered s.links a
  | _ => True

instance (s : State) : (l : Label) → Decidable (Answered s l)
  | .call i a _ => inferInstanceAs (Decidable (∀ p ∈ s.procs[i]?, p.Answered s.links a))
  | .listen | .prune | .die _ => isTrue trivial

structure Inv (s : State) : Prop where
  dirLock : Exclusive Phase.dirLock s.procs
  nameLock : Exclusive Phase.nameLock s.procs
  listener : Exclusive Phase.listener s.procs
  ok : ∀ (i : Nat) (p : Phase), s.procs[i]? = some p → p.Ok s.links
  /-- Who is bound to the linked socket holds the linked lock file. -/
  owner : ∀ (i : Nat) (p : Phase) (n : Inode), s.procs[i]? = some p → p.listener = some n → s.links.sock = some n →
    ∃ m, p.nameLock = some m ∧ s.links.lock = some m
  /-- Nobody locks a lock file that its maker has not locked yet. -/
  made : ∀ (i : Nat) (o : Opened), s.procs[i]? = some (.lockFlock o) → o.existed = false →
    Free Phase.nameLock o.lock s.procs

theorem nameLock_free_of_lockFd {n : Inode} {ps : List Phase} (h : Free Phase.lockFd n ps) : Free Phase.nameLock n ps := by
  intro p hp hn
  refine h p hp ?_
  cases p <;> first | exact hn | cases hn

theorem nameLock_of_listener {p : Phase} {n : Inode} (h : p.listener = some n) : ∃ m, p.nameLock = some m := by
  unfold Phase.listener at h
  split at h
  all_goals first
    | exact ⟨_, rfl⟩
    | cases h

namespace Inv

variable {s : State} {v : View} {i : Nat} {p p' : Phase} {l : Links}

theorem init {s : State} (h : s.procs = []) : Inv s := by
  obtain ⟨procs, links⟩ := s
  cases h
  refine ⟨.nil, .nil, .nil, ?_, ?_, ?_⟩
  · intro i p hp
    cases hp
  · intro i p n hp
    cases hp
  · intro i o hp
    cases hp

/-- A process that has not called anything yet joins. -/
theorem concat (h : Inv s) (hd : p.dirLock = none) (hn : p.nameLock = none) (hl : p.listener = none) :
    Inv { s with procs := s.procs ++ [p] } where
  dirLock := h.dirLock.concat hd
  nameLock := h.nameLock.concat hn
  listener := h.listener.concat hl
  ok j q hq := by
    rcases getElem?_concat_eq.1 hq with hq | ⟨-, rfl⟩
    · exact h.ok j q hq
    · exact ok_of_unlocked hd _
  owner j q n hq hql := by
    rcases getElem?_concat_eq.1 hq with hq | ⟨-, rfl⟩
    · exact h.owner j q n hq hql
    · rw [hl] at hql
      cases hql
  made j o hq ho := by
    rcases getElem?_concat_eq.1 hq with hq | ⟨-, rfl⟩
    · intro x hx
      rcases List.mem_append.1 hx with hx | hx
      · exact h.made j o hq ho x hx
      · cases List.mem_singleton.1 hx
        rw [hn]
        exact fun h => by cases h
    · cases hd

section Call

variable {fresh : Inode} (h : Inv s) (hp : s.procs[i]? = some p) (he : Effect (s.view fresh) p p' l)

include he

theorem takes_dirLock (u : Unit) (hu : p'.dirLock = some u) : p.dirLock = some u ∨ Free Phase.dirLock u s.procs := by
  cases he with
  | quiet hk | unlinksSock _ _ _ hk | unlinksLock _ _ _ hk _ =>
    rcases hk.dirLock with hn | hn
    · rw [hn] at hu
      cases hu
    · exact .inl (hn ▸ hu)
  | takesDir _ hfree => exact .inr (of_decide_eq_true hfree)
  | takesName _ _ hd => exact .inl hd
  | makesLock hp => exact .inl (hp ▸ rfl)
  | binds hp => exact .inl (hp ▸ rfl)

theorem takes_nameLock (n : Inode) (hn : p'.nameLock = some n) :
    p.nameLock = some n ∨ (Free Phase.nameLock n s.procs ∧ p.dirLock = some ()) := by
  cases he with
  | quiet hk | unlinksSock _ _ _ hk | unlinksLock _ _ _ hk _ =>
    rcases hk.nameLock with hk | hk
    · rw [hk] at hn
      cases hn
    · exact .inl (hk ▸ hn)
  | @takesDir t hp =>
    subst hp
    cases t with
    | drop own => exact .inl hn
    | listen => cases hn
    | prune => cases hn
  | takesName _ hfree hd _ hname =>
    cases hname.symm.trans hn
    exact .inr ⟨of_decide_eq_true hfree, hd⟩
  | makesLock => cases hn
  | binds hp _ _ hname =>
    subst hp
    exact .inl (hname.symm.trans hn)

theorem takes_listener (hun : s.Unused fresh) (n : Inode) (hn : p'.listener = some n) :
    p.listener = some n ∨ Free Phase.listener n s.procs := by
  cases he with
  | quiet hk | unlinksSock _ _ _ hk | unlinksLock _ _ _ hk _ =>
    rcases hk.listener with hk | hk
    · rw [hk] at hn
      cases hn
    · exact .inl (hk ▸ hn)
  | @takesDir t hp =>
    subst hp
    cases t with
    | drop own => exact .inl hn
    | listen => cases hn
    | prune => cases hn
  | takesName _ _ _ _ _ hl =>
    rw [hl] at hn
    cases hn
  | makesLock => cases hn
  | binds _ _ _ _ hl =>
    rcases hl with hl | hl
    · rw [hl] at hn
      cases hn
    · cases hl.symm.trans hn
      exact .inr hun.2.2.1

theorem changes_locked : l = s.links ∨ p.dirLock = some () := by
  cases he with
  | quiet | takesDir | takesName => exact .inl rfl
  | makesLock hp => exact .inr (hp ▸ rfl)
  | binds hp => exact .inr (hp ▸ rfl)
  | unlinksSock hd => exact .inr hd
  | unlinksLock hd => exact .inr hd

include h hp

/-- What another process does leaves an owner its socket and its lock file. -/
theorem keeps_owner {j : Nat} {q : Phase} {n : Inode} (hji : j ≠ i) (hq : s.procs[j]? = some q)
    (hl : q.listener = some n) (hs : s.links.sock = some n) : l = s.links := by
  obtain ⟨m, hname, hlock⟩ := h.owner j q n hq hl hs
  cases he with
  | quiet | takesDir | takesName => rfl
  | makesLock _ hnone => cases hlock.symm.trans hnone
  | binds _ hnone => cases hs.symm.trans hnone
  | unlinksSock _ hlinked hheld | unlinksLock _ hlinked hheld =>
    -- It would have to hold the lock that the owner holds.
    have hsame := (h.ok i p hp).linkedLock hlinked
    cases hlock.symm.trans hsame
    exact absurd (h.nameLock j i q p m hq hp hname hheld) hji

/-- The process itself, where its socket is still the linked one. -/
theorem call_owner {n : Inode} (hl : p'.listener = some n) (hs : l.sock = some n) :
    ∃ m, p'.nameLock = some m ∧ l.lock = some m := by
  obtain ⟨k, hk⟩ := nameLock_of_listener hl
  cases he with
  | quiet hkeep =>
    have hl' : p.listener = some n := (hkeep.listener.resolve_left fun hn => by cases hl.symm.trans hn).symm.trans hl
    obtain ⟨m, hm, hlock⟩ := h.owner i p n hp hl' hs
    exact ⟨m, (hkeep.nameLock.resolve_left fun hn => by cases hk.symm.trans hn).trans hm, hlock⟩
  | @takesDir t hpt =>
    subst hpt
    cases t with
    | drop own => exact h.owner i (.dirFlock (.drop own)) n hp (by exact hl) hs
    | listen => cases hl
    | prune => cases hl
  | takesName _ _ _ _ _ hnone => cases hl.symm.trans hnone
  | makesLock => cases hl
  | binds hpb _ _ hname =>
    subst hpb
    exact ⟨_, hname, (h.ok i _ hp).linkedLock rfl⟩
  | unlinksSock => cases hs
  | unlinksLock _ _ _ hkeep hgone =>
    have hl' : p.listener = some n := (hkeep.listener.resolve_left fun hn => by cases hl.symm.trans hn).symm.trans hl
    rcases hgone with hnone | ⟨own, rfl⟩
    · cases hl'.symm.trans hnone
    · cases hl'
      exact absurd hs (h.ok i _ hp).2

/-- A lock file is made by a process that has the directory lock, and stays unlocked until its
maker locks it. -/
theorem call_made {j : Nat} {o : Opened} (hq : (s.procs.set i p')[j]? = some (.lockFlock o))
    (hnew : o.existed = false) (hmake : p' = .lockFlock o → Free Phase.nameLock o.lock s.procs) :
    Free Phase.nameLock o.lock (s.procs.set i p') := by
  intro x hx hlock
  obtain ⟨a, ha⟩ := List.mem_iff_getElem?.1 hx
  rcases (getElem?_set_eq hp).1 hq with ⟨rfl, hpo⟩ | ⟨hji, hj⟩
  · -- The maker is the process that has just called.
    rcases (getElem?_set_eq hp).1 ha with ⟨rfl, rfl⟩ | ⟨-, ha⟩
    · rw [← hpo] at hlock
      cases hlock
    · exact (hmake hpo.symm).getElem? ha hlock
  · have hfree := h.made j o hj hnew
    rcases (getElem?_set_eq hp).1 ha with ⟨rfl, rfl⟩ | ⟨-, ha⟩
    · rcases takes_nameLock he _ hlock with hold | ⟨-, hd⟩
      · exact hfree.getElem? hp hold
      · exact hji (h.dirLock j a _ p () hj hp rfl hd)
    · exact hfree.getElem? ha hlock

end Call

theorem call {a : Answer} {fresh : Inode} (h : Inv s) (hp : s.procs[i]? = some p)
    (hnext : p.next (s.view fresh) a = some (p', l)) (hun : s.Unused fresh) (ha : p.Answered s.links a) :
    Inv { procs := s.procs.set i p', links := l } where
  dirLock := h.dirLock.set hp (takes_dirLock (next_effect hnext))
  nameLock := h.nameLock.set hp fun n hn => (takes_nameLock (next_effect hnext) n hn).imp_right And.left
  listener := h.listener.set hp (takes_listener (next_effect hnext) hun)
  ok j q hq := by
    rcases (getElem?_set_eq hp).1 hq with ⟨rfl, rfl⟩ | ⟨hji, hq⟩
    · refine next_ok hnext (h.ok j p hp) ha fun o ho hnew => ?_
      subst ho
      exact decide_eq_true (h.made j o hp hnew)
    · rcases changes_locked (next_effect hnext) with hlinks | hd
      · have hsame : l = s.links := hlinks
        rw [hsame]
        exact h.ok j q hq
      · refine ok_of_unlocked ?_ _
        cases hqd : q.dirLock with
        | none => rfl
        | some u => exact absurd (h.dirLock j i q p u hq hp hqd hd) hji
  owner j q n hq hl hs := by
    rcases (getElem?_set_eq hp).1 hq with ⟨rfl, rfl⟩ | ⟨hji, hj⟩
    · exact call_owner h hp (next_effect hnext) hl hs
    · -- A socket bound just now is nobody else's.
      by_cases hlinks : l = s.links
      · have hs' : s.links.sock = some n := hlinks ▸ hs
        obtain ⟨m, hm, hlock⟩ := h.owner j q n hj hl hs'
        refine ⟨m, hm, ?_⟩
        rw [← hlock]
        exact congrArg Links.lock hlinks
      · exfalso
        by_cases hs' : s.links.sock = some n
        · exact hlinks (keeps_owner h hp (next_effect hnext) hji hj hl hs')
        · cases next_effect hnext with
          | quiet | takesDir | takesName => exact hlinks rfl
          | makesLock => exact hs' hs
          | unlinksLock => exact hs' hs
          | unlinksSock => cases hs
          | binds =>
            cases hs
            exact hun.2.2.1.getElem? hj hl
  made j o hq hnew := by
    refine call_made h hp (next_effect hnext) hq hnew fun hpo => ?_
    subst hpo
    rw [next_lockFlock hnext (h.ok i p hp) hnew]
    exact nameLock_free_of_lockFd hun.2.2.2

end Inv

/-! ## The owner -/

/-- Process `i` lives and its listener is the socket linked at the path. -/
def State.Owns (s : State) (i : Nat) : Prop :=
  ∃ p n, s.procs[i]? = some p ∧ p.listener = some n ∧ s.links.sock = some n

/-- What the locks are for. -/
structure Upheld (s : State) : Prop where
  one_owner : ∀ i j, s.Owns i → s.Owns j → i = j
  locked : ∀ i, s.Owns i → ∃ p n, s.procs[i]? = some p ∧ p.nameLock = some n ∧ s.links.lock = some n
  /-- No call of another process removes the owner's socket or lock file. -/
  untouched : ∀ (i j : Nat) a fresh s', s.Owns i → j ≠ i → s.step (.call j a fresh) = some s' → s'.links = s.links
  /-- A `listen` about to return an error. -/
  failed : ∀ (i : Nat) found, s.procs[i]? = some (.failed found) → LeftAlone found s.links
  /-- A process without the directory lock, as one whose `listen` fails before it has it. -/
  outside : ∀ (i : Nat) p a fresh s', s.procs[i]? = some p → p.dirLock = none → s.step (.call i a fresh) = some s' →
    s'.links = s.links

/-- A call cut into the process that makes it and what the kernel does. -/
theorem step_call {s s' : State} {i : Nat} {a : Answer} {fresh : Inode} (h : s.step (.call i a fresh) = some s') :
    ∃ p p', s.Unused fresh ∧ s.procs[i]? = some p ∧ p.next (s.view fresh) a = some (p', s'.links) ∧
      s'.procs = s.procs.set i p' := by
  simp only [State.step] at h
  split at h
  · rename_i hun
    simp only [Option.bind_eq_some_iff, Option.map_eq_some_iff, Prod.exists] at h
    obtain ⟨p, hp, p', l, hnext, rfl⟩ := h
    exact ⟨p, p', hun, hp, hnext, rfl⟩
  · cases h

theorem Inv.die {s : State} {i : Nat} {p : Phase} (h : Inv s) (hp : s.procs[i]? = some p) :
    Inv { s with procs := s.procs.set i .dead } where
  dirLock := h.dirLock.set hp fun _ hn => by cases hn
  nameLock := h.nameLock.set hp fun _ hn => by cases hn
  listener := h.listener.set hp fun _ hn => by cases hn
  ok j q hq := by
    rcases (getElem?_set_eq hp).1 hq with ⟨-, rfl⟩ | ⟨-, hj⟩
    · trivial
    · exact h.ok j q hj
  owner j q n hq hl hs := by
    rcases (getElem?_set_eq hp).1 hq with ⟨-, rfl⟩ | ⟨-, hj⟩
    · cases hl
    · exact h.owner j q n hj hl hs
  made j o hq hnew := by
    rcases (getElem?_set_eq hp).1 hq with ⟨-, ho⟩ | ⟨-, hj⟩
    · cases ho
    · intro x hx hlock
      obtain ⟨b, hb⟩ := List.mem_iff_getElem?.1 hx
      rcases (getElem?_set_eq hp).1 hb with ⟨-, rfl⟩ | ⟨-, hb⟩
      · cases hlock
      · exact (h.made j o hj hnew).getElem? hb hlock

theorem Inv.step {s s' : State} {l : Label} (h : Inv s) (ha : Answered s l) (hstep : s.step l = some s') : Inv s' := by
  cases l with
  | listen =>
    cases hstep
    exact h.concat rfl rfl rfl
  | prune =>
    cases hstep
    exact h.concat rfl rfl rfl
  | call i a fresh =>
    obtain ⟨p, p', hun, hp, hnext, hprocs⟩ := step_call hstep
    have hcall := h.call hp hnext hun (ha p hp)
    rw [← hprocs] at hcall
    exact hcall
  | die i =>
    simp only [State.step, Option.map_eq_some_iff] at hstep
    obtain ⟨p, hp, rfl⟩ := hstep
    exact h.die hp

theorem reach_inv {s : State} (h : sockets.Reach Answered s) : Inv s :=
  h.inv Inv (fun _ => .init) fun _ _ _ _ hinv ha hstep => hinv.step ha hstep

theorem Inv.upheld {s : State} (h : Inv s) : Upheld s where
  one_owner := by
    rintro i j ⟨p, n, hp, hl, hs⟩ ⟨q, m, hq, hl', hs'⟩
    cases hs.symm.trans hs'
    exact h.listener i j p q n hp hq hl hl'
  locked := by
    rintro i ⟨p, n, hp, hl, hs⟩
    obtain ⟨m, hm, hlock⟩ := h.owner i p n hp hl hs
    exact ⟨p, m, hp, hm, hlock⟩
  untouched := by
    rintro i j a fresh s' ⟨p, n, hp, hl, hs⟩ hji hstep
    obtain ⟨q, q', -, hq, hnext, -⟩ := step_call hstep
    exact h.keeps_owner hq (next_effect hnext) hji.symm hp hl hs
  failed i found hp := h.ok i _ hp
  outside := by
    intro i p a fresh s' hp hd hstep
    obtain ⟨q, q', -, hq, hnext, -⟩ := step_call hstep
    cases hp.symm.trans hq
    refine (Inv.changes_locked (next_effect hnext)).resolve_right fun hlocked => ?_
    cases hd.symm.trans hlocked

/-- Any number of processes listen, drop and prune on one path, call by call, and die at any point:
the owner of the linked socket is one process, holds the linked lock file and is not robbed of
either, and a `listen` that fails leaves the directory as it found it. -/
theorem socket_path_owned {s : State} (h : sockets.Reach Answered s) : Upheld s := (reach_inv h).upheld

/-- A `listen` in an empty directory whose name lock the kernel has no room for. -/
def flockRefused : List Label :=
  .listen :: (List.replicate 6 (.call 0 .ok 1) ++ [.call 0 .fails 2])

/-- It returns an error and leaves the lock file it has made. -/
theorem refused_flock_leaves_lock_file : ∃ s, sockets.Reachable s ∧ ¬ Upheld s := by
  have hinit : sockets.Reachable { procs := [], links := { sock := none, isSocket := false, lock := none } } := .init rfl
  obtain ⟨s, hs, hend⟩ := hinit.exists_run flockRefused
    (p := fun s => s = { procs := [.failed { sock := none, isSocket := false, lock := none }],
                         links := { sock := none, isSocket := false, lock := some 1 } }) (by decide +kernel)
  refine ⟨s, hs, fun hup => ?_⟩
  subst hend
  cases (hup.failed 0 _ rfl).lock

/-- A daemon listens and serves; a second one finds the name lock held and fails. -/
def secondListen : List Label :=
  .listen :: (List.replicate 6 (.call 0 .ok 1) ++ List.replicate 4 (.call 0 .ok 2) ++
    List.replicate 2 (.call 0 .ok 3) ++ .listen :: List.replicate 7 (.call 1 .ok 3))

theorem socket_path_owned_second_listen : ∃ s, (sockets.Reach Answered s ∧ s.procs = [.serving ⟨2, 1⟩,
    .failed { sock := some 2, isSocket := true, lock := some 1 }]) ∧ Upheld s := by
  have hinit : sockets.Reach Answered { procs := [], links := { sock := none, isSocket := false, lock := none } } :=
    .init rfl
  obtain ⟨s, hs, hend⟩ := hinit.exists_run secondListen
    (p := fun s => s.procs = [.serving ⟨2, 1⟩, .failed { sock := some 2, isSocket := true, lock := some 1 }])
    (by decide +kernel)
  exact ⟨s, ⟨hs, hend⟩, socket_path_owned hs⟩

end Hyoui.Sys
