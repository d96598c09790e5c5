import Hyoui.Daemon.Pristine
/-!
# The lock and the connection it is bound to

The lock is bound to its holder's connection, and every attached client knows who holds it. Both
hold of every run but for two events: a poll timeout that drops the holder, of which the reducer
does not hear, and an upgrade that fails while the lock is held.
-/

namespace Hyoui.Daemon

open Hyoui.Protocol Hyoui.Lib

/-! ## The holder is attached -/

/-- A poll timeout does not drop the lock's holder. -/
def TimeoutSparesHolder (W : World) (cfg : Config) (st : State) (mv : Move) : Prop :=
  (beforeFrames W cfg mv.input st).AtTick fun w => ∀ id ∈ w.loc.daemonState.lock.holder, id ∉ w.overflow

instance (W : World) (cfg : Config) (st : State) (mv : Move) : Decidable (TimeoutSparesHolder W cfg st mv) :=
  inferInstanceAs (Decidable (Stage.AtTick _ _))

def HolderIsAttached (st : State) : Prop :=
  ∀ id ∈ st.loc.daemonState.lock.holder, ∃ ch ∈ st.sess.clients, ch.id = id

instance : DecidablePred HolderIsAttached :=
  fun _ => inferInstanceAs (Decidable (∀ _ ∈ _, ∃ _ ∈ _, _))

section Attached

variable {W : World} {cfg : Config} {st : State}

theorem holderIsAttached_iff : HolderIsAttached st ↔ HolderAttached st.registry := by
  constructor
  · intro h id hid
    obtain ⟨ch, hch, rfl⟩ := h id hid
    exact ⟨ch.member, List.mem_map_of_mem hch, rfl⟩
  · intro h id hid
    obtain ⟨m, hm, rfl⟩ := h id hid
    obtain ⟨ch, hch, rfl⟩ := List.mem_map.1 hm
    exact ⟨ch, hch, rfl⟩

/-- In a run whose timeouts spare the lock's holder, the holder is always attached. -/
theorem lock_holder_attached (h : (loop W cfg).Reach (TimeoutSparesHolder W cfg) st) : HolderIsAttached st := by
  refine holderIsAttached_iff.2 (loop_registry HolderAttached ?_ ?_ ?_ ?_ h)
  · intro id hid
    cases hid
  · intro r r' _ hstep hr
    exact hstep.holderAttached hr
  · intro st inp w hok hw _ hr
    have hspare : (Stage.tick w).AtTick fun w => ∀ id ∈ w.loc.daemonState.lock.holder, id ∉ w.overflow := hw ▸ hok
    exact lose_holderAttached hr hspare
  · intro st inp failure e st₁ _ _ _ id hid
    cases hid

/-- The first client of a session takes the lock. -/
def lockedMoves : List Move := attachMoves .rwNoLeader [.lock] ++ [.turn (lockInput 0)]

theorem lock_holder_attached_one : ∃ st, HolderIsAttached st ∧ st.loc.daemonState.lock.holder = some 0 := by
  obtain ⟨st, hreach, hholder⟩ := (pristineStart_reach {} {} (TimeoutSparesHolder World.pristine {})).exists_run
    lockedMoves
    (p := fun st => st.loc.daemonState.lock.holder = some 0) (by decide +kernel)
  exact ⟨st, lock_holder_attached hreach, hholder⟩

/-- The holder does not read; a new leader is announced during a poll timeout, which overflows
the holder's queue and drops it. The lock stays with it. -/
theorem timeout_orphans_lock :
    ∃ st, (loop World.pristine { clientBufferBytes := 250 }).Reachable st ∧ ¬ HolderIsAttached st :=
  (pristineStart_reach _ {} _).exists_run
    (lockedMoves ++ attachMoves .rw []) (by decide +kernel)

end Attached

/-! ## The holder is known -/

/-- No upgrade fails while the lock is held, unless every client has missed frames anyway. -/
def RetrySparesLock (W : World) (cfg : Config) (st : State) : Move → Prop
  | .turn _ => True
  | .retry inp _ _ =>
    (iterate W cfg inp st).1.loc.daemonState.lock.holder = none ∨
      ∀ ch ∈ (iterate W cfg inp st).1.sess.clients, ch.overflowed = true

instance (W : World) (cfg : Config) (st : State) : (mv : Move) → Decidable (RetrySparesLock W cfg st mv)
  | .turn _ => isTrue trivial
  | .retry _ _ _ => inferInstanceAs (Decidable (_ ∨ ∀ _ ∈ _, _ = true))

/-- What the client was last told of the lock; a client that was told nothing takes it for free. -/
def ClientHandle.lockView (ch : ClientHandle) : LockNotice := ch.lockHeard.getD (lockNotice none)

section Known

variable {W : World} {cfg : Config} {st : State}

/-- In a run in which no upgrade fails while the lock is held, every attached client that never
overflowed was last told of the lock as it is, and unless its socket failed it was sent
everything it was offered. -/
theorem lock_known (he : Encodes W) (h : (loop W cfg).Reach (RetrySparesLock W cfg) st) {ch : ClientHandle}
    (hch : ch ∈ st.sess.clients) (ho : ch.overflowed = false) :
    ch.lockView = lockNotice st.loc.daemonState.lock.holder ∧
      (ch.send.failed = false → ∀ o ∈ ch.offers, o.outcome = .sent) := by
  have hknown : LockKnown (Encodes W) st.registry := by
    refine loop_registry (LockKnown (Encodes W)) ?_ ?_ ?_ ?_ h
    · intro _ m hm
      cases hm
    · intro r r' _ hstep hr
      exact hstep.lockKnown hr
    · intro st inp w _ _ _ hr
      exact lose_lockKnown hr
    · intro st inp failure e st₁ hok hit hr
      refine restart_lockKnown hr ?_
      have hspare : st₁.loc.daemonState.lock.holder = none ∨ ∀ ch ∈ st₁.sess.clients, ch.overflowed = true := by
        have hfst : (iterate W cfg inp st).1 = st₁ := congrArg Prod.fst hit
        exact hfst ▸ hok
      refine hspare.imp_right fun hall m hm => ?_
      obtain ⟨ch, hch, rfl⟩ := List.mem_map.1 hm
      exact hall ch hch
  exact ⟨hknown he ch.member (List.mem_map_of_mem hch) ho, offers_sent h hch ho⟩

theorem lock_known_one :
    ∃ st : State, ∃ ch ∈ st.sess.clients, ch.lockView = (.locked, some 0) ∧
      (ch.send.failed = false → ∀ o ∈ ch.offers, o.outcome = .sent) := by
  obtain ⟨st, hreach, ch, hch, ho, hholder⟩ := (pristineStart_reach {} {} (RetrySparesLock World.pristine {})).exists_run
    lockedMoves
    (p := fun st => ∃ ch ∈ st.sess.clients, ch.overflowed = false ∧ st.loc.daemonState.lock.holder = some 0)
    (by decide +kernel)
  have hknown := lock_known pristine_encodes hreach hch ho
  rw [hholder] at hknown
  exact ⟨st, ch, hch, hknown⟩

/-- `SIGUSR1` asks for an upgrade; the process is not replaced, and the session goes on. -/
def failedUpgradeMoves : List Move :=
  [.turn { poll := .ready false false (fun _ => false) true, signals := [(sigUsr1, [])] },
    .retry { upgradeCheckNow := upgradeFlushBudget } (.execFailed "ENOENT: No such file or directory") {}]

/-- The failed upgrade frees the lock, and its holder is not told. -/
theorem failed_upgrade_misleads_holder :
    ∃ st, (loop World.pristine {}).Reachable st ∧ ∃ ch ∈ st.sess.clients, ch.overflowed = false ∧
      ch.send.failed = false ∧ ch.lockView ≠ lockNotice st.loc.daemonState.lock.holder :=
  (pristineStart_reach _ {} _).exists_run
    (lockedMoves ++ failedUpgradeMoves) (by decide +kernel)

end Known

end Hyoui.Daemon
