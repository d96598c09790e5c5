import Hyoui.Daemon.Pristine
/-!
# The leader

While an `rw` client is attached there is one leader, and whoever was told of a leader was last
told of this one. A poll timeout that drops the leader elects no other; it is the only event
that breaks this.
-/

namespace Hyoui.Daemon

open Hyoui.Protocol Hyoui.Lib

/-- A poll timeout that drops the leader leaves no `rw` client behind. -/
def TimeoutSparesLeader (W : World) (cfg : Config) (st : State) (mv : Move) : Prop :=
  (beforeFrames W cfg mv.input st).AtTick fun w =>
    (∃ ch ∈ w.sess.clients, ch.id ∉ w.overflow ∧ ch.mode = .rw) →
      ∀ l ∈ w.sess.clients, l.leader = true → l.id ∉ w.overflow

instance (W : World) (cfg : Config) (st : State) (mv : Move) : Decidable (TimeoutSparesLeader W cfg st mv) :=
  inferInstanceAs (Decidable (Stage.AtTick _ _))

/-- Who leads, and what the clients were told about it. -/
structure Leadership (st : State) : Prop where
  ids : (st.sess.clients.map (·.id)).Nodup
  leaderRw : ∀ l ∈ st.sess.clients, l.leader = true → l.mode = .rw
  oneLeader : ∀ l ∈ st.sess.clients, ∀ l' ∈ st.sess.clients, l.leader = true → l'.leader = true → l = l'
  leader : (∃ ch ∈ st.sess.clients, ch.mode = .rw) → ∃ l ∈ st.sess.clients, l.leader = true
  told : ∀ l ∈ st.sess.clients, l.leader = true → ∀ ch ∈ st.sess.clients, ch.overflowed = false →
    ∀ x, ch.leaderHeard = some x → x = some l.id
  sent : ∀ ch ∈ st.sess.clients, ch.overflowed = false → ch.send.failed = false → ∀ o ∈ ch.offers, o.outcome = .sent

section Leadership

variable {W : World} {cfg : Config} {st : State}

theorem loop_led (h : (loop W cfg).Reach (TimeoutSparesLeader W cfg) st) : Led (Encodes W) st.registry := by
  -- the steps keep `Led` of a sound registry
  refine loop_registry (Led (Encodes W)) ⟨?_, ?_⟩ ?_ ?_ ?_ h
  · rintro ⟨m, hm, -⟩
    cases hm
  · intro _ l hl
    cases hl
  · intro r r' hsound hstep hr
    exact hstep.led hsound hr
  · intro st inp w hok hw _ hr
    have hspare : (Stage.tick w).AtTick fun w =>
        (∃ ch ∈ w.sess.clients, ch.id ∉ w.overflow ∧ ch.mode = .rw) →
          ∀ l ∈ w.sess.clients, l.leader = true → l.id ∉ w.overflow := hw ▸ hok
    refine lose_led hr ?_
    rintro ⟨m, hm, hstay, hrw⟩ l hl hlead
    obtain ⟨ch, hch, rfl⟩ := List.mem_map.1 hm
    obtain ⟨c, hc, rfl⟩ := List.mem_map.1 hl
    exact hspare ⟨ch, hch, hstay, hrw⟩ c hc hlead
  · intro st inp failure e st₁ _ _ hr
    exact restart_led hr

/-- In a run whose timeouts do not drop the leader of an `rw` client, there is always one leader
for such a client, and everybody knows. -/
theorem one_known_leader (he : Encodes W) (h : (loop W cfg).Reach (TimeoutSparesLeader W cfg) st) :
    Leadership st := by
  have hok := loop_ok h
  have hled := loop_led h
  refine ⟨hok.mid.ids, fun l hl => ?_, fun l hl l' hl' hlead hlead' => ?_, ?_, fun l hl hlead ch hch ho => ?_,
    fun ch hch => offers_sent h hch⟩
  · exact hok.mid.sound.leaderRw l.member (List.mem_map_of_mem hl)
  · refine List.inj_on_of_nodup_map hok.mid.ids hl hl' ?_
    exact hok.mid.sound.oneLeader l.member (List.mem_map_of_mem hl) l'.member (List.mem_map_of_mem hl') hlead hlead'
  · rintro ⟨ch, hch, hrw⟩
    obtain ⟨m, hm, hlead⟩ := hled.leader ⟨ch.member, List.mem_map_of_mem hch, hrw⟩
    obtain ⟨l, hl, rfl⟩ := List.mem_map.1 hm
    exact ⟨l, hl, hlead⟩
  · exact hled.heard he l.member (List.mem_map_of_mem hl) hlead ch.member (List.mem_map_of_mem hch) ho

theorem one_known_leader_two :
    ∃ st, Leadership st ∧ st.sess.clients.map (fun ch => (ch.id, ch.leader)) = [(0, true), (1, false)] := by
  obtain ⟨st, hreach, hclients⟩ := (pristineStart_reach {} {} (TimeoutSparesLeader World.pristine {})).exists_run
    (attachMoves .rw [] ++ attachMoves .rw [])
    (p := fun st => st.sess.clients.map (fun ch => (ch.id, ch.leader)) = [(0, true), (1, false)]) (by decide +kernel)
  exact ⟨st, one_known_leader pristine_encodes hreach, hclients⟩

/-- The leader does not read, and overflows when it is told that the child stopped. The other
`rw` client stays without a leader. -/
theorem timeout_leaves_no_leader :
    ∃ st, (loop World.pristine { clientBufferBytes := 200 }).Reachable st ∧
      (∃ ch ∈ st.sess.clients, ch.mode = .rw) ∧ ∀ ch ∈ st.sess.clients, ch.leader = false :=
  (pristineStart_reach _ { sigchldPipe := false } _).exists_run
    (attachMoves .rw [.childStateV1] ++ attachMoves .rw [] ++ [.turn { childBeforeObserve := [.stop 19] }])
    (by decide +kernel)

end Leadership

end Hyoui.Daemon
