import Hyoui.Daemon.Loop
/-!
# Who is readable

What `poll` reports by position reaches the clients by a walk over the ids that were polled: between `poll` and the
walk clients may have gone from the middle of the list and come at its end.
-/

namespace Hyoui.Daemon

open Hyoui.Protocol Hyoui.Lib

/-- What `poll` reports of one descriptor. -/
structure PollFlags where
  pollin : Bool := false
  pollout : Bool := false
  pollhup : Bool := false
  pollerr : Bool := false
deriving DecidableEq

def PollFlags.readable (f : PollFlags) : Bool := f.pollin || f.pollhup || f.pollerr

inductive PollFd where
  | listener
  | master
  | client (id : ClientId)
  | sigchld
  | closing (idx : Nat)

/-- What stands before the clients; the master is left out once it is drained. -/
def pollFdsBefore (pollMaster : Bool) : List PollFd := .listener :: if pollMaster then [.master] else []

/-- The descriptors in the order they are polled. -/
def pollFds (pollMaster sigchldPipe : Bool) (clients : List ClientId) (closing : Nat) : List PollFd :=
  pollFdsBefore pollMaster ++ clients.map .client ++
    ((if sigchldPipe then [.sigchld] else []) ++ (List.range closing).map .closing)

def clientBase (pollMaster : Bool) : Nat := (pollFdsBefore pollMaster).length

/-- The flags at the clients' positions, with the clients' ids. -/
def clientRevents (base : Nat) (clients : List ClientId) (revents : List PollFlags) : List (ClientId × PollFlags) :=
  clients.zipIdx.map fun (id, i) => (id, (revents[base + i]?).getD {})

/-- The walk for one client: the flags at its id, and what is left to walk over. -/
def seekRevents (id : ClientId) : List (ClientId × PollFlags) → Option PollFlags × List (ClientId × PollFlags)
  | [] => (none, [])
  | (polled, revents) :: rest => if polled = id then (some revents, rest) else seekRevents id rest

/-- The walk for the clients in their order. -/
def walkRevents : List ClientId → List (ClientId × PollFlags) → List (Option PollFlags)
  | [], _ => []
  | id :: ids, revents => (seekRevents id revents).1 :: walkRevents ids (seekRevents id revents).2

/-! ## The walk -/

section Walk
variable {id : ClientId} {survivors added polled before after : List ClientId} {flags : ClientId → PollFlags}

theorem seekRevents_self (f : PollFlags) (revents : List (ClientId × PollFlags)) :
    seekRevents id ((id, f) :: revents) = (some f, revents) := if_pos rfl

theorem seekRevents_append {skipped revents : List (ClientId × PollFlags)} (h : ∀ r ∈ skipped, r.1 ≠ id) :
    seekRevents id (skipped ++ revents) = seekRevents id revents := by
  induction skipped with
  | nil => rfl
  | cons r skipped ih =>
    rw [List.cons_append, seekRevents, if_neg (h r List.mem_cons_self)]
    exact ih fun r' hr' => h r' (List.mem_cons_of_mem _ hr')

theorem seekRevents_unpolled {revents : List (ClientId × PollFlags)} (h : ∀ r ∈ revents, r.1 ≠ id) :
    seekRevents id revents = (none, []) := by
  have hskip : seekRevents id (revents ++ []) = (none, []) := seekRevents_append h
  rwa [List.append_nil] at hskip

/-- For a client that was not polled the walk goes to the end. -/
theorem walkRevents_unpolled {revents : List (ClientId × PollFlags)} (h : ∀ id ∈ added, ∀ r ∈ revents, r.1 ≠ id) :
    walkRevents added revents = added.map fun _ => none := by
  induction added generalizing revents with
  | nil => rfl
  | cons id added ih =>
    rw [walkRevents, seekRevents_unpolled (h id List.mem_cons_self), List.map_cons]
    rw [ih fun _ _ _ hr => absurd hr List.not_mem_nil]

/-- The walk skips who is gone, and so finds everybody who stayed. -/
theorem walkRevents_survivors (hpolled : polled.Nodup) (hsurvivors : survivors.Sublist polled)
    (hadded : ∀ id ∈ added, id ∉ polled) :
    walkRevents (survivors ++ added) (polled.map fun id => (id, flags id)) =
      (survivors.map fun id => some (flags id)) ++ added.map fun _ => none := by
  induction survivors generalizing polled with
  | nil =>
    refine walkRevents_unpolled fun id hid r hr => ?_
    obtain ⟨polledId, hmem, rfl⟩ := List.mem_map.1 hr
    rintro rfl
    exact hadded _ hid hmem
  | cons id survivors ih =>
    obtain ⟨gone, rest, rfl, hid, hrest⟩ := List.cons_sublist_iff.1 hsurvivors
    obtain ⟨skipped, left, rfl⟩ := List.append_of_mem hid
    rw [List.append_assoc, List.cons_append] at hpolled
    -- nobody before the client has its id
    have hskipped : ∀ r ∈ skipped.map fun id => (id, flags id), r.1 ≠ id := by
      intro r hr heq
      obtain ⟨other, hother, rfl⟩ := List.mem_map.1 hr
      exact (List.nodup_append.1 hpolled).2.2 _ hother id List.mem_cons_self heq
    have hnodup : (left ++ rest).Nodup := (List.nodup_cons.1 (List.nodup_append.1 hpolled).2.1).2
    have hleft : survivors.Sublist (left ++ rest) := hrest.trans (List.sublist_append_right left rest)
    have hnew : ∀ id ∈ added, id ∉ left ++ rest := by
      intro other hother hmem
      refine hadded other hother ?_
      rw [List.append_assoc, List.cons_append]
      exact List.mem_append_right _ (List.mem_cons_of_mem _ hmem)
    rw [List.append_assoc, List.cons_append, List.map_append, List.map_cons, List.cons_append, walkRevents,
      seekRevents_append hskipped, List.map_cons, seekRevents_self, ih hnodup hleft hnew]
    rfl

end Walk

/-! ## The positions -/

section Positions
variable {flags : PollFd → PollFlags}

/-- A client's position holds what was reported of its own descriptor. -/
theorem clientRevents_own (pollMaster sigchldPipe : Bool) (polled : List ClientId) (closing : Nat) :
    clientRevents (clientBase pollMaster) polled ((pollFds pollMaster sigchldPipe polled closing).map flags) =
      polled.map fun id => (id, flags (.client id)) := by
  refine List.ext_getElem? fun i => ?_
  rw [clientRevents, List.getElem?_map, List.getElem?_zipIdx, List.getElem?_map]
  cases hi : polled[i]? with
  | none => rfl
  | some id =>
    have hlt : i < polled.length := (List.getElem?_eq_some_iff.1 hi).1
    have hslot : (pollFds pollMaster sigchldPipe polled closing)[clientBase pollMaster + i]? = some (.client id) := by
      rw [pollFds, clientBase, List.append_assoc, List.getElem?_append_right (Nat.le_add_right ..),
        Nat.add_sub_cancel_left, List.getElem?_append_left (by rwa [List.length_map]), List.getElem?_map, hi]
      rfl
    simp only [Option.map_some, Nat.zero_add, List.getElem?_map, hslot, Option.getD_some]

end Positions

/-! ## The clients that are read -/

section Collect
variable {W : World} {cfg : Config} {inp : IterInput} {w w' : Work} {flags : PollFd → PollFlags}
  {polled survivors added : List ClientId} {clients : List ClientHandle} {recv : ClientId → RecvResult}

/-- What `serve_loop` makes of what the walk finds. -/
def readiness : Option PollFlags → Bool
  | some f => f.readable
  | none => false

/-- What was reported of a client's own descriptor, where it was polled. -/
def ownRevents (flags : PollFd → PollFlags) (polled : List ClientId) (id : ClientId) : Option PollFlags :=
  if id ∈ polled then some (flags (.client id)) else none

/-- A frame at most from each client, with `ready` to say who is readable. -/
def collectReady (W : World) (recv : ClientId → RecvResult) (ready : ClientId → Bool) (idx : Nat) :
    List ClientHandle → List ClientHandle × List (Nat × FrameOrError)
  | [] => ([], [])
  | ch :: chs =>
    let (ch', received) := receiveClientFrame W ch (ready ch.id) (recv ch.id)
    let (chs, frames) := collectReady W recv ready (idx + 1) chs
    (ch' :: chs, match received with
      | some fre => (idx, fre) :: frames
      | none => frames)

theorem matchRevents_seek (id : ClientId) (revents : List (ClientId × PollFlags)) :
    matchRevents id (revents.map fun r => (r.1, r.2.readable)) =
      (readiness (seekRevents id revents).1, (seekRevents id revents).2.map fun r => (r.1, r.2.readable)) := by
  induction revents with
  | nil => rfl
  | cons r revents ih =>
    rw [List.map_cons, matchRevents, seekRevents]
    split
    · rfl
    · exact ih

/-- The clients are read as the walk says. -/
theorem collectFrames_walk (ready : ClientId → Bool) (idx : Nat) (revents : List (ClientId × PollFlags))
    (hwalk : (walkRevents (clients.map (·.id)) revents).map readiness = clients.map fun ch => ready ch.id) :
    collectFrames W recv idx clients (revents.map fun r => (r.1, r.2.readable)) =
      collectReady W recv ready idx clients := by
  induction clients generalizing idx revents with
  | nil => rfl
  | cons ch clients ih =>
    simp only [List.map_cons, walkRevents, List.cons.injEq] at hwalk
    rw [collectFrames, collectReady, matchRevents_seek, hwalk.1]
    dsimp only
    have hrest := ih (idx + 1) _ hwalk.2
    generalize collectFrames W recv (idx + 1) clients _ = rest at hrest ⊢
    subst hrest
    rfl

theorem walkRevents_own (hpolled : polled.Nodup) (hsurvivors : survivors.Sublist polled)
    (hadded : ∀ id ∈ added, id ∉ polled) :
    walkRevents (survivors ++ added) (polled.map fun id => (id, flags (.client id))) =
      (survivors ++ added).map (ownRevents flags polled) := by
  rw [walkRevents_survivors hpolled hsurvivors hadded, List.map_append]
  congr 1
  · exact List.map_congr_left fun id hid => (if_pos (hsurvivors.subset hid)).symm
  · exact List.map_congr_left fun id hid => (if_neg (hadded id hid)).symm

theorem collectFrames_own (hpolled : polled.Nodup) (hsurvivors : survivors.Sublist polled)
    (hadded : ∀ id ∈ added, id ∉ polled) (hclients : clients.map (·.id) = survivors ++ added) :
    collectFrames W recv 0 clients
        ((polled.map fun id => (id, flags (.client id))).map fun r => (r.1, r.2.readable)) =
      collectReady W recv (fun id => id ∈ polled && (flags (.client id)).readable) 0 clients := by
  apply collectFrames_walk
  rw [hclients, walkRevents_own hpolled hsurvivors hadded, ← hclients, List.map_map, List.map_map]
  refine List.map_congr_left fun ch _ => ?_
  by_cases hmem : ch.id ∈ polled <;> simp [ownRevents, readiness, hmem]

/-- Whoever goes between `poll` and the walk and whoever comes, each client that was polled gets what was reported of
its own descriptor and each other client counts as not readable; and so the clients are read. -/
theorem own_revents (pollMaster sigchldPipe : Bool) (closing : Nat) (flags : PollFd → PollFlags)
    {polled survivors added : List ClientId} (hpolled : polled.Nodup) (hsurvivors : survivors.Sublist polled)
    (hadded : ∀ id ∈ added, id ∉ polled) :
    let revents := clientRevents (clientBase pollMaster) polled
      ((pollFds pollMaster sigchldPipe polled closing).map flags)
    walkRevents (survivors ++ added) revents = (survivors ++ added).map (ownRevents flags polled) ∧
    ∀ (W : World) (recv : ClientId → RecvResult) (clients : List ClientHandle),
      clients.map (·.id) = survivors ++ added →
      collectFrames W recv 0 clients (revents.map fun r => (r.1, r.2.readable)) =
        collectReady W recv (fun id => id ∈ polled && (flags (.client id)).readable) 0 clients := by
  intro revents
  have hrevents : revents = polled.map fun id => (id, flags (.client id)) := clientRevents_own ..
  rw [hrevents]
  exact ⟨walkRevents_own hpolled hsurvivors hadded,
    fun W recv clients hclients => collectFrames_own hpolled hsurvivors hadded hclients⟩

/-- Two are gone and one has come. -/
theorem own_revents_moved :
    let flags : PollFd → PollFlags
      | .client 1 | .client 4 => { pollin := true }
      | _ => {}
    walkRevents [2, 4, 9] (clientRevents 2 [1, 2, 3, 4] ((pollFds true true [1, 2, 3, 4] 1).map flags)) =
      [some {}, some { pollin := true }, none] :=
  (@own_revents true true 1 _ [1, 2, 3, 4] [2, 4] [9] (by decide) (by decide) (by decide)).1

end Collect

/-! ## In a turn -/

section Turn
variable {e : Prop} {r r' r'' : Registry}

/-- Who is attached now: some of those from before in their order, and then new ones. -/
def Renewed (r r' : Registry) : Prop :=
  r.nextId ≤ r'.nextId ∧ ∃ survivors added, r'.members.map (·.id) = survivors ++ added ∧
    survivors.Sublist (r.members.map (·.id)) ∧ ∀ id ∈ added, r.nextId ≤ id

theorem Renewed.refl (r : Registry) : Renewed r r :=
  ⟨le_refl _, r.members.map (·.id), [], (List.append_nil _).symm, List.Sublist.refl _, fun _ h => nomatch h⟩

theorem Renewed.trans (h : Renewed r r') (h' : Renewed r' r'') : Renewed r r'' := by
  obtain ⟨hnext, survivors, added, hids, hsurvivors, hadded⟩ := h
  obtain ⟨hnext', survivors', added', hids', hsurvivors', hadded'⟩ := h'
  rw [hids] at hsurvivors'
  obtain ⟨stayed, new, rfl, hstayed, hnew⟩ := List.sublist_append_iff.1 hsurvivors'
  refine ⟨hnext.trans hnext', stayed, new ++ added', by rw [hids', List.append_assoc], hstayed.trans hsurvivors, ?_⟩
  intro id hid
  rcases List.mem_append.1 hid with hid | hid
  · exact hadded id (hnew.subset hid)
  · exact hnext.trans (hadded' id hid)

theorem Renewed.of_ids (h : r'.members.map (·.id) = r.members.map (·.id)) (hnext : r.nextId ≤ r'.nextId) :
    Renewed r r' :=
  ⟨hnext, r'.members.map (·.id), [], (List.append_nil _).symm, h ▸ List.Sublist.refl _, fun _ h => nomatch h⟩

theorem chat_renewed (h : Chat e r r') : Renewed r r' := by
  refine .of_ids h.ids ?_
  cases h <;> exact le_refl _

theorem step_renewed (h : Step e r r') : Renewed r r' := by
  cases h with
  | chat h => exact chat_renewed h
  | @join m ms hid hrole hleader hlock h =>
    refine ⟨Nat.le_succ _, r.members.map (·.id), [m.id], ?_, List.Sublist.refl _, ?_⟩
    · exact (role_ids (told_roles h)).trans (by rw [List.map_append]; rfl)
    · intro id hmem
      exact le_of_eq (hid.symm.trans (List.mem_singleton.1 hmem).symm)
  | @leave gone ms h =>
    refine ⟨le_refl _, (r.kept gone).map (·.id), [], ?_, ?_, fun _ h => nomatch h⟩
    · rw [List.append_nil, role_ids (told_roles h), elected_ids]
    · exact List.Sublist.map _ List.filter_sublist

theorem steps_renewed (h : Relation.ReflTransGen (Step e) r r') : Renewed r r' := by
  induction h with
  | refl => exact .refl r
  | tail _ hstep ih => exact ih.trans (step_renewed hstep)

variable {W : World} {cfg : Config} {inp : IterInput} {st : State} {w₀ w : Work}

/-- The flags of a `poll` that reports only what comes of the clients. -/
def clientsReadable (readable : ClientId → Bool) : PollFd → PollFlags
  | .client id => { pollin := readable id }
  | _ => {}

/-- In a turn of the loop the clients that are read are some of those that were polled, in their order, and then ones
whose ids are new. -/
theorem turn_readiness (hst : st.Ok) {listener master sigchld : Bool} {readable : ClientId → Bool}
    {revents : List (ClientId × Bool)} (hpoll : inp.poll = .ready listener master readable sigchld)
    (hbefore : beforePoll cfg inp st = .ok w₀) (hstage : w₀.afterPoll W cfg inp = .frames w revents) :
    collectFrames W inp.recv 0 w.sess.clients revents =
      collectReady W inp.recv (fun id => id ∈ w₀.sess.clients.map (·.id) && readable id) 0 w.sess.clients := by
  have harr : Arrives W st w₀ := by
    rcases beforePoll_spec (W := W) cfg inp hst with ⟨turn, heq, -⟩ | ⟨w, heq, harr, -⟩
    · rw [heq] at hbefore
      cases hbefore
    · rw [heq] at hbefore
      cases hbefore
      exact harr
  have hshake := Work.handshakes_moves (W := W) cfg harr.mid inp
  unfold Work.afterPoll at hstage
  rw [hpoll] at hstage
  dsimp only at hstage
  obtain ⟨w', hc, ⟨o, heq⟩ | heq⟩ := Work.afterHandshakes_cases (W := W) cfg inp hshake.mid listener master
    (sigchld && w₀.loc.sigchldPipe) (w₀.sess.clients.map fun ch => (ch.id, readable ch.id))
  · rw [heq] at hstage
    cases hstage
  · rw [heq] at hstage
    cases hstage
    obtain ⟨-, survivors, added, hids, hsurvivors, hadded⟩ := steps_renewed (hshake.trans hc.moves).steps
    simp only [Work.registry, Session.registry, List.map_map] at hids hsurvivors hadded
    have hfresh : ∀ id ∈ added, id ∉ w₀.sess.clients.map (·.id) := by
      intro id hid hmem
      obtain ⟨ch, hch, rfl⟩ := List.mem_map.1 hmem
      exact absurd (harr.mid.fresh hch) (not_lt.2 (hadded _ hid))
    have hown := @collectFrames_own W (clientsReadable readable) _ _ _ _ inp.recv harr.mid.ids hsurvivors hfresh hids
    simpa [clientsReadable, PollFlags.readable, Function.comp_def] using hown

end Turn

end Hyoui.Daemon
