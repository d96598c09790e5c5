import Hyoui.Lib.Lists
import Hyoui.Protocol.Messages
/-!
# Who is attached, who leads, who holds the lock

The session seen from its clients, without queues, frames or sockets: the members with their
roles, the lock's holder, and what each member was last told about either. A `Step` is what the
daemon may do in one go; `lose` and `restart` are what it also does, outside the rules. The
rules keep `Sound`, `HolderAttached`, `Led` and `LockKnown`.

`e` stands for the encoding of the two notices: where it fails nobody is told anything.
-/

namespace Hyoui

open Hyoui.Protocol Hyoui.Lib

abbrev LockNotice := SessionMode × Option ClientId

/-- What a `mode.change` says of a lock with this holder. -/
def lockNotice : Option ClientId → LockNotice
  | some holder => (.locked, some holder)
  | none => (.rw, none)

/-- An attached client. With a `gap` it missed a frame, and nothing is known of what it heard. -/
structure Member where
  id : ClientId
  mode : Mode
  leader : Bool
  gap : Bool
  leaderHeard : Option (Option ClientId)
  lockHeard : Option LockNotice

def Member.role (m : Member) : ClientId × Mode × Bool := (m.id, m.mode, m.leader)

structure Registry where
  members : List Member
  holder : Option ClientId
  nextId : ClientId

/-! ## Telling members -/

/-- `m'` is `m` after some frames: the leader notices among them satisfy `L` and the lock notices
`K`, and there is one where it must be. -/
structure Told (e : Prop) (L : Option ClientId → Prop) (K : LockNotice → Prop) (mustL mustK : Prop)
    (m m' : Member) : Prop where
  role : m'.role = m.role
  gap : m.gap = true → m'.gap = true
  leaderHeard : e → m'.gap = false →
    (∃ x, L x ∧ m'.leaderHeard = some x) ∨ (¬ mustL ∧ m'.leaderHeard = m.leaderHeard)
  lockHeard : e → m'.gap = false →
    (∃ x, K x ∧ m'.lockHeard = some x) ∨ (¬ mustK ∧ m'.lockHeard = m.lockHeard)

section Told

variable {e : Prop} {L L' : Option ClientId → Prop} {K K' : LockNotice → Prop} {mustL mustK mustL' mustK' : Prop}
  {m m' m'' : Member} {ms ms' : List Member}

theorem Told.id (h : Told e L K mustL mustK m m') : m'.id = m.id := congrArg (·.1) h.role

theorem Told.mode (h : Told e L K mustL mustK m m') : m'.mode = m.mode := congrArg (·.2.1) h.role

theorem Told.leader (h : Told e L K mustL mustK m m') : m'.leader = m.leader := congrArg (·.2.2) h.role

theorem Told.refl (m : Member) : Told e L K False False m m :=
  ⟨rfl, fun h => h, fun _ _ => .inr ⟨not_false, rfl⟩, fun _ _ => .inr ⟨not_false, rfl⟩⟩

theorem Told.gap_false (h : Told e L K mustL mustK m m') (hg : m'.gap = false) : m.gap = false := by
  cases hm : m.gap with
  | false => rfl
  | true => exact absurd (h.gap hm) (by rw [hg]; decide)

theorem Told.trans (h : Told e L K mustL mustK m m') (h' : Told e L K mustL' mustK' m' m'') :
    Told e L K (mustL ∨ mustL') (mustK ∨ mustK') m m'' where
  role := h'.role.trans h.role
  gap hg := h'.gap (h.gap hg)
  leaderHeard he hg := by
    rcases h'.leaderHeard he hg with hx | ⟨hn', heq⟩
    · exact .inl hx
    · rw [heq]
      rcases h.leaderHeard he (h'.gap_false hg) with hx | ⟨hn, heq⟩
      · exact .inl hx
      · exact .inr ⟨not_or.2 ⟨hn, hn'⟩, heq⟩
  lockHeard he hg := by
    rcases h'.lockHeard he hg with hx | ⟨hn', heq⟩
    · exact .inl hx
    · rw [heq]
      rcases h.lockHeard he (h'.gap_false hg) with hx | ⟨hn, heq⟩
      · exact .inl hx
      · exact .inr ⟨not_or.2 ⟨hn, hn'⟩, heq⟩

theorem Told.weaken (h : Told e L K mustL mustK m m') (hL : ∀ x, L x → L' x) (hK : ∀ x, K x → K' x)
    (hmL : mustL' → mustL) (hmK : mustK' → mustK) : Told e L' K' mustL' mustK' m m' where
  role := h.role
  gap := h.gap
  leaderHeard he hg := (h.leaderHeard he hg).imp (fun ⟨x, hx, hh⟩ => ⟨x, hL x hx, hh⟩) fun ⟨hn, hh⟩ => ⟨mt hmL hn, hh⟩
  lockHeard he hg := (h.lockHeard he hg).imp (fun ⟨x, hx, hh⟩ => ⟨x, hK x hx, hh⟩) fun ⟨hn, hh⟩ => ⟨mt hmK hn, hh⟩

theorem told_roles (h : List.Forall₂ (Told e L K mustL mustK) ms ms') : ms'.map Member.role = ms.map Member.role :=
  forall₂_map_eq (fun _ _ ht => ht.role) h

end Told

/-! ## What the daemon does -/

/-- The first `rw` member becomes leader. -/
def elevate : List Member → List Member × Option ClientId
  | [] => ([], none)
  | m :: ms =>
    if m.mode = .rw then ({ m with leader := true } :: ms, some m.id)
    else
      let (ms, id) := elevate ms
      (m :: ms, id)

/-- The member `q` takes the leader's role, from whoever has it. -/
def promote (q : ClientId) (m : Member) : Member :=
  if m.id = q then { m with leader := true, mode := .rw } else { m with leader := false }

namespace Registry

variable (r : Registry)

def Leads (x : Option ClientId) : Prop := ∃ m ∈ r.members, m.leader = true ∧ x = some m.id

def kept (gone : List ClientId) : List Member := r.members.filter (·.id ∉ gone)

def dropped (gone : List ClientId) : List Member := r.members.filter (·.id ∈ gone)

/-- A leader is among those who go. -/
def dropsLeader (gone : List ClientId) : Bool := (r.dropped gone).any (·.leader)

/-- The lock's holder is among those who go. -/
def dropsHolder (gone : List ClientId) : Bool := (r.dropped gone).any (r.holder = some ·.id)

/-- Those who stay, with a new leader where the old one goes. -/
def elected (gone : List ClientId) : List Member × Option ClientId :=
  if r.dropsLeader gone then elevate (r.kept gone) else (r.kept gone, none)

end Registry

/-- What leaves everybody where they are. -/
inductive Chat (e : Prop) (r : Registry) : Registry → Prop
  | talk {ms} (h : List.Forall₂ (Told e r.Leads (· = lockNotice r.holder) False False) r.members ms) :
      Chat e r { r with members := ms }
  | take {q ms} (hq : ∃ m ∈ r.members, m.id = q)
      (h : List.Forall₂ (Told e (· = some q) (· = lockNotice r.holder) True False) (r.members.map (promote q)) ms) :
      Chat e r { r with members := ms }
  | lock {holder ms} (hfree : r.holder = none ∨ holder = none)
      (hh : ∀ id, holder = some id → ∃ m ∈ r.members, m.id = id)
      (h : List.Forall₂ (Told e (fun _ => False) (· = lockNotice holder) False True) r.members ms) :
      Chat e r { r with members := ms, holder }

inductive Step (e : Prop) (r : Registry) : Registry → Prop
  | chat {r'} (h : Chat e r r') : Step e r r'
  | join {m ms} (hid : m.id = r.nextId)
      (hrole : m.leader = (decide (m.mode = .rw) && !r.members.any (·.leader)))
      (hleader : m.leaderHeard = none)
      (hlock : e → m.gap = false → m.lockHeard.getD (lockNotice none) = lockNotice r.holder)
      (h : List.Forall₂ (Told e (fun x => m.leader = true ∧ x = some m.id) (fun _ => False) (m.leader = true) False)
        (r.members ++ [m]) ms) :
      Step e r { r with members := ms, nextId := r.nextId + 1 }
  | leave {gone ms}
      (h : List.Forall₂ (Told e (fun x => r.dropsLeader gone = true ∧ x = (r.elected gone).2)
          (fun x => r.dropsHolder gone = true ∧ x = lockNotice none) (r.dropsLeader gone = true)
          (r.dropsHolder gone = true)) (r.elected gone).1 ms) :
      Step e r { r with members := ms, holder := if r.dropsHolder gone then none else r.holder }

/-- Members go without a word to anybody. -/
def Registry.lose (r : Registry) (gone : List ClientId) : Registry := { r with members := r.kept gone }

/-- The lock is forgotten without a word to anybody. -/
def Registry.restart (r : Registry) : Registry := { r with holder := none }

/-! ## The invariants -/

structure Sound (r : Registry) : Prop where
  ids : (r.members.map (·.id)).Nodup
  fresh : ∀ m ∈ r.members, m.id < r.nextId
  leaderRw : ∀ m ∈ r.members, m.leader = true → m.mode = .rw
  oneLeader : ∀ m ∈ r.members, ∀ m' ∈ r.members, m.leader = true → m'.leader = true → m.id = m'.id

def HolderAttached (r : Registry) : Prop := ∀ id, r.holder = some id → ∃ m ∈ r.members, m.id = id

structure Led (e : Prop) (r : Registry) : Prop where
  leader : (∃ m ∈ r.members, m.mode = .rw) → ∃ l ∈ r.members, l.leader = true
  heard : e → ∀ l ∈ r.members, l.leader = true → ∀ m ∈ r.members, m.gap = false →
    ∀ x, m.leaderHeard = some x → x = some l.id

def LockKnown (e : Prop) (r : Registry) : Prop :=
  e → ∀ m ∈ r.members, m.gap = false → m.lockHeard.getD (lockNotice none) = lockNotice r.holder

section Roles

variable {ms ms' : List Member}

theorem role_mem (h : ms'.map Member.role = ms.map Member.role) {m' : Member} (hm : m' ∈ ms') :
    ∃ m ∈ ms, m.role = m'.role := by
  have hmem : m'.role ∈ ms.map Member.role := h ▸ List.mem_map_of_mem hm
  exact List.mem_map.1 hmem

theorem role_ids (h : ms'.map Member.role = ms.map Member.role) : ms'.map (·.id) = ms.map (·.id) := by
  have h' := congrArg (List.map (·.1)) h
  rw [List.map_map, List.map_map] at h'
  exact h'

/-- Soundness is about the roles. -/
theorem Sound.of_roles {r r' : Registry} (h : Sound r) (hr : r'.members.map Member.role = r.members.map Member.role)
    (hn : r.nextId ≤ r'.nextId) : Sound r' where
  ids := role_ids hr ▸ h.ids
  fresh m' hm' := by
    obtain ⟨m, hm, he⟩ := role_mem hr hm'
    have hid : m.id = m'.id := congrArg (·.1) he
    exact hid ▸ lt_of_lt_of_le (h.fresh m hm) hn
  leaderRw m' hm' hl := by
    obtain ⟨m, hm, he⟩ := role_mem hr hm'
    simp only [Member.role, Prod.mk.injEq] at he
    rw [← he.2.1]
    exact h.leaderRw m hm (he.2.2.trans hl)
  oneLeader m' hm' n' hn' hl hl' := by
    obtain ⟨m, hm, he⟩ := role_mem hr hm'
    obtain ⟨n, hn, he'⟩ := role_mem hr hn'
    simp only [Member.role, Prod.mk.injEq] at he he'
    rw [← he.1, ← he'.1]
    exact h.oneLeader m hm n hn (he.2.2.trans hl) (he'.2.2.trans hl')

end Roles

/-! ## What the rules keep -/

section Elevate

variable {ms : List Member}

theorem elevate_ids (ms : List Member) : (elevate ms).1.map (·.id) = ms.map (·.id) := by
  induction ms with
  | nil => rfl
  | cons m ms ih =>
    rw [elevate]
    split
    · rfl
    · rw [List.map_cons, List.map_cons, ih]

/-- Only the leader's flag is touched, and that of one `rw` member only. -/
theorem elevate_mem {m' : Member} (h : m' ∈ (elevate ms).1) :
    m' ∈ ms ∨ ∃ m ∈ ms, m.mode = .rw ∧ (elevate ms).2 = some m.id ∧ m' = { m with leader := true } := by
  induction ms with
  | nil => exact .inl h
  | cons m ms ih =>
    rw [elevate] at h ⊢
    split at h <;> rename_i hmode
    · rw [if_pos hmode]
      rcases List.mem_cons.1 h with rfl | h
      · exact .inr ⟨m, List.mem_cons_self, hmode, rfl, rfl⟩
      · exact .inl (List.mem_cons_of_mem _ h)
    · rw [if_neg hmode]
      rcases List.mem_cons.1 h with rfl | h
      · exact .inl List.mem_cons_self
      · rcases ih h with h | ⟨n, hn, hrest⟩
        · exact .inl (List.mem_cons_of_mem _ h)
        · exact .inr ⟨n, List.mem_cons_of_mem _ hn, hrest⟩

/-- With a `rw` member there is a leader afterwards. -/
theorem elevate_leads (h : ∃ m ∈ ms, m.mode = .rw) : ∃ l ∈ (elevate ms).1, l.leader = true := by
  induction ms with
  | nil => simp at h
  | cons m ms ih =>
    rw [elevate]
    split <;> rename_i hmode
    · exact ⟨_, List.mem_cons_self, rfl⟩
    · obtain ⟨n, hn, hrw⟩ := h
      rcases List.mem_cons.1 hn with rfl | hn
      · exact absurd hrw hmode
      · obtain ⟨l, hl, hlead⟩ := ih ⟨n, hn, hrw⟩
        exact ⟨l, List.mem_cons_of_mem _ hl, hlead⟩

end Elevate

section Kept

variable {r : Registry} {gone : List ClientId}

theorem kept_sub {m : Member} (h : m ∈ r.kept gone) : m ∈ r.members := (List.mem_filter.1 h).1

theorem mem_kept {m : Member} (h : m ∈ r.members) (hg : m.id ∉ gone) : m ∈ r.kept gone :=
  List.mem_filter.2 ⟨h, by simpa using hg⟩

theorem elected_ids (r : Registry) (gone : List ClientId) :
    (r.elected gone).1.map (·.id) = (r.kept gone).map (·.id) := by
  unfold Registry.elected
  split
  · exact elevate_ids _
  · rfl

/-- Who is in the list after an election was there before, and leads if it led or was elected. -/
theorem elected_mem {m' : Member} (h : m' ∈ (r.elected gone).1) :
    ∃ m ∈ r.kept gone, m'.id = m.id ∧ m'.mode = m.mode ∧ m'.gap = m.gap ∧ m'.leaderHeard = m.leaderHeard ∧
      m'.lockHeard = m.lockHeard ∧
      (m'.leader = m.leader ∨ r.dropsLeader gone = true ∧ m.mode = .rw ∧ (r.elected gone).2 = some m.id) := by
  unfold Registry.elected at h ⊢
  split at h <;> rename_i hd
  · rw [if_pos hd]
    rcases elevate_mem h with h | ⟨m, hm, hmode, hid, rfl⟩
    · exact ⟨m', h, rfl, rfl, rfl, rfl, rfl, .inl rfl⟩
    · exact ⟨m, hm, rfl, rfl, rfl, rfl, rfl, .inr ⟨hd, hmode, hid⟩⟩
  · exact ⟨m', h, rfl, rfl, rfl, rfl, rfl, .inl rfl⟩

theorem dropsLeader_iff : r.dropsLeader gone = true ↔ ∃ m ∈ r.members, m.id ∈ gone ∧ m.leader = true := by
  simp [Registry.dropsLeader, Registry.dropped]

theorem dropsHolder_iff : r.dropsHolder gone = true ↔ ∃ m ∈ r.members, m.id ∈ gone ∧ r.holder = some m.id := by
  simp [Registry.dropsHolder, Registry.dropped]

/-- Once the leader has gone, nobody who stays leads. -/
theorem kept_not_leader (h : Sound r) (hd : r.dropsLeader gone = true) {m : Member} (hm : m ∈ r.kept gone) :
    m.leader = false := by
  obtain ⟨l, hl, hgone, hlead⟩ := dropsLeader_iff.1 hd
  cases hml : m.leader with
  | false => rfl
  | true =>
    have hid := h.oneLeader m (kept_sub hm) l hl hml hlead
    have hkeep := (List.mem_filter.1 hm).2
    rw [hid] at hkeep
    exact absurd hgone (by simpa using hkeep)

end Kept

section Preserved

variable {e : Prop} {r r' : Registry} {gone : List ClientId}

theorem sound_kept (h : Sound r) (gone : List ClientId) : Sound (r.lose gone) where
  ids := h.ids.sublist ((List.filter_sublist).map _)
  fresh m hm := h.fresh m (kept_sub hm)
  leaderRw m hm := h.leaderRw m (kept_sub hm)
  oneLeader m hm m' hm' := h.oneLeader m (kept_sub hm) m' (kept_sub hm')

theorem sound_elected (h : Sound r) (gone : List ClientId) : Sound { r with members := (r.elected gone).1 } where
  ids := by
    rw [elected_ids]
    exact (sound_kept h gone).ids
  fresh m' hm' := by
    obtain ⟨m, hm, hid, -⟩ := elected_mem hm'
    rw [hid]
    exact h.fresh m (kept_sub hm)
  leaderRw m' hm' hl := by
    obtain ⟨m, hm, -, hmode, -, -, -, hlead⟩ := elected_mem hm'
    rw [hmode]
    rcases hlead with hlead | ⟨-, hrw, -⟩
    · exact h.leaderRw m (kept_sub hm) (hlead ▸ hl)
    · exact hrw
  oneLeader m' hm' n' hn' hl hl' := by
    obtain ⟨m, hm, hid, -, -, -, -, hlead⟩ := elected_mem hm'
    obtain ⟨n, hn, hid', -, -, -, -, hlead'⟩ := elected_mem hn'
    rw [hid, hid']
    by_cases hd : r.dropsLeader gone = true
    · have hsome : ∀ k : Member, k ∈ r.kept gone → ∀ b : Bool, b = true →
          (b = k.leader ∨ r.dropsLeader gone = true ∧ k.mode = .rw ∧ (r.elected gone).2 = some k.id) →
          (r.elected gone).2 = some k.id := by
        rintro k hk b rfl (hb | ⟨-, -, hk'⟩)
        · exact absurd hb.symm (by rw [kept_not_leader h hd hk]; decide)
        · exact hk'
      exact Option.some.inj ((hsome m hm _ hl hlead).symm.trans (hsome n hn _ hl' hlead'))
    · have hb : ∀ k : Member, ∀ b : Bool, b = true →
          (b = k.leader ∨ r.dropsLeader gone = true ∧ k.mode = .rw ∧ (r.elected gone).2 = some k.id) →
          k.leader = true := by
        rintro k b rfl (hb | ⟨hd', -⟩)
        · exact hb.symm
        · exact absurd hd' hd
      exact h.oneLeader m (kept_sub hm) n (kept_sub hn) (hb m _ hl hlead) (hb n _ hl' hlead')

theorem promote_id (q : ClientId) (m : Member) : (promote q m).id = m.id := by
  unfold promote
  split <;> rfl

theorem promote_ids (q : ClientId) (ms : List Member) : (ms.map (promote q)).map (·.id) = ms.map (·.id) := by
  rw [List.map_map]
  exact List.map_congr_left fun m _ => promote_id q m

theorem promote_leader {q : ClientId} {m : Member} (h : (promote q m).leader = true) : m.id = q := by
  unfold promote at h
  split at h
  · assumption
  · cases h

theorem sound_promote (h : Sound r) (q : ClientId) : Sound { r with members := r.members.map (promote q) } where
  ids := promote_ids q r.members ▸ h.ids
  fresh m' hm' := by
    obtain ⟨m, hm, rfl⟩ := List.mem_map.1 hm'
    rw [promote_id]
    exact h.fresh m hm
  leaderRw m' hm' hl := by
    obtain ⟨m, hm, rfl⟩ := List.mem_map.1 hm'
    unfold promote
    rw [if_pos (promote_leader hl)]
  oneLeader m' hm' n' hn' hl hl' := by
    obtain ⟨m, hm, rfl⟩ := List.mem_map.1 hm'
    obtain ⟨n, hn, rfl⟩ := List.mem_map.1 hn'
    rw [promote_id, promote_id, promote_leader hl, promote_leader hl']

theorem sound_append (h : Sound r) {m : Member} (hid : m.id = r.nextId)
    (hrole : m.leader = (decide (m.mode = .rw) && !r.members.any (·.leader))) :
    Sound { r with members := r.members ++ [m], nextId := r.nextId + 1 } where
  ids := by
    rw [List.map_append, List.nodup_append]
    refine ⟨h.ids, by simp, ?_⟩
    intro a ha b hb
    obtain ⟨n, hn, rfl⟩ := List.mem_map.1 ha
    simp only [List.map_cons, List.map_nil, List.mem_singleton] at hb
    rw [hb, hid]
    exact ne_of_lt (h.fresh n hn)
  fresh n hn := by
    rcases List.mem_append.1 hn with hn | hn
    · exact Nat.lt_succ_of_lt (h.fresh n hn)
    · rw [List.mem_singleton.1 hn, hid]
      exact Nat.lt_succ_self _
  leaderRw n hn hl := by
    rcases List.mem_append.1 hn with hn | hn
    · exact h.leaderRw n hn hl
    · rw [List.mem_singleton.1 hn, hrole, Bool.and_eq_true, decide_eq_true_eq] at hl
      exact (List.mem_singleton.1 hn) ▸ hl.1
  oneLeader n hn n' hn' hl hl' := by
    have hno : ∀ k ∈ r.members, k.leader = true → m.leader = true → False := by
      intro k hk hkl hml
      rw [hrole, Bool.and_eq_true, Bool.not_eq_true', List.any_eq_false] at hml
      exact hml.2 k hk hkl
    rcases List.mem_append.1 hn with hn | hn <;> rcases List.mem_append.1 hn' with hn' | hn'
    · exact h.oneLeader n hn n' hn' hl hl'
    · exact (hno n hn hl (List.mem_singleton.1 hn' ▸ hl')).elim
    · exact (hno n' hn' hl' (List.mem_singleton.1 hn ▸ hl)).elim
    · rw [List.mem_singleton.1 hn, List.mem_singleton.1 hn']

theorem Chat.sound (hs : Chat e r r') (h : Sound r) : Sound r' := by
  cases hs with
  | talk ht => exact h.of_roles (told_roles ht) (le_refl _)
  | take _ ht => exact (sound_promote h _).of_roles (told_roles ht) (le_refl _)
  | lock _ _ ht => exact h.of_roles (told_roles ht) (le_refl _)

theorem Step.sound (hs : Step e r r') (h : Sound r) : Sound r' := by
  cases hs with
  | chat hc => exact hc.sound h
  | join hid hrole _ _ ht => exact (sound_append h hid hrole).of_roles (told_roles ht) (le_refl _)
  | leave ht => exact (sound_elected h _).of_roles (told_roles ht) (le_refl _)

/-! ### The lock's holder is attached -/

theorem attached_of_ids {ms ms' : List Member} (h : ms'.map (·.id) = ms.map (·.id)) {id : ClientId}
    (hm : ∃ m ∈ ms, m.id = id) : ∃ m ∈ ms', m.id = id := by
  have hmem : id ∈ ms.map (·.id) := List.mem_map.2 hm
  rw [← h] at hmem
  exact List.mem_map.1 hmem

theorem Chat.ids (hs : Chat e r r') : r'.members.map (·.id) = r.members.map (·.id) := by
  cases hs with
  | talk ht => exact role_ids (told_roles ht)
  | take _ ht => exact (role_ids (told_roles ht)).trans (promote_ids _ _)
  | lock _ _ ht => exact role_ids (told_roles ht)

theorem Chat.holderAttached (hs : Chat e r r') (h : HolderAttached r) : HolderAttached r' := by
  intro id hid
  refine attached_of_ids hs.ids ?_
  cases hs with
  | talk ht => exact h id hid
  | take _ ht => exact h id hid
  | lock _ hh ht => exact hh id hid

theorem Step.holderAttached (hs : Step e r r') (h : HolderAttached r) : HolderAttached r' := by
  cases hs with
  | chat hc => exact hc.holderAttached h
  | join _ _ _ _ ht =>
    intro id hid
    obtain ⟨m, hm, rfl⟩ := h id hid
    exact attached_of_ids (role_ids (told_roles ht)) ⟨m, List.mem_append_left _ hm, rfl⟩
  | @leave gone ms ht =>
    intro id hid
    have hkeep : r.dropsHolder gone = false := by
      cases hd : r.dropsHolder gone with
      | false => rfl
      | true => simp [hd] at hid
    simp only [hkeep, Bool.false_eq_true, if_false] at hid
    obtain ⟨m, hm, rfl⟩ := h id hid
    have hstay : m.id ∉ gone := fun hg =>
      absurd (dropsHolder_iff.2 ⟨m, hm, hg, hid⟩) (by rw [hkeep]; decide)
    exact attached_of_ids ((role_ids (told_roles ht)).trans (elected_ids r gone)) ⟨m, mem_kept hm hstay, rfl⟩

theorem lose_holderAttached (h : HolderAttached r) (hg : ∀ id, r.holder = some id → id ∉ gone) :
    HolderAttached (r.lose gone) := by
  intro id hid
  obtain ⟨m, hm, rfl⟩ := h id hid
  exact ⟨m, mem_kept hm (hg _ hid), rfl⟩

/-! ### The leader, and who was told -/

section Heard

variable {L : Option ClientId → Prop} {K : LockNotice → Prop} {mustL mustK : Prop} {ms : List Member}

/-- Frames keep the leader known: what they say of it is true, and where nobody must be told the
old news is still right. -/
theorem led_told (r₀ : Registry) (ht : List.Forall₂ (Told e L K mustL mustK) r₀.members ms)
    (hrw : (∃ m ∈ r₀.members, m.mode = .rw) → ∃ l ∈ r₀.members, l.leader = true)
    (hL : ∀ x, L x → ∀ l ∈ r₀.members, l.leader = true → x = some l.id)
    (hbase : ¬ mustL → e → ∀ l ∈ r₀.members, l.leader = true → ∀ m ∈ r₀.members, m.gap = false →
      ∀ x, m.leaderHeard = some x → x = some l.id) {holder : Option ClientId} {nextId : ClientId} :
    Led e { members := ms, holder, nextId } where
  leader := by
    rintro ⟨m', hm', hmode⟩
    obtain ⟨m, hm, htold⟩ := forall₂_mem_right ht hm'
    obtain ⟨l, hl, hlead⟩ := hrw ⟨m, hm, htold.mode ▸ hmode⟩
    obtain ⟨l', hl', htold'⟩ := forall₂_mem_left ht hl
    exact ⟨l', hl', htold'.leader.trans hlead⟩
  heard he l' hl' hlead m' hm' hgap x hx := by
    obtain ⟨l, hl, htold'⟩ := forall₂_mem_right ht hl'
    obtain ⟨m, hm, htold⟩ := forall₂_mem_right ht hm'
    rw [htold'.id]
    rcases htold.leaderHeard he hgap with ⟨y, hy, heq⟩ | ⟨hn, heq⟩
    · rw [hx] at heq
      rw [Option.some.inj heq]
      exact hL y hy l hl (htold'.leader ▸ hlead)
    · exact hbase hn he l hl (htold'.leader ▸ hlead) m hm (htold.gap_false hgap) x (heq ▸ hx)

theorem lockKnown_told (r₀ : Registry) {holder : Option ClientId} {nextId : ClientId}
    (ht : List.Forall₂ (Told e L K mustL mustK) r₀.members ms) (hK : ∀ x, K x → x = lockNotice holder)
    (hbase : ¬ mustK → e → ∀ m ∈ r₀.members, m.gap = false →
      m.lockHeard.getD (lockNotice none) = lockNotice holder) :
    LockKnown e { members := ms, holder, nextId } := by
  intro he m' hm' hgap
  obtain ⟨m, hm, htold⟩ := forall₂_mem_right ht hm'
  rcases htold.lockHeard he hgap with ⟨y, hy, heq⟩ | ⟨hn, heq⟩
  · rw [heq, Option.getD_some]
    exact hK y hy
  · rw [heq]
    exact hbase hn he m hm (htold.gap_false hgap)

end Heard

theorem leads_iff (h : Sound r) {x : Option ClientId} (hx : r.Leads x) {l : Member} (hl : l ∈ r.members)
    (hlead : l.leader = true) : x = some l.id := by
  obtain ⟨m, hm, hml, rfl⟩ := hx
  rw [h.oneLeader m hm l hl hml hlead]

theorem Chat.led (hs : Chat e r r') (h : Sound r) (hled : Led e r) : Led e r' := by
  cases hs with
  | talk ht => exact led_told _ ht hled.leader (fun x hx l hl hlead => leads_iff h hx hl hlead) fun _ => hled.heard
  | @take q ms hq ht =>
    refine led_told { r with members := r.members.map (promote q) } ht ?_ ?_ fun hn => absurd trivial hn
    · intro _
      obtain ⟨m, hm, rfl⟩ := hq
      refine ⟨promote m.id m, List.mem_map_of_mem hm, ?_⟩
      unfold promote
      rw [if_pos rfl]
    · rintro x rfl l' hl' hlead
      obtain ⟨l, -, rfl⟩ := List.mem_map.1 hl'
      rw [promote_id, promote_leader hlead]
  | lock _ _ ht => exact led_told _ ht hled.leader (fun x hx => hx.elim) fun _ => hled.heard

theorem Step.led (hs : Step e r r') (h : Sound r) (hled : Led e r) : Led e r' := by
  cases hs with
  | chat hc => exact hc.led h hled
  | @join m ms hid hrole hleader hlock ht =>
    have hno : m.leader = true → ∀ k ∈ r.members, k.leader ≠ true := by
      intro hml
      rw [hrole, Bool.and_eq_true, Bool.not_eq_true', List.any_eq_false] at hml
      exact hml.2
    refine led_told { r with members := r.members ++ [m] } ht ?_ ?_ ?_
    · -- a new `rw` member leads, unless somebody does already
      rintro ⟨k, hk, hrw⟩
      rcases List.mem_append.1 hk with hk | hk
      · obtain ⟨l, hl, hlead⟩ := hled.leader ⟨k, hk, hrw⟩
        exact ⟨l, List.mem_append_left _ hl, hlead⟩
      · obtain rfl := List.mem_singleton.1 hk
        cases hany : r.members.any (·.leader) with
        | true =>
          obtain ⟨l, hl, hlead⟩ := List.any_eq_true.1 hany
          exact ⟨l, List.mem_append_left _ hl, hlead⟩
        | false => exact ⟨k, by simp, by rw [hrole, hrw, hany]; rfl⟩
    · rintro x ⟨hml, rfl⟩ l hl hlead
      rcases List.mem_append.1 hl with hl | hl
      · exact absurd hlead (hno hml l hl)
      · rw [List.mem_singleton.1 hl]
    · intro hml he l hl hlead k hk hgap x hx
      rcases List.mem_append.1 hl with hl | hl
      · rcases List.mem_append.1 hk with hk | hk
        · exact hled.heard he l hl hlead k hk hgap x hx
        · rw [List.mem_singleton.1 hk, hleader] at hx
          cases hx
      · exact absurd (List.mem_singleton.1 hl ▸ hlead) hml
  | @leave gone ms ht =>
    refine led_told { r with members := (r.elected gone).1 } ht ?_ ?_ ?_
    · rintro ⟨k, hk, hrw⟩
      obtain ⟨k₀, hk₀, -, hmode, -⟩ := elected_mem hk
      by_cases hd : r.dropsLeader gone = true
      · unfold Registry.elected
        rw [if_pos hd]
        exact elevate_leads ⟨k₀, hk₀, hmode ▸ hrw⟩
      · obtain ⟨l, hl, hlead⟩ := hled.leader ⟨k₀, kept_sub hk₀, hmode ▸ hrw⟩
        have hstay : l.id ∉ gone := fun hg => hd (dropsLeader_iff.2 ⟨l, hl, hg, hlead⟩)
        unfold Registry.elected
        rw [if_neg hd]
        exact ⟨l, mem_kept hl hstay, hlead⟩
    · rintro x ⟨hd, rfl⟩ l hl hlead
      obtain ⟨l₀, hl₀, hid, -, -, -, -, hwho⟩ := elected_mem hl
      rcases hwho with hsame | ⟨-, -, hsome⟩
      · exact absurd (hsame.symm.trans hlead) (by rw [kept_not_leader h hd hl₀]; decide)
      · rw [hsome, hid]
    · intro hd he l hl hlead m hm hgap x hx
      obtain ⟨l₀, hl₀, hid, -, -, -, -, hwho⟩ := elected_mem hl
      obtain ⟨m₀, hm₀, -, -, hgap₀, hheard₀, -, -⟩ := elected_mem hm
      rcases hwho with hsame | ⟨hd', -⟩
      · rw [hid]
        exact hled.heard he l₀ (kept_sub hl₀) (hsame ▸ hlead) m₀ (kept_sub hm₀) (hgap₀ ▸ hgap) x (hheard₀ ▸ hx)
      · exact absurd hd' hd

/-- Going without a word is harmless where the leader stays, or nobody is left to lead. -/
theorem lose_led (hled : Led e r)
    (hg : (∃ m ∈ r.members, m.id ∉ gone ∧ m.mode = .rw) → ∀ l ∈ r.members, l.leader = true → l.id ∉ gone) :
    Led e (r.lose gone) where
  leader := by
    rintro ⟨m, hm, hrw⟩
    have hstay : m.id ∉ gone := by simpa using (List.mem_filter.1 hm).2
    obtain ⟨l, hl, hlead⟩ := hled.leader ⟨m, kept_sub hm, hrw⟩
    exact ⟨l, mem_kept hl (hg ⟨m, kept_sub hm, hstay, hrw⟩ l hl hlead), hlead⟩
  heard he l hl hlead m hm := hled.heard he l (kept_sub hl) hlead m (kept_sub hm)

theorem restart_led (hled : Led e r) : Led e r.restart := ⟨hled.leader, hled.heard⟩

/-! ### The lock's state is known -/

theorem Chat.lockKnown (hs : Chat e r r') (h : LockKnown e r) : LockKnown e r' := by
  cases hs with
  | talk ht => exact lockKnown_told _ ht (fun x hx => hx) fun _ => h
  | @take q ms hq ht =>
    refine lockKnown_told { r with members := r.members.map (promote q) } ht (fun x hx => hx) ?_
    intro _ he m' hm' hgap
    obtain ⟨m, hm, rfl⟩ := List.mem_map.1 hm'
    unfold promote at hgap ⊢
    split at hgap <;> rename_i hid <;> simp only [hid, if_true, if_false] <;> exact h he m hm hgap
  | lock _ _ ht => exact lockKnown_told _ ht (fun x hx => hx) fun hn => absurd trivial hn

theorem Step.lockKnown (hs : Step e r r') (h : LockKnown e r) : LockKnown e r' := by
  cases hs with
  | chat hc => exact hc.lockKnown h
  | @join m ms hid hrole hleader hlock ht =>
    refine lockKnown_told { r with members := r.members ++ [m] } ht (fun x hx => hx.elim) ?_
    intro _ he k hk hgap
    rcases List.mem_append.1 hk with hk | hk
    · exact h he k hk hgap
    · obtain rfl := List.mem_singleton.1 hk
      exact hlock he hgap
  | @leave gone ms ht =>
    refine lockKnown_told { r with members := (r.elected gone).1 } ht ?_ ?_
    · rintro x ⟨hd, rfl⟩
      rw [if_pos hd]
    · intro hd he k hk hgap
      obtain ⟨k₀, hk₀, -, -, hgap₀, -, hheard₀, -⟩ := elected_mem hk
      rw [if_neg hd, hheard₀]
      exact h he k₀ (kept_sub hk₀) (hgap₀ ▸ hgap)

theorem lose_lockKnown (h : LockKnown e r) : LockKnown e (r.lose gone) :=
  fun he m hm => h he m (kept_sub hm)

/-- Forgetting the lock goes unnoticed where it was free, or nobody could notice. -/
theorem restart_lockKnown (h : LockKnown e r) (hf : r.holder = none ∨ ∀ m ∈ r.members, m.gap = true) :
    LockKnown e r.restart := by
  intro he m hm hgap
  rcases hf with hf | hf
  · have hm' := h he m hm hgap
    rw [hf] at hm'
    exact hm'
  · exact absurd (hf m hm) (by rw [hgap]; decide)

end Preserved

end Hyoui
