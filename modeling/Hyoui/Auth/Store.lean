import Mathlib.Data.List.Nodup
import Hyoui.Lib.Transition
import Hyoui.Auth.Record
/-!
# State files

A state file is read without a lock, and updated under the lock of a second file: read, change, write to a
temporary file, rename. Any number of callers, in any processes, make these system calls in any order; a
call may fail, and a process may die between any two of them. The lock file is never removed, so it is one
lock; a lock is held by one caller and goes with its process.
-/

namespace Hyoui.Auth

open Hyoui.Lib

/-! ## Text -/

/-- The characters `trim` removes. -/
def isWhitespace (c : Char) : Bool :=
  (9 ≤ c.toNat && c.toNat ≤ 13) || (8192 ≤ c.toNat && c.toNat ≤ 8202) ||
    c.toNat ∈ [32, 133, 160, 5760, 8232, 8233, 8239, 8287, 12288]

/-- Nothing is left of the text when it is trimmed. -/
def isBlank (text : String) : Bool := text.toList.all isWhitespace

def textOf (bytes : List UInt8) : Option String := String.fromUTF8? ⟨bytes.toArray⟩

theorem textOf_bytesOf (text : String) : textOf (bytesOf text) = some text := by
  have h : (⟨(bytesOf text).toArray⟩ : ByteArray) = text.toByteArray := by
    simp [bytesOf]
  rw [textOf, h, String.fromUTF8?, dif_pos text.isValidUTF8]
  rfl

/-- How the JSON library writes and reads the values of a file. -/
structure Codec (τ : Type) where
  toPretty : τ → Except String String
  fromStr : String → Except String τ

/-- What is written is text of a value, and reads back. -/
def Codec.RoundTrip {τ : Type} (codec : Codec τ) : Prop :=
  ∀ v text, codec.toPretty v = .ok text → isBlank text = false ∧ codec.fromStr text = .ok v

/-! ## The calls -/

/-- What an error names. -/
inductive StorePlace
  | file
  | lockFile
  | dir
  | temporary
  deriving DecidableEq, Repr

inductive StoreError
  | io (path : StorePlace) (reason : String)
  | corrupt (path : StorePlace) (reason : String)
  | lock (path : StorePlace) (reason : String)
  deriving DecidableEq, Repr

/-- What the kernel answers to a call: it did it, wholly or for so many bytes, or it did not. -/
inductive Kernel
  | ok
  | bytes (n : Nat)
  | fail (reason : String)
  deriving DecidableEq, Repr

section Store

variable (τ ρ : Type)

/-- The change an update makes, and what it returns. -/
abbrev Mutation := τ → τ × ρ

/-- What a caller reads for: to return it, or to change it. A plain read notes how many updates were in the
file when it began. -/
inductive Purpose
  | read (since : Nat)
  | update (mutate : Mutation τ ρ)

/-- Where a caller stands: the system call it makes next. -/
inductive Call
  | idle
  | ensureLockDir (mutate : Mutation τ ρ)
  | openLock (mutate : Mutation τ ρ)
  | flock (mutate : Mutation τ ρ)
  | openFile (purpose : Purpose τ ρ)
  | reading (purpose : Purpose τ ρ) (inode : Nat) (got : List UInt8)
  | ensureDir (mutate : Mutation τ ρ) (value : τ) (outcome : ρ)
  | createTemporary (mutate : Mutation τ ρ) (bytes : List UInt8) (outcome : ρ)
  | writing (mutate : Mutation τ ρ) (inode : Nat) (rest : List UInt8) (outcome : ρ)
  | syncing (mutate : Mutation τ ρ) (inode : Nat) (outcome : ρ)
  | persisting (mutate : Mutation τ ρ) (inode : Nat) (outcome : ρ)
  | removeTemporary (inode : Nat) (error : StoreError)
  | unlocking (result : Except StoreError ρ)
  | updated (result : Except StoreError ρ)
  | hasRead (since : Nat) (result : Except StoreError τ)
  | dead

/-- The directory: which inode the file's name has, the contents of the inodes, the next free one, and who
holds the lock. Noted besides: the updates called and, in the order of their renames, those in the file. -/
structure Disk where
  file : Option Nat := none
  inode : Nat → List UInt8 := fun _ => []
  next : Nat := 0
  lock : Option Nat := none
  call : Nat → Call τ ρ := fun _ => .idle
  called : List (Nat × Mutation τ ρ) := []
  renamed : List (Nat × Mutation τ ρ) := []

/-- A caller reads, updates, goes on with the kernel's answer, or dies. -/
inductive DiskMove
  | read (i : Nat)
  | update (i : Nat) (mutate : Mutation τ ρ)
  | go (i : Nat) (answer : Kernel)
  | die (i : Nat)

end Store

variable {τ ρ : Type} [Inhabited τ] (codec : Codec τ)

/-- The value of the bytes of a file. -/
def interpret (bytes : List UInt8) : Except StoreError τ :=
  match textOf bytes with
  | none => .error (.io .file "stream did not contain valid UTF-8")
  | some text => if isBlank text then .ok default else (codec.fromStr text).mapError (.corrupt .file)

/-- Goes on after the read: a plain read returns, an update changes the value or gives up. -/
def afterRead (purpose : Purpose τ ρ) (result : Except StoreError τ) : Call τ ρ :=
  match purpose, result with
  | .read since, result => .hasRead since result
  | .update _, .error e => .unlocking (.error e)
  | .update mutate, .ok value => .ensureDir mutate (mutate value).1 (mutate value).2

namespace Disk

variable {τ ρ : Type}

def setCall (d : Disk τ ρ) (i : Nat) (call : Call τ ρ) : Disk τ ρ :=
  { d with call := fun j => if j = i then call else d.call j }

/-- The contents of the file, when there is one. -/
def content (d : Disk τ ρ) : Option (List UInt8) := d.file.map d.inode

end Disk

/-- The next call of a caller, with the kernel's answer to this one. `none` when the kernel cannot answer so. -/
def Disk.go (d : Disk τ ρ) (i : Nat) (answer : Kernel) : Option (Disk τ ρ) :=
  match d.call i, answer with
  | .ensureLockDir _, .fail reason => some (d.setCall i (.updated (.error (.io .dir reason))))
  | .ensureLockDir mutate, .ok => some (d.setCall i (.openLock mutate))
  | .openLock _, .fail reason => some (d.setCall i (.updated (.error (.lock .lockFile reason))))
  | .openLock mutate, .ok => some (d.setCall i (.flock mutate))
  | .flock _, .fail reason => some (d.setCall i (.updated (.error (.lock .lockFile reason))))
  | .flock mutate, .ok =>
    -- The caller waits as long as another one holds the lock.
    if d.lock = none then some { d.setCall i (.openFile (.update mutate)) with lock := some i } else none
  | .openFile purpose, .fail reason => some (d.setCall i (afterRead purpose (.error (.io .file reason))))
  | .openFile purpose, .ok =>
    match d.file with
    | none => some (d.setCall i (afterRead purpose (.ok default)))
    | some inode => some (d.setCall i (.reading purpose inode []))
  | .reading purpose _ _, .fail reason => some (d.setCall i (afterRead purpose (.error (.io .file reason))))
  | .reading purpose inode got, .bytes n =>
    if n = 0 ∧ got.length = (d.inode inode).length then
      some (d.setCall i (afterRead purpose (interpret codec got)))
    else if 0 < n ∧ got.length + n ≤ (d.inode inode).length then
      some (d.setCall i (.reading purpose inode (got ++ ((d.inode inode).drop got.length).take n)))
    else
      none
  | .ensureDir _ _ _, .fail reason => some (d.setCall i (.unlocking (.error (.io .dir reason))))
  | .ensureDir mutate value outcome, .ok =>
    match codec.toPretty value with
    | .error reason => some (d.setCall i (.unlocking (.error (.io .file reason))))
    | .ok text => some (d.setCall i (.createTemporary mutate (bytesOf text) outcome))
  | .createTemporary _ _ _, .fail reason => some (d.setCall i (.unlocking (.error (.io .dir reason))))
  | .createTemporary mutate bytes outcome, .ok => some
      { d.setCall i (.writing mutate d.next bytes outcome) with
        inode := fun n => if n = d.next then [] else d.inode n
        next := d.next + 1 }
  | .writing _ inode _ _, .fail reason => some (d.setCall i (.removeTemporary inode (.io .temporary reason)))
  | .writing mutate inode rest outcome, .bytes n =>
    if rest = [] then
      none
    else if n = 0 then
      some (d.setCall i (.removeTemporary inode (.io .temporary "failed to write whole buffer")))
    else if n ≤ rest.length then
      some
        { d.setCall i (.writing mutate inode (rest.drop n) outcome) with
          inode := fun m => if m = inode then d.inode m ++ rest.take n else d.inode m }
    else
      none
  | .writing mutate inode rest outcome, .ok =>
    -- Nothing is left to write: `write_all` returns.
    if rest = [] then some (d.setCall i (.syncing mutate inode outcome)) else none
  | .syncing _ inode _, .fail reason => some (d.setCall i (.removeTemporary inode (.io .temporary reason)))
  | .syncing mutate inode outcome, .ok => some (d.setCall i (.persisting mutate inode outcome))
  | .persisting _ inode _, .fail reason => some (d.setCall i (.removeTemporary inode (.io .file reason)))
  | .persisting mutate inode outcome, .ok => some
      { d.setCall i (.unlocking (.ok outcome)) with
        file := some inode
        renamed := d.renamed ++ [(i, mutate)] }
  | .removeTemporary _ e, .ok => some (d.setCall i (.unlocking (.error e)))
  | .removeTemporary _ e, .fail _ => some (d.setCall i (.unlocking (.error e)))
  | .unlocking result, .ok => some { d.setCall i (.updated result) with lock := none }
  | _, _ => none

/-- The runs of the callers of one file, which is absent at first. -/
def stateFile : System (Disk τ ρ) (DiskMove τ ρ) where
  init d := d.file = none ∧ d.lock = none ∧ d.call = (fun _ => .idle) ∧ d.called = [] ∧ d.renamed = []
  step d
    | .read i =>
      match d.call i with
      | .idle => some (d.setCall i (.openFile (.read d.renamed.length)))
      | _ => none
    | .update i mutate =>
      match d.call i with
      | .idle => some { d.setCall i (.ensureLockDir mutate) with called := (i, mutate) :: d.called }
      | _ => none
    | .go i answer => d.go codec i answer
    | .die i =>
      match d.call i with
      | .updated _ | .hasRead _ _ => none
      | _ => some { d.setCall i .dead with lock := if d.lock = some i then none else d.lock }

/-! ## What the runs keep -/

namespace Call

/-- The caller has the lock. -/
def holds : Call τ ρ → Bool
  | openFile (.update _) | reading (.update _) _ _ | ensureDir _ _ _ | createTemporary _ _ _ | writing _ _ _ _
  | syncing _ _ _ | persisting _ _ _ | removeTemporary _ _ | unlocking _ => true
  | _ => false

/-- The temporary file of the caller, which it writes or renames. -/
def temp : Call τ ρ → Option Nat
  | writing _ inode _ _ | syncing _ inode _ | persisting _ inode _ => some inode
  | _ => none

/-- The file the caller reads. -/
def opened : Call τ ρ → Option Nat
  | reading _ inode _ => some inode
  | _ => none

omit [Inhabited τ] in
theorem holds_of_temp {call : Call τ ρ} {n : Nat} (h : call.temp = some n) : call.holds = true := by
  cases call <;> first | rfl | cases h

end Call

/-- The value after updates, one after another from the default value. -/
def valueOf (updates : List (Nat × Mutation τ ρ)) : τ := updates.foldl (fun value u => (u.2 value).1) default

theorem valueOf_concat (updates : List (Nat × Mutation τ ρ)) (u : Nat × Mutation τ ρ) :
    valueOf (updates ++ [u]) = (u.2 (valueOf updates)).1 := by
  simp [valueOf]

section Serial

variable {codec} {d d' : Disk τ ρ} {i : Nat}

/-- The inode holds the text of a value, in full. -/
def Shows (codec : Codec τ) (d : Disk τ ρ) (n : Nat) (value : τ) : Prop :=
  ∃ text, codec.toPretty value = .ok text ∧ d.inode n = bytesOf text

/-- The caller is in an update that has not been renamed. -/
def Updating (d : Disk τ ρ) (i : Nat) (mutate : Mutation τ ρ) : Prop :=
  (i, mutate) ∈ d.called ∧ i ∉ d.renamed.map Prod.fst

/-- What is known of a caller where it stands. -/
def AtCall (codec : Codec τ) (d : Disk τ ρ) (i : Nat) : Call τ ρ → Prop
  | .idle => i ∉ d.called.map Prod.fst
  | .ensureLockDir mutate | .openLock mutate | .flock mutate | .openFile (.update mutate) => Updating d i mutate
  | .openFile (.read since) => since ≤ d.renamed.length
  | .reading (.read since) inode got => got <+: d.inode inode ∧
      ∃ n, since ≤ n ∧ n ≤ d.renamed.length ∧ Shows codec d inode (valueOf (d.renamed.take n))
  | .reading (.update mutate) inode got => got <+: d.inode inode ∧ Updating d i mutate ∧ d.file = some inode
  | .ensureDir mutate value _ => Updating d i mutate ∧ value = (mutate (valueOf d.renamed)).1
  | .createTemporary mutate bytes _ => Updating d i mutate ∧
      ∃ text, codec.toPretty (mutate (valueOf d.renamed)).1 = .ok text ∧ bytes = bytesOf text
  | .writing mutate inode rest _ => Updating d i mutate ∧
      ∃ text, codec.toPretty (mutate (valueOf d.renamed)).1 = .ok text ∧ d.inode inode ++ rest = bytesOf text
  | .syncing mutate inode _ | .persisting mutate inode _ =>
      Updating d i mutate ∧ Shows codec d inode (mutate (valueOf d.renamed)).1
  | .removeTemporary _ _ | .unlocking (.error _) | .updated (.error _) => i ∉ d.renamed.map Prod.fst
  | .unlocking (.ok _) | .updated (.ok _) => i ∈ d.renamed.map Prod.fst
  | .hasRead since (.ok value) => ∃ n, since ≤ n ∧ n ≤ d.renamed.length ∧ value = valueOf (d.renamed.take n)
  | .hasRead _ (.error _) | .dead => True

/-- What all runs keep. -/
structure Serial (codec : Codec τ) (d : Disk τ ρ) : Prop where
  content : d.file = none ∧ d.renamed = [] ∨ ∃ n, d.file = some n ∧ Shows codec d n (valueOf d.renamed)
  once : (d.renamed.map Prod.fst).Nodup
  called : d.renamed ⊆ d.called
  stands : ∀ i, AtCall codec d i (d.call i)
  lock : ∀ i, (d.call i).holds = true → d.lock = some i
  temp : ∀ i n, (d.call i).temp = some n → n < d.next ∧ d.file ≠ some n ∧ ∀ j, (d.call j).opened ≠ some n
  opened : ∀ i n, (d.call i).opened = some n → n < d.next
  file : ∀ n, d.file = some n → n < d.next

omit [Inhabited τ] in
theorem Shows.keep {n : Nat} {value : τ} (h : Shows codec d n value) (hinode : d'.inode n = d.inode n) :
    Shows codec d' n value := by
  obtain ⟨text, htext, hn⟩ := h
  exact ⟨text, htext, hinode.trans hn⟩

/-- What is known of a caller stays, when others call, rename while it does not hold the lock, and leave
alone the files it reads and writes. -/
theorem AtCall.keep {call : Call τ ρ} (h : AtCall codec d i call)
    (hcalled : ∀ mutate, (i, mutate) ∈ d.called → (i, mutate) ∈ d'.called)
    (hidle : i ∉ d.called.map Prod.fst → i ∉ d'.called.map Prod.fst)
    {us : List (Nat × Mutation τ ρ)} (hrenamed : d'.renamed = d.renamed ++ us) (hus : i ∉ us.map Prod.fst)
    (hholds : call.holds = true → us = [] ∧ d'.file = d.file)
    (hinode : ∀ n, call.opened = some n ∨ call.temp = some n → d'.inode n = d.inode n) : AtCall codec d' i call := by
  have hnot : i ∉ d.renamed.map Prod.fst → i ∉ d'.renamed.map Prod.fst := by
    intro hmem
    simp only [hrenamed, List.map_append, List.mem_append, not_or]
    exact ⟨hmem, hus⟩
  have hupdating : ∀ {mutate}, Updating d i mutate → Updating d' i mutate :=
    fun hu => ⟨hcalled _ hu.1, hnot hu.2⟩
  have htake : ∀ {n}, n ≤ d.renamed.length → n ≤ d'.renamed.length ∧ d'.renamed.take n = d.renamed.take n := by
    intro n hn
    rw [hrenamed, List.length_append, List.take_append_of_le_length hn]
    exact ⟨by omega, rfl⟩
  have hsame : call.holds = true → d'.renamed = d.renamed ∧ d'.file = d.file := by
    intro hc
    obtain ⟨rfl, hfile⟩ := hholds hc
    exact ⟨by rw [hrenamed, List.append_nil], hfile⟩
  cases call with
  | idle => exact hidle h
  | ensureLockDir | openLock | flock => exact hupdating h
  | openFile purpose =>
    cases purpose with
    | read since => exact Nat.le_trans h (by rw [hrenamed, List.length_append]; omega)
    | update => exact hupdating h
  | reading purpose inode got =>
    have hn := hinode inode (Or.inl rfl)
    cases purpose with
    | read since =>
      obtain ⟨hgot, n, hsince, hle, hshows⟩ := h
      obtain ⟨hle', htake⟩ := htake hle
      exact ⟨hn ▸ hgot, n, hsince, hle', htake ▸ hshows.keep hn⟩
    | update mutate =>
      obtain ⟨hgot, hu, hfile⟩ := h
      exact ⟨hn ▸ hgot, hupdating hu, (hsame rfl).2.trans hfile⟩
  | ensureDir mutate value outcome =>
    obtain ⟨hu, hvalue⟩ := h
    exact ⟨hupdating hu, by rw [(hsame rfl).1]; exact hvalue⟩
  | createTemporary mutate bytes outcome =>
    obtain ⟨hu, htext⟩ := h
    exact ⟨hupdating hu, by rw [(hsame rfl).1]; exact htext⟩
  | writing mutate inode rest outcome =>
    obtain ⟨hu, text, htext, hrest⟩ := h
    exact ⟨hupdating hu, text, by rw [(hsame rfl).1]; exact htext, by rw [hinode inode (Or.inr rfl)]; exact hrest⟩
  | syncing mutate inode outcome | persisting mutate inode outcome =>
    obtain ⟨hu, hshows⟩ := h
    exact ⟨hupdating hu, by rw [(hsame rfl).1]; exact hshows.keep (hinode inode (Or.inr rfl))⟩
  | removeTemporary => exact hnot h
  | unlocking result | updated result =>
    cases result with
    | error => exact hnot h
    | ok =>
      simp only [AtCall, hrenamed, List.map_append, List.mem_append]
      exact Or.inl h
  | hasRead since result =>
    cases result with
    | error => trivial
    | ok value =>
      obtain ⟨n, hsince, hle, hvalue⟩ := h
      obtain ⟨hle', htake⟩ := htake hle
      exact ⟨n, hsince, hle', htake ▸ hvalue⟩
  | dead => trivial

omit [Inhabited τ] in
@[simp] theorem setCall_self {call : Call τ ρ} : (d.setCall i call).call i = call := by simp [Disk.setCall]

omit [Inhabited τ] in
theorem setCall_ne {j : Nat} {call : Call τ ρ} (h : j ≠ i) : (d.setCall i call).call j = d.call j := by
  simp [Disk.setCall, h]

/-- What the other callers know stays when one of them moves: only the holder of the lock renames, and what is
written is its own temporary file. -/
theorem Serial.others (h : Serial codec d) {j : Nat} (hj : j ≠ i) (us : List (Nat × Mutation τ ρ))
    (hcalled : ∀ mutate, (j, mutate) ∈ d.called → (j, mutate) ∈ d'.called)
    (hidle : j ∉ d.called.map Prod.fst → j ∉ d'.called.map Prod.fst)
    (hrenamed : d'.renamed = d.renamed ++ us) (hus : j ∉ us.map Prod.fst)
    (hholds : (us = [] ∧ d'.file = d.file) ∨ (d.call i).holds = true)
    (hinode : ∀ n, d'.inode n = d.inode n ∨ n = d.next ∨ (d.call i).temp = some n) :
    AtCall codec d' j (d.call j) := by
  refine (h.stands j).keep hcalled hidle hrenamed hus (fun hlocked => ?_) (fun n hn => ?_)
  · refine hholds.resolve_right fun hi => ?_
    exact hj (Option.some.inj ((h.lock j hlocked).symm.trans (h.lock i hi)))
  · rcases hinode n with he | rfl | htemp
    · exact he
    · rcases hn with hn | hn
      · exact absurd (h.opened j _ hn) (Nat.lt_irrefl _)
      · exact absurd (h.temp j _ hn).1 (Nat.lt_irrefl _)
    · rcases hn with hn | hn
      · exact absurd hn ((h.temp i n htemp).2.2 j)
      · exact absurd ((h.lock j (Call.holds_of_temp hn)).symm.trans (h.lock i (Call.holds_of_temp htemp)))
          (fun he => hj (Option.some.inj he))

/-- A caller moves on without touching the directory. -/
theorem Serial.setCall (h : Serial codec d) {call : Call τ ρ} (hat : AtCall codec d i call)
    (hholds : call.holds = true → d.lock = some i) (htemp : ∀ n, call.temp = some n → (d.call i).temp = some n)
    (hopened : ∀ n, call.opened = some n → (d.call i).opened = some n ∨ d.file = some n) :
    Serial codec (d.setCall i call) := by
  refine ⟨h.content, h.once, h.called, fun j => ?_, fun j hj => ?_, fun j n hn => ?_, fun j n hn => ?_, h.file⟩
  · by_cases hji : j = i
    · subst hji
      rw [setCall_self]
      exact hat
    · rw [setCall_ne hji]
      exact h.stands j
  · by_cases hji : j = i
    · subst hji
      rw [setCall_self] at hj
      exact hholds hj
    · rw [setCall_ne hji] at hj
      exact h.lock j hj
  · have hold : (d.call j).temp = some n := by
      by_cases hji : j = i
      · subst hji
        rw [setCall_self] at hn
        exact htemp n hn
      · rwa [setCall_ne hji] at hn
    obtain ⟨hlt, hfile, hunread⟩ := h.temp j n hold
    refine ⟨hlt, hfile, fun k => ?_⟩
    by_cases hki : k = i
    · subst hki
      rw [setCall_self]
      intro hk
      rcases hopened n hk with hk | hk
      · exact hunread k hk
      · exact hfile hk
    · rw [setCall_ne hki]
      exact hunread k
  · by_cases hji : j = i
    · subst hji
      rw [setCall_self] at hn
      rcases hopened n hn with hn | hn
      · exact h.opened j n hn
      · exact h.file n hn
    · rw [setCall_ne hji] at hn
      exact h.opened j n hn

/-- A caller moves on, and has no file of its own. -/
theorem Serial.plain (h : Serial codec d) {call : Call τ ρ} (hat : AtCall codec d i call)
    (hholds : call.holds = true → (d.call i).holds = true) (htemp : call.temp = none) (hopened : call.opened = none) :
    Serial codec (d.setCall i call) :=
  h.setCall hat (fun hc => h.lock i (hholds hc)) (by simp [htemp]) (by simp [hopened])

/-! ### The calls that touch the directory -/

/-- The lock is taken when nobody has it. -/
theorem Serial.flock (h : Serial codec d) {mutate : Mutation τ ρ} (hcall : d.call i = .flock mutate)
    (hfree : d.lock = none) : Serial codec { d.setCall i (.openFile (.update mutate)) with lock := some i } := by
  have hat := h.stands i
  rw [hcall] at hat
  have hnone : ∀ j, (d.call j).holds = false := by
    intro j
    by_contra hj
    simpa [hfree] using h.lock j (by simpa using hj)
  refine ⟨h.content, h.once, h.called, fun j => ?_, fun j hj => ?_, fun j n hn => ?_, fun j n hn => ?_, h.file⟩
  · by_cases hji : j = i
    · subst hji
      simp only [setCall_self]
      exact hat
    · have hsame : AtCall codec d j ((d.setCall i (.openFile (.update mutate))).call j) := by
        rw [setCall_ne hji]
        exact h.stands j
      exact hsame
  · by_cases hji : j = i
    · rw [hji]
    · simp [Disk.setCall, hji, hnone] at hj
  · by_cases hji : j = i
    · simp [Disk.setCall, hji, Call.temp] at hn
    · simp only [Disk.setCall, hji, if_false] at hn
      simpa [hnone j] using Call.holds_of_temp hn
  · by_cases hji : j = i
    · simp [Disk.setCall, hji, Call.opened] at hn
    · simp only [Disk.setCall, hji, if_false] at hn
      exact h.opened j n hn

omit [Inhabited τ] in
/-- The call of one caller is changed. -/
theorem call_of_set (d d' : Disk τ ρ) (i : Nat) (call : Call τ ρ) (hd' : d'.call = (d.setCall i call).call) (j : Nat) :
    (j = i ∧ d'.call j = call) ∨ (j ≠ i ∧ d'.call j = d.call j) := by
  by_cases hji : j = i
  · subst hji
    exact Or.inl ⟨rfl, by rw [hd', setCall_self]⟩
  · exact Or.inr ⟨hji, by rw [hd', setCall_ne hji]⟩

/-- A fresh temporary file is empty, and nobody has it. -/
theorem Serial.createTemporary (h : Serial codec d) {mutate : Mutation τ ρ} {bytes : List UInt8} {outcome : ρ}
    (hcall : d.call i = .createTemporary mutate bytes outcome)
    (hd' : d' = { d.setCall i (.writing mutate d.next bytes outcome) with
      inode := fun n => if n = d.next then [] else d.inode n, next := d.next + 1 }) : Serial codec d' := by
  have hat := h.stands i
  rw [hcall] at hat
  obtain ⟨hu, text, htext, hbytes⟩ := hat
  have hcalls := call_of_set d d' i (.writing mutate d.next bytes outcome) (by rw [hd'])
  have hinode : ∀ n, n ≠ d.next → d'.inode n = d.inode n := fun n hn => by rw [hd']; exact if_neg hn
  have hfresh : ∀ k, (d.call k).opened ≠ some d.next := fun k hk => Nat.lt_irrefl _ (h.opened k _ hk)
  have hunread : ∀ m, (∀ k, (d.call k).opened ≠ some m) → ∀ k, (d'.call k).opened ≠ some m := by
    intro m hm k
    rcases hcalls k with ⟨-, hk⟩ | ⟨-, hk⟩ <;> rw [hk]
    · simp [Call.opened]
    · exact hm k
  have hnext : d'.next = d.next + 1 := by rw [hd']
  have hfile : d'.file = d.file := by rw [hd']; rfl
  have hrenamed : d'.renamed = d.renamed := by rw [hd']; rfl
  have hcalled : d'.called = d.called := by rw [hd']; rfl
  refine ⟨?_, hrenamed ▸ h.once, hrenamed ▸ hcalled ▸ h.called, fun j => ?_, fun j hj => ?_, fun j n hn => ?_,
    fun j n hn => ?_, fun n hn => ?_⟩
  · rw [hfile, hrenamed]
    rcases h.content with hnone | ⟨n, hn, hshows⟩
    · exact Or.inl hnone
    · exact Or.inr ⟨n, hn, hshows.keep (hinode n (Nat.ne_of_lt (h.file n hn)))⟩
  · rcases hcalls j with ⟨rfl, hj⟩ | ⟨hji, hj⟩ <;> rw [hj]
    · have hempty : d'.inode d.next = [] := by rw [hd']; exact if_pos rfl
      refine ⟨⟨hcalled ▸ hu.1, hrenamed ▸ hu.2⟩, text, hrenamed ▸ htext, ?_⟩
      rw [hempty, List.nil_append, hbytes]
    · refine h.others hji [] (fun _ => by rw [hcalled]; exact id) (by rw [hcalled]; exact id)
        (by rw [hrenamed, List.append_nil]) (by simp) (Or.inl ⟨rfl, hfile⟩) (fun n => ?_)
      by_cases hn : n = d.next
      · exact Or.inr (Or.inl hn)
      · exact Or.inl (hinode n hn)
  · have hlock : d'.lock = d.lock := by rw [hd']; rfl
    rw [hlock]
    rcases hcalls j with ⟨rfl, -⟩ | ⟨-, hcall'⟩
    · exact h.lock j (by rw [hcall]; rfl)
    · exact h.lock j (hcall' ▸ hj)
  · rw [hfile, hnext]
    rcases hcalls j with ⟨rfl, hcall'⟩ | ⟨-, hcall'⟩ <;> rw [hcall'] at hn
    · simp only [Call.temp, Option.some.injEq] at hn
      subst hn
      exact ⟨Nat.lt_succ_self _, fun hf => Nat.lt_irrefl _ (h.file _ hf), hunread _ hfresh⟩
    · obtain ⟨hlt, hold, hopened⟩ := h.temp j n hn
      exact ⟨Nat.lt_succ_of_lt hlt, hold, hunread n hopened⟩
  · rw [hnext]
    rcases hcalls j with ⟨-, hcall'⟩ | ⟨-, hcall'⟩ <;> rw [hcall'] at hn
    · cases hn
    · exact Nat.lt_succ_of_lt (h.opened j n hn)
  · rw [hnext]
    exact Nat.lt_succ_of_lt (h.file n (hfile ▸ hn))

/-- What is written to the temporary file is what was left to write. -/
theorem Serial.write (h : Serial codec d) {mutate : Mutation τ ρ} {inode n : Nat} {rest : List UInt8} {outcome : ρ}
    (hcall : d.call i = .writing mutate inode rest outcome)
    (hd' : d' = { d.setCall i (.writing mutate inode (rest.drop n) outcome) with
      inode := fun m => if m = inode then d.inode m ++ rest.take n else d.inode m }) : Serial codec d' := by
  have hat := h.stands i
  rw [hcall] at hat
  obtain ⟨hu, text, htext, hrest⟩ := hat
  have htemp : (d.call i).temp = some inode := by rw [hcall]; rfl
  have hcalls := call_of_set d d' i (.writing mutate inode (rest.drop n) outcome) (by rw [hd'])
  have hinode : ∀ m, m ≠ inode → d'.inode m = d.inode m := fun m hm => by rw [hd']; exact if_neg hm
  have hfile : d'.file = d.file := by rw [hd']; rfl
  have hrenamed : d'.renamed = d.renamed := by rw [hd']; rfl
  have hcalled : d'.called = d.called := by rw [hd']; rfl
  have hlock : d'.lock = d.lock := by rw [hd']; rfl
  have hnext : d'.next = d.next := by rw [hd']; rfl
  refine ⟨?_, hrenamed ▸ h.once, hrenamed ▸ hcalled ▸ h.called, fun j => ?_, fun j hj => ?_, fun j m hm => ?_,
    fun j m hm => ?_, fun m hm => hnext ▸ h.file m (hfile ▸ hm)⟩
  · rw [hfile, hrenamed]
    rcases h.content with hnone | ⟨m, hm, hshows⟩
    · exact Or.inl hnone
    · refine Or.inr ⟨m, hm, hshows.keep (hinode m ?_)⟩
      rintro rfl
      exact (h.temp i m htemp).2.1 hm
  · rcases hcalls j with ⟨rfl, hj⟩ | ⟨hji, hj⟩ <;> rw [hj]
    · have hwritten : d'.inode inode = d.inode inode ++ rest.take n := by rw [hd']; exact if_pos rfl
      refine ⟨⟨hcalled ▸ hu.1, hrenamed ▸ hu.2⟩, text, hrenamed ▸ htext, ?_⟩
      rw [hwritten, List.append_assoc, List.take_append_drop, hrest]
    · refine h.others hji [] (fun _ => by rw [hcalled]; exact id) (by rw [hcalled]; exact id)
        (by rw [hrenamed, List.append_nil]) (by simp) (Or.inl ⟨rfl, hfile⟩) (fun m => ?_)
      by_cases hm : m = inode
      · exact Or.inr (Or.inr (hm ▸ htemp))
      · exact Or.inl (hinode m hm)
  · rw [hlock]
    rcases hcalls j with ⟨rfl, -⟩ | ⟨-, hcall'⟩
    · exact h.lock j (Call.holds_of_temp htemp)
    · exact h.lock j (hcall' ▸ hj)
  · have hold : (d.call j).temp = some m := by
      rcases hcalls j with ⟨rfl, hcall'⟩ | ⟨-, hcall'⟩ <;> rw [hcall'] at hm
      · rw [htemp]
        exact hm
      · exact hm
    obtain ⟨hlt, hnot, hunread⟩ := h.temp j m hold
    refine ⟨hnext ▸ hlt, hfile ▸ hnot, fun k => ?_⟩
    rcases hcalls k with ⟨-, hk⟩ | ⟨-, hk⟩ <;> rw [hk]
    · simp [Call.opened]
    · exact hunread k
  · rcases hcalls j with ⟨-, hcall'⟩ | ⟨-, hcall'⟩ <;> rw [hcall'] at hm
    · cases hm
    · exact hnext ▸ h.opened j m hm

/-- The rename puts the update into the file, in full and after all before it. -/
theorem Serial.persist (h : Serial codec d) {mutate : Mutation τ ρ} {inode : Nat} {outcome : ρ}
    (hcall : d.call i = .persisting mutate inode outcome)
    (hd' : d' = { d.setCall i (.unlocking (.ok outcome)) with
      file := some inode, renamed := d.renamed ++ [(i, mutate)] }) : Serial codec d' := by
  have hat := h.stands i
  rw [hcall] at hat
  obtain ⟨hu, hshows⟩ := hat
  have htemp : (d.call i).temp = some inode := by rw [hcall]; rfl
  have hcalls := call_of_set d d' i (.unlocking (.ok outcome)) (by rw [hd'])
  have hfile : d'.file = some inode := by rw [hd']
  have hrenamed : d'.renamed = d.renamed ++ [(i, mutate)] := by rw [hd']
  have hinode : d'.inode = d.inode := by rw [hd']; rfl
  have hcalled : d'.called = d.called := by rw [hd']; rfl
  have hlock : d'.lock = d.lock := by rw [hd']; rfl
  have hnext : d'.next = d.next := by rw [hd']; rfl
  refine ⟨?_, ?_, ?_, fun j => ?_, fun j hj => ?_, fun j m hm => ?_, fun j m hm => ?_, fun m hm => ?_⟩
  · refine Or.inr ⟨inode, hfile, ?_⟩
    rw [hrenamed, valueOf_concat]
    exact hshows.keep (congrFun hinode inode)
  · rw [hrenamed, List.map_append]
    refine List.nodup_append.2 ⟨h.once, by simp, fun a ha b hb => ?_⟩
    rintro rfl
    simp only [List.map_cons, List.map_nil, List.mem_singleton] at hb
    subst hb
    exact hu.2 ha
  · rw [hrenamed, hcalled]
    exact List.append_subset.2 ⟨h.called, by simpa using hu.1⟩
  · rcases hcalls j with ⟨rfl, hj⟩ | ⟨hji, hj⟩ <;> rw [hj]
    · simp [AtCall, hrenamed]
    · refine h.others hji _ (fun _ => by rw [hcalled]; exact id) (by rw [hcalled]; exact id) hrenamed (by simpa using hji)
        (Or.inr (Call.holds_of_temp htemp)) (fun m => Or.inl (congrFun hinode m))
  · rw [hlock]
    rcases hcalls j with ⟨rfl, -⟩ | ⟨-, hcall'⟩
    · exact h.lock j (Call.holds_of_temp htemp)
    · exact h.lock j (hcall' ▸ hj)
  · -- No other caller has a temporary file: it would hold the lock.
    rcases hcalls j with ⟨-, hcall'⟩ | ⟨hji, hcall'⟩ <;> rw [hcall'] at hm
    · cases hm
    · refine absurd ((h.lock j (Call.holds_of_temp hm)).symm.trans (h.lock i (Call.holds_of_temp htemp))) fun he => ?_
      exact hji (Option.some.inj he)
  · rcases hcalls j with ⟨-, hcall'⟩ | ⟨-, hcall'⟩ <;> rw [hcall'] at hm
    · cases hm
    · exact hnext ▸ h.opened j m hm
  · rw [hfile, Option.some.injEq] at hm
    exact hm ▸ hnext ▸ (h.temp i inode htemp).1

/-- The lock is given up by its holder, as it is done or dies. -/
theorem Serial.release (h : Serial codec d) {call : Call τ ρ} (hat : AtCall codec d i call) (hcall : call.holds = false)
    (hopened : call.opened = none) {lock : Option Nat} (hlock : lock = none ∨ lock = d.lock)
    (hfree : lock = none → d.lock = none ∨ d.lock = some i) :
    Serial codec { d.setCall i call with lock := lock } := by
  have htemp : call.temp = none := by
    by_contra hne
    obtain ⟨n, hn⟩ := Option.ne_none_iff_exists'.1 hne
    simpa [hcall] using Call.holds_of_temp hn
  have hset := h.setCall hat (by simp [hcall]) (by simp [htemp]) (by simp [hopened])
  refine { hset with lock := fun j hj => ?_ }
  have hold := hset.lock j hj
  have hji : j ≠ i := by
    rintro rfl
    simp [hcall] at hj
  rcases hlock with rfl | rfl
  · rcases hfree rfl with hnone | hi
    · exact absurd hold (by simp [Disk.setCall, hnone])
    · exact absurd (hold.symm.trans hi) fun he => hji (Option.some.inj he)
  · exact hold

/-! ### A step -/

/-- A caller that has read the file in full, or failed to, goes on. -/
theorem Serial.afterRead (h : Serial codec d) {purpose : Purpose τ ρ} {result : Except StoreError τ}
    (hholds : ∀ mutate, purpose = .update mutate → (d.call i).holds = true ∧ Updating d i mutate)
    (hread : ∀ since value, purpose = .read since → result = .ok value →
      ∃ n, since ≤ n ∧ n ≤ d.renamed.length ∧ value = valueOf (d.renamed.take n))
    (hupdate : ∀ mutate value, purpose = .update mutate → result = .ok value → value = valueOf d.renamed) :
    Serial codec (d.setCall i (afterRead purpose result)) := by
  cases purpose with
  | read since =>
    cases result with
    | error e => exact h.plain trivial (by simp [Auth.afterRead, Call.holds]) rfl rfl
    | ok value => exact h.plain (hread since value rfl rfl) (by simp [Auth.afterRead, Call.holds]) rfl rfl
  | update mutate =>
    obtain ⟨hi, hu⟩ := hholds mutate rfl
    cases result with
    | error e => exact h.plain hu.2 (fun _ => hi) rfl rfl
    | ok value => exact h.plain ⟨hu, by rw [hupdate mutate value rfl rfl]⟩ (fun _ => hi) rfl rfl

/-- The text of a value reads back. -/
theorem interpret_shows (hcodec : codec.RoundTrip) {n : Nat} {value : τ} (hshows : Shows codec d n value) :
    interpret codec (d.inode n) = .ok value := by
  obtain ⟨text, htext, hn⟩ := hshows
  obtain ⟨hblank, hparse⟩ := hcodec value text htext
  simp [interpret, hn, textOf_bytesOf, hblank, hparse, Except.mapError]

theorem Serial.go (h : Serial codec d) (hcodec : codec.RoundTrip) {answer : Kernel} (hgo : d.go codec i answer = some d') :
    Serial codec d' := by
  have hat := h.stands i
  simp only [Disk.go] at hgo
  cases hcall : d.call i with
  | ensureLockDir mutate | openLock mutate =>
    rw [hcall] at hat hgo
    cases answer <;> cases hgo
    · exact h.plain hat (by simp [Call.holds]) rfl rfl
    · exact h.plain hat.2 (by simp [Call.holds]) rfl rfl
  | flock mutate =>
    rw [hcall] at hat hgo
    cases answer with
    | ok =>
      simp only at hgo
      split at hgo
      · rename_i hfree
        obtain rfl := Option.some.inj hgo
        exact h.flock hcall hfree
      · cases hgo
    | bytes => cases hgo
    | fail reason =>
      cases hgo
      exact h.plain hat.2 (by simp [Call.holds]) rfl rfl
  | openFile purpose =>
    rw [hcall] at hat hgo
    have hholds : ∀ mutate, purpose = .update mutate → (d.call i).holds = true ∧ Updating d i mutate := by
      rintro mutate rfl
      exact ⟨by rw [hcall]; rfl, hat⟩
    cases answer with
    | ok =>
      simp only at hgo
      split at hgo
      · rename_i hfile
        obtain rfl := Option.some.inj hgo
        have hnone : d.renamed = [] := by
          rcases h.content with ⟨-, hnone⟩ | ⟨n, hn, -⟩
          · exact hnone
          · simp [hfile] at hn
        refine h.afterRead hholds ?_ ?_
        · rintro since value rfl hvalue
          obtain rfl := Except.ok.inj hvalue
          exact ⟨d.renamed.length, hat, Nat.le_refl _, by simp [hnone, valueOf]⟩
        · rintro mutate value rfl hvalue
          obtain rfl := Except.ok.inj hvalue
          simp [hnone, valueOf]
      · rename_i inode hfile
        obtain rfl := Option.some.inj hgo
        have hshows : Shows codec d inode (valueOf d.renamed) := by
          rcases h.content with ⟨hnone, -⟩ | ⟨n, hn, hshows⟩
          · simp [hfile] at hnone
          · obtain rfl : inode = n := by simpa [hfile] using hn
            exact hshows
        refine h.setCall ?_ ?_ (by simp [Call.temp]) (fun n hn => Or.inr (hfile.trans hn))
        · cases purpose with
          | read since => exact ⟨List.nil_prefix, d.renamed.length, hat, Nat.le_refl _, by simpa using hshows⟩
          | update mutate => exact ⟨List.nil_prefix, hat, hfile⟩
        · cases purpose with
          | read since => simp [Call.holds]
          | update mutate => exact fun _ => h.lock i (hholds mutate rfl).1
    | bytes => cases hgo
    | fail reason =>
      cases hgo
      exact h.afterRead hholds (by simp) (by simp)
  | reading purpose inode got =>
    rw [hcall] at hat hgo
    have hgot : got <+: d.inode inode := by cases purpose <;> exact hat.1
    have hholds : ∀ mutate, purpose = .update mutate → (d.call i).holds = true ∧ Updating d i mutate := by
      rintro mutate rfl
      exact ⟨by rw [hcall]; rfl, hat.2.1⟩
    cases answer with
    | ok => cases hgo
    | bytes n =>
      simp only at hgo
      split at hgo
      · -- The end of the file: all of it has been read.
        rename_i hend
        obtain rfl := Option.some.inj hgo
        obtain rfl := hgot.eq_of_length hend.2
        refine h.afterRead hholds ?_ ?_
        · rintro since value rfl hvalue
          obtain ⟨-, n, hsince, hle, hshows⟩ := hat
          rw [interpret_shows hcodec hshows] at hvalue
          exact ⟨n, hsince, hle, (Except.ok.inj hvalue).symm⟩
        · rintro mutate value rfl hvalue
          obtain ⟨-, -, hfile⟩ := hat
          rcases h.content with ⟨hnone, -⟩ | ⟨n, hn, hshows⟩
          · simp [hfile] at hnone
          · obtain rfl : inode = n := by simpa [hfile] using hn
            rw [interpret_shows hcodec hshows] at hvalue
            exact (Except.ok.inj hvalue).symm
      · split at hgo
        · obtain rfl := Option.some.inj hgo
          have hmore : got ++ ((d.inode inode).drop got.length).take n <+: d.inode inode := by
            obtain ⟨rest, hrest⟩ := hgot
            rw [← hrest, List.drop_left]
            exact (List.prefix_append_right_inj got).2 (List.take_prefix n rest)
          refine h.setCall ?_ ?_ (by simp [Call.temp]) (fun m hm => Or.inl (by rw [hcall]; exact hm))
          · cases purpose with
            | read since => exact ⟨hmore, hat.2⟩
            | update mutate => exact ⟨hmore, hat.2⟩
          · cases purpose with
            | read since => simp [Call.holds]
            | update mutate => exact fun _ => h.lock i (hholds mutate rfl).1
        · cases hgo
    | fail reason =>
      cases hgo
      exact h.afterRead hholds (by simp) (by simp)
  | ensureDir mutate value outcome =>
    rw [hcall] at hat hgo
    have hholds : (d.call i).holds = true := by rw [hcall]; rfl
    obtain ⟨hu, rfl⟩ := hat
    cases answer with
    | ok =>
      simp only at hgo
      split at hgo
      · cases hgo
        exact h.plain hu.2 (fun _ => hholds) rfl rfl
      · rename_i text htext
        cases hgo
        exact h.plain ⟨hu, text, htext, rfl⟩ (fun _ => hholds) rfl rfl
    | bytes => cases hgo
    | fail reason =>
      cases hgo
      exact h.plain hu.2 (fun _ => hholds) rfl rfl
  | createTemporary mutate bytes outcome =>
    rw [hcall] at hat hgo
    cases answer with
    | ok => exact h.createTemporary hcall (Option.some.inj hgo).symm
    | bytes => cases hgo
    | fail reason =>
      cases hgo
      exact h.plain hat.1.2 (fun _ => by rw [hcall]; rfl) rfl rfl
  | writing mutate inode rest outcome =>
    rw [hcall] at hat hgo
    have hholds : (d.call i).holds = true := by rw [hcall]; rfl
    obtain ⟨hu, text, htext, hrest⟩ := hat
    cases answer with
    | ok =>
      simp only at hgo
      split at hgo
      · rename_i hnil
        cases hgo
        refine h.setCall ⟨hu, text, htext, ?_⟩ (fun _ => h.lock i hholds) (fun n hn => by rw [hcall]; exact hn)
          (by simp [Call.opened])
        rw [← hrest, hnil, List.append_nil]
      · cases hgo
    | bytes n =>
      simp only at hgo
      split at hgo
      · cases hgo
      · split at hgo
        · cases hgo
          exact h.plain hu.2 (fun _ => hholds) rfl rfl
        · split at hgo
          · exact h.write hcall (Option.some.inj hgo).symm
          · cases hgo
    | fail reason =>
      cases hgo
      exact h.plain hu.2 (fun _ => hholds) rfl rfl
  | syncing mutate inode outcome =>
    rw [hcall] at hat hgo
    have hholds : (d.call i).holds = true := by rw [hcall]; rfl
    cases answer <;> cases hgo
    · exact h.setCall hat (fun _ => h.lock i hholds) (fun n hn => by rw [hcall]; exact hn) (by simp [Call.opened])
    · exact h.plain hat.1.2 (fun _ => hholds) rfl rfl
  | persisting mutate inode outcome =>
    rw [hcall] at hat hgo
    cases answer with
    | ok => exact h.persist hcall (Option.some.inj hgo).symm
    | bytes => cases hgo
    | fail reason =>
      cases hgo
      exact h.plain hat.1.2 (fun _ => by rw [hcall]; rfl) rfl rfl
  | removeTemporary inode error =>
    rw [hcall] at hat hgo
    have hholds : (d.call i).holds = true := by rw [hcall]; rfl
    cases answer <;> cases hgo <;> exact h.plain hat (fun _ => hholds) rfl rfl
  | unlocking result =>
    rw [hcall] at hat hgo
    cases answer <;> cases hgo
    refine h.release ?_ rfl rfl (Or.inl rfl) (fun _ => Or.inr (h.lock i (by rw [hcall]; rfl)))
    cases result <;> exact hat
  | idle | updated | hasRead | dead =>
    rw [hcall] at hgo
    cases hgo

theorem Serial.step (h : Serial codec d) (hcodec : codec.RoundTrip) {move : DiskMove τ ρ}
    (hstep : (stateFile codec).step d move = some d') : Serial codec d' := by
  cases move with
  | read i =>
    simp only [stateFile] at hstep
    split at hstep
    · obtain rfl := Option.some.inj hstep
      exact h.plain (Nat.le_refl _) (by simp [Call.holds]) rfl rfl
    · cases hstep
  | update i mutate =>
    simp only [stateFile] at hstep
    split at hstep
    · rename_i hidle
      obtain rfl := Option.some.inj hstep
      have hnew : i ∉ d.called.map Prod.fst := by
        have hat := h.stands i
        rwa [hidle] at hat
      have hset : Serial codec (d.setCall i .dead) := h.plain trivial (by simp [Call.holds]) rfl rfl
      refine { hset with
        called := fun u hu => List.mem_cons_of_mem _ (h.called hu), stands := fun j => ?_, lock := fun j hj => ?_
        temp := fun j n hn => ?_, opened := fun j n hn => ?_ }
      all_goals by_cases hji : j = i
      · subst hji
        simp only [setCall_self]
        exact ⟨List.mem_cons_self, fun hmem => hnew (List.map_subset _ h.called hmem)⟩
      · have hkept : AtCall codec { d with called := (i, mutate) :: d.called } j (d.call j) := by
          refine (h.stands j).keep (fun _ => List.mem_cons_of_mem _) (fun hmem => ?_) (List.append_nil _).symm (by simp)
            (fun _ => ⟨rfl, rfl⟩) (fun _ _ => rfl)
          simpa using ⟨hji, by simpa using hmem⟩
        simp only [setCall_ne hji]
        exact hkept
      · subst hji
        simp [Call.holds] at hj
      · simp only [setCall_ne hji] at hj
        exact h.lock j hj
      · subst hji
        simp [Call.temp] at hn
      · simp only [setCall_ne hji] at hn
        obtain ⟨hlt, hfile, hunread⟩ := h.temp j n hn
        refine ⟨hlt, hfile, fun k => ?_⟩
        by_cases hki : k = i
        · subst hki
          simp [Call.opened]
        · simpa only [setCall_ne hki] using hunread k
      · subst hji
        simp [Call.opened] at hn
      · simp only [setCall_ne hji] at hn
        exact h.opened j n hn
    · cases hstep
  | go i answer => exact h.go hcodec hstep
  | die i =>
    simp only [stateFile] at hstep
    split at hstep
    · cases hstep
    · cases hstep
    · obtain rfl := Option.some.inj hstep
      have hdead : AtCall codec d i .dead := trivial
      refine h.release hdead rfl rfl ?_ ?_
      · split
        · exact Or.inl rfl
        · exact Or.inr rfl
      · split
        · rename_i hi
          exact fun _ => Or.inr hi
        · exact Or.inl

/-- Nothing but a rename changes what the file's name stands for. -/
theorem Serial.content_step (h : Serial codec d) {move : DiskMove τ ρ} (hstep : (stateFile codec).step d move = some d') :
    d'.content = d.content ∨
      ∃ i mutate, move = .go i .ok ∧ (i, mutate) ∈ d.called ∧ d'.renamed = d.renamed ++ [(i, mutate)] := by
  have hfile : ∀ {n : Nat} {f : Nat → List UInt8}, (∀ m, m ≠ n → f m = d.inode m) → d.file ≠ some n →
      d.file.map f = d.file.map d.inode := by
    intro n f hf hn
    cases hfile : d.file with
    | none => rfl
    | some m => simp [hf m fun he => hn (he ▸ hfile)]
  cases move with
  | read i | update i mutate | die i =>
    simp only [stateFile] at hstep
    split at hstep <;> first | (cases hstep; done) | (obtain rfl := Option.some.inj hstep; exact Or.inl rfl)
  | go i answer =>
    have hstep : d.go codec i answer = some d' := hstep
    revert hstep
    fun_cases Disk.go codec d i answer <;> intro hstep <;> simp only [Option.some.injEq, reduceCtorEq] at hstep
    all_goals subst hstep
    all_goals first | exact Or.inl rfl | skip
    · exact Or.inl (hfile (fun m hm => if_neg hm) fun hf => Nat.lt_irrefl _ (h.file _ hf))
    · rename_i hcall _ _ _
      refine Or.inl (hfile (fun m hm => if_neg hm) (h.temp i _ ?_).2.1)
      rw [hcall]
      rfl
    · rename_i hcall
      have hat := h.stands i
      rw [hcall] at hat
      exact Or.inr ⟨i, _, rfl, hat.1.1, rfl⟩

theorem stateFile_serial (hcodec : codec.RoundTrip) (h : (stateFile codec).Reachable d) : Serial codec d := by
  refine h.inv _ (fun d hd => ?_) fun _ _ _ _ hk _ hstep => hk.step hcodec hstep
  obtain ⟨hfile, -, hcall, hcalled, hrenamed⟩ := hd
  refine ⟨Or.inl ⟨hfile, hrenamed⟩, by simp [hrenamed], by simp [hrenamed], ?_, ?_, ?_, ?_, ?_⟩
  · intro i
    rw [hcall]
    simp [AtCall, hcalled]
  · simp [hcall, Call.holds]
  · simp [hcall, Call.temp]
  · simp [hcall, Call.opened]
  · simp [hfile]

/-- A caller makes one update. -/
theorem called_once (hcodec : codec.RoundTrip) (h : (stateFile codec).Reachable d) : (d.called.map Prod.fst).Nodup := by
  refine h.inv (fun d => (d.called.map Prod.fst).Nodup) (fun d hd => ?_) fun d move d' hr honce _ hstep => ?_
  · obtain ⟨-, -, -, hcalled, -⟩ := hd
    simp [hcalled]
  · cases move with
    | update i mutate =>
      simp only [stateFile] at hstep
      split at hstep
      · rename_i hidle
        obtain rfl := Option.some.inj hstep
        have hat := (stateFile_serial hcodec hr).stands i
        rw [hidle] at hat
        exact List.nodup_cons.2 ⟨hat, honce⟩
      · cases hstep
    | read i | die i =>
      simp only [stateFile] at hstep
      split at hstep <;> first | (cases hstep; done) | (obtain rfl := Option.some.inj hstep; exact honce)
    | go i answer =>
      have hstep : d.go codec i answer = some d' := hstep
      revert hstep
      fun_cases Disk.go codec d i answer <;> intro hstep <;> simp only [Option.some.injEq, reduceCtorEq] at hstep
      all_goals subst hstep
      all_goals exact honce

omit [Inhabited τ] in
theorem afterRead_failed {purpose : Purpose τ ρ} {result : Except StoreError τ} {since : Nat} {e : StoreError}
    (h : afterRead purpose result = .hasRead since (.error e)) : purpose = .read since ∧ result = .error e := by
  cases purpose with
  | read since' =>
    obtain ⟨rfl, rfl⟩ := Call.hasRead.inj h
    exact ⟨rfl, rfl⟩
  | update mutate => cases result <;> cases h

/-- What is read of the file in full is text of a value: only a call that fails makes a read fail. -/
theorem Serial.read_failed (h : Serial codec d) (hcodec : codec.RoundTrip) {answer : Kernel}
    (hgo : d.go codec i answer = some d') {since : Nat} {e : StoreError} (hfailed : d'.call i = .hasRead since (.error e)) :
    ∃ reason, answer = .fail reason ∧ e = .io .file reason := by
  have hat := h.stands i
  revert hgo
  fun_cases Disk.go codec d i answer <;> intro hgo <;> simp only [Option.some.injEq, reduceCtorEq] at hgo
  all_goals subst hgo
  all_goals first | (simp [Disk.setCall] at hfailed; done) | rw [setCall_self] at hfailed
  · obtain ⟨-, he⟩ := afterRead_failed hfailed
    exact ⟨_, rfl, (Except.error.inj he).symm⟩
  · cases (afterRead_failed hfailed).2
  · obtain ⟨-, he⟩ := afterRead_failed hfailed
    exact ⟨_, rfl, (Except.error.inj he).symm⟩
  · rename_i inode got _ hcall hend
    obtain ⟨rfl, he⟩ := afterRead_failed hfailed
    rw [hcall] at hat
    obtain ⟨hgot, n, _, _, hshows⟩ := hat
    obtain rfl := hgot.eq_of_length hend.2
    rw [interpret_shows hcodec hshows] at he
    cases he

/-! ## Updates one after another -/

/-- What is promised of a state file. -/
structure Serialized (codec : Codec τ) (d : Disk τ ρ) : Prop where
  /-- The file is absent, or holds in full the result of updates applied one after another to the default value. -/
  content : d.content = none ∧ d.renamed = [] ∨
    ∃ text, d.content = some (bytesOf text) ∧ codec.toPretty (valueOf d.renamed) = .ok text
  /-- These are updates that were called, each once. -/
  once : (d.renamed.map Prod.fst).Nodup ∧ (d.called.map Prod.fst).Nodup ∧ d.renamed ⊆ d.called
  /-- Every update that succeeded is among them. -/
  succeeded : ∀ i outcome, d.call i = .updated (.ok outcome) → i ∈ d.renamed.map Prod.fst
  /-- No update that failed is. -/
  failed : ∀ i e, d.call i = .updated (.error e) → i ∉ d.renamed.map Prod.fst
  /-- A read returns one of the contents the file has had since it began. -/
  read : ∀ i since value, d.call i = .hasRead since (.ok value) →
    ∃ n, since ≤ n ∧ n ≤ d.renamed.length ∧ value = valueOf (d.renamed.take n)
  /-- A read fails only with a system call that fails, never over what it has read. -/
  readFailed : ∀ i answer d', (stateFile codec).step d (.go i answer) = some d' → ∀ since e,
    d'.call i = .hasRead since (.error e) → ∃ reason, answer = .fail reason ∧ e = .io .file reason
  /-- The content changes only with the rename of an update. -/
  unchanged : ∀ move d', (stateFile codec).step d move = some d' → d'.content = d.content ∨
    ∃ i mutate, move = .go i .ok ∧ (i, mutate) ∈ d.called ∧ d'.renamed = d.renamed ++ [(i, mutate)]

/-- In every run, with deaths between any two calls, the updates of a state file are applied one after another. -/
theorem stateFile_serialized (codec : Codec τ) (hcodec : codec.RoundTrip) {d : Disk τ ρ}
    (h : (stateFile codec).Reachable d) : Serialized codec d := by
  have hserial := stateFile_serial hcodec h
  refine ⟨?_, ⟨hserial.once, called_once hcodec h, hserial.called⟩, ?_, ?_, ?_,
    fun _ _ _ hgo _ _ => hserial.read_failed hcodec hgo, fun _ _ => hserial.content_step⟩
  · rcases hserial.content with ⟨hfile, hnone⟩ | ⟨n, hfile, text, htext, hn⟩
    · exact Or.inl ⟨by simp [Disk.content, hfile], hnone⟩
    · exact Or.inr ⟨text, by simp [Disk.content, hfile, hn], htext⟩
  · intro i outcome hi
    have hat := hserial.stands i
    rwa [hi] at hat
  · intro i e hi
    have hat := hserial.stands i
    rwa [hi] at hat
  · intro i since value hi
    have hat := hserial.stands i
    rwa [hi] at hat

end Serial

/-- A file that holds a flag, as JSON. -/
def flagCodec : Codec Bool where
  toPretty flag := .ok (if flag then "true" else "false")
  fromStr text := if text = "true" then .ok true else if text = "false" then .ok false else .error "expected a boolean"

theorem flagCodec_roundTrip : flagCodec.RoundTrip := by
  intro flag text h
  obtain rfl := Except.ok.inj h
  cases flag <;> decide +kernel

/-- Two callers flip the flag; the first dies with its temporary file half written, the second succeeds. -/
theorem stateFile_serialized_flip : ∃ d : Disk Bool Unit, (stateFile flagCodec).Reachable d ∧
    d.content = some (bytesOf "true") ∧ d.lock = none ∧ Serialized flagCodec d := by
  have hinit : (stateFile (ρ := Unit) flagCodec).Reachable {} := .init ⟨rfl, rfl, rfl, rfl, rfl⟩
  obtain ⟨d, hr, hd⟩ := hinit.exists_run
    [.update 0 (fun flag => (!flag, ())), .update 1 (fun flag => (!flag, ())), .go 0 .ok, .go 0 .ok, .go 0 .ok, .go 0 .ok,
      .go 0 .ok, .go 0 .ok, .go 0 (.bytes 2), .die 0, .go 1 .ok, .go 1 .ok, .go 1 .ok, .go 1 .ok, .go 1 .ok, .go 1 .ok,
      .go 1 (.bytes 3), .go 1 (.bytes 1), .go 1 .ok, .go 1 .ok, .go 1 .ok, .go 1 .ok]
    (p := fun d => d.content = some (bytesOf "true") ∧ d.lock = none) (by decide +kernel)
  exact ⟨d, hr, hd.1, hd.2, stateFile_serialized flagCodec flagCodec_roundTrip hr⟩

end Hyoui.Auth
