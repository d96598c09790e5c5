import Hyoui.WebDaemon.Supervisor
/-!
# What a supervisor may do

An observer that reads the list of acts: which children live, which child of a unit is the current one,
what the registry said when it was last read, and whether a shutdown signal was handled. `Allows` says
what the supervisor may do then.
-/

namespace Hyoui.WebDaemon

open Hyoui.Lib

structure Ledger where
  /-- The last child started for a unit whose exit report is still to be handled. -/
  current : String → Option Pid
  /-- The children that have not ended. -/
  live : List (String × Pid)
  /-- The registry as last read. -/
  registry : String → Option WebUnit
  shutdown : Bool

namespace Ledger

def empty : Ledger := { current := fun _ => none, live := [], registry := fun _ => none, shutdown := false }

def after (w : Ledger) : Act → Ledger
  | .listed units => { w with registry := fun name => (units.find? (·.1 = name)).map (·.2) }
  | .recorded name unit => { w with registry := fun n => if n = name then some unit else w.registry n }
  | .spawned name pid =>
    { w with current := fun n => if n = name then some pid else w.current n, live := w.live ++ [(name, pid)] }
  | .died name pid => { w with live := w.live.erase (name, pid) }
  | .reaped name => { w with current := fun n => if n = name then none else w.current n }
  | .shutdown _ => { w with shutdown := true }
  | .signalled .. | .ended => w

/-- A child is started for a unit that is registered and enabled, has no live child, and not after a
shutdown signal; a signal goes to the unit's current child; and after a shutdown the loop ends when no
child lives. -/
def Allows (w : Ledger) : Act → Prop
  | .spawned name _ => (w.registry name).any (·.enabled) ∧ (∀ c ∈ w.live, c.1 ≠ name) ∧ w.shutdown = false
  | .signalled name pid _ => w.current name = some pid
  | .ended => w.shutdown = true ∧ w.live = []
  | _ => True

instance (w : Ledger) : DecidablePred w.Allows := fun a => by
  cases a <;> unfold Allows <;> infer_instance

/-- Every act is allowed when it is done. -/
def Lawful : Ledger → List Act → Prop
  | _, [] => True
  | w, a :: acts => w.Allows a ∧ Lawful (w.after a) acts

instance : ∀ (w : Ledger) (acts : List Act), Decidable (w.Lawful acts)
  | _, [] => .isTrue trivial
  | w, a :: acts =>
    have := instDecidableLawful (w.after a) acts
    inferInstanceAs (Decidable (w.Allows a ∧ Lawful (w.after a) acts))

theorem lawful_concat {w : Ledger} {acts : List Act} {a : Act} :
    w.Lawful (acts ++ [a]) ↔ w.Lawful acts ∧ (acts.foldl after w).Allows a := by
  induction acts generalizing w with
  | nil => simp [Lawful]
  | cons b acts ih => simp only [List.cons_append, Lawful, ih, List.foldl_cons, and_assoc]

end Ledger

/-- What the observer knows after these acts. -/
def ledger (acts : List Act) : Ledger := acts.foldl Ledger.after .empty

@[simp] theorem ledger_concat (acts : List Act) (a : Act) : ledger (acts ++ [a]) = (ledger acts).after a := by
  simp [ledger]

end Hyoui.WebDaemon
