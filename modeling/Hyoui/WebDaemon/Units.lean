import Std.Data.TreeMap.Lemmas
import Mathlib.Data.List.Basic
/-!
# The registry of web gateway units

One file a unit in the registry directory. `add` and `remove` of the CLI write there at any time; the
supervisor reads all of it (`list`) and rewrites the `enabled` of one unit (`setEnabled`), under the
registry lock.
-/

namespace Hyoui.WebDaemon

/-- `registry::Unit` -/
structure WebUnit where
  config : String
  binaryPath : String
  enabled : Bool
  addedAt : String
deriving DecidableEq

/-- `registry::Error`, as far as `list` and `set_enabled` give it. -/
inductive RegistryError where
  | badName (name : String)
  | unknownUnit (name : String)
  | storage (path reason : String)
deriving DecidableEq

/-- Its `Display`. -/
def RegistryError.text : RegistryError → String
  | .badName name => "`" ++ name ++ "` is not a valid unit name; use 1-32 characters from A-Z, a-z, 0-9, `_`, `-`"
  | .unknownUnit name => "there is no web gateway unit named `" ++ name ++ "`"
  | .storage path reason => "could not use the web gateway unit registry at " ++ path ++ ": " ++ reason

/-- `validate_name`. The length is counted in bytes, and only ASCII passes. -/
def validName (name : String) : Bool :=
  !name.isEmpty && name.utf8ByteSize ≤ 32 && name.toList.all fun c => c.isAlphanum || c = '_' || c = '-'

/-- What a file of the registry directory holds: a unit, or something `read` refuses. -/
inductive Stored where
  | unit (u : WebUnit)
  | unreadable (reason : String)
deriving DecidableEq

/-- The `<name>.toml` files of the registry directory. -/
abbrev Registry := Std.TreeMap String Stored

namespace Registry

/-- `read` of a file that is there. -/
def readStored (name : String) : Stored → Except RegistryError WebUnit
  | .unit u => .ok u
  | .unreadable reason => .error (.storage name reason)

/-- `list`, when the directory itself can be read. -/
def list (r : Registry) : Except RegistryError (List (String × WebUnit)) :=
  (r.toList.filter fun p => validName p.1).mapM fun p => (readStored p.1 p.2).map (p.1, ·)

/-- `get` -/
def get (r : Registry) (name : String) : Except RegistryError WebUnit :=
  if validName name then
    match r[name]? with
    | some stored => readStored name stored
    | none => .error (.unknownUnit name)
  else .error (.badName name)

/-- `set_enabled`: the unit as it now is, and the directory. `lock` and `write` are the failures of
taking the registry lock and of replacing the file. -/
def setEnabled (r : Registry) (lock write : Option RegistryError) (name : String) (enabled : Bool) :
    Except RegistryError (WebUnit × Registry) :=
  match lock with
  | some e => .error e
  | none =>
    match r.get name with
    | .error e => .error e
    | .ok u =>
      if u.enabled ≠ enabled then
        match write with
        | some e => .error e
        | none => .ok ({ u with enabled }, r.insert name (.unit { u with enabled }))
      else .ok (u, r)

theorem setEnabled_enabled {r r' : Registry} {lock write : Option RegistryError} {name : String} {enabled : Bool}
    {u : WebUnit} (h : r.setEnabled lock write name enabled = .ok (u, r')) : u.enabled = enabled := by
  unfold setEnabled at h
  cases lock with
  | some e => cases h
  | none =>
    cases hget : r.get name with
    | error e =>
      rw [hget] at h
      cases h
    | ok v =>
      simp only [hget] at h
      by_cases hv : v.enabled ≠ enabled
      · rw [if_pos hv] at h
        cases write with
        | some e => cases h
        | none =>
          simp only [Except.ok.injEq, Prod.mk.injEq] at h
          rw [← h.1]
      · rw [if_neg hv] at h
        simp only [Except.ok.injEq, Prod.mk.injEq] at h
        rw [← h.1]
        exact not_not.1 hv

theorem readAll_names {files : List (String × Stored)} {listed : List (String × WebUnit)}
    (h : (files.mapM fun p => (readStored p.1 p.2).map (p.1, ·)) = .ok listed) :
    listed.map Prod.fst = files.map Prod.fst := by
  induction files generalizing listed with
  | nil =>
    cases h
    rfl
  | cons p files ih =>
    rw [List.mapM_cons] at h
    cases hp : readStored p.1 p.2 with
    | error e =>
      rw [hp] at h
      cases h
    | ok u =>
      cases hrest : files.mapM fun p => (readStored p.1 p.2).map (p.1, ·) with
      | error e =>
        rw [hp, hrest] at h
        cases h
      | ok rest =>
        rw [hp, hrest] at h
        cases h
        rw [List.map_cons, List.map_cons, ih hrest]

/-- The names of a listing are distinct. -/
theorem list_nodup {r : Registry} {listed : List (String × WebUnit)} (h : r.list = .ok listed) :
    (listed.map Prod.fst).Nodup := by
  rw [readAll_names h]
  have hkeys : (r.toList.map Prod.fst).Nodup := by
    rw [Std.TreeMap.map_fst_toList_eq_keys]
    exact Std.TreeMap.nodup_keys
  exact hkeys.sublist (List.filter_sublist.map Prod.fst)

end Registry

end Hyoui.WebDaemon
