import Hyoui.Lib.Layers
import Mathlib.Algebra.Group.Nat.Defs
import Mathlib.Data.List.DropRight
import Mathlib.Data.List.Nodup
/-!
# Configuration files that extend one another

`layered_table` of `config/mod.rs`: a file may name the one it extends, that one another, and the tables
are laid over each other from the far end. The TOML parser and the file system are taken as given in
`Host`. `layered_table_nearest` is what comes out.
-/

open Hyoui.Lib

namespace Hyoui.Config

/-! ## Paths -/

/-- The bytes of a Unix path. -/
abbrev Path := List UInt8

namespace Path

/-- `/` -/
abbrev sep : UInt8 := 47

/-- `.` -/
abbrev curDir : Path := [46]

def new (text : String) : Path := text.toByteArray.data.toList

def isAbsolute (path : Path) : Bool := path.head? = some sep

/-- An absolute path replaces the one it is joined to. -/
def join (base path : Path) : Path :=
  if path.isAbsolute then path
  else if base = [] ∨ base.getLast? = some sep then base ++ path
  else base ++ sep :: path

/-- What stands between two separators without being a component. -/
def isFiller (segment : Path) : Bool := segment = [] ∨ segment = curDir

def segments (path : Path) : List Path := path.splitOn sep

def ofSegments (segments : List Path) : Path := [sep].intercalate segments

/-- The bytes in front of the body: the root, or the `.` that a relative path may begin with. -/
def lead (path : Path) : Path :=
  if path.isAbsolute then [sep]
  else if path = curDir ∨ [46, sep].isPrefixOf path then curDir
  else []

/-- The path without its last component; what is no component goes with it. -/
def parent (path : Path) : Option Path :=
  let body := (segments (path.drop path.lead.length)).rdropWhile isFiller
  if body = [] then
    if path.lead = curDir then some [] else none
  else
    some (path.lead ++ ofSegments (body.dropLast.rdropWhile isFiller))

example : ["/a//b/", "/a", "a", "./a", ".", "/", "", "/./a", "..", "a/."].map (parent <| new ·) =
    [some "/a", some "/", some "", some ".", some "", none, none, some "/", some "", some ""].map (·.map new) := by
  decide +kernel

end Path

/-- `Env::expand_tilde`; without `$HOME` nothing is expanded. -/
def expandTilde (home : Option Path) (path : Path) : Path :=
  match home, path.segments with
  | some home, [126] :: rest => home.join (.ofSegments ((rest.dropWhile Path.isFiller).rdropWhile Path.isFiller))
  | _, _ => path

def resolveRelative (home : Option Path) (path baseDir : Path) : Path :=
  let expanded := expandTilde home path
  if expanded.isAbsolute then expanded else baseDir.join expanded

/-! ### Where a path leads -/

/-- The names along a path. -/
def Path.names (path : Path) : List Path := path.segments.filter fun segment => !Path.isFiller segment

/-- `full` is `path` with a leading `~` opened. -/
inductive Expanded (home : Option Path) : Path → Path → Prop
  | tilde {dir path full : Path} : home = some dir → path.segments.head? = some [126] →
      full.names = dir.names ++ path.names.tail → full.isAbsolute = dir.isAbsolute → Expanded home path full
  | plain {path : Path} : home = none ∨ path.segments.head? ≠ some [126] → Expanded home path path

/-- `full` is where `path` leads in the file `origin`: an absolute path to where it says, any other on from the
names of the file but the last. -/
inductive Leads (home : Option Path) (origin path full : Path) : Prop
  | absolute : Expanded home path full → full.isAbsolute = true → Leads home origin path full
  | relative {expanded : Path} : Expanded home path expanded → expanded.isAbsolute = false →
      full.names = origin.names.dropLast ++ expanded.names →
      (origin.names ≠ [] → full.isAbsolute = origin.isAbsolute) → Leads home origin path full

/-! ### `to_string_lossy` -/

/-- How long the character is that begins with this byte; 0 where none does. -/
def utf8CharWidth (b : UInt8) : Nat :=
  if b < 0x80 then 1
  else if b < 0xC2 then 0
  else if b < 0xE0 then 2
  else if b < 0xF0 then 3
  else if b < 0xF5 then 4
  else 0

def isContinuation (b : UInt8) : Bool := 0x80 ≤ b ∧ b < 0xC0

/-- Second bytes that would be too long a form, a surrogate or beyond the last character are none. -/
def isSecond (lead b : UInt8) : Bool :=
  isContinuation b ∧ (lead = 0xE0 → 0xA0 ≤ b) ∧ (lead = 0xED → b < 0xA0) ∧ (lead = 0xF0 → 0x90 ≤ b) ∧
    (lead = 0xF4 → b < 0x90)

/-- The character at the front, or U+FFFD for what begins like one and breaks off, and its length. -/
def decodeFront (lead : UInt8) (rest : List UInt8) : Char × Nat :=
  let width := utf8CharWidth lead
  if width = 0 then ('\uFFFD', 1)
  else if width = 1 then (Char.ofNat lead.toNat, 1)
  else
    let more :=
      match rest with
      | second :: rest =>
        if isSecond lead second then second :: (rest.take (width - 2)).takeWhile isContinuation else []
      | [] => []
    if more.length + 1 = width then
      (Char.ofNat (more.foldl (fun n b => n * 64 + b.toNat % 64) (lead.toNat % 2 ^ (7 - width))), width)
    else
      ('\uFFFD', more.length + 1)

def lossyChars : List UInt8 → List Char
  | [] => []
  | b :: rest =>
    let (c, length) := decodeFront b rest
    c :: lossyChars (rest.drop (length - 1))
termination_by bytes => bytes.length
decreasing_by simp only [List.length_drop, List.length_cons]; omega

def toStringLossy (path : Path) : String := String.ofList (lossyChars path)

example : toStringLossy (Path.new "/é€😀" ++ [0xE2, 0x82, 0x62, 0xED, 0xA0]) = "/é€😀\uFFFDb\uFFFD\uFFFD" := by
  decide +kernel

/-! ## Layers of files -/

/-- A TOML value that is no table: a string, or any other, arrays included. -/
inductive Scalar (β : Type) where
  | string (text : String)
  | other (value : β)
deriving DecidableEq

/-- `toml::Table` -/
abbrev Toml (β : Type) := Layer String (Scalar β)

inductive ReadError where
  | notFound
  | other (kind : String)

/-- What `layered_table` can answer instead of a table. -/
inductive ConfigError where
  | parse (path : Path) (source : String)
  | badExtends (path : Path)
  | extendsNotFound (origin target : Path)
  | read (path : Path) (source : String)
  | extendsCycle (chain : List Path)

/-- `$HOME`, the TOML parser and the file system. Files that can be read have finitely many canonical paths. -/
structure Host (β : Type) where
  home : Option Path
  parse : String → Except String (Toml β)
  canonicalize : Path → Option Path
  readToString : Path → Except ReadError String
  files : List Path
  read_files : ∀ path text, readToString path = .ok text → (canonicalize path).getD path ∈ files

/-- The readers of `layered_table`. -/
inductive Reader where
  | webStr
  | configStr

def webPathKeys : List (List String) := [["web", "assets_dir"], ["web", "binary_path"], ["web", "state_dir"]]

def Reader.pathKeys : Reader → List (List String)
  | webStr => webPathKeys
  | configStr => []

def Scalar.resolve {β : Type} (home : Option Path) (baseDir : Path) : Scalar β → Scalar β
  | string value => string (toStringLossy (resolveRelative home (.new value) baseDir))
  | other value => other value

def resolvePathKeys {β : Type} (home : Option Path) (pathKeys : List (List String)) (baseDir : Path)
    (table : Toml β) : Toml β :=
  pathKeys.foldl (fun table keys => table.modifyAt (Scalar.resolve home baseDir) keys) table

/-- The directory that the relative paths of a file start from. -/
def baseDir (path : Path) : Path := path.parent.getD .curDir

namespace Host
variable {β : Type} (host : Host β)

/-- What a file is counted as. -/
def identity (path : Path) : Path := (host.canonicalize path).getD path

/-- `fuel` bounds the files that are opened. -/
def layeredTable (pathKeys : List (List String)) :
    Nat → String → Path → List Path → Option (Except ConfigError (Toml β))
  | 0, _, _, _ => none
  | fuel + 1, s, path, visited =>
    if host.identity path ∈ visited then
      some (.error (.extendsCycle (visited ++ [host.identity path])))
    else
      match host.parse s with
      | .error e => some (.error (.parse path e))
      | .ok parsed =>
        let table := resolvePathKeys host.home pathKeys (baseDir path) parsed
        match table.get "extends" with
        | none => some (.ok table)
        | some (.leaf (.string extended)) =>
          let target := resolveRelative host.home (.new extended) (baseDir path)
          match host.readToString target with
          | .error .notFound => some (.error (.extendsNotFound path target))
          | .error (.other e) => some (.error (.read target e))
          | .ok text =>
            match layeredTable pathKeys fuel text target (visited ++ [host.identity path]) with
            | none => none
            | some (.error e) => some (.error e)
            | some (.ok base) => some (.ok (base.merge (table.remove "extends")))
        | some _ => some (.error (.badExtends path))

/-! ## Following `extends` -/

structure File where
  path : Path
  text : String

inductive Step where
  | stop
  | next (file : File)
  | fail (e : ConfigError)

/-- Where one file leads. -/
def follow (file : File) : Step :=
  match host.parse file.text with
  | .error e => .fail (.parse file.path e)
  | .ok table =>
    match table.get "extends" with
    | none => .stop
    | some (.leaf (.string extended)) =>
      let target := resolveRelative host.home (.new extended) (baseDir file.path)
      match host.readToString target with
      | .ok text => .next ⟨target, text⟩
      | .error .notFound => .fail (.extendsNotFound file.path target)
      | .error (.other e) => .fail (.read target e)
    | some _ => .fail (.badExtends file.path)

/-- `followed n root f`: `f` is the file that `root` leads to in `n` steps. -/
inductive Followed : Nat → File → File → Prop
  | root {file : File} : Followed 0 file file
  | next {n : Nat} {file g f : File} : host.follow file = .next g → Followed n g f → Followed (n + 1) file f

/-- Two of the files that `root` leads to are one canonical file. -/
def Revisits (root : File) : Prop :=
  ∃ i j f g, i < j ∧ host.Followed i root f ∧ host.Followed j root g ∧ host.identity f.path = host.identity g.path

/-- The files that `root` leads to, up to one that extends none. -/
inductive Chain : File → List File → Prop
  | last {file : File} : host.follow file = .stop → Chain file []
  | link {file g : File} {rest : List File} : host.follow file = .next g → Chain g rest → Chain file (g :: rest)

/-- What a file has written under the keys, its `extends` aside. -/
def written (file : File) (keys : List String) : Option (Option (Scalar β)) :=
  match host.parse file.text with
  | .error _ => none
  | .ok table => if keys.head? = some "extends" then none else table.entry keys

/-- `g` is the file that the `extends` of `file` leads to. -/
def Links (file g : File) : Prop :=
  ∃ table text, host.parse file.text = .ok table ∧ table.get "extends" = some (.leaf (.string text)) ∧
    Leads host.home file.path (.new text) g.path ∧ host.readToString g.path = .ok g.text

/-- What becomes of a value the file wrote: a path key is the text of where its path leads. -/
inductive Reads (pathKeys : List (List String)) (keys : List String) (file : File) : Scalar β → Scalar β → Prop
  | path {text : String} {full : Path} :
    keys ∈ pathKeys → Leads host.home file.path (.new text) full →
      Reads pathKeys keys file (.string text) (.string (toStringLossy full))
  | text {text : String} : keys ∉ pathKeys → Reads pathKeys keys file (.string text) (.string text)
  | other {value : β} : Reads pathKeys keys file (.other value) (.other value)

/-- The value under the keys is the one of the first of the files that has written there: none if that is no leaf. -/
inductive Nearest (pathKeys : List (List String)) (keys : List String) : List File → Option (Scalar β) → Prop
  | none : Nearest pathKeys keys [] none
  | silent {file : File} {rest : List File} {value : Option (Scalar β)} :
    host.written file keys = none → Nearest pathKeys keys rest value → Nearest pathKeys keys (file :: rest) value
  | hides {file : File} {rest : List File} :
    host.written file keys = some none → Nearest pathKeys keys (file :: rest) none
  | wrote {file : File} {rest : List File} {value read : Scalar β} :
    host.written file keys = some (some value) → host.Reads pathKeys keys file value read →
      Nearest pathKeys keys (file :: rest) (some read)

/-- What a file itself gives the layers under the keys. -/
def wrote (pathKeys : List (List String)) (file : File) (keys : List String) : Option (Option (Scalar β)) :=
  match host.parse file.text with
  | .error _ => none
  | .ok table =>
    if keys.head? = some "extends" then none
    else if keys ∈ pathKeys then (table.entry keys).map (·.map (Scalar.resolve host.home (baseDir file.path)))
    else table.entry keys

end Host

/-! ## Paths and their names -/

namespace Path

variable {base path : Path}

theorem sep_notMem_segments {segment : Path} (h : segment ∈ path.segments) : sep ∉ segment := by
  unfold segments at h
  induction path generalizing segment with
  | nil =>
    rw [List.splitOn_nil, List.mem_singleton] at h
    rw [h]
    exact List.not_mem_nil
  | cons b path ih =>
    rw [List.splitOn_cons_eq_if_modifyHead] at h
    split at h
    · rcases List.mem_cons.1 h with rfl | h
      · exact List.not_mem_nil
      · exact ih h
    · rename_i hb
      cases hrest : path.splitOn sep with
      | nil => exact absurd hrest (List.splitOn_ne_nil sep path)
      | cons first rest =>
        rw [hrest] at h ih
        rcases List.mem_cons.1 h with rfl | h
        · have hfirst := ih List.mem_cons_self
          rintro hmem
          rcases List.mem_cons.1 hmem with rfl | hmem
          · exact hb (beq_self_eq_true _)
          · exact hfirst hmem
        · exact ih (List.mem_cons_of_mem _ h)

@[simp] theorem names_nil : names [] = [] := rfl

theorem names_append_sep (base path : Path) : names (base ++ sep :: path) = names base ++ names path := by
  simp only [names, segments, List.splitOn_append_cons_self, List.filter_append]

theorem names_ofSegments {l : List Path} (h : ∀ segment ∈ l, sep ∉ segment) :
    names (ofSegments l) = l.filter fun segment => !isFiller segment := by
  cases l with
  | nil => rfl
  | cons segment l => rw [names, segments, ofSegments, List.splitOn_intercalate _ h (by simp)]

/-- A relative path goes on from where the other one ends. -/
theorem names_join (h : path.isAbsolute = false) : (base.join path).names = base.names ++ path.names := by
  unfold join
  rw [if_neg (by simp [h])]
  split
  · rename_i hbase
    rcases hbase with rfl | hlast
    · rfl
    · obtain ⟨front, rfl⟩ := List.getLast?_eq_some_iff.1 hlast
      rw [List.append_assoc, List.singleton_append, names_append_sep, names_append_sep, names_nil, List.append_nil]
  · exact names_append_sep base path

theorem isAbsolute_join (h : path.isAbsolute = false) : (base.join path).isAbsolute = base.isAbsolute := by
  unfold join
  rw [if_neg (by simp [h])]
  cases base with
  | nil => simpa [isAbsolute] using h
  | cons b base => split <;> simp [isAbsolute]

theorem filter_rdropWhile (l : List Path) :
    (l.rdropWhile isFiller).filter (fun segment => !isFiller segment) = l.filter fun segment => !isFiller segment := by
  induction l using List.reverseRecOn with
  | nil => rfl
  | append_singleton l segment ih =>
    rw [List.rdropWhile_concat, List.filter_append]
    split
    · rename_i hfiller
      simp [ih, hfiller]
    · rw [List.filter_append]

theorem filter_dropWhile (l : List Path) :
    (l.dropWhile isFiller).filter (fun segment => !isFiller segment) = l.filter fun segment => !isFiller segment := by
  induction l with
  | nil => rfl
  | cons segment l ih =>
    rw [List.dropWhile_cons, List.filter_cons]
    split <;> rename_i hfiller
    · simp [ih, hfiller]
    · simp [hfiller]

/-- What is in front of the body has no name. -/
theorem names_body (path : Path) : names (path.drop path.lead.length) = path.names := by
  unfold lead
  split
  · rename_i habs
    cases path with
    | nil => cases habs
    | cons b path =>
      obtain rfl : b = sep := by simpa [isAbsolute] using habs
      exact (names_append_sep [] path).symm
  · split
    · rename_i hdot
      rcases hdot with rfl | hdot
      · decide
      · obtain ⟨rest, rfl⟩ := List.isPrefixOf_iff_prefix.1 hdot
        exact (names_append_sep [] rest).trans (names_append_sep curDir rest).symm
    · rfl

/-- A prefix of the segments is no more absolute than the path. -/
theorem isAbsolute_ofSegments {l : List Path} (hl : l <+: path.segments) (h : path.isAbsolute = false) :
    (ofSegments l).isAbsolute = false := by
  cases l with
  | nil => rfl
  | cons segment l =>
    obtain ⟨rest, hrest⟩ := hl
    have hpath : path = ofSegments (segment :: (l ++ rest)) := by
      rw [← List.cons_append, hrest, ofSegments, segments, List.intercalate_splitOn]
    cases segment with
    | cons b segment =>
      rw [hpath] at h
      cases l <;> cases rest <;> simpa [ofSegments, List.intercalate, isAbsolute] using h
    | nil =>
      rw [hpath] at h
      cases l with
      | nil => rfl
      | cons s l => simp [ofSegments, List.intercalate, isAbsolute] at h

/-- Nor is what begins with a name. -/
theorem isAbsolute_ofNames {l : List Path} (hsep : ∀ segment ∈ l, sep ∉ segment)
    (h : ∀ segment ∈ l.head?, isFiller segment = false) : (ofSegments l).isAbsolute = false := by
  cases l with
  | nil => rfl
  | cons segment l =>
    cases segment with
    | nil => exact absurd (h [] rfl) (by decide)
    | cons b segment =>
      have hb : b ≠ sep := fun heq => hsep _ List.mem_cons_self (heq ▸ List.mem_cons_self)
      cases l <;> simpa [ofSegments, List.intercalate, isAbsolute] using hb

theorem body_initial (l : List Path) : ((l.rdropWhile isFiller).dropLast.rdropWhile isFiller) <+: l :=
  (List.rdropWhile_prefix _ _).trans ((List.dropLast_prefix _).trans (List.rdropWhile_prefix _ _))

theorem names_lead {l : List Path} (hl : l <+: segments (path.drop path.lead.length)) :
    names (path.lead ++ ofSegments l) = l.filter fun segment => !isFiller segment := by
  have hsep : ∀ segment ∈ l, sep ∉ segment := fun segment hmem => sep_notMem_segments (hl.subset hmem)
  unfold lead at hl ⊢
  split
  · exact (names_append_sep [] _).trans (names_ofSegments hsep)
  · rename_i habs
    rw [if_neg habs] at hl
    split
    · rename_i hdot
      rw [if_pos hdot] at hl
      cases l with
      | nil => rfl
      | cons segment l =>
        -- what follows the `.` begins with a separator, so its first segment is empty
        obtain rfl : segment = [] := by
          obtain ⟨rest, hrest⟩ := hl
          rcases hdot with rfl | hdot
          · exact (List.cons.inj hrest).1
          · obtain ⟨more, rfl⟩ := List.isPrefixOf_iff_prefix.1 hdot
            have hsegments : segments (sep :: more) = [] :: segments more := List.splitOn_append_cons_self [] more
            exact (List.cons.inj (hrest.trans hsegments)).1
        cases l with
        | nil => rfl
        | cons s l =>
          have heq : ofSegments ([] :: s :: l) = sep :: ofSegments (s :: l) := by simp [ofSegments, List.intercalate]
          rw [heq, names_append_sep, names_ofSegments fun segment hmem => hsep segment (List.mem_cons_of_mem _ hmem)]
          rfl
    · exact names_ofSegments hsep

end Path

open Hyoui.Config.Path in
/-- The directory of a file has its names but the last. -/
theorem names_baseDir (path : Path) : (baseDir path).names = path.names.dropLast := by
  have hnames := filter_rdropWhile (segments (path.drop path.lead.length))
  have hpath : (segments (path.drop path.lead.length)).filter (fun segment => !isFiller segment) = path.names :=
    names_body path
  simp only [baseDir, parent]
  split
  · rename_i hbody
    rw [hbody] at hnames
    rw [← hpath, ← hnames]
    split <;> rfl
  · rename_i hbody
    have hlast := List.rdropWhile_last_not _ _ hbody
    rw [Option.getD_some, names_lead (body_initial _), filter_rdropWhile, ← hpath, ← hnames]
    conv_rhs => rw [← List.dropLast_concat_getLast hbody]
    rw [List.filter_append, List.filter_cons_of_pos (by simpa using hlast), List.filter_nil, List.dropLast_concat]

open Hyoui.Config.Path in
theorem isAbsolute_baseDir {path : Path} (h : path.names ≠ []) : (baseDir path).isAbsolute = path.isAbsolute := by
  have hbody : (segments (path.drop path.lead.length)).rdropWhile isFiller ≠ [] := by
    intro hbody
    have hnames := filter_rdropWhile (segments (path.drop path.lead.length))
    rw [hbody] at hnames
    exact h ((names_body path).symm.trans hnames.symm)
  simp only [baseDir, parent, if_neg hbody, Option.getD_some]
  have hprefix := body_initial (segments (path.drop path.lead.length))
  generalize ((segments (path.drop path.lead.length)).rdropWhile isFiller).dropLast.rdropWhile isFiller = l at hprefix
  unfold lead at hprefix ⊢
  split
  · rename_i habs
    rw [habs]
    rfl
  · rename_i habs
    rw [if_neg habs] at hprefix
    have hrel := Bool.eq_false_iff.2 habs
    split
    · rw [hrel]
      rfl
    · rename_i hdot
      rw [if_neg hdot] at hprefix
      exact (isAbsolute_ofSegments hprefix hrel).trans hrel.symm

theorem expandTilde_expanded (home : Option Path) (path : Path) : Expanded home path (expandTilde home path) := by
  unfold expandTilde
  split
  · rename_i dir rest hsegments
    have hsep : ∀ segment ∈ path.segments, Path.sep ∉ segment := fun segment => Path.sep_notMem_segments
    rw [hsegments] at hsep
    have hrest : ∀ segment ∈ (rest.dropWhile Path.isFiller).rdropWhile Path.isFiller, Path.sep ∉ segment :=
      fun segment hmem => hsep segment (List.mem_cons_of_mem _
        ((List.dropWhile_suffix _).subset ((List.rdropWhile_prefix _ _).subset hmem)))
    have hrel : (Path.ofSegments ((rest.dropWhile Path.isFiller).rdropWhile Path.isFiller)).isAbsolute = false := by
      refine Path.isAbsolute_ofNames hrest fun segment hhead => ?_
      obtain ⟨front, hfront⟩ := List.head?_eq_some_iff.1 hhead
      obtain ⟨more, hmore⟩ := List.rdropWhile_prefix Path.isFiller (rest.dropWhile Path.isFiller)
      have hfirst := List.head?_dropWhile_not Path.isFiller rest
      rw [← hmore, hfront] at hfirst
      exact hfirst
    refine .tilde rfl (by rw [hsegments]; rfl) ?_ (Path.isAbsolute_join hrel)
    rw [Path.names_join hrel, Path.names_ofSegments hrest, Path.filter_rdropWhile, Path.filter_dropWhile,
      Path.names.eq_1 path, hsegments]
    rfl
  · rename_i hne
    refine .plain (or_iff_not_imp_left.2 fun hhome hhead => ?_)
    obtain ⟨dir, hdir⟩ := Option.ne_none_iff_exists'.1 hhome
    obtain ⟨rest, hrest⟩ := List.head?_eq_some_iff.1 hhead
    exact hne dir rest hdir hrest

theorem resolveRelative_leads (home : Option Path) (origin path : Path) :
    Leads home origin path (resolveRelative home path (baseDir origin)) := by
  have hexp := expandTilde_expanded home path
  unfold resolveRelative
  dsimp only
  split <;> rename_i habs
  · exact .absolute hexp habs
  · have hrel := Bool.eq_false_iff.2 habs
    refine .relative hexp hrel ?_ fun hnames => ?_
    · rw [Path.names_join hrel, names_baseDir]
    · rw [Path.isAbsolute_join hrel, isAbsolute_baseDir hnames]

/-! ## Path keys -/

section Keys
variable {β : Type} {home : Option Path} {pathKeys : List (List String)} {dir : Path} {table : Toml β}

theorem Reader.pathKeys_nodup (reader : Reader) : reader.pathKeys.Nodup := by cases reader <;> decide

theorem Reader.extends_no_pathKey (reader : Reader) : ∀ keys ∈ reader.pathKeys, keys.head? ≠ some "extends" := by
  cases reader <;> decide

theorem get_resolvePathKeys {key : String} (h : ∀ keys ∈ pathKeys, keys.head? ≠ some key) :
    (resolvePathKeys home pathKeys dir table).get key = table.get key := by
  unfold resolvePathKeys
  induction pathKeys generalizing table with
  | nil => rfl
  | cons keys pathKeys ih =>
    rw [List.forall_mem_cons] at h
    rw [List.foldl_cons, ih h.2, Layer.get_modifyAt h.1]

theorem entry_resolvePathKeys {keys : List String} (h : pathKeys.Nodup) :
    (resolvePathKeys home pathKeys dir table).entry keys =
      if keys ∈ pathKeys then (table.entry keys).map (·.map (Scalar.resolve home dir)) else table.entry keys := by
  unfold resolvePathKeys
  induction pathKeys generalizing table with
  | nil => rfl
  | cons first pathKeys ih =>
    obtain ⟨hfirst, hrest⟩ := List.nodup_cons.1 h
    rw [List.foldl_cons, ih hrest, Layer.entry_modifyAt]
    by_cases heq : keys = first
    · subst heq
      simp [hfirst]
    · simp [heq]

end Keys

namespace Host
variable {β : Type} {host : Host β} {pathKeys : List (List String)} {file : File} {visited : List Path}

/-! ## One file -/

/-- The layer of one file. -/
def own (host : Host β) (pathKeys : List (List String)) (file : File) : Toml β :=
  match host.parse file.text with
  | .error _ => .empty
  | .ok table => (resolvePathKeys host.home pathKeys (baseDir file.path) table).remove "extends"

theorem entry_own {keys : List String} (hnodup : pathKeys.Nodup) (h : ∀ e, host.follow file ≠ .fail e) :
    (host.own pathKeys file).entry keys = host.wrote pathKeys file keys := by
  cases hparse : host.parse file.text with
  | error e => exact absurd (by simp only [follow, hparse]) (h (.parse file.path e))
  | ok table => simp only [own, wrote, hparse, Layer.entry_remove, entry_resolvePathKeys hnodup]

theorem layeredTable_succ {fuel : Nat} (hkeys : ∀ keys ∈ pathKeys, keys.head? ≠ some "extends") :
    host.layeredTable pathKeys (fuel + 1) file.text file.path visited =
      if host.identity file.path ∈ visited then
        some (.error (.extendsCycle (visited ++ [host.identity file.path])))
      else
        match host.follow file with
        | .fail e => some (.error e)
        | .stop => some (.ok (host.own pathKeys file))
        | .next g =>
          (host.layeredTable pathKeys fuel g.text g.path (visited ++ [host.identity file.path])).map
            (·.map (·.merge (host.own pathKeys file))) := by
  rw [layeredTable]
  split
  · rfl
  · cases hparse : host.parse file.text with
    | error e => simp only [follow, hparse]
    | ok table =>
      have hget := @get_resolvePathKeys _ host.home _ (baseDir file.path) table "extends" hkeys
      simp only [follow, own, hparse, hget]
      cases hext : table.get "extends" with
      | none => simp only [Layer.remove_of_get (hget.trans hext)]
      | some value =>
        cases value with
        | table t => rfl
        | leaf a =>
          cases a with
          | other v => rfl
          | string extended =>
            cases hread : host.readToString (resolveRelative host.home (Path.new extended) (baseDir file.path)) with
            | error e => cases e <;> simp only [hread]
            | ok text =>
              simp only [hread]
              split <;> rename_i heq <;> simp only [heq] <;> rfl

/-- A file is followed to one that can be read, and its own faults are not about cycles. -/
theorem follow_cases (file : File) :
    host.follow file = .stop ∨ (∃ g, host.follow file = .next g ∧ host.readToString g.path = .ok g.text) ∨
      ∃ e, host.follow file = .fail e ∧ ∀ chain, e ≠ .extendsCycle chain := by
  simp only [follow]
  split
  · exact .inr (.inr ⟨_, rfl, nofun⟩)
  · split
    · exact .inl rfl
    · split <;> rename_i hread
      · exact .inr (.inl ⟨_, rfl, hread⟩)
      · exact .inr (.inr ⟨_, rfl, nofun⟩)
      · exact .inr (.inr ⟨_, rfl, nofun⟩)
    · exact .inr (.inr ⟨_, rfl, nofun⟩)

theorem follow_fail_not_cycle {e : ConfigError} (h : host.follow file = .fail e) (chain : List Path) :
    e ≠ .extendsCycle chain := by
  rcases host.follow_cases file with hstop | ⟨g, hnext, -⟩ | ⟨e', hfail, hne⟩
  · rw [hstop] at h
    cases h
  · rw [hnext] at h
    cases h
  · rw [hfail] at h
    cases h
    exact hne chain

theorem follow_next_files {g : File} (h : host.follow file = .next g) : host.identity g.path ∈ host.files := by
  rcases host.follow_cases file with hstop | ⟨g', hnext, hread⟩ | ⟨e, hfail, -⟩
  · rw [hstop] at h
    cases h
  · rw [hnext] at h
    cases h
    exact host.read_files _ _ hread
  · rw [hfail] at h
    cases h

/-! ## Resolving -/

theorem length_filter_notMem_append_lt {l visited : List Path} {a : Path} (ha : a ∈ l) (hnew : a ∉ visited) :
    (l.filter (· ∉ visited ++ [a])).length < (l.filter (· ∉ visited)).length := by
  have hfilter : l.filter (· ∉ visited ++ [a]) = (l.filter (· ∉ visited)).filter (· ≠ a) := by
    rw [List.filter_filter]
    refine List.filter_congr fun x _ => ?_
    simp [and_comm]
  rw [hfilter, List.length_filter_lt_length_iff_exists]
  exact ⟨a, List.mem_filter.2 ⟨ha, by simpa using hnew⟩, by simp⟩

/-- What `layered_table` does, without a bound. -/
inductive Resolves (host : Host β) (pathKeys : List (List String)) :
    List Path → File → Except ConfigError (Toml β) → Prop
  | cycle {visited : List Path} {file : File} :
    host.identity file.path ∈ visited →
      Resolves host pathKeys visited file (.error (.extendsCycle (visited ++ [host.identity file.path])))
  | fail {visited : List Path} {file : File} {e : ConfigError} :
    host.identity file.path ∉ visited → host.follow file = .fail e → Resolves host pathKeys visited file (.error e)
  | stop {visited : List Path} {file : File} :
    host.identity file.path ∉ visited → host.follow file = .stop →
      Resolves host pathKeys visited file (.ok (host.own pathKeys file))
  | next {visited : List Path} {file g : File} {r : Except ConfigError (Toml β)} :
    host.identity file.path ∉ visited → host.follow file = .next g →
      Resolves host pathKeys (visited ++ [host.identity file.path]) g r →
      Resolves host pathKeys visited file (r.map (·.merge (host.own pathKeys file)))

section Bounded
variable (hkeys : ∀ keys ∈ pathKeys, keys.head? ≠ some "extends")
include hkeys

theorem layeredTable_resolves {fuel : Nat} {r : Except ConfigError (Toml β)}
    (h : host.layeredTable pathKeys fuel file.text file.path visited = some r) :
    host.Resolves pathKeys visited file r := by
  induction fuel generalizing file visited r with
  | zero => cases h
  | succ fuel ih =>
    rw [layeredTable_succ hkeys] at h
    split at h <;> rename_i hvisited
    · cases h
      exact .cycle hvisited
    · split at h <;> rename_i hfollow
      · cases h
        exact .fail hvisited hfollow
      · cases h
        exact .stop hvisited hfollow
      · obtain ⟨below, hbelow, rfl⟩ := Option.map_eq_some_iff.1 h
        exact .next hvisited hfollow (ih hbelow)

/-- More fuel changes nothing. -/
theorem layeredTable_mono {fuel more : Nat} {r : Except ConfigError (Toml β)} (hle : fuel ≤ more)
    (h : host.layeredTable pathKeys fuel file.text file.path visited = some r) :
    host.layeredTable pathKeys more file.text file.path visited = some r := by
  induction fuel generalizing more file visited r with
  | zero => cases h
  | succ fuel ih =>
    obtain ⟨more, rfl⟩ : ∃ m, more = m + 1 := ⟨more - 1, by omega⟩
    rw [layeredTable_succ hkeys] at h ⊢
    split at h <;> rename_i hvisited
    · rw [if_pos hvisited, h]
    · rw [if_neg hvisited]
      cases hfollow : host.follow file with
      | fail e => simpa only [hfollow] using h
      | stop => simpa only [hfollow] using h
      | next g =>
        simp only [hfollow] at h ⊢
        obtain ⟨below, hbelow, rfl⟩ := Option.map_eq_some_iff.1 h
        rw [ih (by omega) hbelow, Option.map_some]

/-- Every file that is opened is one canonical file less to visit. -/
theorem layeredTable_total {fuel : Nat} (hfile : host.identity file.path ∈ host.files)
    (hfuel : (host.files.filter (· ∉ visited)).length < fuel) :
    ∃ r, host.layeredTable pathKeys fuel file.text file.path visited = some r := by
  induction fuel generalizing file visited with
  | zero => omega
  | succ fuel ih =>
    rw [layeredTable_succ hkeys]
    split <;> rename_i hvisited
    · exact ⟨_, rfl⟩
    · cases hfollow : host.follow file with
      | fail e => exact ⟨_, rfl⟩
      | stop => exact ⟨_, rfl⟩
      | next g =>
        have hless := length_filter_notMem_append_lt hfile hvisited
        have hg : host.identity g.path ∈ host.files := follow_next_files hfollow
        obtain ⟨r, hr⟩ := @ih g (visited ++ [host.identity file.path]) hg (by omega)
        exact ⟨_, by simp only [hr, Option.map_some]; rfl⟩

end Bounded

/-! ### Cycles -/

theorem followed_zero {f : File} : host.Followed 0 file f ↔ f = file := by
  constructor
  · rintro ⟨⟩
    rfl
  · rintro rfl
    exact .root

theorem followed_succ {n : Nat} {f : File} :
    host.Followed (n + 1) file f ↔ ∃ g, host.follow file = .next g ∧ host.Followed n g f := by
  constructor
  · rintro (_ | ⟨hfollow, hrest⟩)
    exact ⟨_, hfollow, hrest⟩
  · rintro ⟨g, hfollow, hrest⟩
    exact .next hfollow hrest

theorem followed_succ_of_next {n : Nat} {f g : File} (h : host.follow file = .next g) :
    host.Followed (n + 1) file f ↔ host.Followed n g f := by
  simp [followed_succ, h]

theorem not_followed_succ {n : Nat} {f : File} (h : ∀ g, host.follow file ≠ .next g) :
    ¬host.Followed (n + 1) file f := by
  simp [followed_succ, h]

/-- `root` leads to a file that was visited, or to one twice. -/
def Meets (host : Host β) (visited : List Path) (root : File) : Prop :=
  ∃ j g, host.Followed j root g ∧
    (host.identity g.path ∈ visited ∨
      ∃ i f, i < j ∧ host.Followed i root f ∧ host.identity f.path = host.identity g.path)

theorem meets_nil : host.Meets [] file ↔ host.Revisits file := by
  constructor
  · rintro ⟨j, g, hg, hnil | ⟨i, f, hlt, hf, heq⟩⟩
    · cases hnil
    · exact ⟨i, j, f, g, hlt, hf, hg, heq⟩
  · rintro ⟨i, j, f, g, hlt, hf, hg, heq⟩
    exact ⟨j, g, hg, .inr ⟨i, f, hlt, hf, heq⟩⟩

/-- A file that leads nowhere meets only what was visited before. -/
theorem meets_of_end (h : ∀ g, host.follow file ≠ .next g) :
    host.Meets visited file ↔ host.identity file.path ∈ visited := by
  constructor
  · rintro ⟨j, g, hg, hmeets⟩
    cases j with
    | succ j => exact absurd hg (not_followed_succ h)
    | zero =>
      cases followed_zero.1 hg
      rcases hmeets with hvisited | ⟨i, f, hlt, -⟩
      · exact hvisited
      · omega
  · intro hvisited
    exact ⟨0, file, .root, .inl hvisited⟩

theorem meets_of_next {g : File} (hvisited : host.identity file.path ∉ visited) (h : host.follow file = .next g) :
    host.Meets visited file ↔ host.Meets (visited ++ [host.identity file.path]) g := by
  constructor
  · rintro ⟨j, x, hx, hmeets⟩
    cases j with
    | zero =>
      cases followed_zero.1 hx
      rcases hmeets with hold | ⟨i, f, hlt, -⟩
      · exact absurd hold hvisited
      · omega
    | succ j =>
      refine ⟨j, x, (followed_succ_of_next h).1 hx, ?_⟩
      rcases hmeets with hold | ⟨i, f, hlt, hf, heq⟩
      · exact .inl (List.mem_append_left _ hold)
      · cases i with
        | zero =>
          cases followed_zero.1 hf
          exact .inl (by rw [← heq]; simp)
        | succ i => exact .inr ⟨i, f, by omega, (followed_succ_of_next h).1 hf, heq⟩
  · rintro ⟨j, x, hx, hmeets⟩
    refine ⟨j + 1, x, (followed_succ_of_next h).2 hx, ?_⟩
    rcases hmeets with hold | ⟨i, f, hlt, hf, heq⟩
    · rcases List.mem_append.1 hold with hold | hself
      · exact .inl hold
      · exact .inr ⟨0, file, by omega, .root, (List.mem_singleton.1 hself).symm⟩
    · exact .inr ⟨i + 1, f, by omega, (followed_succ_of_next h).2 hf, heq⟩

theorem Resolves.cycle_iff {r : Except ConfigError (Toml β)} (h : host.Resolves pathKeys visited file r) :
    (∃ chain, r = .error (.extendsCycle chain)) ↔ host.Meets visited file := by
  induction h with
  | cycle hvisited => exact ⟨fun _ => ⟨0, _, .root, .inl hvisited⟩, fun _ => ⟨_, rfl⟩⟩
  | fail hvisited hfollow =>
    rw [meets_of_end (by simp [hfollow])]
    refine ⟨?_, fun hin => absurd hin hvisited⟩
    rintro ⟨chain, hchain⟩
    cases hchain
    exact absurd rfl (follow_fail_not_cycle hfollow chain)
  | stop hvisited hfollow =>
    rw [meets_of_end (by simp [hfollow])]
    exact ⟨nofun, fun hin => absurd hin hvisited⟩
  | @next visited file g r hvisited hfollow _ ih =>
    rw [meets_of_next hvisited hfollow, ← ih]
    cases r <;> simp [Except.map]

/-! ### Leaves -/

/-- The layers of the files in a chain, the first one on top. -/
theorem Resolves.chain {table : Toml β} (h : host.Resolves pathKeys visited file (.ok table)) :
    ∃ rest, host.Chain file rest ∧ table = Layer.stack (host.own pathKeys file) (rest.map (host.own pathKeys)) := by
  generalize hr : Except.ok table = r at h
  induction h generalizing table with
  | cycle => cases hr
  | fail => cases hr
  | stop _ hfollow =>
    cases hr
    exact ⟨[], .last hfollow, rfl⟩
  | @next visited file g r _ hfollow _ ih =>
    cases r with
    | error e => cases hr
    | ok below =>
      cases hr
      obtain ⟨rest, hchain, hbelow⟩ := ih rfl
      exact ⟨g :: rest, .link hfollow hchain, by rw [hbelow]; rfl⟩

theorem Resolves.fault {e : ConfigError} (h : host.Resolves pathKeys visited file (.error e))
    (hcycle : ∀ chain, e ≠ .extendsCycle chain) : ∃ n f, host.Followed n file f ∧ host.follow f = .fail e := by
  generalize hr : Except.error e = r at h
  induction h with
  | cycle =>
    cases hr
    exact absurd rfl (hcycle _)
  | fail _ hfollow =>
    cases hr
    exact ⟨0, _, .root, hfollow⟩
  | stop => cases hr
  | @next visited file g r _ hfollow _ ih =>
    cases r with
    | ok below => cases hr
    | error e' =>
      cases hr
      obtain ⟨n, f, hf, hfail⟩ := ih rfl
      exact ⟨n + 1, f, .next hfollow hf, hfail⟩

theorem Chain.entry_own (hnodup : pathKeys.Nodup) {rest : List File} (h : host.Chain file rest) (keys : List String) :
    (rest.map (host.own pathKeys)).findSome? (·.entry keys) = rest.findSome? (host.wrote pathKeys · keys) ∧
      (host.own pathKeys file).entry keys = host.wrote pathKeys file keys := by
  induction h with
  | last hfollow => exact ⟨rfl, Host.entry_own hnodup (by simp [hfollow])⟩
  | link hfollow _ ih =>
    refine ⟨?_, Host.entry_own hnodup (by simp [hfollow])⟩
    rw [List.map_cons, List.findSome?_cons, List.findSome?_cons, ih.1, ih.2]

theorem wrote_eq (pathKeys : List (List String)) (file : File) (keys : List String) :
    host.wrote pathKeys file keys = (host.written file keys).map
      (·.map fun value => if keys ∈ pathKeys then value.resolve host.home (baseDir file.path) else value) := by
  unfold wrote written
  cases host.parse file.text with
  | error e => rfl
  | ok table =>
    dsimp only
    by_cases hext : keys.head? = some "extends"
    · rw [if_pos hext, if_pos hext]
      rfl
    · rw [if_neg hext, if_neg hext]
      by_cases hkeys : keys ∈ pathKeys
      · simp only [hkeys, if_true]
      · simp [hkeys]

theorem resolve_reads (pathKeys : List (List String)) (keys : List String) (file : File) (value : Scalar β) :
    host.Reads pathKeys keys file value
      (if keys ∈ pathKeys then value.resolve host.home (baseDir file.path) else value) := by
  split <;> rename_i hkeys
  · cases value with
    | string text => exact .path hkeys (resolveRelative_leads _ _ _)
    | other value => exact .other
  · cases value with
    | string text => exact .text hkeys
    | other value => exact .other

theorem nearest_wrote (pathKeys : List (List String)) (keys : List String) (files : List File) :
    host.Nearest pathKeys keys files (files.findSome? (host.wrote pathKeys · keys)).join := by
  induction files with
  | nil => exact .none
  | cons file rest ih =>
    rw [List.findSome?_cons, wrote_eq]
    cases hwritten : host.written file keys with
    | none => exact .silent hwritten ih
    | some entry =>
      cases entry with
      | none => exact .hides hwritten
      | some value => exact .wrote hwritten (resolve_reads pathKeys keys file value)

theorem follow_links {g : File} (h : host.follow file = .next g) : host.Links file g := by
  unfold follow at h
  split at h
  · cases h
  · rename_i table hparse
    split at h
    · cases h
    · rename_i text hext
      dsimp only at h
      split at h
      · rename_i content hread
        cases h
        exact ⟨table, text, hparse, hext, resolveRelative_leads _ _ _, hread⟩
      · cases h
      · cases h
    · cases h

/-- Reading a file comes to an end. It is a cycle exactly if `extends` leads to one canonical file twice; if not,
either a file on the way is at fault, or each leaf is what the nearest file that has an entry wrote there, a path
key being taken from the directory of that file. The file that is followed is where `extends` leads. -/
theorem layered_table_nearest (host : Host β) (reader : Reader) (root : File) :
    ∃ r, (∀ fuel, host.files.length + 2 ≤ fuel →
        host.layeredTable reader.pathKeys fuel root.text root.path [] = some r) ∧
      ((∃ chain, r = .error (.extendsCycle chain)) ↔ host.Revisits root) ∧
      (¬host.Revisits root →
        (∃ n f e, host.Followed n root f ∧ host.follow f = .fail e ∧ r = .error e) ∨
        ∃ rest table, host.Chain root rest ∧ r = .ok table ∧
          ∀ keys, host.Nearest reader.pathKeys keys (root :: rest) (table.leafAt keys)) ∧
      ∀ f g, host.follow f = .next g → host.Links f g := by
  have hkeys := reader.extends_no_pathKey
  obtain ⟨r, hr⟩ : ∃ r, host.layeredTable reader.pathKeys (host.files.length + 2) root.text root.path [] = some r := by
    rw [layeredTable_succ hkeys, if_neg List.not_mem_nil]
    cases hfollow : host.follow root with
    | fail e => exact ⟨_, rfl⟩
    | stop => exact ⟨_, rfl⟩
    | next g =>
      have hle := List.length_filter_le (· ∉ [] ++ [host.identity root.path]) host.files
      obtain ⟨r, hr⟩ := @layeredTable_total _ _ _ g ([] ++ [host.identity root.path]) hkeys _
        (follow_next_files hfollow) (Nat.lt_succ_of_le hle)
      exact ⟨_, by simp only [hr, Option.map_some]; rfl⟩
  have hresolves := layeredTable_resolves hkeys hr
  have hcycle := hresolves.cycle_iff.trans meets_nil
  refine ⟨r, fun fuel hle => layeredTable_mono hkeys hle hr, hcycle, fun hnot => ?_, fun f g => follow_links⟩
  cases r with
  | error e =>
    obtain ⟨n, f, hf, hfail⟩ := hresolves.fault fun chain he => hnot (hcycle.1 ⟨chain, by rw [he]⟩)
    exact .inl ⟨n, f, e, hf, hfail, rfl⟩
  | ok table =>
    obtain ⟨rest, hchain, rfl⟩ := hresolves.chain
    refine .inr ⟨rest, _, hchain, rfl, fun keys => ?_⟩
    obtain ⟨hrest, hroot⟩ := hchain.entry_own reader.pathKeys_nodup keys
    have hnearest := host.nearest_wrote reader.pathKeys keys (root :: rest)
    rw [List.findSome?_cons] at hnearest
    rwa [Layer.leafAt_stack, List.findSome?_cons, hrest, hroot]

def siteTable : Table String (Scalar Nat) :=
  .cons "extends" (.leaf (.string "base/web.toml")) (.cons "web" (.table (.cons "port" (.leaf (.other 80)) .nil)) .nil)

def baseTable : Table String (Scalar Nat) :=
  .cons "web" (.table (.cons "assets_dir" (.leaf (.string "static")) .nil)) .nil

theorem siteTable_unique : siteTable.Unique := by simp [siteTable, Table.Unique, Value.Unique, Table.get]

theorem baseTable_unique : baseTable.Unique := by simp [baseTable, Table.Unique, Value.Unique, Table.get]

def readBase (path : Path) : Except ReadError String :=
  if path = .new "/etc/hyoui/base/web.toml" then .ok "base" else .error .notFound

theorem readBase_files (path : Path) (text : String) (h : readBase path = .ok text) :
    path ∈ [Path.new "/etc/hyoui/base/web.toml"] := by
  unfold readBase at h
  split at h
  · rename_i hpath
    exact List.mem_singleton.2 hpath
  · cases h

/-- `/etc/hyoui/web.toml` extends `base/web.toml`, which has a path of its own. -/
def sampleHost : Host Nat where
  home := none
  parse text := if text = "site" then .ok ⟨siteTable, siteTable_unique⟩ else .ok ⟨baseTable, baseTable_unique⟩
  canonicalize _ := none
  readToString := readBase
  files := [.new "/etc/hyoui/base/web.toml"]
  read_files := readBase_files

def sampleRoot : File := ⟨.new "/etc/hyoui/web.toml", "site"⟩

/-- Its assets are beside the file that names them. -/
theorem layered_table_nearest_base : ∃ rest table, sampleHost.Chain sampleRoot rest ∧
    sampleHost.layeredTable webPathKeys 3 sampleRoot.text sampleRoot.path [] = some (.ok table) ∧
      table.leafAt ["web", "assets_dir"] = some (.string "/etc/hyoui/base/static") ∧
      sampleHost.Nearest webPathKeys ["web", "assets_dir"] (sampleRoot :: rest)
        (some (.string "/etc/hyoui/base/static")) := by
  obtain ⟨r, hr, hcycle, hresult, -⟩ := layered_table_nearest sampleHost .webStr sampleRoot
  obtain ⟨table, htable, hleaf⟩ : ∃ table,
      sampleHost.layeredTable webPathKeys 3 sampleRoot.text sampleRoot.path [] = some (.ok table) ∧
        table.leafAt ["web", "assets_dir"] = some (.string "/etc/hyoui/base/static") := ⟨_, rfl, by decide +kernel⟩
  obtain rfl : r = .ok table := Option.some.inj ((hr 3 (Nat.le_refl _)).symm.trans htable)
  have hnot : ¬sampleHost.Revisits sampleRoot := fun hrevisits => by
    obtain ⟨chain, hchain⟩ := hcycle.2 hrevisits
    cases hchain
  rcases hresult hnot with ⟨n, f, e, -, -, herror⟩ | ⟨rest, found, hchain, hok, hnearest⟩
  · cases herror
  · obtain rfl := Except.ok.inj hok
    exact ⟨rest, table, hchain, htable, hleaf, hleaf ▸ hnearest ["web", "assets_dir"]⟩

end Host

end Hyoui.Config
