import Hyoui.Auth.Store
import Mathlib.Data.List.DropRight
/-!
# Endpoints

`Endpoint` of `contract.rs`: the text under which the browser, the command line and the gateway look up the
same record. `parse` brings a text into its normal form, and `origin`, `rpId` and `cookiePath` take that form
apart again. A text is its list of characters.
-/

namespace Hyoui.Web.Endpoint

open Hyoui.Auth

abbrev Text := List Char

inductive EndpointError where
  | unsupportedScheme
  | missingHost
  | hasQueryOrFragment
  | malformed
deriving DecidableEq

/-! ## Pieces of a text -/

def trim (raw : Text) : Text := (raw.dropWhile isWhitespace).rdropWhile isWhitespace

/-- `split_once` -/
def splitOnce (sep : Text) : Text → Option (Text × Text)
  | [] => none
  | c :: s =>
    if sep.isPrefixOf (c :: s) then some ([], (c :: s).drop sep.length)
    else (splitOnce sep s).map fun (before, after) => (c :: before, after)

def trimEndMatches (c : Char) (s : Text) : Text := s.rdropWhile (· = c)

def schemeSep : Text := "://".toList

/-! ## The normal form -/

/-- `parse` from the trimmed text on. -/
def parseTrimmed (raw : Text) : Except EndpointError Text :=
  if raw.contains '?' || raw.contains '#' then .error .hasQueryOrFragment
  else
    match splitOnce schemeSep raw with
    | none => .error .malformed
    | some (scheme, rest) =>
      if scheme ≠ "http".toList ∧ scheme ≠ "https".toList then .error .unsupportedScheme
      else
        let (authority, path) := (splitOnce ['/'] rest).getD (rest, [])
        if authority.isEmpty then .error .missingHost
        else if ((path.splitOn '/').filter (!·.isEmpty)).any fun c => c = ".".toList ∨ c = "..".toList then
          .error .malformed
        else
          let path := trimEndMatches '/' path
          if path.isEmpty then .ok (scheme ++ schemeSep ++ authority ++ ['/'])
          else .ok (scheme ++ schemeSep ++ authority ++ ['/'] ++ path ++ ['/'])

def parse (raw : Text) : Except EndpointError Text := parseTrimmed (trim raw)

/-- How many characters the scheme takes with its separator. -/
def afterScheme (s : Text) : Nat := ((splitOnce schemeSep s).map (·.1.length + schemeSep.length)).getD 0

def origin (e : Text) : Text :=
  match splitOnce ['/'] (e.drop (afterScheme e)) with
  | some (host, _) => e.take (afterScheme e + host.length)
  | none => e

/-- What comes before the last `:`, and what from there on. -/
def splitLastColon (host : Text) : Option (Text × Text) :=
  if ':' ∈ host then some ((host.rdropWhile (· ≠ ':')).dropLast, ':' :: host.rtakeWhile (· ≠ ':')) else none

def rpId (e : Text) : Text :=
  let host := (origin e).drop (afterScheme (origin e))
  match splitLastColon host with
  | some (name, port) => if ']' ∈ port then host else name
  | none => host

def cookiePath (e : Text) : Text :=
  let trimmed := trimEndMatches '/' (e.drop (origin e).length)
  if trimmed.isEmpty then ['/'] else trimmed

example :
    ((parse "  https://example.jp:8443/a/b// ".toList).toOption.map fun e => [e, origin e, rpId e, cookiePath e]) =
      some (["https://example.jp:8443/a/b/", "https://example.jp:8443", "example.jp", "/a/b"].map String.toList) := by
  decide +kernel

/-! ## Splitting -/

section Split
variable {sep s t a b : Text} {c : Char}

theorem splitOnce_some (h : splitOnce sep s = some (a, b)) : s = a ++ sep ++ b := by
  induction s generalizing a with
  | nil => cases h
  | cons d s ih =>
    rw [splitOnce] at h
    split at h <;> rename_i hsep
    · cases h
      exact (List.prefix_iff_eq_append.1 (List.isPrefixOf_iff_prefix.1 hsep)).symm
    · obtain ⟨⟨a', b'⟩, hrest, heq⟩ := Option.map_eq_some_iff.1 h
      cases heq
      rw [ih hrest]
      rfl

/-- What follows the text does not change where it is split first. -/
theorem splitOnce_append (h : splitOnce sep s = some (a, b)) (t : Text) :
    splitOnce sep (s ++ t) = some (a, b ++ t) := by
  induction s generalizing a with
  | nil => cases h
  | cons d s ih =>
    have hlen := congrArg List.length (splitOnce_some h)
    simp only [List.length_append] at hlen
    have hprefix : sep.isPrefixOf (d :: s ++ t) = sep.isPrefixOf (d :: s) := by
      rw [Bool.eq_iff_iff, List.isPrefixOf_iff_prefix, List.isPrefixOf_iff_prefix]
      constructor
      · exact fun hp => List.prefix_of_prefix_length_le hp (List.prefix_append ..) (by omega)
      · exact fun hp => hp.trans (List.prefix_append ..)
    rw [splitOnce] at h
    rw [List.cons_append, splitOnce, ← List.cons_append, hprefix]
    split at h <;> rename_i hsep
    · cases h
      rw [if_pos hsep, List.drop_append_of_le_length (List.isPrefixOf_iff_prefix.1 hsep).length_le]
    · obtain ⟨⟨a', b'⟩, hrest, heq⟩ := Option.map_eq_some_iff.1 h
      cases heq
      rw [if_neg hsep, ih hrest]
      rfl

theorem splitOnce_isSome (hsep : sep ≠ []) (a b : Text) : (splitOnce sep (a ++ sep ++ b)).isSome := by
  induction a with
  | nil =>
    obtain ⟨d, sep, rfl⟩ := List.exists_cons_of_ne_nil hsep
    simp [splitOnce]
  | cons d a ih =>
    rw [List.cons_append, List.cons_append, splitOnce]
    split
    · rfl
    · simpa using ih

/-- A text that is split only by what follows it has nothing of its own behind the split. -/
theorem splitOnce_suffix (hsep : sep ≠ []) (hnone : splitOnce sep s = none) (h : splitOnce sep (s ++ t) = some (a, b)) :
    b <:+ t := by
  have heq := splitOnce_some h
  by_cases hlen : b.length ≤ t.length
  · exact List.suffix_of_suffix_length_le ⟨a ++ sep, heq.symm⟩ (List.suffix_append s t) hlen
  · obtain ⟨b', rfl⟩ := List.suffix_of_suffix_length_le (List.suffix_append s t) ⟨a ++ sep, heq.symm⟩ (by omega)
    rw [← List.append_assoc] at heq
    have hs := splitOnce_isSome hsep a b'
    rw [← List.append_cancel_right heq, hnone] at hs
    cases hs

theorem splitOnce_notMem (h : splitOnce [c] s = some (a, b)) : c ∉ a := by
  induction s generalizing a with
  | nil => cases h
  | cons d s ih =>
    rw [splitOnce] at h
    split at h <;> rename_i hsep
    · cases h
      exact List.not_mem_nil
    · obtain ⟨⟨a', b'⟩, hrest, heq⟩ := Option.map_eq_some_iff.1 h
      cases heq
      have hd : c ≠ d := by simpa using hsep
      simp [hd, ih hrest]

theorem splitOnce_of_notMem (ha : c ∉ a) (b : Text) : splitOnce [c] (a ++ c :: b) = some (a, b) := by
  induction a with
  | nil => simp [splitOnce]
  | cons d a ih =>
    rw [List.mem_cons, not_or] at ha
    rw [List.cons_append, splitOnce, ih ha.2]
    simp [ha.1]

end Split

/-! ## Trimming -/

section Trim
variable {raw before after s : Text}

theorem trim_surrounded (hbefore : ∀ c ∈ before, isWhitespace c = true) (hafter : ∀ c ∈ after, isWhitespace c = true) :
    trim (before ++ raw ++ after) = trim raw := by
  have hdrop : (before ++ raw ++ after).dropWhile isWhitespace = (raw ++ after).dropWhile isWhitespace := by
    rw [List.append_assoc, List.dropWhile_append_of_pos hbefore]
  unfold trim
  rw [hdrop, List.dropWhile_append]
  split <;> rename_i hempty
  · rw [List.isEmpty_iff] at hempty
    rw [hempty, List.dropWhile_eq_nil_iff.2 hafter]
  · rw [List.rdropWhile, List.reverse_append, List.dropWhile_append_of_pos (by simpa using hafter)]
    rfl

/-- Nothing to trim. -/
theorem trim_eq_self (hhead : ∀ c, s.head? = some c → isWhitespace c = false)
    (hlast : ∀ c, s.getLast? = some c → isWhitespace c = false) : trim s = s := by
  have hdrop : s.dropWhile isWhitespace = s := by
    cases s with
    | nil => rfl
    | cons c s => rw [List.dropWhile_cons_of_neg (by simp [hhead c rfl])]
  rw [trim, hdrop, List.rdropWhile_eq_self_iff]
  intro hne
  simp [hlast _ (List.getLast?_eq_some_getLast hne)]

theorem trim_append_slashes (hlast : ∀ c, raw.getLast? = some c → isWhitespace c = false) (n : Nat) :
    trim (raw ++ List.replicate n '/') = trim raw ++ List.replicate n '/' := by
  have hraw : trim raw = raw.dropWhile isWhitespace := by
    rw [trim, List.rdropWhile_eq_self_iff]
    intro hne
    have hsuffix := List.dropWhile_suffix (l := raw) isWhitespace
    have hlast' := hlast _ (List.getLast?_eq_some_getLast (by rintro rfl; exact hne rfl))
    rw [hsuffix.getLast hne, hlast']
    exact Bool.false_ne_true
  cases n with
  | zero => simp
  | succ n =>
    have hslash : isWhitespace '/' = false := by decide
    have hdrop : (raw ++ List.replicate (n + 1) '/').dropWhile isWhitespace =
        raw.dropWhile isWhitespace ++ List.replicate (n + 1) '/' := by
      rw [List.dropWhile_append]
      split <;> rename_i hempty
      · rw [List.isEmpty_iff.1 hempty, List.nil_append, List.replicate_succ,
          List.dropWhile_cons_of_neg (by simp [hslash])]
      · rfl
    rw [hraw, trim, hdrop, List.rdropWhile_eq_self_iff]
    intro hne
    rw [List.getLast_append_of_ne_nil _ (by simp), List.getLast_replicate, hslash]
    exact Bool.false_ne_true

end Trim

/-! ## Paths -/

section Paths
variable {path : Text}

/-- A component is `.` or `..`. -/
def dotted (path : Text) : Bool :=
  ((path.splitOn '/').filter (!·.isEmpty)).any fun c => c = ".".toList ∨ c = "..".toList

theorem dotted_eq_false : dotted path = false ↔ ∀ c ∈ path.splitOn '/', c ≠ ".".toList ∧ c ≠ "..".toList := by
  simp only [dotted, List.any_eq_false, List.mem_filter, decide_eq_true_eq, not_or, and_imp]
  constructor
  · intro h c hc
    by_cases hempty : c = []
    · subst hempty
      decide
    · exact h c hc (by simp [hempty])
  · exact fun h c hc _ => h c hc

theorem dotted_slashes (path : Text) (n : Nat) : dotted (path ++ List.replicate n '/') = dotted path := by
  induction n with
  | zero => simp
  | succ n ih =>
    have hsplit := List.splitOn_append_cons_self (path ++ List.replicate n '/') ([] : Text) (a := '/')
    rw [← ih, List.replicate_succ', ← List.append_assoc]
    simp only [dotted, hsplit]
    simp

theorem trimEndMatches_slashes (path : Text) (n : Nat) :
    trimEndMatches '/' (path ++ List.replicate n '/') = trimEndMatches '/' path := by
  induction n with
  | zero => simp
  | succ n ih =>
    rw [List.replicate_succ', ← List.append_assoc]
    exact (List.rdropWhile_concat_pos _ _ _ (by simp)).trans ih

theorem exists_slashes (path : Text) : ∃ n, path = trimEndMatches '/' path ++ List.replicate n '/' := by
  refine ⟨(path.rtakeWhile (· = '/')).length, ?_⟩
  have hall : path.rtakeWhile (· = '/') = List.replicate (path.rtakeWhile (· = '/')).length '/' := by
    rw [List.eq_replicate_iff]
    exact ⟨rfl, fun c hc => by simpa using List.mem_rtakeWhile_imp hc⟩
  rw [← hall]
  exact (List.rdropWhile_append_rtakeWhile ..).symm

theorem dotted_trimEnd (path : Text) : dotted (trimEndMatches '/' path) = dotted path := by
  obtain ⟨n, hn⟩ := exists_slashes path
  exact (dotted_slashes _ n).symm.trans (congrArg dotted hn.symm)

end Paths

/-! ## The normal form -/

section Form
variable {scheme authority path raw e : Text}

/-- An endpoint of its three parts; a path that is not empty has no slash around it. -/
def form (scheme authority path : Text) : Text :=
  scheme ++ schemeSep ++ (authority ++ '/' :: if path = [] then [] else path ++ ['/'])

structure WellFormed (scheme authority path : Text) : Prop where
  http : scheme = "http".toList ∨ scheme = "https".toList
  host : authority ≠ []
  no_slash : '/' ∉ authority
  no_query : '?' ∉ form scheme authority path
  no_fragment : '#' ∉ form scheme authority path
  not_dotted : dotted path = false
  trimmed : trimEndMatches '/' path = path

/-- The authority and the path behind the scheme. -/
def hostAndPath (rest : Text) : Text × Text := (splitOnce ['/'] rest).getD (rest, [])

theorem parseTrimmed_ok : parseTrimmed raw = .ok e ↔
    ∃ scheme rest, splitOnce schemeSep raw = some (scheme, rest) ∧ '?' ∉ raw ∧ '#' ∉ raw ∧
      (scheme = "http".toList ∨ scheme = "https".toList) ∧ (hostAndPath rest).1 ≠ [] ∧
      dotted (hostAndPath rest).2 = false ∧
      e = form scheme (hostAndPath rest).1 (trimEndMatches '/' (hostAndPath rest).2) := by
  unfold parseTrimmed
  constructor
  · intro h
    split at h
    · cases h
    · rename_i hchars
      split at h
      · cases h
      · rename_i scheme rest hsplit
        split at h
        · cases h
        · rename_i hscheme
          dsimp only at h
          split at h
          · cases h
          · rename_i hhost
            split at h
            · cases h
            · rename_i hdotted
              refine ⟨scheme, rest, hsplit, ?_, ?_, ?_, ?_, ?_, ?_⟩
              · simp_all
              · simp_all
              · by_contra hnot
                exact hscheme (not_or.1 hnot)
              · simpa [hostAndPath] using hhost
              · exact Bool.eq_false_iff.2 hdotted
              · split at h <;> rename_i hpath <;> cases h
                · rw [List.isEmpty_iff] at hpath
                  simp [form, hostAndPath, hpath]
                · rw [List.isEmpty_iff] at hpath
                  simp [form, hostAndPath, hpath]
  · rintro ⟨scheme, rest, hsplit, hquery, hfragment, hscheme, hhost, hdotted, rfl⟩
    have hscheme' : ¬(scheme ≠ "http".toList ∧ scheme ≠ "https".toList) := by
      rintro ⟨hhttp, hhttps⟩
      exact hscheme.elim hhttp hhttps
    have hdotted' : ¬(List.any (((hostAndPath rest).2.splitOn '/').filter (!·.isEmpty))
        fun c => c = ".".toList ∨ c = "..".toList) = true := by
      rw [Bool.not_eq_true]
      exact hdotted
    simp only [hostAndPath] at hhost hdotted'
    simp only [hsplit, List.contains_eq_mem, hquery, hfragment, decide_false, Bool.or_self, Bool.false_eq_true,
      if_false, hscheme', List.isEmpty_iff, hhost, hdotted', form, hostAndPath]
    split <;> rename_i hpath <;> simp [hpath]

theorem hostAndPath_notMem (rest : Text) : '/' ∉ (hostAndPath rest).1 := by
  unfold hostAndPath
  cases hsplit : splitOnce ['/'] rest with
  | some ab => exact splitOnce_notMem hsplit
  | none =>
    intro hmem
    obtain ⟨a, b, rfl⟩ := List.append_of_mem hmem
    have hsome := splitOnce_isSome (by simp : ['/'] ≠ []) a b
    rw [List.append_assoc, List.singleton_append, hsplit] at hsome
    cases hsome

theorem hostAndPath_slashes (rest : Text) (n : Nat) :
    (hostAndPath (rest ++ List.replicate n '/')).1 = (hostAndPath rest).1 ∧
    ∃ m, (hostAndPath (rest ++ List.replicate n '/')).2 = (hostAndPath rest).2 ++ List.replicate m '/' := by
  unfold hostAndPath
  cases hsplit : splitOnce ['/'] rest with
  | some ab =>
    obtain ⟨a, b⟩ := ab
    rw [splitOnce_append hsplit]
    exact ⟨rfl, n, rfl⟩
  | none =>
    have hfree := hostAndPath_notMem rest
    rw [hostAndPath, hsplit, Option.getD_none] at hfree
    cases n with
    | zero => simp [hsplit]
    | succ n =>
      rw [List.replicate_succ, splitOnce_of_notMem hfree]
      exact ⟨rfl, n, by simp⟩

/-- The parts are of the text. -/
theorem mem_hostAndPath {rest : Text} {c : Char} (h : c ∈ (hostAndPath rest).1 ∨ c ∈ (hostAndPath rest).2) :
    c ∈ rest := by
  unfold hostAndPath at h
  cases hsplit : splitOnce ['/'] rest with
  | some ab =>
    rw [hsplit] at h
    rw [splitOnce_some hsplit]
    rcases h with h | h <;> simp [Option.getD_some ▸ h]
  | none =>
    rw [hsplit] at h
    simpa using h

theorem mem_form {rest : Text} {c : Char} (hc : c ≠ '/')
    (h : c ∈ form scheme (hostAndPath rest).1 (trimEndMatches '/' (hostAndPath rest).2)) :
    c ∈ scheme ++ schemeSep ++ rest := by
  have hpath : c ∈ trimEndMatches '/' (hostAndPath rest).2 → c ∈ rest := fun hp =>
    mem_hostAndPath (.inr ((List.rdropWhile_prefix ..).subset hp))
  simp only [form, List.mem_append, List.mem_cons, hc, false_or] at h ⊢
  rcases h with h | h | h
  · exact .inl h
  · exact .inr (mem_hostAndPath (.inl h))
  · split at h
    · cases h
    · simp only [List.mem_append, List.mem_singleton, hc, or_false] at h
      exact .inr (hpath h)

/-- What is accepted has the normal form. -/
theorem wellFormed_of_ok (h : parseTrimmed raw = .ok e) :
    ∃ scheme authority path, WellFormed scheme authority path ∧ e = form scheme authority path := by
  obtain ⟨scheme, rest, hsplit, hquery, hfragment, hscheme, hhost, hdotted, rfl⟩ := parseTrimmed_ok.1 h
  have hraw := splitOnce_some hsplit
  refine ⟨scheme, _, _, ⟨hscheme, hhost, hostAndPath_notMem rest, ?_, ?_, ?_, ?_⟩, rfl⟩
  · exact fun hmem => hquery (hraw ▸ mem_form (by decide) hmem)
  · exact fun hmem => hfragment (hraw ▸ mem_form (by decide) hmem)
  · rw [dotted_trimEnd, hdotted]
  · exact List.rdropWhile_idempotent _ _

theorem splitOnce_form (hhttp : scheme = "http".toList ∨ scheme = "https".toList) (rest : Text) :
    splitOnce schemeSep (scheme ++ schemeSep ++ rest) = some (scheme, rest) := by
  rcases hhttp with rfl | rfl <;> simp [splitOnce, schemeSep]

theorem form_last (scheme authority path : Text) : (form scheme authority path).getLast? = some '/' := by
  unfold form
  split
  · simp
  · rw [← List.cons_append, ← List.append_assoc, ← List.append_assoc, List.getLast?_concat]

theorem WellFormed.trim_form (h : WellFormed scheme authority path) :
    trim (form scheme authority path) = form scheme authority path := by
  refine trim_eq_self ?_ ?_
  · intro c hc
    have hh : c = 'h' := by
      rcases h.http with rfl | rfl <;> simpa [form, eq_comm] using hc
    subst hh
    decide
  · intro c hc
    rw [form_last] at hc
    cases hc
    decide

/-- The normal form is left as it is. -/
theorem WellFormed.parse_form (h : WellFormed scheme authority path) :
    parse (form scheme authority path) = .ok (form scheme authority path) := by
  rw [parse, h.trim_form, parseTrimmed_ok]
  have hparts : ∃ n, hostAndPath (authority ++ '/' :: if path = [] then [] else path ++ ['/']) =
      (authority, path ++ List.replicate n '/') := by
    rw [hostAndPath, splitOnce_of_notMem h.no_slash]
    split <;> rename_i hpath
    · exact ⟨0, by simp [hpath]⟩
    · exact ⟨1, rfl⟩
  obtain ⟨n, hparts⟩ := hparts
  refine ⟨scheme, _, splitOnce_form h.http _, h.no_query, h.no_fragment, h.http, ?_, ?_, ?_⟩
  · rw [hparts]
    exact h.host
  · rw [hparts, dotted_slashes, h.not_dotted]
  · rw [hparts, trimEndMatches_slashes, h.trimmed]

theorem parseTrimmed_slashes_ok (raw : Text) (n : Nat) (e : Text) :
    parseTrimmed (raw ++ List.replicate n '/') = .ok e ↔ parseTrimmed raw = .ok e := by
  have hquery : '?' ∉ raw ++ List.replicate n '/' ↔ '?' ∉ raw := by simp
  have hfragment : '#' ∉ raw ++ List.replicate n '/' ↔ '#' ∉ raw := by simp
  rw [parseTrimmed_ok, parseTrimmed_ok, hquery, hfragment]
  cases hsplit : splitOnce schemeSep raw with
  | some ab =>
    obtain ⟨scheme, rest⟩ := ab
    obtain ⟨hhost, m, hpath⟩ := hostAndPath_slashes rest n
    have hwith := splitOnce_append hsplit (List.replicate n '/')
    constructor
    · rintro ⟨scheme', rest', hsplit', h⟩
      rw [hwith] at hsplit'
      cases hsplit'
      rw [hhost, hpath, dotted_slashes, trimEndMatches_slashes] at h
      exact ⟨scheme, rest, rfl, h⟩
    · rintro ⟨scheme', rest', hsplit', h⟩
      cases hsplit'
      refine ⟨scheme, _, hwith, ?_⟩
      rw [hhost, hpath, dotted_slashes, trimEndMatches_slashes]
      exact h
  | none =>
    constructor
    · -- a separator that only the slashes complete leaves no host
      rintro ⟨scheme, rest, hsplit', -, -, -, hhost, -⟩
      obtain ⟨before, hbefore⟩ := splitOnce_suffix (by decide) hsplit hsplit'
      have hslashes : ∀ c ∈ rest, c = '/' := by
        intro c hc
        have hmem : c ∈ List.replicate n '/' := hbefore ▸ List.mem_append_right _ hc
        exact (List.mem_replicate.1 hmem).2
      cases rest with
      | nil => exact absurd rfl hhost
      | cons c rest =>
        cases hslashes c List.mem_cons_self
        exact absurd rfl hhost
    · rintro ⟨_, _, ⟨⟩, -⟩

/-! ## Taking the form apart -/

theorem afterScheme_form (hhttp : scheme = "http".toList ∨ scheme = "https".toList) (rest : Text) :
    afterScheme (scheme ++ schemeSep ++ rest) = (scheme ++ schemeSep).length := by
  rw [afterScheme, splitOnce_form hhttp, List.length_append]
  rfl

theorem WellFormed.origin_form (h : WellFormed scheme authority path) :
    origin (form scheme authority path) = scheme ++ schemeSep ++ authority := by
  unfold form
  rw [origin, afterScheme_form h.http, List.drop_left, splitOnce_of_notMem h.no_slash]
  dsimp only
  rw [← List.append_assoc, ← List.length_append, List.take_left]

theorem WellFormed.cookiePath_form (h : WellFormed scheme authority path) :
    cookiePath (form scheme authority path) = '/' :: path := by
  have hdrop : (form scheme authority path).drop (scheme ++ schemeSep ++ authority).length =
      '/' :: if path = [] then [] else path ++ ['/'] := by
    rw [form, ← List.append_assoc, List.drop_left]
  rw [cookiePath, h.origin_form, hdrop]
  by_cases hpath : path = []
  · subst hpath
    rfl
  · have hself : trimEndMatches '/' ('/' :: path) = '/' :: path := by
      have hlast := List.rdropWhile_eq_self_iff.1 h.trimmed hpath
      rw [trimEndMatches, List.rdropWhile_eq_self_iff]
      intro hne
      rwa [List.getLast_cons hpath]
    have htrim : trimEndMatches '/' ('/' :: (path ++ ['/'])) = '/' :: path :=
      (trimEndMatches_slashes ('/' :: path) 1).trans hself
    rw [if_neg hpath, htrim]
    rfl

theorem splitLastColon_some {host name port : Text} (h : splitLastColon host = some (name, port)) :
    host = name ++ port ∧ ∃ rest, port = ':' :: rest ∧ ':' ∉ rest := by
  unfold splitLastColon at h
  split at h <;> rename_i hcolon
  · cases h
    have hne : host.rdropWhile (· ≠ ':') ≠ [] := by
      intro hnil
      rw [List.rdropWhile_eq_nil_iff] at hnil
      exact absurd (hnil ':' hcolon) (by simp)
    have hlast : (host.rdropWhile (· ≠ ':')).getLast hne = ':' := by
      simpa using List.rdropWhile_last_not (fun c => decide (c ≠ ':')) host hne
    refine ⟨?_, _, rfl, fun hmem => ?_⟩
    · have hsplit := List.dropLast_append_getLast hne
      rw [hlast] at hsplit
      rw [← List.singleton_append (x := ':'), ← List.append_assoc, hsplit, List.rdropWhile_append_rtakeWhile]
    · have hne := List.mem_rtakeWhile_imp hmem
      simp at hne
  · cases h

/-- The authority is the RP ID with a port behind it, or without. -/
theorem WellFormed.rpId_form (h : WellFormed scheme authority path) : ∃ port,
    authority = rpId (form scheme authority path) ++ port ∧
      (port = [] ∨ ∃ rest, port = ':' :: rest ∧ ':' ∉ rest ∧ ']' ∉ rest) := by
  rw [rpId, h.origin_form, afterScheme_form h.http, List.drop_left]
  cases hsplit : splitLastColon authority with
  | none => exact ⟨[], by simp⟩
  | some parts =>
    obtain ⟨name, port⟩ := parts
    obtain ⟨hauthority, rest, rfl, hrest⟩ := splitLastColon_some hsplit
    by_cases hbracket : ']' ∈ ':' :: rest
    · exact ⟨[], by simp [hbracket]⟩
    · refine ⟨':' :: rest, by simp only [hbracket, if_false]; exact hauthority, .inr ⟨rest, rfl, hrest, ?_⟩⟩
      exact fun hmem => hbracket (List.mem_cons_of_mem _ hmem)

end Form

/-! ## What `parse` yields -/

/-- An `http` or `https` URL with a host, without query and fragment, whose path ends in a slash and has no
component `.` or `..`. -/
def Canonical (e : Text) : Prop :=
  ∃ scheme authority path, (scheme = "http".toList ∨ scheme = "https".toList) ∧ authority ≠ [] ∧ '/' ∉ authority ∧
    '?' ∉ e ∧ '#' ∉ e ∧ e = scheme ++ schemeSep ++ authority ++ '/' :: path ∧ e.getLast? = some '/' ∧
    ∀ c ∈ path.splitOn '/', c ≠ ".".toList ∧ c ≠ "..".toList

/-- The origin with the cookie path and a slash behind it; at the root the cookie path is that slash. The origin is
the scheme, the RP ID and maybe a port. -/
def Decomposed (e : Text) : Prop :=
  e = origin e ++ (if cookiePath e = ['/'] then ['/'] else cookiePath e ++ ['/']) ∧
    ∃ scheme port, (scheme = "http".toList ∨ scheme = "https".toList) ∧
      origin e = scheme ++ schemeSep ++ rpId e ++ port ∧
      (port = [] ∨ ∃ rest, port = ':' :: rest ∧ ':' ∉ rest ∧ ']' ∉ rest)

variable {scheme authority path : Text}

theorem WellFormed.canonical (h : WellFormed scheme authority path) : Canonical (form scheme authority path) := by
  refine ⟨scheme, authority, if path = [] then [] else path ++ ['/'], h.http, h.host, h.no_slash, h.no_query,
    h.no_fragment, by simp [form], form_last .., dotted_eq_false.1 ?_⟩
  split <;> rename_i hpath
  · rfl
  · exact (dotted_slashes path 1).trans h.not_dotted

theorem WellFormed.decomposed (h : WellFormed scheme authority path) : Decomposed (form scheme authority path) := by
  obtain ⟨port, hauthority, hport⟩ := h.rpId_form
  refine ⟨?_, scheme, port, h.http, ?_, hport⟩
  · rw [h.origin_form, h.cookiePath_form]
    by_cases hpath : path = [] <;> simp [form, hpath]
  · rw [h.origin_form, List.append_assoc _ (rpId _), ← hauthority]

/-- What `parse` accepts it brings into a canonical form that it leaves as it is and that its three readers take
apart without loss. Blanks around a text and slashes at its end make no difference. -/
theorem endpoint_parse (raw : Text) :
    (∀ e, parse raw = .ok e → Canonical e ∧ parse e = .ok e ∧ Decomposed e) ∧
    (∀ before after, (∀ c ∈ before, isWhitespace c = true) → (∀ c ∈ after, isWhitespace c = true) →
      parse (before ++ raw ++ after) = parse raw) ∧
    ((∀ c, raw.getLast? = some c → isWhitespace c = false) → ∀ n,
      (parse (raw ++ List.replicate n '/')).toOption = (parse raw).toOption) := by
  refine ⟨fun e h => ?_, fun before after hbefore hafter => ?_, fun hlast n => ?_⟩
  · obtain ⟨scheme, authority, path, hform, rfl⟩ := wellFormed_of_ok h
    exact ⟨hform.canonical, hform.parse_form, hform.decomposed⟩
  · rw [parse, parse, trim_surrounded hbefore hafter]
  · rw [parse, parse, trim_append_slashes hlast]
    have hok := parseTrimmed_slashes_ok (trim raw) n
    refine Option.ext fun e => ?_
    cases hwith : parseTrimmed (trim raw ++ List.replicate n '/') with
    | ok e' => rw [(hok e').1 hwith]
    | error _ =>
      cases hwithout : parseTrimmed (trim raw) with
      | ok e' =>
        rw [(hok e').2 hwithout] at hwith
        cases hwith
      | error _ => rfl

/-- The cookie path of a root is the closing slash itself, a slash behind a blank makes the blank a part of the path, and
an empty component in a path is taken. -/
theorem root_has_one_slash :
    parse "https://h".toList = .ok "https://h/".toList ∧
    "https://h/".toList ≠ origin "https://h/".toList ++ cookiePath "https://h/".toList ++ ['/'] ∧
    parse "https://h/a ".toList = .ok "https://h/a/".toList ∧
    parse "https://h/a /".toList = .ok "https://h/a /".toList ∧
    parse "https://h//x".toList = .ok "https://h//x/".toList := by
  refine ⟨?_, ?_, ?_, ?_, ?_⟩ <;> decide +kernel

end Hyoui.Web.Endpoint
