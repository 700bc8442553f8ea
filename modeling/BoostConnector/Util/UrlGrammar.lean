import BoostConnector.Util.Url

/-!
# Which URLs are accepted, and what is lost

`decode_url` takes every text that begins with a scheme and `://` and goes on with anything without
blanks that does not start with a slash or a colon. Whether the expression matches is a question
about its language, and what its groups hold is read off the longest runs.

Nothing but separators is lost on the way: the parts of a URL in front of which a separator stands
are put together again without it if they are empty (`decodeUrl_accepts_reassembles`). An empty
query vanishes so even if a fragment follows it.
-/

namespace BoostConnector

namespace Util

open Text (Regex Captures)
open Text.Regex (skip Matches Within)

/-! ## The language of the expression -/

theorem matches_icase_iff {w : String} {s : Bytes} :
    (icase w).Matches s ↔ s.map toLower = ascii w := by
  rw [icase, Text.Regex.matches_literal_iff, List.forall₂_map_left_iff, eq_comm (b := ascii w),
    ← List.forall₂_eq_eq_eq, List.forall₂_map_right_iff]
  simp only [beq_iff_eq]
  exact ⟨fun h ↦ h.imp fun _ _ heq ↦ heq.symm, fun h ↦ h.imp fun _ _ heq ↦ heq.symm⟩

theorem matches_schemeRegex_iff {s : Bytes} : schemeRegex.Matches s ↔ IsScheme s := by
  simp only [schemeRegex, Matches, matches_icase_iff, IsScheme, List.mem_cons, List.not_mem_nil,
    or_false]

theorem toLower_eq_iff {c d : UInt8} (hd : d < 65) : toLower c = d ↔ c = d := by
  rw [toLower]
  split_ifs with hupper
  · -- a capital letter is no such character, and becomes a small one
    have h65 : (65 : UInt8).toNat = 65 := rfl
    have hlow := UInt8.le_iff_toNat_le.mp hupper.1
    have hhigh := UInt8.le_iff_toNat_le.mp hupper.2
    have hd' := UInt8.lt_iff_toNat_lt.mp hd
    have h90 : (90 : UInt8).toNat = 90 := rfl
    have h32 : (32 : UInt8).toNat = 32 := rfl
    rw [← UInt8.toNat_inj, ← UInt8.toNat_inj, UInt8.toNat_add]
    omega
  · exact Iff.rfl

/-- The separator behind the scheme has no letters. -/
theorem map_toLower_eq_separator_iff {s : Bytes} :
    s.map toLower = ascii "://" ↔ s = ascii "://" := by
  have hchars : ascii "://" = [58, 47, 47] := by decide
  rw [hchars]
  constructor
  · intro h
    obtain ⟨a, s, rfl, ha, h⟩ := List.map_eq_cons_iff.mp h
    obtain ⟨b, s, rfl, hb, h⟩ := List.map_eq_cons_iff.mp h
    obtain ⟨c, s, rfl, hc, h⟩ := List.map_eq_cons_iff.mp h
    rw [toLower_eq_iff (by decide)] at ha hb hc
    rw [ha, hb, hc, List.map_eq_nil_iff.mp h]
  · rintro rfl
    decide

theorem within_authorityRegex : authorityRegex.Within (noneOf " ") := by
  have hclass {excluded : String} (h : ascii " " ⊆ ascii excluded) (c : UInt8)
      (hc : noneOf excluded c = true) : noneOf " " c = true := Url.noneOf_of_subset h hc
  have hchar {expected : Char} (h : noneOf " " (byte expected) = true) (c : UInt8)
      (hc : is expected c = true) : noneOf " " c = true := by
    rw [is, beq_iff_eq] at hc
    rwa [hc]
  refine ⟨⟨hclass (by decide), hclass (by decide)⟩, hchar (by decide), hclass (by decide), ?_⟩
  refine ⟨⟨hchar (by decide), hclass (by decide)⟩, hchar (by decide), ?_⟩
  exact ⟨hclass (by decide), hchar (by decide), hclass (by decide)⟩

theorem matches_authorityRegex_iff {rest : Bytes} :
    authorityRegex.Matches rest ↔
      ∃ first s, rest = first :: s ∧ noneOf "/ :" first = true ∧ BlankFree s := by
  constructor
  · intro h
    have hblank := h.forall_mem within_authorityRegex
    obtain ⟨host, after, rfl, ⟨c, run, rfl, ⟨first, hfirst, rfl⟩, -⟩, -⟩ := h
    exact ⟨first, run ++ after, rfl, hfirst, (List.forall_mem_cons.mp hblank).2⟩
  · rintro ⟨first, s, rfl, hfirst, hs⟩
    -- one character for the host, and all others for the fragment
    refine ⟨[first], s, rfl, ⟨[first], [], rfl, ⟨first, hfirst, rfl⟩, List.forall_mem_nil _⟩, ?_⟩
    refine ⟨[], s, rfl, .inl rfl, [], s, rfl, List.forall_mem_nil _, ?_⟩
    refine ⟨[], s, rfl, ⟨[], [], rfl, .inl rfl, List.forall_mem_nil _⟩, ?_⟩
    refine ⟨[], s, rfl, .inl rfl, [], s, rfl, List.forall_mem_nil _, ?_⟩
    exact ⟨[], s, rfl, .inl rfl, hs⟩

theorem matches_urlRegex_iff {url : Bytes} :
    urlRegex.Matches url ↔
      ∃ scheme first s, IsScheme scheme ∧ url = scheme ++ (ascii "://" ++ first :: s) ∧
        noneOf "/ :" first = true ∧ BlankFree s := by
  constructor
  · rintro ⟨scheme, after, rfl, hscheme, separator, rest, rfl, hseparator, hrest⟩
    obtain ⟨first, s, rfl, hfirst, hs⟩ := matches_authorityRegex_iff.mp hrest
    obtain rfl := map_toLower_eq_separator_iff.mp (matches_icase_iff.mp hseparator)
    exact ⟨scheme, first, s, matches_schemeRegex_iff.mp hscheme, rfl, hfirst, hs⟩
  · rintro ⟨scheme, first, s, hscheme, rfl, hfirst, hs⟩
    refine ⟨scheme, _, rfl, matches_schemeRegex_iff.mpr hscheme, ascii "://", _, rfl, ?_, ?_⟩
    · exact matches_icase_iff.mpr (map_toLower_eq_separator_iff.mpr rfl)
    · exact matches_authorityRegex_iff.mpr ⟨first, s, rfl, hfirst, hs⟩

/-! ## The parts behind their separators -/

theorem mem_of_stop {excluded : String} {s : Bytes} {c : UInt8}
    (hc : c ∈ (s.dropWhile (noneOf excluded)).head?) : c ∈ ascii excluded := by
  have h := List.head?_dropWhile_not (noneOf excluded) s
  rw [Option.mem_def.mp hc] at h
  simpa [noneOf] using h

theorem takeWhile_eq_nil {p : UInt8 → Bool} {t : Bytes} (h : ∀ c ∈ t.head?, p c = false) :
    t.takeWhile p = [] := by
  cases t with
  | nil => rfl
  | cons c t => rw [List.takeWhile_cons_of_neg (by simp [h c rfl])]

theorem BlankFree.ne_blank {s : Bytes} (h : BlankFree s) {c : UInt8} (hc : c ∈ s.head?) :
    c ≠ byte ' ' := by
  rintro rfl
  exact absurd (h _ (List.mem_of_mem_head? hc)) (by decide)

/-- An optional separator and the run behind it. -/
theorem exists_behind {separator : Char} {p : UInt8 → Bool} {t : Bytes}
    (hstop : t.head? ≠ some (byte separator) → t.takeWhile p = []) :
    ∃ part, t = Url.behind separator part ++ (skip (is separator) t).dropWhile p ∧
      (skip (is separator) t).takeWhile p = part.getD [] := by
  cases t with
  | nil => exact ⟨none, rfl, rfl⟩
  | cons c s =>
    by_cases hc : c = byte separator
    · have hskip : skip (is separator) (c :: s) = s := by simp [skip, is, hc]
      refine ⟨some (s.takeWhile p), ?_, ?_⟩
      · rw [hskip, hc]
        exact congrArg (_ :: ·) List.takeWhile_append_dropWhile.symm
      · rw [hskip]
        rfl
    · have hskip : skip (is separator) (c :: s) = c :: s := by simp [skip, is, hc]
      have hnil : (c :: s).takeWhile p = [] := hstop (by simpa using hc)
      refine ⟨none, ?_, ?_⟩
      · have hsplit := List.takeWhile_append_dropWhile (p := p) (l := c :: s)
        rw [hnil] at hsplit
        rw [hskip]
        exact hsplit.symm
      · rw [hskip, hnil]
        rfl

theorem behind_eq_nil {separator : Char} {part : Option Bytes}
    (h : Url.behind separator part = []) : part = none := by
  cases part with
  | none => rfl
  | some s => exact absurd h (by simp [Url.behind])

theorem eq_take_append_of_suffix {t u : Bytes} (h : t <:+ u) :
    u = u.take (u.length - t.length) ++ t := by
  obtain ⟨front, rfl⟩ := h
  rw [Text.Regex.take_length_sub]

theorem skip_suffix (p : UInt8 → Bool) (s : Bytes) : skip p s <:+ s := by
  cases s with
  | nil => exact List.suffix_rfl
  | cons c s =>
    rw [skip]
    split_ifs
    · exact List.suffix_cons c s
    · exact List.suffix_rfl

/-- What follows the path. -/
def afterPath (u : Bytes) : Bytes := (skip (is '/') u).dropWhile (noneOf " #?")

theorem pathRuns_groups (m : Captures UInt8) (u : Bytes) :
    pathRuns m u 4 = u.take (u.length - (afterPath u).length) ∧
      pathRuns m u 5 = (skip (is '?') (afterPath u)).takeWhile (noneOf " #") ∧
      pathRuns m u 6 = skip (is '#') ((skip (is '?') (afterPath u)).dropWhile (noneOf " #")) := by
  refine ⟨?_, ?_, ?_⟩
  · simp [pathRuns, queryRuns, Function.update, afterPath]
  · simp [pathRuns, queryRuns, Function.update, afterPath]
  · simp [pathRuns, queryRuns, afterPath]

theorem afterPath_suffix (u : Bytes) : afterPath u <:+ u :=
  (List.dropWhile_suffix _).trans (skip_suffix _ u)

theorem blankFree_afterPath {u : Bytes} (hu : BlankFree u) : BlankFree (afterPath u) :=
  fun c hc ↦ hu c ((afterPath_suffix u).subset hc)

/-- The query and the fragment are behind their separators. -/
theorem exists_query_fragment {t : Bytes} (ht : BlankFree t)
    (hhead : ∀ c ∈ t.head?, c = byte '?' ∨ c = byte '#') :
    ∃ query fragment, t = Url.behind '?' query ++ Url.behind '#' fragment ∧
      (skip (is '?') t).takeWhile (noneOf " #") = query.getD [] ∧
      skip (is '#') ((skip (is '?') t).dropWhile (noneOf " #")) = fragment.getD [] := by
  obtain ⟨query, ht', hquery⟩ := @exists_behind '?' (noneOf " #") t fun hne ↦
    takeWhile_eq_nil fun c hc ↦ by
      rcases hhead c hc with rfl | rfl
      · exact absurd hc hne
      · decide
  have hrest : BlankFree ((skip (is '?') t).dropWhile (noneOf " #")) :=
    (ht.skip (is '?')).dropWhile _
  have hhash : ∀ c ∈ ((skip (is '?') t).dropWhile (noneOf " #")).head?, c = byte '#' := by
    intro c hc
    have hstop := mem_of_stop hc
    have hchars : ascii " #" = [byte ' ', byte '#'] := by decide
    rw [hchars, List.mem_cons, List.mem_singleton] at hstop
    exact hstop.resolve_left (hrest.ne_blank hc)
  generalize (skip (is '?') t).dropWhile (noneOf " #") = v at ht' hrest hhash ⊢
  obtain ⟨fragment, hv, hfragment⟩ := @exists_behind '#' (noneOf " ") v fun hne ↦
    takeWhile_eq_nil fun c hc ↦ absurd (hhash c hc ▸ hc) hne
  have hall : BlankFree (skip (is '#') v) := hrest.skip (is '#')
  rw [List.takeWhile_eq_self_iff.mpr hall] at hfragment
  rw [List.dropWhile_eq_nil_iff.mpr hall, List.append_nil] at hv
  exact ⟨query, fragment, hv ▸ ht', hquery, hfragment⟩

/-- `path[?query][#fragment]`, read back from the groups. -/
theorem pathRuns_parts {u : Bytes} (hu : BlankFree u) (hslash : ∀ c ∈ u.head?, c = byte '/')
    (m : Captures UInt8) :
    ∃ query fragment, u = pathRuns m u 4 ++ (Url.behind '?' query ++ Url.behind '#' fragment) ∧
      pathRuns m u 5 = query.getD [] ∧ pathRuns m u 6 = fragment.getD [] ∧
      (pathRuns m u 4 = [] → u = []) ∧ ∀ c ∈ (pathRuns m u 4).head?, c = byte '/' := by
  obtain ⟨hpath, hquery, hfragment⟩ := pathRuns_groups m u
  have hhead : ∀ c ∈ (afterPath u).head?, c = byte '?' ∨ c = byte '#' := by
    intro c hc
    have hstop := mem_of_stop hc
    have hchars : ascii " #?" = [byte ' ', byte '#', byte '?'] := by decide
    rw [hchars, List.mem_cons, List.mem_cons, List.mem_singleton] at hstop
    exact (hstop.resolve_left ((blankFree_afterPath hu).ne_blank hc)).symm
  obtain ⟨query, fragment, hafter, hquery', hfragment'⟩ :=
    exists_query_fragment (blankFree_afterPath hu) hhead
  have hsplit := eq_take_append_of_suffix (afterPath_suffix u)
  refine ⟨query, fragment, ?_, hquery.trans hquery', hfragment.trans hfragment', ?_, ?_⟩
  · rw [hpath, ← hafter]
    exact hsplit
  · intro hnil
    rw [← hpath, hnil, List.nil_append] at hsplit
    -- a first slash would have been taken
    cases u with
    | nil => rfl
    | cons c s =>
      have hc : c = byte '/' := hslash c rfl
      have hskip : skip (is '/') (c :: s) = s := by simp [skip, is, hc]
      have hle := (List.dropWhile_suffix (l := s) (noneOf " #?")).length_le
      rw [← hskip, ← afterPath, ← hsplit, hskip, List.length_cons] at hle
      omega
  · intro c hc
    rw [hpath, List.head?_take] at hc
    split_ifs at hc
    · exact absurd hc (by simp)
    · exact hslash c hc

/-- What follows the port. -/
def afterPort (s : Bytes) : Bytes :=
  (skip (is ':') (s.dropWhile (noneOf "/ :"))).dropWhile (noneOf "/ ")

theorem authorityRuns_eq_pathRuns (m : Captures UInt8) (first : UInt8) (s : Bytes) :
    ∃ m', authorityRuns m first s = pathRuns m' (afterPort s) := ⟨_, rfl⟩

theorem blankFree_afterPort {s : Bytes} (hs : BlankFree s) : BlankFree (afterPort s) :=
  ((hs.dropWhile _).skip _).dropWhile _

/-- The path starts where the host and the port have ended. -/
theorem head?_afterPort {s : Bytes} (hs : BlankFree s) :
    ∀ c ∈ (afterPort s).head?, c = byte '/' := by
  intro c hc
  have hstop := mem_of_stop hc
  have hchars : ascii "/ " = [byte '/', byte ' '] := by decide
  rw [hchars, List.mem_cons, List.mem_singleton] at hstop
  exact hstop.resolve_right ((blankFree_afterPort hs).ne_blank hc)

/-- The port is behind its colon. -/
theorem exists_port {s : Bytes} (hs : BlankFree s) :
    ∃ port, s.dropWhile (noneOf "/ :") = Url.behind ':' port ++ afterPort s ∧
      (skip (is ':') (s.dropWhile (noneOf "/ :"))).takeWhile (noneOf "/ ") = port.getD [] := by
  apply exists_behind
  intro hne
  apply takeWhile_eq_nil
  intro c hc
  have hstop := mem_of_stop hc
  have hchars : ascii "/ :" = [byte '/', byte ' ', byte ':'] := by decide
  rw [hchars, List.mem_cons, List.mem_cons, List.mem_singleton] at hstop
  rcases hstop with rfl | rfl | rfl
  · decide
  · exact absurd rfl ((hs.dropWhile _).ne_blank hc)
  · exact absurd hc hne

/-- `host[:port]path[?query][#fragment]`, read back from the groups. -/
theorem authorityRuns_parts {first : UInt8} {s : Bytes} (hs : BlankFree s) (m : Captures UInt8) :
    ∃ port query fragment,
      first :: s = authorityRuns m first s 2 ++ (Url.behind ':' port ++
        (authorityRuns m first s 4 ++ (Url.behind '?' query ++ Url.behind '#' fragment))) ∧
      authorityRuns m first s 3 = port.getD [] ∧ authorityRuns m first s 5 = query.getD [] ∧
      authorityRuns m first s 6 = fragment.getD [] ∧
      (authorityRuns m first s 4 = [] → query = none ∧ fragment = none) ∧
      ∀ c ∈ (authorityRuns m first s 4).head?, c = byte '/' := by
  obtain ⟨port, hport, hgroup⟩ := exists_port hs
  obtain ⟨m', hpathRuns⟩ := authorityRuns_eq_pathRuns m first s
  obtain ⟨query, fragment, hafter, hquery, hfragment, hempty, hslash⟩ :=
    pathRuns_parts (blankFree_afterPort hs) (head?_afterPort hs) m'
  refine ⟨port, query, fragment, ?_, (Url.groups_three m first s).trans hgroup, ?_, ?_, ?_, ?_⟩
  · calc first :: s
        = (first :: s.takeWhile (noneOf "/ :")) ++ s.dropWhile (noneOf "/ :") := by
          rw [List.cons_append, List.takeWhile_append_dropWhile]
      _ = authorityRuns m first s 2 ++ (Url.behind ':' port ++ afterPort s) := by
          rw [Url.groups_two, hport]
      _ = _ := by rw [hpathRuns, ← hafter]
  · rw [hpathRuns, hquery]
  · rw [hpathRuns, hfragment]
  · intro hnil
    rw [hpathRuns] at hnil
    rw [hempty hnil] at hafter
    obtain ⟨-, hbehind⟩ := List.append_eq_nil_iff.mp hafter.symm
    obtain ⟨hquery', hfragment'⟩ := List.append_eq_nil_iff.mp hbehind
    exact ⟨behind_eq_nil hquery', behind_eq_nil hfragment'⟩
  · rwa [hpathRuns]

/-! ## Acceptance and reassembly -/

/-- A part behind its separator, and nothing where the part is empty. -/
def kept (separator : Char) (part : Option Bytes) : Bytes :=
  if part.getD [] = [] then [] else byte separator :: part.getD []

theorem buildTarget_getD (path : Bytes) (query fragment : Option Bytes) :
    buildTarget path (query.getD []) (fragment.getD [])
      = (if path = [] then ascii "/" else path) ++ (kept '?' query ++ kept '#' fragment) :=
  List.append_assoc _ _ _

theorem iequals_of_isScheme {scheme : Bytes} (h : IsScheme scheme) :
    (iequals scheme (ascii "http") || iequals scheme (ascii "ws")) = true ∨
      (iequals scheme (ascii "https") || iequals scheme (ascii "wss")) = true := by
  simp only [IsScheme, List.mem_cons, List.not_mem_nil, or_false] at h
  rcases h with h | h | h | h
  all_goals
    simp only [iequals, h]
    decide

theorem exists_deducePort {scheme : Bytes} (h : IsScheme scheme) (port : Bytes) :
    ∃ service, deducePort scheme port = .ok service := by
  rw [deducePort, Bool.or_comm, Bool.or_comm (iequals scheme (ascii "wss"))]
  split_ifs with hport hplain hsecure
  · exact ⟨_, rfl⟩
  · exact ⟨_, rfl⟩
  · exact ((iequals_of_isScheme h).elim hplain hsecure).elim
  · exact ⟨_, rfl⟩

theorem exists_deduceTransport {scheme : Bytes} (h : IsScheme scheme) (port : Bytes) :
    ∃ transport, deduceTransport scheme port = .ok transport := by
  have hne : scheme ≠ [] := by
    rintro rfl
    exact absurd h (by decide)
  rw [deduceTransport, if_neg hne]
  split_ifs with hplain hsecure
  · exact ⟨_, rfl⟩
  · exact ⟨_, rfl⟩
  · exact ((iequals_of_isScheme h).elim hplain hsecure).elim

theorem noneOf_iff {excluded : String} {c : UInt8} :
    noneOf excluded c = true ↔ c ∉ ascii excluded := by
  simp [noneOf]

theorem blankFree_iff {s : Bytes} : BlankFree s ↔ byte ' ' ∉ s := by
  have hchars : ascii " " = [byte ' '] := by decide
  simp only [BlankFree, noneOf_iff, hchars, List.mem_singleton]
  constructor
  · exact fun h hmem ↦ h _ hmem rfl
  · rintro h c hc rfl
    exact h hc

/-- A text without blanks that starts a host, character by character. -/
theorem exists_cons_iff {rest : Bytes} :
    (∃ first s, rest = first :: s ∧ noneOf "/ :" first = true ∧ BlankFree s) ↔
      rest ≠ [] ∧ byte ' ' ∉ rest ∧ rest.head? ≠ some (byte '/') ∧
        rest.head? ≠ some (byte ':') := by
  have hchars : ascii "/ :" = [byte '/', byte ' ', byte ':'] := by decide
  have hhost (c : UInt8) :
      noneOf "/ :" c = true ↔ c ≠ byte '/' ∧ c ≠ byte ' ' ∧ c ≠ byte ':' := by
    rw [noneOf_iff, hchars]
    simp only [List.mem_cons, List.not_mem_nil, or_false, not_or]
  constructor
  · rintro ⟨first, s, rfl, hfirst, hs⟩
    obtain ⟨hslash, hblank, hcolon⟩ := (hhost first).mp hfirst
    refine ⟨List.cons_ne_nil _ _, ?_, by simpa using hslash, by simpa using hcolon⟩
    rw [List.mem_cons, not_or]
    exact ⟨Ne.symm hblank, blankFree_iff.mp hs⟩
  · rintro ⟨hne, hblank, hslash, hcolon⟩
    obtain ⟨first, s, rfl⟩ := List.exists_cons_of_ne_nil hne
    rw [List.mem_cons, not_or] at hblank
    refine ⟨first, s, rfl, (hhost first).mpr ⟨?_, Ne.symm hblank.1, ?_⟩, blankFree_iff.mpr hblank.2⟩
    · simpa using hslash
    · simpa using hcolon

theorem groups_one (m : Captures UInt8) (first : UInt8) (s : Bytes) :
    authorityRuns m first s 1 = m 1 := by
  simp [authorityRuns, serviceRuns, pathRuns, queryRuns, Function.update]

/-- What the groups hold when the expression matches. -/
theorem exists_of_fullMatch {url : Bytes} {groups : Captures UInt8}
    (h : urlRegex.fullMatch url = some groups) :
    ∃ scheme first s, IsScheme scheme ∧ url = scheme ++ (ascii "://" ++ first :: s) ∧
      BlankFree s ∧ groups = authorityRuns (Function.update (fun _ ↦ []) 1 scheme) first s := by
  have hmatches : urlRegex.Matches url := by
    rw [← Text.Regex.fullMatch_isSome_iff, h]
    rfl
  obtain ⟨scheme, first, s, hscheme, rfl, hfirst, hs⟩ := matches_urlRegex_iff.mp hmatches
  have hgroups := fullMatch_scheme hscheme hfirst hs
  exact ⟨scheme, first, s, hscheme, rfl, hs, Option.some_inj.mp (h.symm.trans hgroups)⟩

theorem exists_deduce {url : Bytes} {groups : Captures UInt8}
    (h : urlRegex.fullMatch url = some groups) :
    (∃ service, deducePort (groups 1) (groups 3) = .ok service) ∧
      ∃ transport, deduceTransport (groups 1) (groups 3) = .ok transport := by
  obtain ⟨scheme, first, s, hscheme, -, -, rfl⟩ := exists_of_fullMatch h
  rw [groups_one, Function.update_self]
  exact ⟨exists_deducePort hscheme _, exists_deduceTransport hscheme _⟩

/-- The only error is that the expression does not match. -/
theorem exists_ok_iff_matches {url : Bytes} :
    (∃ parts, decodeUrl url = .ok parts) ↔ urlRegex.Matches url := by
  rw [← Text.Regex.fullMatch_isSome_iff]
  constructor
  · rintro ⟨parts, hok⟩
    cases hgroups : urlRegex.fullMatch url with
    | none => simp [decodeUrl, hgroups] at hok
    | some groups => rfl
  · intro h
    obtain ⟨groups, hgroups⟩ := Option.isSome_iff_exists.mp h
    obtain ⟨⟨service, hservice⟩, transport, htransport⟩ := exists_deduce hgroups
    exact ⟨_, Url.decodeUrl_of_fullMatch hgroups hservice htransport⟩

/-- **`decode_url` accepts its grammar and loses nothing but separators.** It returns just for a
scheme, `://` and a remainder that starts a host and has no blank; no error comes from the scheme or
the port. Put together again, the parts are the remainder without the separators of empty parts, and
with a slash for an empty path. -/
theorem decodeUrl_accepts_reassembles (url : Bytes) :
    ((∃ parts, decodeUrl url = .ok parts) ↔
        ∃ scheme rest, IsScheme scheme ∧ url = scheme ++ (ascii "://" ++ rest) ∧ rest ≠ [] ∧
          byte ' ' ∉ rest ∧ rest.head? ≠ some (byte '/') ∧ rest.head? ≠ some (byte ':')) ∧
      (∀ groups, urlRegex.fullMatch url = some groups →
        (∃ service, deducePort (groups 1) (groups 3) = .ok service) ∧
          ∃ transport, deduceTransport (groups 1) (groups 3) = .ok transport) ∧
      ∀ parts, decodeUrl url = .ok parts → ∃ scheme port path query fragment,
        IsScheme scheme ∧
          url = scheme ++ (ascii "://" ++ (parts.hostname ++ (Url.behind ':' port ++
            (path ++ (Url.behind '?' query ++ Url.behind '#' fragment))))) ∧
          (port.getD [] ≠ [] → parts.service = port.getD []) ∧
          parts.pathEtc
            = (if path = [] then ascii "/" else path) ++ (kept '?' query ++ kept '#' fragment) ∧
          (path = [] → query = none ∧ fragment = none) ∧ ∀ c ∈ path.head?, c = byte '/' := by
  refine ⟨?_, fun groups ↦ exists_deduce, ?_⟩
  · rw [exists_ok_iff_matches, matches_urlRegex_iff]
    constructor
    · rintro ⟨scheme, first, s, hscheme, rfl, hrest⟩
      exact ⟨scheme, first :: s, hscheme, rfl, exists_cons_iff.mp ⟨first, s, rfl, hrest⟩⟩
    · rintro ⟨scheme, rest, hscheme, rfl, hrest⟩
      obtain ⟨first, s, rfl, hfirst⟩ := exists_cons_iff.mpr hrest
      exact ⟨scheme, first, s, hscheme, rfl, hfirst⟩
  · intro parts hok
    cases hgroups : urlRegex.fullMatch url with
    | none => simp [decodeUrl, hgroups] at hok
    | some groups =>
      obtain ⟨⟨service, hservice⟩, transport, htransport⟩ := exists_deduce hgroups
      rw [Url.decodeUrl_of_fullMatch hgroups hservice htransport] at hok
      obtain rfl := Except.ok.inj hok
      obtain ⟨scheme, first, s, hscheme, rfl, hs, rfl⟩ := exists_of_fullMatch hgroups
      obtain ⟨port, query, fragment, hsplit, hport, hquery, hfragment, hempty, hslash⟩ :=
        @authorityRuns_parts first s hs (Function.update (fun _ ↦ []) 1 scheme)
      refine ⟨scheme, port, _, query, fragment, hscheme, ?_, fun hne ↦ ?_, ?_, hempty, hslash⟩
      · rw [← hsplit]
      · rw [hport, deducePort, if_neg hne] at hservice
        exact (Except.ok.inj hservice).symm
      · dsimp only
        rw [hquery, hfragment, buildTarget_getD]

/-- The question mark is lost although there is something behind it. -/
theorem emptyQuery_dropped :
    decodeUrl (ascii "ws://h/p?#f") = .ok ⟨ascii "h", ascii "http", ascii "/p#f", .tcp⟩ ∧
      ascii "h" ++ ascii "/p#f" ≠ ascii "h/p?#f" ∧ byte ':' ∉ ascii "h/p?#f" ∧
      (ascii "h/p?#f").getLast? = some (byte 'f') := by
  decide +kernel

end Util

end BoostConnector
