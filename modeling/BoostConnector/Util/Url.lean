import BoostConnector.Json.Bytes
import BoostConnector.Text.Regex

/-!
# URLs

`decode_url` splits a URL with one regular expression. On a text without blanks every part of the
expression after the scheme matches whatever is left to it, so each of its classes takes the longest
run it can (`decodeUrl_scheme`), and what a part of the URL becomes can be read off.

The class of the host excludes `/` and `:` but not `?` and `#`, and that of the port only `/`. So
where a query or fragment follows the host or the port without a path in between, it becomes part of
it; in all other cases the parts come out as they went in (`decodeUrl_text_iff`).
-/

namespace BoostConnector

namespace Util

open Text (Regex Captures Continuation)
open Text.Regex (skip)

/-! ## Characters -/

def byte (c : Char) : UInt8 := UInt8.ofNat c.toNat

/-- `[^…]` -/
def noneOf (excluded : String) (c : UInt8) : Bool := !(ascii excluded).contains c

def is (expected : Char) (c : UInt8) : Bool := c == byte expected

def toLower (c : UInt8) : UInt8 := if 65 ≤ c ∧ c ≤ 90 then c + 32 else c

/-- `boost::algorithm::iequals` -/
def iequals (a b : Bytes) : Bool := a.map toLower == b.map toLower

/-! ## The functions of the source -/

inductive TransportType where
  | tcp
  | tls
  deriving DecidableEq, Repr

/-- `system_error(asio::error::invalid_argument, what)` -/
structure InvalidArgument where
  what : String
  deriving DecidableEq, Repr

structure UrlParts where
  hostname : Bytes
  service : Bytes
  pathEtc : Bytes
  transport : TransportType
  deriving DecidableEq, Repr

def deducePort (scheme port : Bytes) : Except InvalidArgument Bytes :=
  if port = [] then
    if iequals scheme (ascii "ws") || iequals scheme (ascii "http") then .ok (ascii "http")
    else if iequals scheme (ascii "wss") || iequals scheme (ascii "https") then .ok (ascii "https")
    else .error ⟨"can't deduce port"⟩
  else .ok port

def deduceTransport (scheme port : Bytes) : Except InvalidArgument TransportType :=
  if scheme = [] then
    if port = [] then .ok .tcp
    else if iequals port (ascii "http") || iequals port (ascii "ws") || iequals port (ascii "80") then
      .ok .tcp
    else if iequals port (ascii "https") || iequals port (ascii "wss") || iequals port (ascii "443")
      then .ok .tls
    else .error ⟨"cannot deduce transport"⟩
  else if iequals scheme (ascii "http") || iequals scheme (ascii "ws") then .ok .tcp
  else if iequals scheme (ascii "https") || iequals scheme (ascii "wss") then .ok .tls
  else .error ⟨"invalid scheme"⟩

def buildTarget (path query fragment : Bytes) : Bytes :=
  (if path = [] then ascii "/" else path) ++
    (if query = [] then [] else ascii "?" ++ query) ++
    (if fragment = [] then [] else ascii "#" ++ fragment)

/-- A literal of the pattern, which is matched with `icase`. -/
def icase (s : String) : Regex UInt8 :=
  .literal ((ascii s).map fun expected c ↦ toLower c == expected)

/-- `(ws|wss|http|https)` -/
def schemeRegex : Regex UInt8 :=
  .group 1 (.alt (icase "ws") (.alt (icase "wss") (.alt (icase "http") (icase "https"))))

/-- `([^ #]*)#?([^ ]*)` -/
def queryRegex : Regex UInt8 :=
  .seq (.group 5 (.many (noneOf " #"))) (.seq (.opt (is '#')) (.group 6 (.many (noneOf " "))))

/-- `(/?[^ #?]*)\x3f?`, and the query -/
def pathRegex : Regex UInt8 :=
  .seq (.group 4 (.seq (.opt (is '/')) (.many (noneOf " #?")))) (.seq (.opt (is '?')) queryRegex)

/-- `([^/ :]+):?([^/ ]*)`, and the path -/
def authorityRegex : Regex UInt8 :=
  .seq (.group 2 (.oneOrMore (noneOf "/ :")))
    (.seq (.opt (is ':')) (.seq (.group 3 (.many (noneOf "/ "))) pathRegex))

def urlRegex : Regex UInt8 := .seq schemeRegex (.seq (icase "://") authorityRegex)

def decodeUrl (url : Bytes) : Except InvalidArgument UrlParts :=
  match urlRegex.fullMatch url with
  | none => .error ⟨"invalid url"⟩
  | some groups => do
    let service ← deducePort (groups 1) (groups 3)
    let transport ← deduceTransport (groups 1) (groups 3)
    return {
      hostname := groups 2
      service := service
      pathEtc := buildTarget (groups 4) (groups 5) (groups 6)
      transport := transport }

example : decodeUrl (ascii "WSS://ftx.com:443/ws?a=b#c") =
    .ok ⟨ascii "ftx.com", ascii "443", ascii "/ws?a=b#c", .tls⟩ := by decide +kernel

example : decodeUrl (ascii "ftp://ftx.com") = .error ⟨"invalid url"⟩ := by decide +kernel

/-! ## The scheme -/

/-- One of the four schemes, in any letter case. -/
def IsScheme (scheme : Bytes) : Prop :=
  scheme.map toLower ∈ [ascii "ws", ascii "wss", ascii "http", ascii "https"]

instance (scheme : Bytes) : Decidable (IsScheme scheme) := inferInstanceAs (Decidable (_ ∈ _))

/-- The scheme is matched as a whole: a shorter one is tried first where there is one, but it is not
followed by `://`. -/
theorem urlRegex_andThen {scheme : Bytes} (h : IsScheme scheme) (rest : Bytes)
    {k : Continuation UInt8} {m : Captures UInt8}
    (hk : (authorityRegex.andThen k rest (Function.update m 1 scheme)).isSome = true) :
    urlRegex.andThen k (scheme ++ (ascii "://" ++ rest)) m
      = authorityRegex.andThen k rest (Function.update m 1 scheme) := by
  obtain ⟨result, hresult⟩ := Option.isSome_iff_exists.mp hk
  have hcolon : toLower 58 = 58 := by decide
  have hslash : toLower 47 = 47 := by decide
  have hnames : [ascii "ws", ascii "wss", ascii "http", ascii "https"]
      = [[119, 115], [119, 115, 115], [104, 116, 116, 112], [104, 116, 116, 112, 115]] := by decide
  simp only [IsScheme, hnames, List.mem_cons, List.not_mem_nil, or_false] at h
  rcases h with h | h | h | h
  · obtain ⟨a, scheme, rfl, ha, h⟩ := List.map_eq_cons_iff.mp h
    obtain ⟨b, scheme, rfl, hb, h⟩ := List.map_eq_cons_iff.mp h
    obtain rfl := List.map_eq_nil_iff.mp h
    simp [urlRegex, schemeRegex, icase, Text.Regex.literal, Text.Regex.andThen, ascii, ha, hb,
      hcolon, hslash, hresult]
  · obtain ⟨a, scheme, rfl, ha, h⟩ := List.map_eq_cons_iff.mp h
    obtain ⟨b, scheme, rfl, hb, h⟩ := List.map_eq_cons_iff.mp h
    obtain ⟨c, scheme, rfl, hc, h⟩ := List.map_eq_cons_iff.mp h
    obtain rfl := List.map_eq_nil_iff.mp h
    simp [urlRegex, schemeRegex, icase, Text.Regex.literal, Text.Regex.andThen, ascii, ha, hb, hc,
      hcolon, hslash, hresult]
  · obtain ⟨a, scheme, rfl, ha, h⟩ := List.map_eq_cons_iff.mp h
    obtain ⟨b, scheme, rfl, hb, h⟩ := List.map_eq_cons_iff.mp h
    obtain ⟨c, scheme, rfl, hc, h⟩ := List.map_eq_cons_iff.mp h
    obtain ⟨d, scheme, rfl, hd, h⟩ := List.map_eq_cons_iff.mp h
    obtain rfl := List.map_eq_nil_iff.mp h
    simp [urlRegex, schemeRegex, icase, Text.Regex.literal, Text.Regex.andThen, ascii, ha, hb, hc,
      hd, hcolon, hslash, hresult]
  · obtain ⟨a, scheme, rfl, ha, h⟩ := List.map_eq_cons_iff.mp h
    obtain ⟨b, scheme, rfl, hb, h⟩ := List.map_eq_cons_iff.mp h
    obtain ⟨c, scheme, rfl, hc, h⟩ := List.map_eq_cons_iff.mp h
    obtain ⟨d, scheme, rfl, hd, h⟩ := List.map_eq_cons_iff.mp h
    obtain ⟨e, scheme, rfl, he, h⟩ := List.map_eq_cons_iff.mp h
    obtain rfl := List.map_eq_nil_iff.mp h
    simp [urlRegex, schemeRegex, icase, Text.Regex.literal, Text.Regex.andThen, ascii, ha, hb, hc,
      hd, he, hcolon, hslash, hresult]

/-! ## The longest runs -/

/-- No blank stops a class of the expression early. -/
def BlankFree (s : Bytes) : Prop := ∀ c ∈ s, noneOf " " c = true

theorem BlankFree.dropWhile {s : Bytes} (h : BlankFree s) (p : UInt8 → Bool) :
    BlankFree (s.dropWhile p) := fun c hc ↦ h c ((List.dropWhile_suffix p).subset hc)

theorem BlankFree.skip {s : Bytes} (h : BlankFree s) (p : UInt8 → Bool) : BlankFree (skip p s) := by
  intro c hc
  cases s with
  | nil => exact h c hc
  | cons d s =>
    simp only [Text.Regex.skip] at hc
    split_ifs at hc
    · exact h c (List.mem_cons_of_mem _ hc)
    · exact h c hc

/-- The continuation of `regex_match`. -/
def finish : Continuation UInt8 := fun rest m ↦ if rest.isEmpty then some m else none

def queryRuns (m : Captures UInt8) (s : Bytes) : Captures UInt8 :=
  Function.update (Function.update m 5 (s.takeWhile (noneOf " #"))) 6
    (skip (is '#') (s.dropWhile (noneOf " #")))

def pathRuns (m : Captures UInt8) (s : Bytes) : Captures UInt8 :=
  let rest := (skip (is '/') s).dropWhile (noneOf " #?")
  queryRuns (Function.update m 4 (s.take (s.length - rest.length))) (skip (is '?') rest)

def serviceRuns (m : Captures UInt8) (s : Bytes) : Captures UInt8 :=
  pathRuns (Function.update m 3 (s.takeWhile (noneOf "/ "))) (s.dropWhile (noneOf "/ "))

/-- What the groups capture if each class takes the longest run. The host is the first character and
the run after it. -/
def authorityRuns (m : Captures UInt8) (first : UInt8) (s : Bytes) : Captures UInt8 :=
  serviceRuns (Function.update m 2 (first :: s.takeWhile (noneOf "/ :")))
    (skip (is ':') (s.dropWhile (noneOf "/ :")))

open Text.Regex in
theorem queryRegex_andThen {s : Bytes} (hs : BlankFree s) (m : Captures UInt8) :
    queryRegex.andThen finish s m = some (queryRuns m s) := by
  have hfragment {s : Bytes} (hs : BlankFree s) (m : Captures UInt8) :
      (group 6 (many (noneOf " "))).andThen finish s m = some (Function.update m 6 s) := by
    have hrest : s.dropWhile (noneOf " ") = [] := List.dropWhile_eq_nil_iff.mpr hs
    have hcaptured : s.takeWhile (noneOf " ") = s := List.takeWhile_eq_self_iff.mpr hs
    apply group_many_andThen
    rw [hcaptured, hrest]
    rfl
  apply group_many_andThen
  apply opt_andThen
  exact hfragment ((hs.dropWhile (noneOf " #")).skip (is '#')) _

open Text.Regex in
theorem pathRegex_andThen {s : Bytes} (hs : BlankFree s) (m : Captures UInt8) :
    pathRegex.andThen finish s m = some (pathRuns m s) := by
  have hrest := opt_andThen
    (queryRegex_andThen (((hs.skip (is '/')).dropWhile (noneOf " #?")).skip (is '?'))
      (Function.update m 4
        (s.take (s.length - ((skip (is '/') s).dropWhile (noneOf " #?")).length))))
  refine (group_eq _ (fun k hk ↦ ?_) ?_).trans hrest
  · -- the slash is taken, and then the run
    have hrun := many_eq_of_isSome hk
    exact (opt_eq_of_isSome (hrun ▸ hk)).trans hrun
  · exact Option.isSome_of_eq_some hrest

open Text.Regex in
/-- The expression matches every text without blanks, each of its classes the longest run. -/
theorem authorityRegex_andThen {first : UInt8} {s : Bytes} (hfirst : noneOf "/ :" first = true)
    (hs : BlankFree s) (m : Captures UInt8) :
    authorityRegex.andThen finish (first :: s) m = some (authorityRuns m first s) := by
  have hservice {s : Bytes} (hs : BlankFree s) (m : Captures UInt8) :
      (seq (group 3 (many (noneOf "/ "))) pathRegex).andThen finish s m
        = some (serviceRuns m s) := by
    apply group_many_andThen
    exact pathRegex_andThen (hs.dropWhile (noneOf "/ ")) _
  have hcaptured : (first :: s).take ((first :: s).length - (s.dropWhile (noneOf "/ :")).length)
      = first :: s.takeWhile (noneOf "/ :") := by
    have h := take_length_sub_dropWhile (noneOf "/ :") (first :: s)
    rwa [List.dropWhile_cons_of_pos hfirst, List.takeWhile_cons_of_pos hfirst] at h
  have hrest := opt_andThen (hservice ((hs.dropWhile (noneOf "/ :")).skip (is ':'))
    (Function.update m 2 (first :: s.takeWhile (noneOf "/ :"))))
  refine (group_eq (s.dropWhile (noneOf "/ :"))
    (fun _ hk ↦ oneOrMore_eq_of_isSome hfirst hk) ?_).trans ?_
  · rw [hcaptured]
    exact Option.isSome_of_eq_some hrest
  · rw [hcaptured]
    exact hrest

/-- What the groups capture in a URL that begins with a scheme. -/
theorem fullMatch_scheme {scheme s : Bytes} {first : UInt8} (h : IsScheme scheme)
    (hfirst : noneOf "/ :" first = true) (hs : BlankFree s) :
    urlRegex.fullMatch (scheme ++ (ascii "://" ++ first :: s))
      = some (authorityRuns (Function.update (fun _ ↦ []) 1 scheme) first s) := by
  have hauthority := authorityRegex_andThen hfirst hs (Function.update (fun _ ↦ []) 1 scheme)
  have hscheme := urlRegex_andThen h (first :: s) (k := finish) (m := fun _ ↦ [])
    (by rw [hauthority]; rfl)
  exact hscheme.trans hauthority

/-! ## URLs of the grammar -/

/-- A URL in its parts. None of them holds a blank or the separators of the parts after it. -/
structure Url where
  scheme : Bytes
  host : Bytes
  port : Option Bytes
  path : Bytes
  query : Option Bytes
  fragment : Option Bytes
  isScheme : IsScheme scheme
  host_ne_nil : host ≠ []
  host_plain : ∀ c ∈ host, noneOf "/:?# " c = true
  port_ne_nil : ∀ p ∈ port, p ≠ []
  port_plain : ∀ p ∈ port, ∀ c ∈ p, noneOf "/:?# " c = true
  path_slash : path = [] ∨ path.head? = some (byte '/')
  path_plain : ∀ c ∈ path, noneOf "?# " c = true
  query_ne_nil : ∀ q ∈ query, q ≠ []
  query_plain : ∀ q ∈ query, ∀ c ∈ q, noneOf "# " c = true
  fragment_ne_nil : ∀ f ∈ fragment, f ≠ []
  fragment_plain : ∀ f ∈ fragment, ∀ c ∈ f, noneOf " " c = true

namespace Url

variable (u : Url)

/-- A part of the URL behind its separator. -/
def behind (separator : Char) (part : Option Bytes) : Bytes :=
  part.elim [] (byte separator :: ·)

/-- `[?query][#fragment]` -/
def suffix : Bytes := behind '?' u.query ++ behind '#' u.fragment

/-- `[:port]path[?query][#fragment]` -/
def afterHost : Bytes := behind ':' u.port ++ (u.path ++ u.suffix)

/-- `scheme://host[:port]path[?query][#fragment]` -/
def text : Bytes := u.scheme ++ (ascii "://" ++ (u.host ++ u.afterHost))

def isSecure : Bool := u.scheme.map toLower = ascii "wss" ∨ u.scheme.map toLower = ascii "https"

/-- What `decode_url` should find. -/
def parts : UrlParts where
  hostname := u.host
  service := u.port.getD (if u.isSecure then ascii "https" else ascii "http")
  pathEtc := (if u.path = [] then ascii "/" else u.path) ++ u.suffix
  transport := if u.isSecure then .tls else .tcp

/-! ## What the parts become -/

theorem noneOf_of_subset {small big : String} (h : ascii small ⊆ ascii big) {c : UInt8}
    (hc : noneOf big c = true) : noneOf small c = true := by
  simp only [noneOf, Bool.not_eq_true', List.contains_eq_mem, decide_eq_false_iff_not] at hc ⊢
  exact fun hmem ↦ hc (h hmem)

variable {u : Url} {m : Captures UInt8}

theorem head?_behind {separator : Char} {part : Option Bytes} {c : UInt8}
    (h : c ∈ (behind separator part).head?) : c = byte separator := by
  cases part with
  | none => simp [behind] at h
  | some part => simpa [behind, eq_comm] using h

theorem head?_append {s t : Bytes} {c : UInt8} (h : c ∈ (s ++ t).head?) :
    c ∈ s.head? ∨ s = [] ∧ c ∈ t.head? := by
  cases s with
  | nil => exact .inr ⟨rfl, h⟩
  | cons d s => exact .inl h

/-- A character is skipped if it is the separator. -/
theorem skip_behind {separator : Char} {part : Option Bytes} {rest : Bytes}
    (hrest : ∀ c ∈ rest.head?, c ≠ byte separator) :
    skip (is separator) (behind separator part ++ rest) = part.getD [] ++ rest := by
  cases part with
  | none =>
    cases rest with
    | nil => rfl
    | cons c rest => simp [behind, skip, is, hrest c rfl]
  | some part => simp [behind, skip, is]

theorem queryRuns_suffix (u : Url) (m : Captures UInt8) : queryRuns m (skip (is '?') u.suffix)
    = Function.update (Function.update m 5 (u.query.getD [])) 6 (u.fragment.getD []) := by
  have hskip : skip (is '?') u.suffix = u.query.getD [] ++ behind '#' u.fragment := by
    refine skip_behind fun c hc ↦ ?_
    rw [head?_behind hc]
    decide
  have hquery : ∀ c ∈ u.query.getD [], noneOf " #" c = true := by
    intro c hc
    cases hq : u.query with
    | none => simp [hq] at hc
    | some q =>
      refine noneOf_of_subset (by decide) (u.query_plain q hq c ?_)
      simpa [hq] using hc
  have hstop : ∀ c ∈ (behind '#' u.fragment).head?, noneOf " #" c = false := by
    intro c hc
    rw [head?_behind hc]
    decide
  have hfragment : skip (is '#') (behind '#' u.fragment) = u.fragment.getD [] := by
    have h : skip (is '#') (behind '#' u.fragment ++ []) = u.fragment.getD [] ++ [] :=
      skip_behind (by simp)
    rwa [List.append_nil, List.append_nil] at h
  rw [queryRuns, hskip, Text.takeWhile_append_of_stop hquery hstop,
    Text.dropWhile_append_of_stop hquery hstop, hfragment]

/-- The query and the fragment are behind a path, or there are none. -/
def HasPath (u : Url) : Prop := u.path ≠ [] ∨ u.query = none ∧ u.fragment = none

instance (u : Url) : Decidable u.HasPath := inferInstanceAs (Decidable (_ ∨ _ ∧ _))

theorem suffix_eq_nil (h : u.query = none ∧ u.fragment = none) : u.suffix = [] := by
  rw [suffix, h.1, h.2]
  rfl

theorem head?_suffix {c : UInt8} (h : c ∈ u.suffix.head?) : c = byte '?' ∨ c = byte '#' :=
  (head?_append h).imp head?_behind fun h ↦ head?_behind h.2

/-- What is left behind the port begins with the path. -/
theorem HasPath.head? (h : u.HasPath) {c : UInt8} (hc : c ∈ (u.path ++ u.suffix).head?) :
    c = byte '/' := by
  rcases head?_append hc with hc | ⟨hpath, hc⟩
  · rcases u.path_slash with hnil | hslash
    · simp [hnil] at hc
    · rw [hslash] at hc
      exact (Option.some_inj.mp hc).symm
  · rw [suffix_eq_nil (h.resolve_left (not_not_intro hpath))] at hc
    simp at hc

theorem pathRuns_path (h : u.HasPath) (m : Captures UInt8) : pathRuns m (u.path ++ u.suffix)
    = Function.update (Function.update (Function.update m 4 u.path) 5 (u.query.getD [])) 6
        (u.fragment.getD []) := by
  have hstop : ∀ c ∈ u.suffix.head?, noneOf " #?" c = false := by
    intro c hc
    rcases head?_suffix hc with rfl | rfl <;> decide
  have hrest : (skip (is '/') (u.path ++ u.suffix)).dropWhile (noneOf " #?") = u.suffix := by
    cases hpath : u.path with
    | nil => simp [suffix_eq_nil (h.resolve_left (not_not_intro hpath)), skip]
    | cons c path =>
      have hc : c = byte '/' := h.head? (by rw [hpath]; rfl)
      have hskip : skip (is '/') (c :: path ++ u.suffix) = path ++ u.suffix := by
        simp [skip, is, hc]
      rw [hskip]
      refine Text.dropWhile_append_of_stop (fun d hd ↦ ?_) hstop
      refine noneOf_of_subset (by decide) (u.path_plain d ?_)
      rw [hpath]
      exact List.mem_cons_of_mem _ hd
  rw [pathRuns, hrest, Text.Regex.take_length_sub]
  exact queryRuns_suffix u _

theorem serviceRuns_port (h : u.HasPath) (m : Captures UInt8) :
    serviceRuns m (u.port.getD [] ++ (u.path ++ u.suffix))
      = Function.update (Function.update (Function.update (Function.update m 3 (u.port.getD [])) 4
          u.path) 5 (u.query.getD [])) 6 (u.fragment.getD []) := by
  have hstop : ∀ c ∈ (u.path ++ u.suffix).head?, noneOf "/ " c = false := by
    intro c hc
    rw [h.head? hc]
    decide
  have hport : ∀ c ∈ u.port.getD [], noneOf "/ " c = true := by
    intro c hc
    cases hp : u.port with
    | none => simp [hp] at hc
    | some p =>
      refine noneOf_of_subset (by decide) (u.port_plain p hp c ?_)
      simpa [hp] using hc
  rw [serviceRuns, Text.takeWhile_append_of_stop hport hstop,
    Text.dropWhile_append_of_stop hport hstop]
  exact pathRuns_path h _

/-- The host without its first character. -/
theorem exists_host (u : Url) : ∃ first rest, u.host = first :: rest ∧
    noneOf "/ :" first = true ∧ ∀ c ∈ rest, noneOf "/ :" c = true := by
  obtain ⟨first, rest, hhost⟩ := List.exists_cons_of_ne_nil u.host_ne_nil
  have hplain : ∀ c ∈ first :: rest, noneOf "/ :" c = true := fun c hc ↦
    noneOf_of_subset (by decide) (u.host_plain c (hhost ▸ hc))
  exact ⟨first, rest, hhost, hplain first List.mem_cons_self,
    fun c hc ↦ hplain c (List.mem_cons_of_mem _ hc)⟩

theorem blankFree_getD {separator : String} {part : Option Bytes}
    (hsep : ascii " " ⊆ ascii separator) (h : ∀ s ∈ part, ∀ c ∈ s, noneOf separator c = true)
    {b : Char} (hb : noneOf " " (byte b) = true) :
    BlankFree (behind b part) := by
  intro c hc
  cases part with
  | none => simp [behind] at hc
  | some s =>
    rcases List.mem_cons.mp hc with rfl | hc
    · exact hb
    · exact noneOf_of_subset hsep (h s rfl c hc)

theorem blankFree_suffix (u : Url) : BlankFree u.suffix :=
  List.forall_mem_append.mpr ⟨blankFree_getD (by decide) u.query_plain (by decide),
    blankFree_getD (by decide) u.fragment_plain (by decide)⟩

theorem blankFree_afterHost (u : Url) : BlankFree u.afterHost := by
  refine List.forall_mem_append.mpr ⟨blankFree_getD (by decide) u.port_plain (by decide), ?_⟩
  refine List.forall_mem_append.mpr ⟨fun c hc ↦ ?_, u.blankFree_suffix⟩
  exact noneOf_of_subset (by decide) (u.path_plain c hc)

/-- The expression matches the text of every URL. -/
theorem fullMatch_text (u : Url) {first : UInt8} {rest : Bytes} (hhost : u.host = first :: rest)
    (hfirst : noneOf "/ :" first = true) :
    urlRegex.fullMatch u.text = some (authorityRuns (Function.update (fun _ ↦ []) 1 u.scheme) first
      (rest ++ u.afterHost)) := by
  have hblank : BlankFree (rest ++ u.afterHost) := by
    refine List.forall_mem_append.mpr ⟨fun c hc ↦ ?_, u.blankFree_afterHost⟩
    exact noneOf_of_subset (by decide) (u.host_plain c (hhost ▸ List.mem_cons_of_mem _ hc))
  rw [text, hhost]
  exact fullMatch_scheme u.isScheme hfirst hblank

theorem deducePort_port (u : Url) : deducePort u.scheme (u.port.getD [])
    = .ok (u.port.getD (if u.isSecure then ascii "https" else ascii "http")) := by
  cases hport : u.port with
  | some p =>
    have hne : p ≠ [] := u.port_ne_nil p hport
    simp only [deducePort, Option.getD_some, hne, if_false]
  | none =>
    have h := u.isScheme
    simp only [IsScheme, List.mem_cons, List.not_mem_nil, or_false] at h
    rcases h with h | h | h | h
    all_goals
      simp only [deducePort, iequals, isSecure, h]
      decide

theorem deduceTransport_scheme (u : Url) (port : Bytes) :
    deduceTransport u.scheme port = .ok (if u.isSecure then .tls else .tcp) := by
  have hne : u.scheme ≠ [] := by
    intro hnil
    have h := u.isScheme
    rw [hnil] at h
    exact absurd h (by decide)
  have h := u.isScheme
  rw [deduceTransport, if_neg hne]
  simp only [IsScheme, List.mem_cons, List.not_mem_nil, or_false] at h
  rcases h with h | h | h | h
  all_goals
    simp only [iequals, isSecure, h]
    decide

theorem buildTarget_path (u : Url) : buildTarget u.path (u.query.getD []) (u.fragment.getD [])
    = (if u.path = [] then ascii "/" else u.path) ++ u.suffix := by
  have hpart (separator : Char) {s : String} (hs : ascii s = [byte separator]) {part : Option Bytes}
      (hne : ∀ p ∈ part, p ≠ []) : (if part.getD [] = [] then [] else ascii s ++ part.getD [])
        = behind separator part := by
    cases part with
    | none => rfl
    | some p => simp [hne p rfl, hs, behind]
  rw [buildTarget, hpart '?' (by decide) u.query_ne_nil,
    hpart '#' (by decide) u.fragment_ne_nil, suffix, List.append_assoc]

theorem decodeUrl_of_fullMatch {url : Bytes} {groups : Captures UInt8} {service : Bytes}
    {transport : TransportType} (hgroups : urlRegex.fullMatch url = some groups)
    (hservice : deducePort (groups 1) (groups 3) = .ok service)
    (htransport : deduceTransport (groups 1) (groups 3) = .ok transport) :
    decodeUrl url
      = .ok ⟨groups 2, service, buildTarget (groups 4) (groups 5) (groups 6), transport⟩ := by
  simp only [decodeUrl, hgroups, hservice, htransport]
  rfl

/-- With a path in front of them, the query and the fragment come out as they went in. -/
theorem decodeUrl_of_hasPath (h : u.HasPath) : decodeUrl u.text = .ok u.parts := by
  obtain ⟨first, rest, hhost, hfirst, hrest⟩ := u.exists_host
  have hstop : ∀ c ∈ u.afterHost.head?, noneOf "/ :" c = false := by
    intro c hc
    rcases head?_append hc with hc | ⟨-, hc⟩
    · rw [head?_behind hc]
      decide
    · rw [h.head? hc]
      decide
  have hskip : skip (is ':') u.afterHost = u.port.getD [] ++ (u.path ++ u.suffix) := by
    refine skip_behind fun c hc ↦ ?_
    rw [h.head? hc]
    decide
  have hgroups := u.fullMatch_text hhost hfirst
  rw [authorityRuns, Text.takeWhile_append_of_stop hrest hstop,
    Text.dropWhile_append_of_stop hrest hstop, hskip, serviceRuns_port h, ← hhost] at hgroups
  refine (decodeUrl_of_fullMatch hgroups u.deducePort_port (u.deduceTransport_scheme _)).trans ?_
  rw [parts, ← u.buildTarget_path]
  rfl

/-! ## Without a path -/

/-- Where nothing that stops the class comes, the run goes on. -/
theorem length_takeWhile_append {p : UInt8 → Bool} {run rest : Bytes} {c : UInt8}
    (hrun : ∀ c ∈ run, p c = true) (hc : c ∈ rest.head?) (hpc : p c = true) :
    run.length < ((run ++ rest).takeWhile p).length := by
  cases rest with
  | nil => simp at hc
  | cons d rest =>
    obtain rfl : d = c := Option.some_inj.mp hc
    rw [List.takeWhile_append_of_pos hrun, List.takeWhile_cons_of_pos hpc, List.length_append,
      List.length_cons]
    omega

theorem groups_two (m : Captures UInt8) (first : UInt8) (s : Bytes) :
    authorityRuns m first s 2 = first :: s.takeWhile (noneOf "/ :") := by
  simp [authorityRuns, serviceRuns, pathRuns, queryRuns, Function.update]

theorem groups_three (m : Captures UInt8) (first : UInt8) (s : Bytes) :
    authorityRuns m first s 3
      = (skip (is ':') (s.dropWhile (noneOf "/ :"))).takeWhile (noneOf "/ ") := by
  simp [authorityRuns, serviceRuns, pathRuns, queryRuns, Function.update]

/-- The name of the host and a service that is given are taken from the groups as they are. -/
theorem of_decodeUrl_eq_ok {url : Bytes} {groups : Captures UInt8} {parts : UrlParts}
    (hmatch : urlRegex.fullMatch url = some groups) (h : decodeUrl url = .ok parts) :
    parts.hostname = groups 2 ∧ (groups 3 ≠ [] → parts.service = groups 3) := by
  simp only [decodeUrl, hmatch] at h
  cases hservice : deducePort (groups 1) (groups 3) with
  | error e => simp [hservice, bind, Except.bind] at h
  | ok service =>
    cases htransport : deduceTransport (groups 1) (groups 3) with
    | error e => simp [hservice, htransport, bind, Except.bind] at h
    | ok transport =>
      simp only [hservice, htransport, bind, Except.bind, pure, Except.pure, Except.ok.injEq] at h
      subst h
      refine ⟨rfl, fun hne ↦ ?_⟩
      rw [deducePort, if_neg hne] at hservice
      exact (Except.ok.inj hservice).symm

/-- Without a path the query or the fragment becomes part of the port, if there is one, and of the
host otherwise. -/
theorem decodeUrl_of_not_hasPath (h : ¬u.HasPath) : decodeUrl u.text ≠ .ok u.parts := by
  intro hok
  have hpath : u.path = [] := by
    by_contra hne
    exact h (.inl hne)
  obtain ⟨c, hc⟩ : ∃ c, c ∈ u.suffix.head? := by
    rw [suffix]
    cases hquery : u.query with
    | some q => exact ⟨byte '?', rfl⟩
    | none =>
      cases hfragment : u.fragment with
      | some f => exact ⟨byte '#', rfl⟩
      | none => exact absurd (.inr ⟨hquery, hfragment⟩) h
  have hafter : u.afterHost = behind ':' u.port ++ u.suffix := by
    rw [afterHost, hpath, List.nil_append]
  have hplain : c = byte '?' ∨ c = byte '#' := head?_suffix hc
  obtain ⟨first, rest, hhost, hfirst, hrest⟩ := u.exists_host
  have hmatch := u.fullMatch_text hhost hfirst
  obtain ⟨hname, hservice⟩ := of_decodeUrl_eq_ok hmatch hok
  cases hport : u.port with
  | none =>
    rw [groups_two, hafter, hport] at hname
    have hlonger := length_takeWhile_append hrest hc
      (by rcases hplain with rfl | rfl <;> decide)
    have hlength := congrArg List.length (hhost.symm.trans hname)
    simp only [List.length_cons, behind, Option.elim_none, List.nil_append] at hlength
    omega
  | some p =>
    have hp : ∀ d ∈ p, noneOf "/ " d = true := fun d hd ↦
      noneOf_of_subset (by decide) (u.port_plain p hport d hd)
    have hgroup : authorityRuns (Function.update (fun _ ↦ []) 1 u.scheme) first
        (rest ++ u.afterHost) 3 = (p ++ u.suffix).takeWhile (noneOf "/ ") := by
      have hskip : skip (is ':') (behind ':' (some p) ++ u.suffix) = p ++ u.suffix :=
        skip_behind fun d hd ↦ by rcases head?_suffix hd with rfl | rfl <;> decide
      rw [groups_three, hafter, hport, Text.dropWhile_append_of_stop hrest, hskip]
      intro d hd
      rw [← Option.some_inj.mp hd]
      decide
    have hlonger := length_takeWhile_append hp hc
      (by rcases hplain with rfl | rfl <;> decide)
    rw [hgroup] at hservice
    have hne : (p ++ u.suffix).takeWhile (noneOf "/ ") ≠ [] := by
      intro hnil
      rw [hnil, List.length_nil] at hlonger
      omega
    have hlength := congrArg List.length (hservice hne)
    simp only [parts, hport, Option.getD_some] at hlength
    omega

/-- **`decode_url` recovers the parts of a URL** exactly when the query and the fragment are behind
a path, or there are none. -/
theorem decodeUrl_text_iff (u : Url) : decodeUrl u.text = .ok u.parts ↔ u.HasPath := by
  constructor
  · intro hok
    by_contra h
    exact decodeUrl_of_not_hasPath h hok
  · exact decodeUrl_of_hasPath

/-- `ws://h?q` -/
def queryAfterHost : Url where
  scheme := ascii "ws"
  host := ascii "h"
  port := none
  path := []
  query := some (ascii "q")
  fragment := none
  isScheme := by decide
  host_ne_nil := by decide
  host_plain := List.all_eq_true.mp (by decide)
  port_ne_nil := by decide
  port_plain := by decide
  path_slash := by decide
  path_plain := List.forall_mem_nil _
  query_ne_nil := by decide
  query_plain q hq := by
    obtain rfl := Option.some_inj.mp hq
    exact List.all_eq_true.mp (by decide)
  fragment_ne_nil := by decide
  fragment_plain := by decide

/-- The query is taken for part of the host. -/
theorem decodeUrl_queryAfterHost : decodeUrl queryAfterHost.text
      = .ok ⟨ascii "h?q", ascii "http", ascii "/", .tcp⟩ ∧
    decodeUrl queryAfterHost.text ≠ .ok queryAfterHost.parts := by
  decide +kernel

end Url

end Util

end BoostConnector
