import BoostConnector.Json.Value
import Mathlib.Data.List.TakeWhile

/-!
# Paths into a JSON document

A path is a string of segments separated by slashes. `dissectPath` splits it, dropping empty
segments, `toPath` joins segments again, and `findPath` follows them through a value: a segment
names a member of an object, or is the decimal subscript of an array element.

The two conversions fit together: `dissectPath` yields proper segments (`Segment`, non-empty and
free of slashes), and on those `toPath` has `dissectPath` as its inverse. A path is *canonical* when
it is what `toPath` makes of its own segments.

A C++ exception is modelled by the chain of its messages, so that what `throw_with_nested` adds at
each level can be read off.
-/

namespace BoostConnector

namespace Json

/-! ## Exceptions -/

/-- The exceptions of the path functions. Boost.JSON's own text for a failed `at` is not
modelled. -/
inductive Exception where
  | outOfRange
  | invalidArgument (what : Bytes)
  /-- `std::throw_with_nested(std::invalid_argument(what))` while `nested` is being handled. -/
  | nestedInvalidArgument (what : Bytes) (nested : Exception)
  deriving DecidableEq, Repr

/-! ## Segments -/

def isSep (s : UInt8) : Bool := s == 47

/-- `std::find_if(current, end, is_sep)`, from its two sides. -/
def untilSep (current : Bytes) : Bytes := current.takeWhile fun s ↦ !isSep s

def fromSep (current : Bytes) : Bytes := current.dropWhile fun s ↦ !isSep s

theorem length_fromSep_lt {c : UInt8} (h : isSep c = false) (rest : Bytes) :
    (fromSep (c :: rest)).length < (c :: rest).length := by
  have hlen := List.IsSuffix.length_le (List.dropWhile_suffix (l := rest) fun s ↦ !isSep s)
  simp only [fromSep, List.dropWhile_cons, h, Bool.not_false, if_true, List.length_cons]
  omega

/-- The argument is what is left of the input, from `current` to `end`. -/
def dissectPath : Bytes → List Bytes
  | [] => []
  | c :: rest =>
    if isSep c then dissectPath rest
    else untilSep (c :: rest) :: dissectPath (fromSep (c :: rest))
termination_by current => current.length
decreasing_by
  · exact Nat.lt_succ_self _
  · exact length_fromSep_lt (by simpa using ‹¬isSep c = true›) rest

def toPath (dissected : List Bytes) : Bytes :=
  let result := dissected.flatMap fun segment ↦ 47 :: segment
  if result = [] then [47] else result

example : dissectPath (ascii "//venue/ftx-prod/") = [ascii "venue", ascii "ftx-prod"] := by
  decide +kernel

/-! ## Subscripts -/

def isSpace (c : UInt8) : Bool := c == 32 || (9 ≤ c && c ≤ 13)

def isDigit (c : UInt8) : Bool := 48 ≤ c && c ≤ 57

def decimal (digits : Bytes) : ℕ := digits.foldl (fun n c ↦ 10 * n + (c.toNat - 48)) 0

/-- `s.c_str()` as the C library sees it: the string ends at its first NUL. -/
def cStr (s : Bytes) : Bytes := s.takeWhile (· != 0)

/-- `strtoul(s, &end, 10)` with a 64-bit `unsigned long`: the value returned and the number of
characters before `end`. Blanks and a sign may come before the digits, a value out of range
saturates, and a minus sign negates modulo 2⁶⁴. Without digits `end` is the start. -/
def strtoul (s : Bytes) : ℕ × ℕ :=
  let blanks := s.takeWhile isSpace
  let text := s.dropWhile isSpace
  let sign := text.take (if text.head? = some 43 ∨ text.head? = some 45 then 1 else 0)
  let digits := (text.drop sign.length).takeWhile isDigit
  let value := decimal digits
  if digits = [] then (0, 0)
  else
    (if UInt64.size ≤ value then UInt64.size - 1
      else if sign = [45] then (UInt64.size - value) % UInt64.size else value,
      blanks.length + sign.length + digits.length)

def assertUnsignedInteger (s : Bytes) : Except Exception ℕ :=
  let ret := strtoul (cStr s)
  if ret.2 ≠ s.length then .error (.invalidArgument (ascii "assert_unsigned_integer: " ++ s))
  else .ok ret.1

/-! ## Streamed strings -/

/-- A digit of an escape by number. -/
def hexDigit (n : UInt8) : UInt8 := if n < 10 then 48 + n else 87 + n

/-- How the serializer writes a character of a string: the quote, the backslash and the control
characters are escaped. -/
def escaped (c : UInt8) : Bytes :=
  match c with
  | 34 => [92, 34]
  | 92 => [92, 92]
  | 8 => [92, 98]
  | 9 => [92, 116]
  | 10 => [92, 110]
  | 12 => [92, 102]
  | 13 => [92, 114]
  | c => if c < 32 then ascii "\\u00" ++ [hexDigit (c / 16), hexDigit (c % 16)] else [c]

/-- What `operator<<` of a `json::string` writes: the string as JSON, in quotes. -/
def streamed (s : Bytes) : Bytes := 34 :: s.flatMap escaped ++ [34]

example : streamed (ascii "/a\n") = ascii "\"/a\\n\"" := by decide

/-! ## Lookup -/

/-- `o->at(name)`. -/
def atName (o : Members) (name : Bytes) : Except Exception Value :=
  match ifContains o name with
  | some v => .ok v
  | none => .error .outOfRange

/-- `a->at(i)`. -/
def atIndex (a : List Value) (i : ℕ) : Except Exception Value :=
  match a[i]? with
  | some v => .ok v
  | none => .error .outOfRange

/-- The subscript is passed as `name.c_str()`, a C string, from which a new string is made. -/
def subvalue (v : Value) (name : Bytes) : Except Exception Value :=
  match v with
  | .object o => atName o name
  | .array a =>
    match (assertUnsignedInteger (cStr name)).bind (atIndex a) with
    | .ok w => .ok w
    | .error e => .error (.nestedInvalidArgument (ascii "subvalue: " ++ name) e)
  | _ => .error (.invalidArgument (ascii "subvalue: " ++ name))

/-- The loop of `find_path`: `original` holds the segments already followed, from `original` to
`first`. -/
def findPathFrom (original : List Bytes) (current : Value) : List Bytes → Except Exception Value
  | [] => .ok current
  | first :: rest =>
    match subvalue current first with
    | .ok v => findPathFrom (original ++ [first]) v rest
    | .error e =>
      .error (.nestedInvalidArgument
        (ascii "find_path: error at " ++ streamed (toPath original) ++ ascii " evaluating " ++
          streamed first) e)

/-- `find_path` on a dissected path. -/
def findSegments (v : Value) (path : List Bytes) : Except Exception Value := findPathFrom [] v path

/-- `find_path` on a path string. -/
def findPath (v : Value) (path : Bytes) : Except Exception Value :=
  findSegments v (dissectPath path)

/-! ## What a path leads to -/

/-- A subvalue is a member of an object or an element of an array. -/
theorem child_of_subvalue {v w : Value} {name : Bytes} (h : subvalue v name = .ok w) :
    (∃ o, v = .object o ∧ (name, w) ∈ o) ∨ ∃ a, v = .array a ∧ w ∈ a := by
  cases v with
  | object o =>
    rw [subvalue, atName] at h
    cases hfind : ifContains o name with
    | none => simp [hfind] at h
    | some u =>
      obtain rfl : u = w := by simpa [hfind] using h
      exact .inl ⟨o, rfl, mem_of_ifContains hfind⟩
  | array a =>
    rw [subvalue] at h
    cases hindex : assertUnsignedInteger (cStr name) with
    | error e => simp [hindex, Except.bind] at h
    | ok i =>
      cases hat : a[i]? with
      | none => simp [hindex, Except.bind, atIndex, hat] at h
      | some u =>
        obtain rfl : u = w := by simpa [hindex, Except.bind, atIndex, hat] using h
        exact .inr ⟨a, rfl, List.mem_of_getElem? hat⟩
  | _ => simp [subvalue] at h

theorem wellFormed_of_subvalue {v w : Value} {name : Bytes} (hv : v.WellFormed)
    (h : subvalue v name = .ok w) : w.WellFormed := by
  rcases child_of_subvalue h with ⟨o, rfl, hmem⟩ | ⟨a, rfl, hmem⟩
  · exact (wellFormed_object.mp hv).2 _ hmem
  · exact wellFormed_array.mp hv w hmem

/-- What a value shares with its members and elements it shares with everything it contains. -/
theorem findPathFrom_invariant {P : Value → Prop}
    (hP : ∀ {v w : Value} {name : Bytes}, P v → subvalue v name = .ok w → P w)
    {original path : List Bytes} {v w : Value} (hv : P v)
    (h : findPathFrom original v path = .ok w) : P w := by
  induction path generalizing original v with
  | nil => exact Except.ok.inj h ▸ hv
  | cons first rest ih =>
    rw [findPathFrom] at h
    cases hsub : subvalue v first with
    | error e => simp [hsub] at h
    | ok u =>
      rw [hsub] at h
      exact ih (hP hv hsub) h

/-! ## Canonical paths -/

/-- What `dissectPath` makes segments of: non-empty strings without a slash. -/
def Segment (segment : Bytes) : Prop := segment ≠ [] ∧ ∀ c ∈ segment, isSep c = false

theorem segment_iff {segment : Bytes} : Segment segment ↔ segment ≠ [] ∧ 47 ∉ segment := by
  refine and_congr_right fun _ ↦ ⟨fun h hmem ↦ ?_, fun h c hc ↦ ?_⟩
  · exact absurd (h 47 hmem) (by decide)
  · rw [isSep, beq_eq_false_iff_ne]
    rintro rfl
    exact h hc

theorem segment_untilSep {c : UInt8} (h : isSep c = false) (rest : Bytes) :
    Segment (untilSep (c :: rest)) := by
  constructor
  · simp [untilSep, h]
  · intro d hd
    simpa using List.mem_takeWhile_imp hd

theorem segment_of_mem_dissectPath {path segment : Bytes} (h : segment ∈ dissectPath path) :
    Segment segment := by
  induction path using dissectPath.induct with
  | case1 => simp [dissectPath] at h
  | case2 c rest hc ih =>
    rw [dissectPath, if_pos hc] at h
    exact ih h
  | case3 c rest hc ih =>
    rw [dissectPath, if_neg hc, List.mem_cons] at h
    rcases h with rfl | h
    · exact segment_untilSep (by simpa using hc) rest
    · exact ih h

/-- A segment is read off up to the slash after it. -/
theorem dissectPath_segment_append {segment path : Bytes} (h : Segment segment)
    (hpath : ∀ c ∈ path.head?, isSep c = true) :
    dissectPath (segment ++ path) = segment :: dissectPath path := by
  obtain ⟨hne, hsep⟩ := h
  have huntil : untilSep path = [] := by
    cases path with
    | nil => rfl
    | cons c rest => simp [untilSep, hpath c rfl]
  have hfrom : fromSep path = path := by
    cases path with
    | nil => rfl
    | cons c rest => simp [fromSep, hpath c rfl]
  have hpos : ∀ c ∈ segment, (!isSep c) = true := fun c hc ↦ by simp [hsep c hc]
  cases segment with
  | nil => exact absurd rfl hne
  | cons c rest =>
    rw [List.cons_append, dissectPath, if_neg (by simp [hsep c List.mem_cons_self])]
    rw [← List.cons_append, untilSep, fromSep, List.takeWhile_append_of_pos hpos,
      List.dropWhile_append_of_pos hpos, ← untilSep, ← fromSep, huntil, hfrom, List.append_nil]

theorem dissectPath_flatMap {segments : List Bytes} (h : ∀ segment ∈ segments, Segment segment) :
    dissectPath (segments.flatMap fun segment ↦ 47 :: segment) = segments := by
  induction segments with
  | nil => simp [dissectPath]
  | cons segment segments ih =>
    have hrest : ∀ c ∈ (segments.flatMap fun s ↦ (47 : UInt8) :: s).head?, isSep c = true := by
      cases segments with
      | nil => simp
      | cons next segments => simp [isSep]
    rw [List.flatMap_cons, List.cons_append, dissectPath, if_pos (by rfl),
      dissectPath_segment_append (h segment List.mem_cons_self) hrest,
      ih fun s hs ↦ h s (List.mem_cons_of_mem _ hs)]

/-- **`dissectPath` undoes `toPath`** on proper segments. -/
theorem dissectPath_toPath {segments : List Bytes} (h : ∀ segment ∈ segments, Segment segment) :
    dissectPath (toPath segments) = segments := by
  rw [toPath]
  split_ifs with hempty
  · -- without a segment the path is a lone slash
    rw [← dissectPath_flatMap h, hempty]
    simp [dissectPath, isSep]
  · exact dissectPath_flatMap h

/-- What is left after a segment starts with the slash that ends it. -/
theorem isSep_head_fromSep (current : Bytes) :
    ∀ c ∈ (fromSep current).head?, isSep c = true := by
  intro c hc
  have h := List.head?_dropWhile_not (fun s ↦ !isSep s) current
  rw [← fromSep, Option.mem_def.mp hc] at h
  simpa using h

/-- **A slash separates.** What stands on either side of it is dissected by itself, whatever other
slashes there are. -/
theorem dissectPath_append_slash (p q : Bytes) :
    dissectPath (p ++ 47 :: q) = dissectPath p ++ dissectPath q := by
  induction p using dissectPath.induct with
  | case1 => simp [dissectPath, isSep]
  | case2 c rest hc ih => simpa [dissectPath, hc] using ih
  | case3 c rest hc ih =>
    have hsegment := segment_untilSep (by simpa using hc) rest
    have hsplit : untilSep (c :: rest) ++ fromSep (c :: rest) = c :: rest :=
      List.takeWhile_append_dropWhile
    -- the first segment ends at a slash of `p`, or at the one after `p`
    have hend : ∀ d ∈ (fromSep (c :: rest) ++ 47 :: q).head?, isSep d = true := by
      cases hfrom : fromSep (c :: rest) with
      | nil => simp [isSep]
      | cons d tail =>
        have hd : isSep d = true := isSep_head_fromSep (c :: rest) d (by simp [hfrom])
        simpa using hd
    calc dissectPath (c :: rest ++ 47 :: q)
        = dissectPath (untilSep (c :: rest) ++ (fromSep (c :: rest) ++ 47 :: q)) := by
          rw [← List.append_assoc, hsplit]
      _ = untilSep (c :: rest) :: (dissectPath (fromSep (c :: rest)) ++ dissectPath q) := by
          rw [dissectPath_segment_append hsegment hend, ih]
      _ = dissectPath (c :: rest) ++ dissectPath q := by
          rw [dissectPath, if_neg hc, List.cons_append]

/-- The canonical representation under which a path is indexed. -/
def Canonical (path : Bytes) : Prop := toPath (dissectPath path) = path

instance (path : Bytes) : Decidable (Canonical path) :=
  inferInstanceAs (Decidable (toPath (dissectPath path) = path))

@[simp] theorem dissectPath_toPath_dissectPath (path : Bytes) :
    dissectPath (toPath (dissectPath path)) = dissectPath path :=
  dissectPath_toPath fun _ h ↦ segment_of_mem_dissectPath h

theorem canonical_toPath_dissectPath (path : Bytes) : Canonical (toPath (dissectPath path)) := by
  rw [Canonical, dissectPath_toPath_dissectPath]

@[simp] theorem findPath_toPath_dissectPath (v : Value) (path : Bytes) :
    findPath v (toPath (dissectPath path)) = findSegments v (dissectPath path) := by
  rw [findPath, dissectPath_toPath_dissectPath]

/-- The path leads somewhere in the value. -/
def Resolves (v : Value) (path : Bytes) : Prop := ∃ w, findPath v path = .ok w

theorem resolves_iff_isOk {v : Value} {path : Bytes} :
    Resolves v path ↔ (findPath v path).isOk = true := by
  cases h : findPath v path <;> simp [Resolves, h, Except.isOk, Except.toBool]

instance (v : Value) (path : Bytes) : Decidable (Resolves v path) :=
  decidable_of_iff _ resolves_iff_isOk.symm

end Json

end BoostConnector
