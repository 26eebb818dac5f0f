import FreeBox.Lib.Bytes
import FreeBox.Lib.Uuid
import Mathlib.Data.List.DropRight

/-!
# URLs

The URL parser of the URL Standard, without a base, for the schemes `http` and `https`, and
percent-encoding. How an authority (credentials, host and port) is parsed and what is a URL
of another scheme are parameters; so is whether `^` is encoded in a path, as newer versions
of the standard have it.

Results:
* `parsePath_segments`: which segments a path can have.
* `parse_append`: a segment after a slash at the end of a text.
* `parse_append_iff`: when the text after the last slash is the path of the URL.
* `percentDecode_eq_iff`: which texts stand for themselves.
-/

namespace FreeBox.Lib.Url

open Uuid (hexDigit?)

/-! ## Percent-encoding -/

/-- An upper-case hexadecimal digit. -/
def hexUpper (n : ℕ) : Char := "0123456789ABCDEF".toList.getD n '0'

def percentByte (b : UInt8) : List Char := ['%', hexUpper (b.toNat / 16), hexUpper (b.toNat % 16)]

/-- A character in UTF-8, percent-encoded if it is in the set. -/
def encodeChar (set : Char → Bool) (c : Char) : List Char :=
  if set c then (String.utf8EncodeChar c).flatMap percentByte else [c]

/-- The C0 control percent-encode set. -/
def controlSet (c : Char) : Bool := c.toNat < 0x20 ∨ 0x7E < c.toNat

/-- The fragment percent-encode set. -/
def fragmentSet (c : Char) : Bool := controlSet c ∨ c ∈ [' ', '"', '<', '>', '\x60']

/-- The special-query percent-encode set. -/
def querySet (c : Char) : Bool := controlSet c ∨ c ∈ [' ', '"', '#', '<', '>', '\x27']

/-- The path percent-encode set. -/
def pathSet (caret : Bool) (c : Char) : Bool :=
  fragmentSet c ∨ c ∈ ['#', '?', '{', '}'] ∨ caret ∧ c = '^'

/-! ## Paths -/

/-- What ends a segment of the path of a special URL. -/
def isSlash (c : Char) : Bool := c = '/' ∨ c = '\\'

def isSingleDot (s : List Char) : Bool := s.map Char.toLower ∈ [".".toList, "%2e".toList]

def isDoubleDot (s : List Char) : Bool :=
  s.map Char.toLower ∈ ["..".toList, ".%2e".toList, "%2e.".toList, "%2e%2e".toList]

/-- The path so far and the buffer of the path state. -/
structure PathState where
  path : List (List Char)
  buffer : List Char

/-- The path state at a slash. -/
def PathState.closed (st : PathState) : List (List Char) :=
  if isDoubleDot st.buffer then st.path.dropLast
  else if isSingleDot st.buffer then st.path
  else st.path ++ [st.buffer]

/-- The path state at the end of the path. -/
def PathState.finish (st : PathState) : List (List Char) :=
  if isDoubleDot st.buffer then st.path.dropLast ++ [[]]
  else if isSingleDot st.buffer then st.path ++ [[]]
  else st.path ++ [st.buffer]

/-- The path state at a character of the path. -/
def PathState.step (caret : Bool) (st : PathState) (c : Char) : PathState :=
  if isSlash c then { path := st.closed, buffer := [] }
  else { st with buffer := st.buffer ++ encodeChar (pathSet caret) c }

/-- Path start state and path state. -/
def parsePath (caret : Bool) (text : List Char) : List (List Char) :=
  let text := if text.head?.any isSlash then text.tail else text
  (text.foldl (PathState.step caret) { path := [], buffer := [] }).finish

/-! ## The parser -/

/-- The parameters: whether `^` is encoded in a path, the host of an authority, and whether
    the rest of a URL of another scheme is accepted. -/
structure Rules where
  caret : Bool
  authority : List Char → Except String (List Char)
  other : (scheme rest : List Char) → Except String Unit

/-- A URL of the scheme `http` or `https`. -/
structure HttpUrl where
  scheme : List Char
  host : List Char
  path : List (List Char)
  query : Option (List Char)
  fragment : Option (List Char)

inductive Parsed
  | http (url : HttpUrl)
  | other

/-- `Url::path`. -/
def HttpUrl.pathText (url : HttpUrl) : List Char := url.path.flatMap ('/' :: ·)

def isControlOrSpace (c : Char) : Bool := c.toNat ≤ 0x20

def isTabOrNewline (c : Char) : Bool := c ∈ ['\t', '\n', '\r']

/-- The input without leading and trailing control characters and spaces and without tabs and
    newlines. -/
def clean (input : List Char) : List Char :=
  ((input.dropWhile isControlOrSpace).rdropWhile isControlOrSpace).filter (¬ isTabOrNewline ·)

def isSchemeChar (c : Char) : Bool := c.isAlphanum ∨ c ∈ ['+', '-', '.']

/-- The scheme in lower case, and the text after the colon. -/
def splitScheme (s : List Char) : Option (List Char × List Char) :=
  let rest := s.dropWhile isSchemeChar
  if s.head?.any Char.isAlpha ∧ rest.head? = some ':' then
    some ((s.takeWhile isSchemeChar).map Char.toLower, rest.tail)
  else none

/-- What ends an authority. -/
def isEnd (c : Char) : Bool := isSlash c ∨ c ∈ ['?', '#']

/-- The authority, and the text after it. -/
def splitAuthority (s : List Char) : List Char × List Char :=
  let s := s.dropWhile isSlash
  (s.takeWhile (¬ isEnd ·), s.dropWhile (¬ isEnd ·))

/-- What ends a path. -/
def endsPath (c : Char) : Bool := c ∈ ['?', '#']

def parseQuery : List Char → Option (List Char)
  | '?' :: s => some ((s.takeWhile (· ≠ '#')).flatMap (encodeChar querySet))
  | _ => none

def parseFragment (s : List Char) : Option (List Char) :=
  match s.dropWhile (· ≠ '#') with
  | _ :: s => some (s.flatMap (encodeChar fragmentSet))
  | [] => none

/-- The path, the query and the fragment of the text after the authority. -/
def build (caret : Bool) (scheme host rest : List Char) : HttpUrl where
  scheme
  host
  path := parsePath caret (rest.takeWhile (¬ endsPath ·))
  query := parseQuery (rest.dropWhile (¬ endsPath ·))
  fragment := parseFragment rest

/-- The text after the scheme. -/
def parseHttp (rules : Rules) (scheme rest : List Char) : Except String HttpUrl :=
  if (splitAuthority rest).1 = [] then .error "empty host"
  else (rules.authority (splitAuthority rest).1).map fun host =>
    build rules.caret scheme host (splitAuthority rest).2

def parse (rules : Rules) (input : List Char) : Except String Parsed :=
  match splitScheme (clean input) with
  | none => .error "relative URL without a base"
  | some (scheme, rest) =>
    if scheme = "http".toList ∨ scheme = "https".toList then
      (parseHttp rules scheme rest).map .http
    else (rules.other scheme rest).map fun _ => .other

/-! ## Percent-decoding -/

/-- The bytes of a text that is percent-decoded. -/
def percentDecode : List Char → Bytes
  | '%' :: a :: b :: s =>
    match hexDigit? a, hexDigit? b with
    | some high, some low => .ofNat (16 * high + low) :: percentDecode s
    | _, _ => 37 :: percentDecode (a :: b :: s)
  | c :: s => String.utf8EncodeChar c ++ percentDecode s
  | [] => []

/-- There is a percent sign before two hexadecimal digits. -/
def hasEscape : List Char → Bool
  | '%' :: a :: b :: s => ((hexDigit? a).isSome && (hexDigit? b).isSome) || hasEscape (a :: b :: s)
  | _ :: s => hasEscape s
  | [] => false

/-! ## Segments -/

section Segments

variable {caret : Bool}

/-- A character that a path can have in a segment. -/
def isKept (caret : Bool) (c : Char) : Bool := !pathSet caret c && !isSlash c

/-- A segment that is its own text in the path of a URL. -/
def isSegment (caret : Bool) (s : List Char) : Bool :=
  s.all (isKept caret) && !isSingleDot s && !isDoubleDot s

theorem isSegment_iff {s : List Char} :
    isSegment caret s = true ↔
      (∀ c ∈ s, isKept caret c = true) ∧ isSingleDot s = false ∧ isDoubleDot s = false := by
  simp [isSegment, and_assoc]

theorem isKept_hexUpper : ∀ n < 16, isKept caret (hexUpper n) = true := by
  cases caret
  · decide
  · decide

theorem isKept_percentByte {b : UInt8} {c : Char} (h : c ∈ percentByte b) :
    isKept caret c = true := by
  have hb := b.toNat_lt
  simp only [percentByte, List.mem_cons, List.not_mem_nil, or_false] at h
  rcases h with rfl | rfl | rfl
  · cases caret
    · decide
    · decide
  · exact isKept_hexUpper _ (by omega)
  · exact isKept_hexUpper _ (by omega)

theorem isKept_encodeChar {c d : Char} (hc : isSlash c = false)
    (h : d ∈ encodeChar (pathSet caret) c) : isKept caret d = true := by
  rw [encodeChar] at h
  by_cases hset : pathSet caret c = true
  · rw [if_pos hset, List.mem_flatMap] at h
    obtain ⟨b, -, hd⟩ := h
    exact isKept_percentByte hd
  · rw [if_neg hset, List.mem_singleton] at h
    subst h
    rw [isKept, Bool.eq_false_iff.mpr hset, hc]
    rfl

theorem encodeChar_of_isKept {c : Char} (h : isKept caret c = true) :
    isSlash c = false ∧ encodeChar (pathSet caret) c = [c] := by
  rw [isKept, Bool.and_eq_true, Bool.not_eq_true', Bool.not_eq_true'] at h
  exact ⟨h.2, if_neg (by rw [h.1]; decide)⟩

/-- The segments so far, and the characters of the next one. -/
def PathState.Ok (caret : Bool) (st : PathState) : Prop :=
  (∀ s ∈ st.path, isSegment caret s = true) ∧ ∀ c ∈ st.buffer, isKept caret c = true

theorem isSegment_nil : isSegment caret [] = true := by
  cases caret
  · decide
  · decide

theorem PathState.Ok.mem_closed {st : PathState} (h : st.Ok caret) {s : List Char}
    (hs : s ∈ st.closed) : isSegment caret s = true := by
  unfold PathState.closed at hs
  split_ifs at hs with hdouble hsingle
  · exact h.1 s ((List.dropLast_sublist _).subset hs)
  · exact h.1 s hs
  · rw [List.mem_append, List.mem_singleton] at hs
    rcases hs with hs | rfl
    · exact h.1 s hs
    · exact isSegment_iff.mpr
        ⟨h.2, Bool.eq_false_iff.mpr hsingle, Bool.eq_false_iff.mpr hdouble⟩

theorem PathState.Ok.step {st : PathState} (h : st.Ok caret) (c : Char) :
    (st.step caret c).Ok caret := by
  unfold PathState.step
  by_cases hc : isSlash c = true
  · rw [if_pos hc]
    exact ⟨fun s hs => h.mem_closed hs, fun d hd => absurd hd List.not_mem_nil⟩
  · rw [if_neg hc]
    refine ⟨h.1, ?_⟩
    intro d hd
    rcases List.mem_append.mp hd with hd | hd
    · exact h.2 d hd
    · exact isKept_encodeChar (Bool.eq_false_iff.mpr hc) hd

theorem PathState.Ok.foldl {st : PathState} (h : st.Ok caret) (text : List Char) :
    (text.foldl (PathState.step caret) st).Ok caret := by
  induction text generalizing st with
  | nil => exact h
  | cons c text ih => exact ih (h.step c)

/-- At the end of a path an empty segment takes the place of dots. -/
theorem PathState.mem_finish {st : PathState} {s : List Char} (hs : s ∈ st.finish) :
    s ∈ st.closed ∨ s = [] := by
  unfold PathState.finish at hs
  unfold PathState.closed
  split_ifs at hs ⊢
  · simpa using hs
  · simpa using hs
  · exact .inl hs

theorem parsePath_segments (text : List Char) :
    ∀ s ∈ parsePath caret text, isSegment caret s = true := by
  have hstart : PathState.Ok caret { path := [], buffer := [] } :=
    ⟨fun s hs => absurd hs List.not_mem_nil, fun c hc => absurd hc List.not_mem_nil⟩
  intro s hs
  rcases PathState.mem_finish hs with hs | rfl
  · exact (hstart.foldl _).mem_closed hs
  · exact isSegment_nil

/-- The path state reads the text of a segment. -/
theorem foldl_segment {s : List Char} (h : ∀ c ∈ s, isKept caret c = true) (st : PathState) :
    s.foldl (PathState.step caret) st = { st with buffer := st.buffer ++ s } := by
  induction s generalizing st with
  | nil => simp
  | cons c s ih =>
    obtain ⟨hslash, hencode⟩ := encodeChar_of_isKept (h c List.mem_cons_self)
    have hstep : st.step caret c = { st with buffer := st.buffer ++ [c] } := by
      rw [PathState.step, if_neg (by rw [hslash]; decide), hencode]
    rw [List.foldl_cons, hstep, ih fun d hd => h d (List.mem_cons_of_mem c hd)]
    simp

/-- After a slash the buffer is empty. -/
theorem foldl_slash (text : List Char) (st : PathState) :
    ((text ++ ['/']).foldl (PathState.step caret) st).buffer = [] := by
  rw [List.foldl_append]
  rfl

/-- A segment after the last slash is the last segment of the path. -/
theorem parsePath_append {text name : List Char} (hname : isSegment caret name = true)
    (hhead : text.head?.any isSlash = true) (hlast : ∃ t, text = t ++ ['/']) :
    ∃ path, parsePath caret text = path ++ [[]] ∧
      parsePath caret (text ++ name) = path ++ [name] := by
  obtain ⟨hkept, hsingle, hdouble⟩ := isSegment_iff.mp hname
  obtain ⟨t, ht⟩ := hlast
  have hne : text ≠ [] := by rw [ht]; simp
  have hhead' : (text ++ name).head?.any isSlash = true := by
    rw [List.head?_append_of_ne_nil _ hne, hhead]
  set st := text.tail.foldl (PathState.step caret) { path := [], buffer := [] } with hst
  have hbuffer : st.buffer = [] := by
    cases t with
    | nil => rw [hst, ht]; rfl
    | cons d t =>
      rw [hst, ht, List.cons_append, List.tail_cons]
      exact foldl_slash t _
  refine ⟨st.path, ?_, ?_⟩
  · rw [parsePath, if_pos hhead]
    show st.finish = _
    rw [PathState.finish, hbuffer]
    rfl
  · rw [parsePath, if_pos hhead', List.tail_append_of_ne_nil hne, List.foldl_append]
    show (name.foldl _ st).finish = _
    rw [foldl_segment hkept, hbuffer, List.nil_append, PathState.finish]
    dsimp only
    rw [hdouble, hsingle]
    rfl

end Segments

/-! ## A name at the end of a URL -/

section Texts

variable {α : Type*} {p : α → Bool} {a : α} {s : List α}

theorem dropWhile_ne_nil_of_mem (ha : a ∈ s) (hp : p a = false) : s.dropWhile p ≠ [] := by
  rw [ne_eq, List.dropWhile_eq_nil_iff]
  intro hall
  exact absurd (hall a ha) (by rw [hp]; decide)

theorem dropWhile_append_of_mem (ha : a ∈ s) (hp : p a = false) (t : List α) :
    (s ++ t).dropWhile p = s.dropWhile p ++ t := by
  rw [List.dropWhile_append, if_neg]
  rw [List.isEmpty_iff]
  exact dropWhile_ne_nil_of_mem ha hp

theorem takeWhile_append_of_mem (ha : a ∈ s) (hp : p a = false) (t : List α) :
    (s ++ t).takeWhile p = s.takeWhile p := by
  induction s with
  | nil => cases ha
  | cons b s ih =>
    by_cases hb : p b = true
    · have hs : a ∈ s := by
        rcases List.mem_cons.mp ha with rfl | hs
        · exact absurd hb (by rw [hp]; decide)
        · exact hs
      rw [List.cons_append, List.takeWhile_cons_of_pos hb, List.takeWhile_cons_of_pos hb, ih hs]
    · rw [List.cons_append, List.takeWhile_cons_of_neg hb, List.takeWhile_cons_of_neg hb]

/-- What is left of a text that ends in `a`. -/
theorem exists_concat_of_suffix {t : List α} (h : t <:+ s ++ [a]) (hne : t ≠ []) :
    ∃ r, t = r ++ [a] := by
  rcases List.suffix_concat_iff.mp h with hnil | ⟨r, hr, -⟩
  · exact absurd hnil hne
  · exact ⟨r, hr⟩

end Texts

section Names

variable {caret : Bool} {name : List Char}

/-- No character of a segment ends anything in a URL. -/
theorem of_isSegment (h : isSegment caret name = true) {c : Char} (hc : c ∈ name) :
    0x20 < c.toNat ∧ isSlash c = false ∧ endsPath c = false := by
  have hkept := (isSegment_iff.mp h).1 c hc
  rw [isKept, Bool.and_eq_true, Bool.not_eq_true', Bool.not_eq_true'] at hkept
  obtain ⟨hset, hslash⟩ := hkept
  have hspace : (' ' : Char).toNat = 0x20 := rfl
  simp only [pathSet, fragmentSet, controlSet, decide_eq_false_iff_not, not_or, List.mem_cons,
    decide_eq_true_eq] at hset
  obtain ⟨⟨⟨hcontrol, -⟩, hne, -⟩, ⟨hhash, hquestion, -⟩, -⟩ := hset
  refine ⟨?_, hslash, by simp [endsPath, hhash, hquestion]⟩
  have hval : c.toNat ≠ 0x20 := by
    intro hval
    exact hne (Char.toNat_inj.mp hval)
  omega

theorem isEnd_of_isSegment (h : isSegment caret name = true) {c : Char} (hc : c ∈ name) :
    isEnd c = false := by
  obtain ⟨-, hslash, hends⟩ := of_isSegment h hc
  have hends : c ∉ ['?', '#'] := by simpa [endsPath] using hends
  simp [isEnd, hslash, hends]

theorem clean_append (h : isSegment caret name = true) (hne : name ≠ []) (front : List Char) :
    clean (front ++ '/' :: name) = clean (front ++ ['/']) ++ name ∧
      ∃ r, clean (front ++ ['/']) = r ++ ['/'] := by
  have hmem : '/' ∈ front ++ ['/'] := by simp
  have hspace : ∀ c ∈ name, isControlOrSpace c = false := by
    intro c hc
    exact decide_eq_false (Nat.not_le.mpr (of_isSegment h hc).1)
  have hkeep : name.filter (¬ isTabOrNewline ·) = name := by
    rw [List.filter_eq_self]
    intro c hc
    have hlow := (of_isSegment h hc).1
    have htab : c ∉ ['\t', '\n', '\r'] := by
      intro hc
      simp only [List.mem_cons, List.not_mem_nil, or_false] at hc
      rcases hc with rfl | rfl | rfl <;> exact absurd hlow (by decide)
    simp [isTabOrNewline, htab]
  obtain ⟨r, hr⟩ := exists_concat_of_suffix
    (List.dropWhile_suffix (l := front ++ ['/']) isControlOrSpace)
    (dropWhile_ne_nil_of_mem hmem (by decide))
  have hclean : clean (front ++ ['/']) = r.filter (¬ isTabOrNewline ·) ++ ['/'] := by
    rw [clean, hr, List.rdropWhile_concat_neg _ _ _ (by decide), List.filter_append]
    rfl
  refine ⟨?_, _, hclean⟩
  obtain ⟨n, c, hn⟩ := (List.eq_nil_or_concat name).resolve_left hne
  have hlast : (r ++ ['/'] ++ name).rdropWhile isControlOrSpace = r ++ ['/'] ++ name := by
    have hc := hspace c (by rw [hn]; simp)
    rw [hn, List.concat_eq_append, ← List.append_assoc,
      List.rdropWhile_concat_neg _ _ _ (by rw [hc]; decide)]
  have hurl : front ++ '/' :: name = front ++ ['/'] ++ name := by simp
  rw [hclean, clean, hurl, dropWhile_append_of_mem hmem (by decide), hr, hlast,
    List.filter_append, List.filter_append, hkeep]
  rfl

/-- The scheme is before the slash. -/
theorem splitScheme_append {s : List Char} (hs : '/' ∈ s) (name : List Char) :
    splitScheme (s ++ name) = (splitScheme s).map fun (scheme, rest) => (scheme, rest ++ name) := by
  have hhead : (s ++ name).head? = s.head? :=
    List.head?_append_of_ne_nil _ (List.ne_nil_of_mem hs)
  have hne : s.dropWhile isSchemeChar ≠ [] := dropWhile_ne_nil_of_mem hs (by decide)
  simp only [splitScheme, dropWhile_append_of_mem hs (show isSchemeChar '/' = false by decide),
    takeWhile_append_of_mem hs (show isSchemeChar '/' = false by decide), hhead,
    List.head?_append_of_ne_nil _ hne, List.tail_append_of_ne_nil hne]
  split_ifs
  · rfl
  · rfl

theorem splitScheme_concat {s scheme rest : List Char}
    (h : splitScheme (s ++ ['/']) = some (scheme, rest)) : ∃ r, rest = r ++ ['/'] := by
  have hmem : '/' ∈ s ++ ['/'] := by simp
  unfold splitScheme at h
  dsimp only at h
  split_ifs at h with hcolon
  obtain ⟨-, rfl⟩ := Prod.mk.inj (Option.some.inj h)
  obtain ⟨r, hr⟩ := exists_concat_of_suffix
    (List.dropWhile_suffix (l := s ++ ['/']) isSchemeChar)
    (dropWhile_ne_nil_of_mem hmem (by decide))
  rw [hr] at hcolon ⊢
  cases r with
  | nil => exact absurd hcolon.2 (by decide)
  | cons c r => exact ⟨r, rfl⟩

/-- Where only slashes are before the name, the name is the authority. -/
theorem splitAuthority_slashes (h : isSegment caret name = true) {s : List Char}
    (hs : ∀ c ∈ s, isSlash c = true) :
    splitAuthority s = ([], []) ∧ splitAuthority (s ++ name) = (name, []) := by
  have hdrop : s.dropWhile isSlash = [] := List.dropWhile_eq_nil_iff.mpr hs
  have hname : name.dropWhile isSlash = name := by
    cases name with
    | nil => rfl
    | cons c name =>
      have hc := (of_isSegment h (List.mem_cons_self (a := c) (l := name))).2.1
      rw [List.dropWhile_cons_of_neg (by rw [hc]; decide)]
  have hkeep : ∀ c ∈ name, decide (¬ isEnd c) = true := by
    intro c hc
    rw [isEnd_of_isSegment h hc]
    decide
  constructor
  · rw [splitAuthority, hdrop]
    rfl
  · rw [splitAuthority, List.dropWhile_append_of_pos hs, hname,
      List.takeWhile_eq_self_iff.mpr hkeep, List.dropWhile_eq_nil_iff.mpr hkeep]

/-- Elsewhere the authority is before the name. -/
theorem splitAuthority_append (r name : List Char) {d : Char} (hd : d ∈ r ++ ['/'])
    (hslash : isSlash d = false) :
    ∃ authority c t, isEnd c = true ∧ (∃ t', c :: t = t' ++ ['/']) ∧
      splitAuthority (r ++ ['/']) = (authority, c :: t) ∧
      splitAuthority (r ++ ['/'] ++ name) = (authority, c :: t ++ name) := by
  obtain ⟨x, hx⟩ := exists_concat_of_suffix (List.dropWhile_suffix (l := r ++ ['/']) isSlash)
    (dropWhile_ne_nil_of_mem hd hslash)
  have hmem : '/' ∈ x ++ ['/'] := by simp
  have hend : decide (¬ isEnd '/') = false := by decide
  have hne := dropWhile_ne_nil_of_mem (p := fun c => decide (¬ isEnd c)) hmem hend
  obtain ⟨c, t, hc⟩ := List.exists_cons_of_ne_nil hne
  have hhead : decide (¬ isEnd c) = false := by
    have := List.head?_dropWhile_not (fun c => decide (¬ isEnd c)) (x ++ ['/'])
    rw [hc] at this
    exact this
  refine ⟨(x ++ ['/']).takeWhile (¬ isEnd ·), c, t, by simpa using hhead, ?_, ?_, ?_⟩
  · rw [← hc]
    exact exists_concat_of_suffix (List.dropWhile_suffix _) hne
  · rw [splitAuthority, hx]
    exact congrArg _ hc
  · rw [splitAuthority, dropWhile_append_of_mem hd hslash, hx]
    exact congrArg₂ Prod.mk (takeWhile_append_of_mem hmem hend name)
      ((dropWhile_append_of_mem hmem hend name).trans (congrArg (· ++ name) hc))

theorem parseFragment_eq_none_iff {s : List Char} : parseFragment s = none ↔ '#' ∉ s := by
  constructor
  · intro h hmem
    obtain ⟨c, t, hc⟩ := List.exists_cons_of_ne_nil
      (dropWhile_ne_nil_of_mem (p := fun c => decide (c ≠ '#')) hmem (by decide))
    rw [parseFragment, hc] at h
    cases h
  · intro h
    have hdrop : s.dropWhile (fun c => decide (c ≠ '#')) = [] := by
      rw [List.dropWhile_eq_nil_iff]
      intro c hc
      exact decide_eq_true (ne_of_mem_of_not_mem hc h)
    rw [parseFragment, hdrop]

/-- A path that is the whole text. -/
theorem build_of_path {rest : List Char} (h : ∀ c ∈ rest, endsPath c = false)
    (scheme host : List Char) :
    build caret scheme host rest =
      { scheme, host, path := parsePath caret rest, query := none, fragment := none } := by
  have hall : ∀ c ∈ rest, decide (¬ endsPath c) = true := by
    intro c hc
    rw [h c hc]
    decide
  have hfragment : parseFragment rest = none := by
    rw [parseFragment_eq_none_iff]
    intro hmem
    exact absurd (h '#' hmem) (by decide)
  rw [build, List.takeWhile_eq_self_iff.mpr hall, List.dropWhile_eq_nil_iff.mpr hall, hfragment]
  rfl

/-- With more text after it, a question mark gives a query that is not empty. -/
theorem query_ne_nil {rest : List Char} (hlast : ∃ t, rest = t ++ ['/'])
    (hends : ∃ c ∈ rest, endsPath c = true) (hhash : '#' ∉ rest) (name scheme host : List Char) :
    (build caret scheme host rest).query ≠ none ∧
      (build caret scheme host (rest ++ name)).query.getD [] ≠ [] := by
  obtain ⟨c, hc, hendsc⟩ := hends
  obtain ⟨t, rfl⟩ := hlast
  have hpos : decide (¬ endsPath c) = false := by
    rw [hendsc]
    decide
  have hne := dropWhile_ne_nil_of_mem (p := fun c => decide (¬ endsPath c)) hc hpos
  obtain ⟨e, u, hu⟩ := List.exists_cons_of_ne_nil hne
  have hsuffix := List.dropWhile_suffix (l := t ++ ['/']) fun c => decide (¬ endsPath c)
  have he : e = '?' := by
    have hhead := List.head?_dropWhile_not (fun c => decide (¬ endsPath c)) (t ++ ['/'])
    rw [hu] at hhead
    have he : e ≠ '?' → e = '#' := by simpa [endsPath] using hhead
    by_contra hquestion
    obtain rfl := he hquestion
    exact hhash (hsuffix.subset (hu ▸ List.mem_cons_self))
  subst he
  obtain ⟨v, hv⟩ : ∃ v, u = v ++ ['/'] := by
    obtain ⟨r, hr⟩ := exists_concat_of_suffix hsuffix hne
    rw [hu] at hr
    cases r with
    | nil => exact absurd (List.cons.inj hr).1 (by decide)
    | cons d r => exact ⟨r, (List.cons.inj hr).2⟩
  have hslash : '/' ∈ ((u ++ name).takeWhile (fun c => decide (c ≠ '#'))).flatMap
      (encodeChar querySet) := by
    have hall : ∀ d ∈ u, decide (d ≠ '#') = true := by
      intro d hd
      refine decide_eq_true (ne_of_mem_of_not_mem ?_ hhash)
      exact hsuffix.subset (hu ▸ List.mem_cons_of_mem _ hd)
    rw [List.takeWhile_append_of_pos hall, List.flatMap_append, hv]
    simp [encodeChar, show querySet '/' = false by decide]
  constructor
  · show parseQuery ((t ++ ['/']).dropWhile fun c => decide (¬ endsPath c)) ≠ none
    rw [hu]
    exact Option.some_ne_none _
  · show (parseQuery ((t ++ ['/'] ++ name).dropWhile fun c => decide (¬ endsPath c))).getD [] ≠ []
    rw [dropWhile_append_of_mem hc hpos, hu]
    exact List.ne_nil_of_mem hslash

/-- After the authority: the name is the path if what stands before it is the path of a
    root. -/
theorem build_append_iff (hname : isSegment caret name = true) {c : Char} {t : List Char}
    (hc : isEnd c = true) (hlast : ∃ t', c :: t = t' ++ ['/']) (scheme host : List Char) :
    ((build caret scheme host (c :: t ++ name)).path = [name] ∧
        (build caret scheme host (c :: t ++ name)).query.getD [] = [] ∧
        (build caret scheme host (c :: t ++ name)).fragment = none) ↔
      (build caret scheme host (c :: t)).path = [[]] ∧
        (build caret scheme host (c :: t)).query = none ∧
        (build caret scheme host (c :: t)).fragment = none := by
  by_cases hends : ∃ d ∈ c :: t, endsPath d = true
  · by_cases hhash : '#' ∈ c :: t
    · -- a fragment in both
      refine iff_of_false ?_ ?_
      · rintro ⟨-, -, hfragment⟩
        exact parseFragment_eq_none_iff.mp hfragment (List.mem_append_left name hhash)
      · rintro ⟨-, -, hfragment⟩
        exact parseFragment_eq_none_iff.mp hfragment hhash
    · obtain ⟨hroot, hurl⟩ := @query_ne_nil caret _ hlast hends hhash name scheme host
      exact iff_of_false (fun h => hurl h.2.1) fun h => hroot h.2.1
  · have hpath : ∀ d ∈ c :: t, endsPath d = false := by
      intro d hd
      exact Bool.eq_false_iff.mpr fun h => hends ⟨d, hd, h⟩
    have hpath' : ∀ d ∈ c :: t ++ name, endsPath d = false := by
      intro d hd
      rcases List.mem_append.mp hd with hd | hd
      · exact hpath d hd
      · exact (of_isSegment hname hd).2.2
    have hslash : (c :: t).head?.any isSlash = true := by
      have hends := hpath c List.mem_cons_self
      have hc : isSlash c = true ∨ endsPath c = true := by simpa [isEnd, endsPath] using hc
      rcases hc with hc | hc
      · exact hc
      · exact absurd hc (by rw [hends]; decide)
    obtain ⟨path, hroot, hurl⟩ := parsePath_append hname hslash hlast
    rw [build_of_path hpath, build_of_path hpath']
    dsimp only
    rw [hroot, hurl]
    simp

end Names

section Parse

variable {rules : Rules} {name : List Char}

theorem map_eq_ok {α β : Type} {x : Except String α} {f : α → β} {b : β} (h : x.map f = .ok b) :
    ∃ a, x = .ok a ∧ f a = b := by
  cases x with
  | error e => cases h
  | ok a => exact ⟨a, rfl, Except.ok.inj h⟩

theorem parse_http {input : List Char} {url : HttpUrl}
    (h : parse rules input = .ok (.http url)) :
    ∃ scheme rest host, splitScheme (clean input) = some (scheme, rest) ∧
      (scheme = "http".toList ∨ scheme = "https".toList) ∧ (splitAuthority rest).1 ≠ [] ∧
      rules.authority (splitAuthority rest).1 = .ok host ∧
      url = build rules.caret scheme host (splitAuthority rest).2 := by
  unfold parse at h
  split at h
  · cases h
  · rename_i scheme rest hscheme
    split_ifs at h with hhttp
    · obtain ⟨_, hparse, heq⟩ := map_eq_ok h
      obtain rfl := Parsed.http.inj heq
      unfold parseHttp at hparse
      split_ifs at hparse with hauthority
      obtain ⟨host, hhost, rfl⟩ := map_eq_ok hparse
      exact ⟨scheme, rest, host, hscheme, hhttp, hauthority, hhost, rfl⟩
    · obtain ⟨_, -, heq⟩ := map_eq_ok h
      cases heq

theorem parse_eq {input scheme rest host : List Char}
    (hscheme : splitScheme (clean input) = some (scheme, rest))
    (hhttp : scheme = "http".toList ∨ scheme = "https".toList)
    (hauthority : (splitAuthority rest).1 ≠ [])
    (hhost : rules.authority (splitAuthority rest).1 = .ok host) :
    parse rules input = .ok (.http (build rules.caret scheme host (splitAuthority rest).2)) := by
  rw [parse, hscheme]
  dsimp only
  rw [if_pos hhttp, parseHttp, if_neg hauthority, hhost]
  rfl

/-- The text is the URL of a root: its path is a slash, and there is nothing after it. -/
def IsRoot (rules : Rules) (input : List Char) : Prop :=
  ∃ url, parse rules input = .ok (.http url) ∧ url.path = [[]] ∧ url.query = none ∧
    url.fragment = none

/-- A segment after the slash at the end of a text is the path of the URL if the text is the
    URL of a root. -/
theorem parse_segment_iff {front : List Char} {url : HttpUrl} (hname : name ≠ [])
    (hsegment : isSegment rules.caret name = true)
    (h : parse rules (front ++ '/' :: name) = .ok (.http url)) :
    (url.path = [name] ∧ url.query.getD [] = [] ∧ url.fragment = none) ↔
      IsRoot rules (front ++ ['/']) := by
  obtain ⟨scheme, rest', host, hscheme', hhttp, hauthority, hhost, rfl⟩ := parse_http h
  obtain ⟨hclean, r, hr⟩ := clean_append hsegment hname front
  rw [hclean, splitScheme_append (by rw [hr]; simp), Option.map_eq_some_iff] at hscheme'
  obtain ⟨⟨_, rest⟩, hscheme, heq⟩ := hscheme'
  obtain ⟨rfl, rfl⟩ := Prod.mk.inj heq
  obtain ⟨r', hr'⟩ := splitScheme_concat (hr ▸ hscheme)
  by_cases hslash : ∀ c ∈ rest, isSlash c = true
  · -- the name is the authority, and without a name there is none
    obtain ⟨hroot, hurl⟩ := splitAuthority_slashes hsegment hslash
    refine iff_of_false ?_ ?_
    · rintro ⟨hpath, -⟩
      rw [hurl] at hpath
      exact hname (List.cons.inj hpath).1.symm
    · rintro ⟨root, hparse, -⟩
      obtain ⟨_, _, _, hscheme₂, -, hauthority₂, -⟩ := parse_http hparse
      obtain ⟨rfl, rfl⟩ := Prod.mk.inj (Option.some.inj (hscheme.symm.trans hscheme₂))
      exact hauthority₂ (by rw [hroot])
  · simp only [not_forall, Bool.not_eq_true] at hslash
    obtain ⟨d, hd, hdslash⟩ := hslash
    subst hr'
    obtain ⟨authority, c, t, hc, hlast, hroot, hurl⟩ := splitAuthority_append r' name hd hdslash
    rw [hurl] at hauthority hhost ⊢
    have hparse := parse_eq hscheme hhttp (by rw [hroot]; exact hauthority)
      (by rw [hroot]; exact hhost)
    rw [hroot] at hparse
    rw [build_append_iff hsegment hc hlast]
    constructor
    · intro hpath
      exact ⟨_, hparse, hpath⟩
    · rintro ⟨root, hparse₂, hpath⟩
      obtain rfl := Parsed.http.inj (Except.ok.inj (hparse.symm.trans hparse₂))
      exact hpath

theorem parse_segments {input : List Char} {url : HttpUrl}
    (h : parse rules input = .ok (.http url)) :
    ∀ s ∈ url.path, isSegment rules.caret s = true := by
  obtain ⟨scheme, rest, host, -, -, -, -, rfl⟩ := parse_http h
  exact parsePath_segments _

theorem parse_append_iff {front : List Char} {url : HttpUrl} (hname : name ≠ [])
    (h : parse rules (front ++ '/' :: name) = .ok (.http url)) :
    (url.path = [name] ∧ url.query.getD [] = [] ∧ url.fragment = none) ↔
      IsRoot rules (front ++ ['/']) ∧ isSegment rules.caret name = true := by
  constructor
  · intro hurl
    have hsegment := parse_segments h name (by rw [hurl.1]; exact List.mem_cons_self)
    exact ⟨(parse_segment_iff hname hsegment h).mp hurl, hsegment⟩
  · rintro ⟨hroot, hsegment⟩
    exact (parse_segment_iff hname hsegment h).mpr hroot

/-- The text of a path of one segment. -/
theorem pathText_eq_iff {url : HttpUrl} {caret : Bool}
    (h : ∀ s ∈ url.path, isSegment caret s = true) :
    (url.pathText = '/' :: name ∧ '/' ∉ name) ↔ url.path = [name] := by
  have hslash : ∀ s ∈ url.path, '/' ∉ s := by
    intro s hs hmem
    exact absurd (of_isSegment (h s hs) hmem).2.1 (by decide)
  unfold HttpUrl.pathText
  constructor
  · rintro ⟨htext, hname⟩
    cases hpath : url.path with
    | nil =>
      rw [hpath] at htext
      cases htext
    | cons s path =>
      rw [hpath, List.flatMap_cons, List.cons_append, List.cons.injEq] at htext
      cases path with
      | nil => rw [← htext.2, List.flatMap_nil, List.append_nil]
      | cons s' path =>
        rw [← htext.2, List.flatMap_cons] at hname
        exact absurd (by simp) hname
  · intro hpath
    rw [hpath]
    exact ⟨by simp, hslash name (by rw [hpath]; exact List.mem_cons_self)⟩

end Parse

/-! ## Percent-decoding -/

/-- Decoding shortens a text with an escape, and it leaves the others as they are. -/
theorem percentDecode_cases (s : List Char) :
    (percentDecode s).length ≤ (s.flatMap String.utf8EncodeChar).length ∧
      (hasEscape s = true →
        (percentDecode s).length < (s.flatMap String.utf8EncodeChar).length) ∧
      (hasEscape s = false → percentDecode s = s.flatMap String.utf8EncodeChar) := by
  induction s using percentDecode.induct with
  | case1 a b s high low hb ha ih =>
    have hlength : ∀ c : Char, 0 < (String.utf8EncodeChar c).length := by
      intro c
      rw [String.length_utf8EncodeChar]
      exact Char.utf8Size_pos c
    have hescape : hasEscape ('%' :: a :: b :: s) = true := by
      rw [hasEscape, ha, hb]
      rfl
    have hdecode : (percentDecode ('%' :: a :: b :: s)).length = (percentDecode s).length + 1 := by
      rw [percentDecode, ha, hb]
      rfl
    have hlt : (percentDecode ('%' :: a :: b :: s)).length <
        (('%' :: a :: b :: s).flatMap String.utf8EncodeChar).length := by
      have hpercent := hlength '%'
      have ha := hlength a
      have hb := hlength b
      have hs := ih.1
      simp only [hdecode, List.flatMap_cons, List.length_append] at hs ⊢
      omega
    exact ⟨hlt.le, fun _ => hlt, fun h => absurd (hescape.symm.trans h) (by decide)⟩
  | case2 a b s hnone ih =>
    obtain ⟨hescape, hdecode⟩ : hasEscape ('%' :: a :: b :: s) = hasEscape (a :: b :: s) ∧
        percentDecode ('%' :: a :: b :: s) = 37 :: percentDecode (a :: b :: s) := by
      rw [hasEscape, percentDecode]
      cases ha : hexDigit? a with
      | none => exact ⟨rfl, rfl⟩
      | some high =>
        cases hb : hexDigit? b with
        | none => exact ⟨rfl, rfl⟩
        | some low => exact absurd hb (hnone high low ha)
    have hencode : ('%' :: a :: b :: s).flatMap String.utf8EncodeChar =
        37 :: (a :: b :: s).flatMap String.utf8EncodeChar := by
      rw [List.flatMap_cons, show String.utf8EncodeChar '%' = [37] by decide]
      rfl
    rw [hescape, hdecode, hencode, List.length_cons, List.length_cons, List.cons.injEq]
    exact ⟨by omega, fun h => by have := ih.2.1 h; omega, fun h => ⟨rfl, ih.2.2 h⟩⟩
  | case3 c s hne ih =>
    rw [percentDecode, hasEscape, List.flatMap_cons, List.length_append, List.length_append,
      List.append_cancel_left_eq]
    · exact ⟨by omega, fun h => by have := ih.2.1 h; omega, ih.2.2⟩
    · exact hne
    · exact hne
  | case4 => exact ⟨le_rfl, fun h => absurd h (by decide), fun _ => rfl⟩

theorem percentDecode_eq_iff (s : List Char) :
    percentDecode s = s.flatMap String.utf8EncodeChar ↔ hasEscape s = false := by
  obtain ⟨-, hlt, heq⟩ := percentDecode_cases s
  constructor
  · intro h
    rw [Bool.eq_false_iff]
    intro hescape
    have := hlt hescape
    rw [h] at this
    exact lt_irrefl _ this
  · exact heq

end FreeBox.Lib.Url
