import FreeBox.Lib.Double
import FreeBox.Lib.Json
import FreeBox.Lib.Uuid

/-!
# JSON texts

The values of JSON, `JSON.parse` of ECMAScript, and the texts of objects as
`serde_json` prints them, without white space. A text of ECMAScript is a list of UTF-16
code units; a number is a finite binary64 number as a rational.

Results:
* `readString_escape`: a printed string is read again.
* `readNumber_number`: so is a decimal number, rounded.
* `parse_object`: so is an object, member by member.
-/

namespace FreeBox.Lib.JsonText

open Double Json
open Uuid (hexDigit?)

inductive Value
  | null
  | bool (b : Bool)
  | number (x : ℚ)
  | string (units : List UInt16)
  | array (elements : List Value)
  | object (members : List (List UInt16 × Value))

/-- The UTF-16 code units of a character. -/
def utf16 (c : Char) : List UInt16 :=
  if c.toNat < 0x10000 then [.ofNat c.toNat]
  else [.ofNat (0xD800 + (c.toNat - 0x10000) / 0x400), .ofNat (0xDC00 + c.toNat % 0x400)]

/-! ## Printing -/

/-- `ESCAPE` of `serde_json`: what a character of a string is printed as. -/
def escape (c : Char) : List Char :=
  if c = '"' ∨ c = '\\' then ['\\', c]
  else if c = '\x08' then ['\\', 'b']
  else if c = '\t' then ['\\', 't']
  else if c = '\n' then ['\\', 'n']
  else if c = '\x0c' then ['\\', 'f']
  else if c = '\r' then ['\\', 'r']
  else if c.toNat < 0x20 then
    ['\\', 'u', '0', '0', Nat.digitChar (c.toNat / 16), Nat.digitChar (c.toNat % 16)]
  else [c]

def string (s : List Char) : List Char := '"' :: s.flatMap escape ++ ['"']

/-- The members of an object after the first one, and the closing brace. A member is its
    name and the text of its value. -/
def objectTail : List (List Char × List Char) → List Char
  | [] => ['}']
  | (name, text) :: members => ',' :: string name ++ ':' :: text ++ objectTail members

def object : List (List Char × List Char) → List Char
  | [] => ['{', '}']
  | (name, text) :: members => '{' :: string name ++ ':' :: text ++ objectTail members

/-! ## Reading -/

/-- The text after white space. -/
def skipSpace (s : List Char) : List Char := s.dropWhile (· ∈ [' ', '\t', '\n', '\r'])

/-- The code unit of four hexadecimal digits. -/
def hex4 (a b c d : Char) : Option UInt16 :=
  (hexDigit? a).bind fun a => (hexDigit? b).bind fun b => (hexDigit? c).bind fun c =>
    (hexDigit? d).map fun d => .ofNat (4096 * a + 256 * b + 16 * c + d)

/-- The code unit that a character after a backslash stands for. -/
def unescape (c : Char) : Option UInt16 :=
  if c = '"' ∨ c = '\\' ∨ c = '/' then some (.ofNat c.toNat)
  else if c = 'b' then some 8
  else if c = 't' then some 9
  else if c = 'n' then some 10
  else if c = 'f' then some 12
  else if c = 'r' then some 13
  else none

/-- A string after its opening quotation mark. -/
def readString : List Char → Option (List UInt16 × List Char)
  | [] => none
  | '"' :: s => some ([], s)
  | '\\' :: 'u' :: h₁ :: h₂ :: h₃ :: h₄ :: s =>
    (hex4 h₁ h₂ h₃ h₄).bind fun unit =>
      (readString s).map fun (units, rest) => (unit :: units, rest)
  | '\\' :: c :: s =>
    (unescape c).bind fun unit => (readString s).map fun (units, rest) => (unit :: units, rest)
  | c :: s =>
    if c = '\\' ∨ c.toNat < 0x20 then none
    else (readString s).map fun (units, rest) => (utf16 c ++ units, rest)

/-- A fraction, if there is one. -/
def readFraction : List Char → Option (List Char × List Char)
  | '.' :: s =>
    if s.takeWhile Char.isDigit = [] then none
    else some (s.takeWhile Char.isDigit, s.dropWhile Char.isDigit)
  | s => some ([], s)

/-- The sign and the digits of an exponent, if there is one. -/
def readExponent : List Char → Option (Bool × List Char × List Char)
  | [] => some (false, [], [])
  | c :: s =>
    if c = 'e' ∨ c = 'E' then
      let digits := if s.head? = some '-' ∨ s.head? = some '+' then s.tail else s
      if digits.takeWhile Char.isDigit = [] then none
      else some (s.head? = some '-', digits.takeWhile Char.isDigit, digits.dropWhile Char.isDigit)
    else some (false, [], c :: s)

/-- A number: no zero stands before another digit. -/
def readNumber (s : List Char) : Option (ℚ × List Char) :=
  let negative := s.head? = some '-'
  let s := if negative then s.tail else s
  let whole := s.takeWhile Char.isDigit
  if whole = [] ∨ whole.head? = some '0' ∧ whole ≠ ['0'] then none
  else
    (readFraction (s.dropWhile Char.isDigit)).bind fun (fraction, s) =>
      (readExponent s).map fun (small, digits, rest) =>
        let exponent : ℤ := Nat.ofDigitChars 10 digits 0
        let x := fl (Nat.ofDigitChars 10 (whole ++ fraction) 0 *
          10 ^ ((if small then -exponent else exponent) - fraction.length))
        (if negative then -x else x, rest)

mutual

/-- A value, after white space. `fuel` bounds the depth of the recursion. -/
def readValue : (fuel : ℕ) → List Char → Option (Value × List Char)
  | 0, _ => none
  | fuel + 1, s =>
    match skipSpace s with
    | '"' :: s => (readString s).map fun (units, rest) => (.string units, rest)
    | '[' :: s =>
      match skipSpace s with
      | ']' :: s => some (.array [], s)
      | s => (readElements fuel s).map fun (elements, rest) => (.array elements, rest)
    | '{' :: s =>
      match skipSpace s with
      | '}' :: s => some (.object [], s)
      | s => (readMembers fuel s).map fun (members, rest) => (.object members, rest)
    | 'n' :: 'u' :: 'l' :: 'l' :: s => some (.null, s)
    | 't' :: 'r' :: 'u' :: 'e' :: s => some (.bool true, s)
    | 'f' :: 'a' :: 'l' :: 's' :: 'e' :: s => some (.bool false, s)
    | s => (readNumber s).map fun (x, rest) => (.number x, rest)

/-- The elements of an array up to its closing bracket. -/
def readElements : (fuel : ℕ) → List Char → Option (List Value × List Char)
  | 0, _ => none
  | fuel + 1, s =>
    (readValue fuel s).bind fun (value, s) =>
      match skipSpace s with
      | ',' :: s =>
        (readElements fuel s).map fun (elements, rest) => (value :: elements, rest)
      | ']' :: s => some ([value], s)
      | _ => none

/-- The members of an object up to its closing brace. -/
def readMembers : (fuel : ℕ) → List Char → Option (List (List UInt16 × Value) × List Char)
  | 0, _ => none
  | fuel + 1, s =>
    match skipSpace s with
    | '"' :: s =>
      (readString s).bind fun (name, s) =>
        match skipSpace s with
        | ':' :: s =>
          (readValue fuel s).bind fun (value, s) =>
            match skipSpace s with
            | ',' :: s =>
              (readMembers fuel s).map fun (members, rest) => ((name, value) :: members, rest)
            | '}' :: s => some ([(name, value)], s)
            | _ => none
        | _ => none
    | _ => none

end

/-- `JSON.parse`. Two levels of the recursion take at least one character. -/
def parse (s : List Char) : Option Value :=
  (readValue (2 * s.length + 2) s).bind fun (value, rest) =>
    if skipSpace rest = [] then some value else none

/-- The last member of a name, of the names that only objects have. -/
def Value.get (value : Value) (name : List UInt16) : Option Value :=
  match value with
  | .object members => ((members.filter fun m => m.1 = name).getLast?).map Prod.snd
  | _ => none

/-! ## Strings -/

theorem hex4_control : ∀ n < 32,
    hex4 '0' '0' (Nat.digitChar (n / 16)) (Nat.digitChar (n % 16)) = some (.ofNat n) := by
  decide +kernel

theorem utf16_of_lt {c : Char} (h : c.toNat < 0x10000) : utf16 c = [.ofNat c.toNat] := if_pos h

theorem readString_escape_append (c : Char) (s : List Char) :
    readString (escape c ++ s) =
      (readString s).map fun (units, rest) => (utf16 c ++ units, rest) := by
  unfold escape
  split_ifs with hquote hb ht hn hf hr hcontrol
  · rcases hquote with rfl | rfl <;> rfl
  · subst hb; rfl
  · subst ht; rfl
  · subst hn; rfl
  · subst hf; rfl
  · subst hr; rfl
  · show (hex4 '0' '0' _ _).bind _ = _
    rw [hex4_control _ hcontrol, Option.bind_some, utf16_of_lt (by omega)]
    rfl
  · rw [not_or] at hquote
    rw [List.singleton_append, readString, if_neg (not_or.mpr ⟨hquote.2, hcontrol⟩)]
    · exact hquote.1
    · intro _ _ _ _ _ hc; exact absurd hc hquote.2
    · intro _ _ hc; exact absurd hc hquote.2

theorem readString_escape (s rest : List Char) :
    readString (s.flatMap escape ++ '"' :: rest) = some (s.flatMap utf16, rest) := by
  induction s with
  | nil => rfl
  | cons c s ih =>
    rw [List.flatMap_cons, List.append_assoc, readString_escape_append, ih]
    rfl

/-- Most characters need no escape. -/
theorem escape_eq_self {c : Char} (h : c ≠ '"' ∧ c ≠ '\\' ∧ 0x20 ≤ c.toNat) : escape c = [c] := by
  obtain ⟨hquote, hslash, hcontrol⟩ := h
  have hne : ∀ d, d.toNat < 0x20 → c ≠ d := fun d hd hc => by subst hc; omega
  rw [escape, if_neg (by tauto), if_neg (hne _ (by decide)), if_neg (hne _ (by decide)),
    if_neg (hne _ (by decide)), if_neg (hne _ (by decide)), if_neg (hne _ (by decide)),
    if_neg (by omega)]

/-! ## Numbers -/

/-- No other number begins with a zero. -/
theorem head_number (n : ℕ) : number n = ['0'] ∨ (number n).head? ≠ some '0' := by
  induction n using Nat.strong_induction_on with
  | _ n ih =>
    by_cases hn : n < 10
    · have hdigit : ∀ d < 10, Nat.digitChar d = '0' → d = 0 := by decide
      rw [number, Nat.toDigits_of_lt_base hn]
      by_cases hzero : n = 0
      · subst hzero
        exact .inl rfl
      · exact .inr fun h => hzero (hdigit n hn (Option.some.inj h))
    · have hsplit : number n = number (n / 10) ++ [Nat.digitChar (n % 10)] :=
        Nat.toDigits_of_base_le (by decide) (by omega)
      have hne : number (n / 10) ≠ [] := Nat.toDigits_ne_nil
      have hhead : (number n).head? = (number (n / 10)).head? := by
        rw [hsplit, List.head?_append_of_ne_nil _ hne]
      rw [hhead]
      rcases ih (n / 10) (by omega) with hzero | hpos
      · have hval : Nat.ofDigitChars 10 (number (n / 10)) 0 = 0 := by rw [hzero]; rfl
        rw [number, Nat.ofDigitChars_ten_toDigits] at hval
        omega
      · exact .inr hpos

/-- What may stand after a number. -/
def EndsNumber (c : Char) : Prop := c.isDigit = false ∧ c ≠ '.' ∧ c ≠ 'e' ∧ c ≠ 'E'

theorem readNumber_number (n : ℕ) {s : List Char} (hs : ∀ c ∈ s.head?, EndsNumber c) :
    readNumber (number n ++ s) = some (fl n, s) := by
  have hdigit : ∀ c ∈ number n, c.isDigit = true := fun c hc =>
    Nat.isDigit_of_mem_toDigits (by decide) (by decide) hc
  have hne : number n ≠ [] := Nat.toDigits_ne_nil
  have hsign : ¬ (number n ++ s).head? = some '-' := by
    rw [List.head?_append_of_ne_nil _ hne]
    intro h
    exact absurd (hdigit '-' (List.mem_of_head? h)) (by decide)
  have htake : (number n ++ s).takeWhile Char.isDigit = number n := by
    rw [List.takeWhile_append_of_pos hdigit]
    cases s with
    | nil => exact List.append_nil _
    | cons c s => rw [List.takeWhile_cons_of_neg (by simp [(hs c rfl).1]), List.append_nil]
  have hdrop : (number n ++ s).dropWhile Char.isDigit = s := by
    rw [List.dropWhile_append_of_pos hdigit]
    cases s with
    | nil => rfl
    | cons c s => rw [List.dropWhile_cons_of_neg (by simp [(hs c rfl).1])]
  have hzero : ¬ (number n = [] ∨ (number n).head? = some '0' ∧ number n ≠ ['0']) := by
    have := head_number n
    tauto
  have hfraction : readFraction s = some ([], s) := by
    unfold readFraction
    split
    · exact absurd rfl (hs '.' rfl).2.1
    · rfl
  have hexponent : readExponent s = some (false, [], s) := by
    cases s with
    | nil => rfl
    | cons c s => rw [readExponent, if_neg (not_or.mpr (hs c rfl).2.2)]
  have hvalue : Nat.ofDigitChars 10 (number n) 0 = n := Nat.ofDigitChars_ten_toDigits
  simp only [readNumber, hsign, Bool.false_eq_true, if_false, htake, hdrop,
    if_neg hzero, hfraction, hexponent, Option.bind_some, Option.map_some, List.append_nil, hvalue]
  simp

/-! ## Values and objects -/

/-- The text of a value, before the end of a member. -/
def Reads (text : List Char) (value : Value) : Prop :=
  ∀ fuel rest, (∀ c ∈ rest.head?, c = ',' ∨ c = '\x7d') →
    readValue (fuel + 1) (text ++ rest) = some (value, rest)

theorem skipSpace_cons {c : Char} (h : c ∉ [' ', '\t', '\n', '\r']) (s : List Char) :
    skipSpace (c :: s) = c :: s := by
  rw [skipSpace, List.dropWhile_cons_of_neg (by simpa using h)]

theorem reads_string (s : List Char) : Reads (string s) (.string (s.flatMap utf16)) := by
  intro fuel rest _
  rw [string, List.cons_append, List.cons_append, List.append_assoc, readValue,
    skipSpace_cons (by decide)]
  show (readString _).map _ = _
  rw [List.singleton_append, readString_escape]
  rfl

theorem reads_number (n : ℕ) : Reads (number n) (.number (fl n)) := by
  intro fuel rest hrest
  have hends : ∀ c ∈ rest.head?, EndsNumber c := by
    intro c hc
    unfold EndsNumber
    rcases hrest c hc with rfl | rfl
    · decide
    · decide
  obtain ⟨d, ds, hd⟩ := List.exists_cons_of_ne_nil (Nat.toDigits_ne_nil (n := n) (b := 10))
  have hdigit : d.isDigit = true :=
    Nat.isDigit_of_mem_toDigits (by decide) (by decide) (hd ▸ List.mem_cons_self)
  have hskip : skipSpace (number n ++ rest) = number n ++ rest := by
    rw [number, hd, List.cons_append, skipSpace_cons]
    intro h
    have hall : [' ', '\t', '\n', '\r'].all (fun c => !c.isDigit) = true := by decide
    have hspace := List.all_eq_true.mp hall d h
    rw [hdigit] at hspace
    exact absurd hspace (by decide)
  have hhead : (number n ++ rest).head? = some d := by rw [number, hd]; rfl
  rw [readValue, hskip]
  -- no other value begins with a digit
  split
  case h_7 => rw [readNumber_number n hends]; rfl
  all_goals
    rename_i heq
    rw [heq] at hhead
    obtain rfl := Option.some.inj hhead
    exact absurd hdigit (by decide)

/-- A member: its name, the text of its value and the value. -/
abbrev Field := List Char × List Char × Value

def Field.text (f : Field) : List Char × List Char := (f.1, f.2.1)

def Field.member (f : Field) : List UInt16 × Value := (f.1.flatMap utf16, f.2.2)

/-- The first member, before a comma or the closing brace. -/
theorem readMembers_member {f : Field} (h : Reads f.2.1 f.2.2) {c : Char}
    (hc : c = ',' ∨ c = '\x7d') (fuel : ℕ) (rest : List Char) :
    readMembers (fuel + 2) (string f.1 ++ ':' :: f.2.1 ++ c :: rest) =
      if c = ',' then
        (readMembers (fuel + 1) rest).map fun (members, rest) => (f.member :: members, rest)
      else some ([f.member], rest) := by
  have hspace : c ∉ [' ', '\t', '\n', '\r'] := by
    rcases hc with rfl | rfl
    · decide
    · decide
  rw [string, List.append_assoc, List.cons_append, List.cons_append, List.append_assoc,
    readMembers, skipSpace_cons (by decide)]
  show (readString _).bind _ = _
  rw [List.singleton_append, readString_escape, Option.bind_some]
  dsimp only
  rw [List.cons_append, skipSpace_cons (by decide)]
  show (readValue _ _).bind _ = _
  rw [h fuel (c :: rest) (by simpa using hc), Option.bind_some]
  dsimp only
  rw [skipSpace_cons hspace]
  rcases hc with rfl | rfl
  · rfl
  · rfl

theorem readMembers_objectTail (f : Field) (fs : List Field)
    (h : ∀ g ∈ f :: fs, Reads g.2.1 g.2.2) {fuel : ℕ} (hfuel : fs.length + 2 ≤ fuel)
    (rest : List Char) :
    readMembers fuel (string f.1 ++ ':' :: f.2.1 ++ objectTail (fs.map Field.text) ++ rest) =
      some ((f :: fs).map Field.member, rest) := by
  have hf := h f List.mem_cons_self
  induction fs generalizing f fuel with
  | nil =>
    obtain ⟨fuel, rfl⟩ := Nat.exists_eq_add_of_le' hfuel
    rw [List.append_assoc]
    exact readMembers_member hf (.inr rfl) fuel rest
  | cons g fs ih =>
    obtain ⟨fuel, rfl⟩ := Nat.exists_eq_add_of_le' hfuel
    have hfs : fs.length + 2 ≤ fuel + (fs.length + 1) + 1 := by omega
    have htail := ih g (fun k hk => h k (List.mem_cons_of_mem f hk)) hfs
      (h g (List.mem_cons_of_mem f List.mem_cons_self))
    have hsplit : string f.1 ++ ':' :: f.2.1 ++ objectTail ((g :: fs).map Field.text) ++ rest =
        string f.1 ++ ':' :: f.2.1 ++
          ',' :: (string g.1 ++ ':' :: g.2.1 ++ objectTail (fs.map Field.text) ++ rest) := by
      rw [List.map_cons, objectTail, List.append_assoc]
      rfl
    rw [hsplit]
    show readMembers (fuel + (fs.length + 1) + 2) _ = _
    rw [readMembers_member hf (.inl rfl), if_pos rfl, htail]
    rfl

theorem length_le_objectTail (members : List (List Char × List Char)) :
    members.length < (objectTail members).length := by
  induction members with
  | nil => exact Nat.one_pos
  | cons m members ih =>
    simp only [objectTail, List.length_cons, List.length_append]
    omega

/-- An object that is not empty. -/
theorem readValue_object {fuel : ℕ} {s rest : List Char} {members : List (List UInt16 × Value)}
    (h : readMembers fuel ('"' :: s) = some (members, rest)) :
    readValue (fuel + 1) ('\x7b' :: '"' :: s) = some (.object members, rest) := by
  have hquote : skipSpace ('"' :: s) = '"' :: s := skipSpace_cons (by decide) s
  rw [readValue, skipSpace_cons (by decide)]
  simp only [hquote]
  show (readMembers fuel _).map _ = _
  rw [h]
  rfl

theorem parse_object (f : Field) (fs : List Field) (h : ∀ g ∈ f :: fs, Reads g.2.1 g.2.2) :
    parse (object ((f :: fs).map Field.text)) = some (.object ((f :: fs).map Field.member)) := by
  have hlength := length_le_objectTail (fs.map Field.text)
  have hfuel : fs.length + 2 ≤ 2 * (object ((f :: fs).map Field.text)).length + 1 := by
    simp only [List.map_cons, object, List.length_cons, List.length_append, List.length_map]
      at hlength ⊢
    omega
  have hmembers := readMembers_objectTail f fs h hfuel []
  rw [List.append_nil] at hmembers
  have hvalue : readValue (2 * (object ((f :: fs).map Field.text)).length + 2)
      (object ((f :: fs).map Field.text)) = some (.object ((f :: fs).map Field.member), []) :=
    readValue_object hmembers
  rw [parse, hvalue]
  rfl

end FreeBox.Lib.JsonText
