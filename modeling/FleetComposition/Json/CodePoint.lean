/-!
# Strings of JSON texts

A string of a JSON text is a sequence of code points. An escape may spell one
half of a surrogate pair, so a string is well formed as a text only if its halves
come in pairs.
-/
namespace FleetComposition.Json

inductive CodePoint where
  | scalar (c : Char)
  | surrogate (unit : Nat)
  deriving DecidableEq, Repr

namespace CodePoint

/-- The code point of a code unit that an escape spells. -/
def ofUnit (unit : Nat) : CodePoint :=
  if unit.isValidChar then scalar (Char.ofNat unit) else surrogate unit

def hexValue? (c : Char) : Option Nat :=
  if c.isDigit then some (c.toNat - '0'.toNat)
  else if 'a' ≤ c ∧ c ≤ 'f' then some (c.toNat - 'a'.toNat + 10)
  else if 'A' ≤ c ∧ c ≤ 'F' then some (c.toNat - 'A'.toNat + 10)
  else none

/-- The code unit of four hexadecimal digits. -/
def unit? (a b c d : Char) : Option Nat := do
  return ((← hexValue? a) * 16 + (← hexValue? b)) * 256 + (← hexValue? c) * 16 + (← hexValue? d)

/-- The character of an escape with a single letter. -/
def escaped? : Char → Option Char
  | '"' => some '"'
  | '\\' => some '\\'
  | '/' => some '/'
  | 'b' => some '\x08'
  | 'f' => some '\x0c'
  | 'n' => some '\n'
  | 'r' => some '\r'
  | 't' => some '\t'
  | _ => none

/-- A code unit in four hexadecimal digits, behind the mark of such an escape. -/
def unitEscape (unit : Nat) : List Char :=
  ['\\', 'u', (unit / 4096 % 16).digitChar, (unit / 256 % 16).digitChar,
    (unit / 16 % 16).digitChar, (unit % 16).digitChar]

/-- Quotes, backslashes and control characters are escaped, the latter with a
letter if there is one. -/
def write : CodePoint → List Char
  | scalar '"' => ['\\', '"']
  | scalar '\\' => ['\\', '\\']
  | scalar '\x08' => ['\\', 'b']
  | scalar '\x0c' => ['\\', 'f']
  | scalar '\n' => ['\\', 'n']
  | scalar '\r' => ['\\', 'r']
  | scalar '\t' => ['\\', 't']
  | scalar c => if c.toNat < 0x20 then unitEscape c.toNat else [c]
  | surrogate unit => unitEscape unit

/-- Reads up to the closing quote. Control characters stand in a string only as
escapes. -/
def readString : List Char → Option (List CodePoint × List Char)
  | [] => none
  | '"' :: rest => some ([], rest)
  | '\\' :: 'u' :: a :: b :: c :: d :: rest => do
    let unit ← unit? a b c d
    let (points, left) ← readString rest
    return (ofUnit unit :: points, left)
  | '\\' :: c :: rest => do
    let e ← escaped? c
    let (points, left) ← readString rest
    return (scalar e :: points, left)
  | c :: rest =>
    if c.toNat < 0x20 then none
    else do
      let (points, left) ← readString rest
      return (scalar c :: points, left)

/-- The character of a surrogate pair. -/
def pair? (high low : Nat) : Option Char :=
  if high < 0xDC00 ∧ 0xDC00 ≤ low then
    some (Char.ofNat (0x10000 + (high - 0xD800) * 0x400 + (low - 0xDC00)))
  else none

/-- The characters of a string, if no half of a pair stands alone. -/
def chars? : List CodePoint → Option (List Char)
  | [] => some []
  | scalar c :: rest => (chars? rest).map (c :: ·)
  | surrogate high :: surrogate low :: rest => do
    let c ← pair? high low
    let cs ← chars? rest
    return c :: cs
  | surrogate _ :: _ => none

def ofText (text : String) : List CodePoint :=
  text.toList.map scalar

def text? (points : List CodePoint) : Option String :=
  (chars? points).map String.ofList

/-- Every text is read back from its code points. -/
@[simp] theorem text?_ofText (text : String) : text? (ofText text) = some text := by
  have key : ∀ cs : List Char, chars? (cs.map scalar) = some cs := by
    intro cs
    induction cs with
    | nil => rfl
    | cons c cs ih => simp [chars?, ih]
  simp [text?, ofText, key]

theorem length_readString_lt {cs left : List Char} {points : List CodePoint}
    (h : readString cs = some (points, left)) : left.length < cs.length := by
  fun_induction readString cs generalizing points left with
  | case1 => nomatch h
  | case2 rest =>
    cases h
    simp
  | case3 a b c d rest ih =>
    simp only [bind, Option.bind_eq_some_iff] at h
    obtain ⟨unit, -, ⟨points', left'⟩, hrest, h⟩ := h
    have := ih hrest
    cases h
    simp only [List.length_cons]
    omega
  | case4 c rest _ ih =>
    simp only [bind, Option.bind_eq_some_iff] at h
    obtain ⟨e, -, ⟨points', left'⟩, hrest, h⟩ := h
    have := ih hrest
    cases h
    simp only [List.length_cons]
    omega
  | case5 => nomatch h
  | case6 c rest _ _ _ _ ih =>
    simp only [bind, Option.bind_eq_some_iff] at h
    obtain ⟨⟨points', left'⟩, hrest, h⟩ := h
    have := ih hrest
    cases h
    simp only [List.length_cons]
    omega

end CodePoint

end FleetComposition.Json
