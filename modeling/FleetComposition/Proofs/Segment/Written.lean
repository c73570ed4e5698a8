import FleetComposition.Segment.Grammar
import Mathlib.Tactic.Lemma

/-!
# Segments as they are written

The grammar of segments as a syntax of its own: numerals, words, tokens between
parentheses, and fields with the characters that may stand between them. A
written segment has a text and says what it demands, both without any reader.
-/
namespace FleetComposition
namespace Written

open Text

/-- A run of digits of any length, leading zeros included. -/
structure Numeral where
  digits : List Char
  nonempty : digits ≠ []
  decimal : ∀ c ∈ digits, c.isDigit
  deriving DecidableEq

structure Word where
  letters : List Char
  nonempty : letters ≠ []
  wordChars : ∀ c ∈ letters, isWordChar c
  deriving DecidableEq

/-- Parentheses in any number and order; they need not match. -/
structure Parentheses where
  marks : List Char
  only : ∀ c ∈ marks, c = '(' ∨ c = ')'
  deriving DecidableEq

def Parentheses.none : Parentheses where
  marks := []
  only := List.forall_mem_nil _

/-- A type token without the parentheses around it. -/
inductive Name where
  | word (word : Word)
  | shipClass (id : Numeral)
  | ship (id : Numeral)
  deriving DecidableEq

structure Token where
  before : Parentheses
  name : Name
  after : Parentheses
  deriving DecidableEq

/-- An item of a bracketed list. -/
inductive Item where
  | slot (index : Numeral)
  | level (bound : Numeral)
  deriving DecidableEq

/-- The characters that start nothing and may stand between fields. -/
def isFiller (c : Char) : Bool :=
  !isWordChar c && !(['-', '|', '!', '@', '#', '{', '[', '*'].contains c)

inductive Field where
  | exactly (n : Numeral)
  | atLeast (n : Numeral)
  | between (n m : Numeral)
  | slots (first : Item) (others : List Item)
  | level (bound : Numeral)
  | star
  | filler (c : Char) (harmless : isFiller c)
  deriving DecidableEq

namespace Numeral

/-- The numeral stands for a 32-bit word. -/
def Fits (n : Numeral) : Prop := numeralValue n.digits < UInt32.size

instance (n : Numeral) : Decidable n.Fits := inferInstanceAs (Decidable (_ < _))

def value (n : Numeral) : UInt32 := UInt32.ofNat (numeralValue n.digits)

end Numeral

lemma Word.exists_cons (w : Word) : ∃ c cs, w.letters = c :: cs ∧ isWordChar c := by
  obtain ⟨c, cs, hc⟩ := List.exists_cons_of_ne_nil w.nonempty
  exact ⟨c, cs, hc, w.wordChars c (by simp [hc])⟩

namespace Name

def text : Name → List Char
  | word w => w.letters
  | shipClass id => '@' :: id.digits
  | ship id => '#' :: id.digits

def Fits : Name → Prop
  | word _ => True
  | shipClass id => id.Fits
  | ship id => id.Fits

instance : (name : Name) → Decidable name.Fits
  | word _ => .isTrue trivial
  | shipClass id => inferInstanceAs (Decidable id.Fits)
  | ship id => inferInstanceAs (Decidable id.Fits)

/-- The word of the keyword is the wildcard, and any other word a type code. -/
def token : Name → ShipToken
  | word w => if w.letters = ['A', 'N', 'Y'] then .wildcard else .code (String.ofList w.letters)
  | shipClass id => .shipClass id.value
  | ship id => .ship id.value

lemma ofWord_letters (w : Word) : ShipToken.ofWord (String.ofList w.letters) = (word w).token := by
  have hkey : String.ofList w.letters = ShipToken.anyKeyword ↔ w.letters = ['A', 'N', 'Y'] := by
    rw [← String.toList_inj, String.toList_ofList]
    rfl
  simp only [ShipToken.ofWord, token, hkey]

/-- The characters that a token can start with. -/
def isStart (c : Char) : Bool := isWordChar c || c = '@' || c = '#'

lemma exists_cons (name : Name) : ∃ c cs, name.text = c :: cs ∧ isStart c := by
  cases name with
  | word w =>
    obtain ⟨c, cs, hc, hword⟩ := w.exists_cons
    exact ⟨c, cs, hc, by simp [isStart, hword]⟩
  | shipClass id => exact ⟨'@', id.digits, rfl, by decide⟩
  | ship id => exact ⟨'#', id.digits, rfl, by decide⟩

end Name

def Token.text (t : Token) : List Char := t.before.marks ++ t.name.text ++ t.after.marks

/-- Nothing separates the word of the token from what follows. -/
def Token.EndsInWord (t : Token) : Prop := t.after.marks = [] ∧ ∃ w, t.name = .word w

/-- The text of a level without its brackets. -/
def levelText (n : Numeral) : List Char := ['l', 'e', 'v', 'e', 'l', '>'] ++ n.digits

namespace Item

def text : Item → List Char
  | slot n => n.digits
  | level n => levelText n

def numeral : Item → Numeral
  | slot n => n
  | level n => n

def item : Item → SlotItem
  | slot n => .slot n.value
  | level n => .level n.value

def slot? : Item → Option UInt32
  | slot n => some n.value
  | level _ => none

def level? : Item → Option UInt32
  | slot _ => none
  | level n => some n.value

end Item

namespace Field

def text : Field → List Char
  | exactly n => '{' :: n.digits ++ ['}']
  | atLeast n => '{' :: n.digits ++ [',', '}']
  | between n m => '{' :: n.digits ++ ',' :: m.digits ++ ['}']
  | slots first others => '[' :: [','].intercalate ((first :: others).map Item.text) ++ [']']
  | level n => levelText n
  | star => ['*']
  | filler c _ => [c]

/-- The characters that a field can start with. -/
def isStart (c : Char) : Bool := ['{', '[', 'l', '*'].contains c || isFiller c

lemma exists_cons (f : Field) : ∃ c cs, f.text = c :: cs ∧ isStart c := by
  cases f with
  | exactly n => exact ⟨'{', n.digits ++ ['}'], rfl, by decide⟩
  | atLeast n => exact ⟨'{', n.digits ++ [',', '}'], rfl, by decide⟩
  | between n m => exact ⟨'{', n.digits ++ ',' :: m.digits ++ ['}'], by simp [text], by decide⟩
  | slots first others => exact ⟨'[', _, rfl, by decide⟩
  | level n => exact ⟨'l', ['e', 'v', 'e', 'l', '>'] ++ n.digits, rfl, by decide⟩
  | star => exact ⟨'*', [], rfl, by decide⟩
  | filler c hc => exact ⟨c, [], rfl, by simp [isStart, hc]⟩

/-- A field that starts with a filler is that filler. -/
lemma eq_nil_of_isFiller {f : Field} {c : Char} {cs : List Char} (h : f.text = c :: cs)
    (hc : isFiller c) : cs = [] := by
  cases f with
  | star => exact (List.cons.inj h).2.symm
  | filler d hd => exact (List.cons.inj h).2.symm
  | _ =>
    obtain ⟨rfl, -⟩ := List.cons.inj h
    exact absurd hc (by decide)

/-- Of all fields only a level starts with a letter. -/
lemma exists_eq_level {f : Field} {cs : List Char} (h : f.text = 'l' :: cs) :
    ∃ n, f = .level n := by
  cases f with
  | level n => exact ⟨n, rfl⟩
  | filler c hc =>
    obtain ⟨rfl, -⟩ := List.cons.inj h
    exact absurd hc (by decide)
  | _ => exact absurd (List.cons.inj h).1 (by decide)

/-- A field starts with a word character only if it is a level. -/
lemma isWordChar_of_isStart {c : Char} (hc : isStart c) (hl : c ≠ 'l') : isWordChar c = false := by
  simp only [isStart, isFiller, Bool.or_eq_true, Bool.and_eq_true, Bool.not_eq_true',
    List.contains_cons, List.contains_nil, beq_iff_eq, Bool.or_false] at hc
  obtain (rfl | rfl | rfl | rfl) | ⟨hword, -⟩ := hc
  · decide
  · decide
  · exact absurd rfl hl
  · decide
  · exact hword

lemma isDigit_of_isStart {c : Char} (hc : isStart c) : c.isDigit = false := by
  by_cases hl : c = 'l'
  · subst c; decide
  · have hword := isWordChar_of_isStart hc hl
    cases hd : c.isDigit with
    | false => rfl
    | true => rw [isWordChar_of_isDigit hd] at hword; contradiction

def numerals : Field → List Numeral
  | exactly n => [n]
  | atLeast n => [n]
  | between n m => [n, m]
  | slots first others => (first :: others).map Item.numeral
  | level n => [n]
  | star => []
  | filler _ _ => []

def Fits (f : Field) : Prop := ∀ n ∈ f.numerals, n.Fits

instance (f : Field) : Decidable f.Fits := inferInstanceAs (Decidable (∀ n ∈ f.numerals, n.Fits))

@[simp] theorem fits_exactly {n : Numeral} : (exactly n).Fits ↔ n.Fits := by
  simp [Fits, numerals]

@[simp] theorem fits_atLeast {n : Numeral} : (atLeast n).Fits ↔ n.Fits := by
  simp [Fits, numerals]

@[simp] theorem fits_between {n m : Numeral} : (between n m).Fits ↔ n.Fits ∧ m.Fits := by
  simp [Fits, numerals]

@[simp] theorem fits_level {n : Numeral} : (level n).Fits ↔ n.Fits := by
  simp [Fits, numerals]

/-- The field without its spelling, unless it is only a filler. -/
def field? : Field → Option FleetComposition.Field
  | exactly n => some (.quantity (.exactly n.value))
  | atLeast n => some (.quantity (.atLeast n.value))
  | between n m => some (.quantity (.between n.value m.value))
  | slots first others => some (.slots ((first :: others).map Item.item))
  | level n => some (.level n.value)
  | star => some .star
  | filler _ _ => none

def quantity? : Field → Option Quantity
  | exactly n => some ⟨n.value, some n.value⟩
  | atLeast n => some ⟨n.value, none⟩
  | between n m => some ⟨n.value, some m.value⟩
  | _ => none

def slots? : Field → Option (List UInt32)
  | slots first others => some ((first :: others).filterMap Item.slot?)
  | _ => none

/-- The levels that the field states, in brackets or on its own. -/
def levels : Field → List UInt32
  | slots first others => (first :: others).filterMap Item.level?
  | level n => [n.value]
  | _ => []

end Field

end Written

/-- A segment in the notation, with all that a reader passes over. -/
structure Written where
  opening : Written.Parentheses
  negated : Bool
  tokens : List Written.Token
  fields : List Written.Field
  deriving DecidableEq

namespace Written

def text (w : Written) : List Char :=
  w.opening.marks ++ (if w.negated then ['!'] else []) ++
    ['|'].intercalate (w.tokens.map Token.text) ++ w.fields.flatMap Field.text

/-- All numbers are small enough. -/
def Fits (w : Written) : Prop :=
  (∀ t ∈ w.tokens, t.name.Fits) ∧ ∀ f ∈ w.fields, f.Fits

instance (w : Written) : Decidable w.Fits := inferInstanceAs (Decidable (_ ∧ _))

/-- No level stands directly behind a word, which would take in its first letters. -/
def LevelApart (w : Written) : Prop :=
  ∀ t n, w.tokens.getLast? = some t → t.EndsInWord → w.fields.head? ≠ some (.level n)

/-- The listed tokens, the first of each kind only. -/
def named (w : Written) : List ShipToken := (w.tokens.map fun t => t.name.token).eraseDups

/-- The segment without its spelling. -/
def segment (w : Written) : Segment :=
  ⟨w.negated, w.tokens.map fun t => t.name.token, w.fields.filterMap Field.field?⟩

def starred (w : Written) : Bool := w.fields.contains .star

/-- What the segment demands by the rules of the notation: of each kind of field
the first one counts, a star or the lack of tokens lets in all other ships, and
without a quantity a lone star asks for any number and all else for one ship. -/
def demand (w : Written) : Requirement where
  tokens :=
    if .wildcard ∉ w.named ∧ (w.tokens = [] ∨ w.starred) then w.named ++ [.wildcard] else w.named
  quantity :=
    (w.fields.filterMap Field.quantity?).head?.getD
      (if w.tokens = [] ∧ w.starred then ⟨0, none⟩ else ⟨1, some 1⟩)
  slots := .ofList ((w.fields.filterMap Field.slots?).head?.getD [])
  level := (w.fields.flatMap Field.levels).head?.getD 0
  negated := w.negated

end Written

end FleetComposition
