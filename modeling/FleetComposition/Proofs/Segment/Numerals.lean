import FleetComposition.Proofs.Segment.Scanning

/-!
# The numerals of a written segment

A written segment is a row of pieces, which are its numerals and the texts between them.
The first numeral that is too large splits the text of the row: what stands from there on
is the overflow.
-/
namespace FleetComposition
namespace Written

open Text

inductive Piece where
  | plain (letters : List Char)
  | numeral (n : Numeral)
  deriving DecidableEq

namespace Piece

def text : Piece → List Char
  | plain letters => letters
  | numeral n => n.digits

/-- The text of a row of pieces. -/
def spell (ps : List Piece) : List Char := ps.flatMap text

/-- All numerals among the pieces are small enough. -/
def AllFit (ps : List Piece) : Prop := ∀ n, numeral n ∈ ps → n.Fits

/-- The text from the first numeral on that is too large, up to the end of a given rest. -/
def overflow (rest : List Char) : List Piece → Option (List Char)
  | [] => none
  | plain _ :: ps => overflow rest ps
  | numeral n :: ps => if n.Fits then overflow rest ps else some (n.digits ++ (spell ps ++ rest))

/-- Rows of pieces with a mark between them. -/
def listed (mark : Char) : List (List Piece) → List Piece
  | [] => []
  | ps :: rows => ps ++ rows.flatMap (plain [mark] :: ·)

variable {ps qs : List Piece} {rest bad : List Char}

@[simp] theorem spell_nil : spell [] = [] := rfl

@[simp] theorem spell_plain (letters : List Char) (ps : List Piece) :
    spell (plain letters :: ps) = letters ++ spell ps := rfl

@[simp] theorem spell_numeral (n : Numeral) (ps : List Piece) :
    spell (numeral n :: ps) = n.digits ++ spell ps := rfl

@[simp] theorem spell_append (ps qs : List Piece) : spell (ps ++ qs) = spell ps ++ spell qs :=
  List.flatMap_append

@[simp] theorem spell_flatMap {ι : Type} (f : ι → List Piece) (is : List ι) :
    spell (is.flatMap f) = is.flatMap fun i => spell (f i) :=
  List.flatMap_assoc

@[simp] theorem spell_listed (mark : Char) (rows : List (List Piece)) :
    spell (listed mark rows) = [mark].intercalate (rows.map spell) := by
  cases rows with
  | nil => rfl
  | cons ps rows =>
    rw [List.map_cons, Segment.Reader.intercalate_eq_flatMap, listed, spell_append, spell_flatMap,
      List.flatMap_map]
    rfl

@[simp] theorem overflow_nil (rest : List Char) : overflow rest [] = none := rfl

@[simp] theorem overflow_plain (letters : List Char) (ps : List Piece) :
    overflow rest (plain letters :: ps) = overflow rest ps := rfl

@[simp] theorem overflow_numeral (n : Numeral) (ps : List Piece) :
    overflow rest (numeral n :: ps) =
      if n.Fits then overflow rest ps else some (n.digits ++ (spell ps ++ rest)) := rfl

theorem overflow_numeral_eq_some_iff {n : Numeral} : overflow rest (numeral n :: ps) = some bad ↔
    ¬n.Fits ∧ n.digits ++ (spell ps ++ rest) = bad ∨ n.Fits ∧ overflow rest ps = some bad := by
  by_cases hn : n.Fits <;> simp [hn]

theorem overflow_singleton {n : Numeral} :
    overflow rest [numeral n] = some bad ↔ ¬n.Fits ∧ n.digits ++ rest = bad := by
  simp

@[simp] theorem overflow_append (ps qs : List Piece) :
    overflow rest (ps ++ qs) = (overflow (spell qs ++ rest) ps).or (overflow rest qs) := by
  induction ps with
  | nil => rfl
  | cons p ps ih =>
    cases p with
    | plain letters => exact ih
    | numeral n =>
      rw [List.cons_append, overflow_numeral, overflow_numeral, ih]
      split
      next => rfl
      next => rw [spell_append, List.append_assoc, Option.some_or]

@[simp] theorem allFit_nil : AllFit [] := fun _ hn => absurd hn List.not_mem_nil

@[simp] theorem allFit_plain {letters : List Char} : AllFit (plain letters :: ps) ↔ AllFit ps := by
  simp [AllFit]

@[simp] theorem allFit_numeral {n : Numeral} :
    AllFit (numeral n :: ps) ↔ n.Fits ∧ AllFit ps := by
  simp [AllFit]

@[simp] theorem allFit_append : AllFit (ps ++ qs) ↔ AllFit ps ∧ AllFit qs := by
  simp only [AllFit, List.mem_append, or_imp, forall_and]

@[simp] theorem allFit_flatMap {ι : Type} {f : ι → List Piece} {is : List ι} :
    AllFit (is.flatMap f) ↔ ∀ i ∈ is, AllFit (f i) := by
  simp only [AllFit, List.mem_flatMap]
  exact ⟨fun h i hi n hn => h n ⟨i, hi, hn⟩, fun h n ⟨i, hi, hn⟩ => h i hi n hn⟩

@[simp] theorem allFit_listed {mark : Char} {rows : List (List Piece)} :
    AllFit (listed mark rows) ↔ ∀ ps ∈ rows, AllFit ps := by
  cases rows <;> simp [listed]

theorem overflow_eq_none_iff : overflow rest ps = none ↔ AllFit ps := by
  induction ps with
  | nil => simp
  | cons p ps ih =>
    cases p with
    | plain letters => simpa using ih
    | numeral n =>
      rw [overflow_numeral, allFit_numeral, ← ih]
      by_cases hn : n.Fits <;> simp [hn]

/-- The overflow of a row is that of its front, or that of its back behind small numerals. -/
theorem overflow_append_eq_some_iff : overflow rest (ps ++ qs) = some bad ↔
    overflow (spell qs ++ rest) ps = some bad ∨ AllFit ps ∧ overflow rest qs = some bad := by
  rw [overflow_append, ← @overflow_eq_none_iff ps (spell qs ++ rest)]
  cases overflow (spell qs ++ rest) ps <;> simp

/-- The overflow starts with a numeral, and all numerals before it are small enough. -/
theorem overflow_eq_some_iff : overflow rest ps = some bad ↔
    ∃ front n back, ps = front ++ numeral n :: back ∧ AllFit front ∧ ¬n.Fits ∧
      n.digits ++ (spell back ++ rest) = bad := by
  constructor
  · intro h
    induction ps with
    | nil => cases h
    | cons p ps ih =>
      cases p with
      | plain letters =>
        obtain ⟨front, n, back, rfl, hfront, hn, hbad⟩ := ih h
        exact ⟨plain letters :: front, n, back, rfl, allFit_plain.mpr hfront, hn, hbad⟩
      | numeral m =>
        rcases overflow_numeral_eq_some_iff.mp h with ⟨hm, hbad⟩ | ⟨hm, h⟩
        · exact ⟨[], m, ps, rfl, allFit_nil, hm, hbad⟩
        · obtain ⟨front, n, back, rfl, hfront, hn, hbad⟩ := ih h
          exact ⟨numeral m :: front, n, back, rfl, allFit_numeral.mpr ⟨hm, hfront⟩, hn, hbad⟩
  · rintro ⟨front, n, back, rfl, hfront, hn, hbad⟩
    exact overflow_append_eq_some_iff.mpr
      (.inr ⟨hfront, overflow_numeral_eq_some_iff.mpr (.inl ⟨hn, hbad⟩)⟩)

end Piece

open Piece (plain numeral listed spell)

def Name.pieces : Name → List Piece
  | word w => [plain w.letters]
  | shipClass id => [plain ['@'], numeral id]
  | ship id => [plain ['#'], numeral id]

def Token.pieces (t : Token) : List Piece :=
  plain t.before.marks :: t.name.pieces ++ [plain t.after.marks]

def levelPieces (n : Numeral) : List Piece := [plain ['l', 'e', 'v', 'e', 'l', '>'], numeral n]

def Item.pieces : Item → List Piece
  | slot n => [.numeral n]
  | level n => levelPieces n

def Field.pieces : Field → List Piece
  | exactly n => [plain ['{'], numeral n, plain ['}']]
  | atLeast n => [plain ['{'], numeral n, plain [',', '}']]
  | between n m => [plain ['{'], numeral n, plain [','], numeral m, plain ['}']]
  | slots first others =>
    plain ['['] :: listed ',' ((first :: others).map Item.pieces) ++ [plain [']']]
  | level n => levelPieces n
  | star => [plain ['*']]
  | filler c _ => [plain [c]]

/-- The segment in pieces, from its start to its end. -/
def pieces (w : Written) : List Piece :=
  plain (w.opening.marks ++ if w.negated then ['!'] else []) ::
    listed '|' (w.tokens.map Token.pieces) ++ w.fields.flatMap Field.pieces

@[simp] theorem Name.spell_pieces (name : Name) : spell name.pieces = name.text := by
  cases name <;> simp [pieces, text]

@[simp] theorem Token.spell_pieces (t : Token) : spell t.pieces = t.text := by
  simp [pieces, text]

@[simp] theorem spell_levelPieces (n : Numeral) : spell (levelPieces n) = levelText n := by
  simp [levelPieces, levelText]

@[simp] theorem Item.spell_pieces (i : Item) : spell i.pieces = i.text := by
  cases i <;> simp [pieces, text]

lemma spell_map {ι : Type} {f : ι → List Piece} {g : ι → List Char} (h : ∀ i, spell (f i) = g i)
    (is : List ι) : (is.map f).map spell = is.map g := by
  rw [List.map_map]
  exact List.map_congr_left fun i _ => h i

@[simp] theorem Field.spell_pieces (f : Field) : spell f.pieces = f.text := by
  cases f with
  | slots first others =>
    simp only [pieces, text, Piece.spell_append, Piece.spell_plain, List.cons_append,
      Piece.spell_listed, spell_map Item.spell_pieces]
    simp
  | _ => simp [pieces, text]

/-- The pieces of a segment make up its text. -/
@[simp] theorem spell_pieces (w : Written) : spell w.pieces = w.text := by
  simp only [pieces, text, Piece.spell_append, Piece.spell_plain, List.cons_append,
    Piece.spell_listed, spell_map Token.spell_pieces, Piece.spell_flatMap, Field.spell_pieces,
    List.append_assoc]

/-! ## Small numerals -/

lemma Name.allFit_pieces {name : Name} : Piece.AllFit name.pieces ↔ name.Fits := by
  cases name <;> simp [pieces, Fits]

lemma Token.allFit_pieces {t : Token} : Piece.AllFit t.pieces ↔ t.name.Fits := by
  simp [pieces, Name.allFit_pieces]

lemma Item.allFit_pieces {i : Item} : Piece.AllFit i.pieces ↔ i.numeral.Fits := by
  cases i <;> simp [pieces, levelPieces, Item.numeral]

lemma Field.allFit_pieces {f : Field} : Piece.AllFit f.pieces ↔ f.Fits := by
  cases f <;> simp [pieces, levelPieces, Fits, numerals, Item.allFit_pieces]

lemma allFit_pieces {w : Written} : Piece.AllFit w.pieces ↔ w.Fits := by
  simp [pieces, Fits, Token.allFit_pieces, Field.allFit_pieces]

end Written
end FleetComposition
