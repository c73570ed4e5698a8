import FleetComposition.Json.Token
import FleetComposition.Proofs.Text.Run

/-!
# The spelling of tokens

Each token is read back from what is written for it, whatever stands behind it, but that a
number or a word ends only where the text goes on with another kind of character.
-/
namespace FleetComposition.Json

open Text

namespace CodePoint

/-- A code point is a character or the half of a surrogate pair. -/
def WellFormed : CodePoint → Prop
  | scalar _ => True
  | surrogate unit => 0xD800 ≤ unit ∧ unit ≤ 0xDFFF

lemma hexValue?_digitChar {d : Nat} (h : d < 16) : hexValue? d.digitChar = some d := by
  have hall : ∀ d < 16, hexValue? d.digitChar = some d := by decide
  exact hall d h

/-- Four hexadecimal digits are enough for a code unit. -/
lemma unit?_digits {unit : Nat} (h : unit < 65536) :
    unit? (unit / 4096 % 16).digitChar (unit / 256 % 16).digitChar (unit / 16 % 16).digitChar
      (unit % 16).digitChar = some unit := by
  have hdigit : ∀ d, hexValue? (d % 16).digitChar = some (d % 16) :=
    fun d => hexValue?_digitChar (Nat.mod_lt d (by decide))
  have hvalue : (unit / 4096 % 16 * 16 + unit / 256 % 16) * 256 + unit / 16 % 16 * 16 + unit % 16 =
      unit := by
    omega
  simp only [unit?, hdigit, Option.bind_eq_bind, Option.bind_some, Option.pure_def, hvalue]

variable {rest : List Char}

lemma readString_unitEscape {unit : Nat} (h : unit < 65536) :
    readString (unitEscape unit ++ rest) =
      (readString rest).map (Prod.map (ofUnit unit :: ·) id) := by
  simp only [unitEscape, List.cons_append, List.nil_append, readString, unit?_digits h,
    Option.bind_eq_bind, Option.bind_some]
  cases readString rest <;> rfl

lemma readString_letterEscape {letter c : Char} (hletter : letter ≠ 'u')
    (h : escaped? letter = some c) :
    readString ('\\' :: letter :: rest) = (readString rest).map (Prod.map (scalar c :: ·) id) := by
  rw [readString]
  · simp only [h, Option.bind_eq_bind, Option.bind_some]
    cases readString rest <;> rfl
  · exact fun _ _ _ _ _ hu => absurd hu hletter

lemma readString_plain {c : Char} (hquote : c ≠ '"') (hslash : c ≠ '\\') (hc : 0x20 ≤ c.toNat) :
    readString (c :: rest) = (readString rest).map (Prod.map (scalar c :: ·) id) := by
  rw [readString]
  · rw [if_neg (Nat.not_lt.mpr hc)]
    cases readString rest <;> rfl
  · exact hquote
  · exact fun _ _ _ _ _ h => absurd h hslash
  · exact fun _ _ h => absurd h hslash

lemma ofUnit_toNat (c : Char) : ofUnit c.toNat = scalar c := by
  have hvalid : c.toNat.isValidChar := c.valid
  rw [ofUnit, if_pos hvalid, Char.ofNat_toNat]

lemma ofUnit_of_surrogate {unit : Nat} (h : (surrogate unit).WellFormed) :
    ofUnit unit = surrogate unit := by
  obtain ⟨hlow, hhigh⟩ := h
  refine if_neg ?_
  unfold Nat.isValidChar
  omega

/-- Whatever is written for a code point stands for it in a string. -/
theorem readString_write {p : CodePoint} (hp : p.WellFormed) :
    readString (p.write ++ rest) = (readString rest).map (Prod.map (p :: ·) id) := by
  fun_cases write p with
  | case1 => exact readString_letterEscape (by decide) rfl
  | case2 => exact readString_letterEscape (by decide) rfl
  | case3 => exact readString_letterEscape (by decide) rfl
  | case4 => exact readString_letterEscape (by decide) rfl
  | case5 => exact readString_letterEscape (by decide) rfl
  | case6 => exact readString_letterEscape (by decide) rfl
  | case7 => exact readString_letterEscape (by decide) rfl
  | case8 c _ _ _ _ _ _ _ hcontrol =>
    rw [readString_unitEscape (by omega), ofUnit_toNat]
  | case9 c hquote hslash _ _ _ _ _ hcontrol =>
    exact readString_plain hquote hslash (Nat.not_lt.mp hcontrol)
  | case10 unit =>
    have hunit : unit < 65536 := Nat.lt_of_le_of_lt hp.2 (by decide)
    rw [readString_unitEscape hunit, ofUnit_of_surrogate hp]

/-- A string is read back up to its closing quote. -/
theorem readString_flatMap_write {points : List CodePoint} (h : ∀ p ∈ points, p.WellFormed) :
    readString (points.flatMap write ++ '"' :: rest) = some (points, rest) := by
  induction points with
  | nil => rfl
  | cons p points ih =>
    obtain ⟨hp, hpoints⟩ := List.forall_mem_cons.mp h
    rw [List.flatMap_cons, List.append_assoc, readString_write hp, ih hpoints]
    rfl

lemma wellFormed_ofText (text : String) : ∀ p ∈ ofText text, p.WellFormed := by
  intro p hp
  obtain ⟨c, -, rfl⟩ := List.mem_map.mp hp
  trivial

end CodePoint

/-! ## Numbers -/

lemma isNumberChar_of_isDigit {c : Char} (h : c.isDigit) : isNumberChar c := by
  simp [isNumberChar, h]

lemma isNumberChar_of_isExponent {cs : List Char} (h : isExponent cs) :
    ∀ c ∈ cs, isNumberChar c := by
  cases cs with
  | nil => exact List.forall_mem_nil _
  | cons e rest =>
    simp only [isExponent, Bool.and_eq_true, Bool.or_eq_true, decide_eq_true_eq,
      List.all_eq_true] at h
    obtain ⟨⟨he, -⟩, hdigits⟩ := h
    refine List.forall_mem_cons.mpr ⟨by rcases he with rfl | rfl <;> decide, ?_⟩
    split at hdigits
    · exact List.forall_mem_cons.mpr
        ⟨by decide, fun c hc => isNumberChar_of_isDigit (hdigits c hc)⟩
    · exact List.forall_mem_cons.mpr
        ⟨by decide, fun c hc => isNumberChar_of_isDigit (hdigits c hc)⟩
    · exact fun c hc => isNumberChar_of_isDigit (hdigits c hc)

/-- Digits in front of number characters are a text of number characters. -/
lemma isNumberChar_of_dropWhile {cs : List Char}
    (h : ∀ c ∈ cs.dropWhile Char.isDigit, isNumberChar c) : ∀ c ∈ cs, isNumberChar c := by
  rw [← List.takeWhile_append_dropWhile (p := Char.isDigit) (l := cs)]
  exact List.forall_mem_append.mpr
    ⟨fun c hc => isNumberChar_of_isDigit (List.mem_takeWhile_imp hc), h⟩

lemma isNumberChar_of_isUnsigned {cs : List Char} (h : isUnsigned cs) :
    ∀ c ∈ cs, isNumberChar c := by
  apply isNumberChar_of_dropWhile
  obtain ⟨-, htail⟩ := (Bool.and_eq_true _ _).mp h
  unfold isNumberTail at htail
  split at htail
  next rest hrest =>
    rw [hrest]
    obtain ⟨-, hexponent⟩ := (Bool.and_eq_true _ _).mp htail
    exact List.forall_mem_cons.mpr
      ⟨by decide, isNumberChar_of_dropWhile (isNumberChar_of_isExponent hexponent)⟩
  next => exact isNumberChar_of_isExponent htail

/-- A number starts with a digit or a sign and goes on with characters of numbers. -/
theorem exists_cons_of_isNumber {cs : List Char} (h : isNumber cs) :
    ∃ c rest, cs = c :: rest ∧ (c.isDigit || c = '-') ∧ ∀ d ∈ rest, isNumberChar d := by
  unfold isNumber at h
  split at h
  next rest => exact ⟨'-', rest, rfl, by decide, isNumberChar_of_isUnsigned h⟩
  next =>
    have hall := isNumberChar_of_isUnsigned h
    obtain ⟨hwhole, -⟩ := (Bool.and_eq_true _ _).mp h
    cases cs with
    | nil => cases hwhole
    | cons c rest =>
      refine ⟨c, rest, rfl, ?_, (List.forall_mem_cons.mp hall).2⟩
      cases hdigit : c.isDigit with
      | true => rfl
      | false =>
        rw [List.takeWhile_cons_of_neg (by simp [hdigit])] at hwhole
        cases hwhole

/-- No numeral but that of zero starts with a zero. -/
lemma exists_cons_toDigits {n : Nat} (h : 0 < n) :
    ∃ c cs, Nat.toDigits 10 n = c :: cs ∧ c ≠ '0' := by
  induction n using Nat.strongRecOn with
  | ind n ih =>
    rw [Nat.toDigits_eq_if (by decide)]
    split
    next hsmall => exact ⟨n.digitChar, [], rfl, by simpa using Nat.ne_of_gt h⟩
    next hlarge =>
      obtain ⟨c, cs, hc, hne⟩ := ih (n / 10) (by omega) (by omega)
      exact ⟨c, cs ++ [(n % 10).digitChar], by rw [hc]; rfl, hne⟩

lemma isWhole_toDigits (n : Nat) : isWhole (Nat.toDigits 10 n) := by
  rcases Nat.eq_zero_or_pos n with rfl | hn
  · rfl
  · obtain ⟨c, cs, hc, hne⟩ := exists_cons_toDigits hn
    rw [hc]
    unfold isWhole
    split
    next h => cases h
    next h => rfl
    next h =>
      obtain ⟨rfl, -⟩ := List.cons.inj h
      simpa using hne

theorem isNumber_toDigits (n : Nat) : isNumber (Nat.toDigits 10 n) := by
  have hdigits : ∀ c ∈ Nat.toDigits 10 n, c.isDigit :=
    fun c hc => Nat.isDigit_of_mem_toDigits (by decide) (by decide) hc
  have hunsigned : isUnsigned (Nat.toDigits 10 n) := by
    rw [isUnsigned, List.takeWhile_eq_self_iff.mpr hdigits, List.dropWhile_eq_nil_iff.mpr hdigits,
      isWhole_toDigits]
    rfl
  unfold isNumber
  split
  next rest hrest =>
    rw [hrest] at hdigits
    exact absurd (hdigits '-' List.mem_cons_self) (by decide)
  next => exact hunsigned

/-! ## Tokens -/

namespace Token

def WellFormed : Token → Prop
  | number spelling => isNumber spelling
  | string points => ∀ p ∈ points, p.WellFormed
  | _ => True

/-- What ends a token. Only a number or a word could go on. -/
def Ends : Token → List Char → Prop
  | number _, rest => Stops isNumberChar rest
  | null, rest | bool _, rest => Stops Char.isAlpha rest
  | _, _ => True

variable {rest : List Char}

lemma readPlain_number {c : Char} (hc : c.isDigit || c = '-') {spelling : List Char}
    (hspelling : ∀ d ∈ spelling, isNumberChar d) (hnumber : isNumber (c :: spelling))
    (hrest : Stops isNumberChar rest) :
    readPlain c (spelling ++ rest) = some (number (c :: spelling), rest) := by
  unfold readPlain
  split
  iterate 6 exact absurd hc (by decide)
  dsimp only
  rw [if_pos hc, takeWhile_run hspelling hrest, dropWhile_run hspelling hrest, if_pos hnumber]

/-- The token that a word stands for. -/
def ofWord? : String → Option Token
  | "null" => some null
  | "true" => some (bool true)
  | "false" => some (bool false)
  | _ => none

/-- A word is read up to the end of its letters. -/
lemma readPlain_word {c : Char} {letters : List Char} {t : Token} (hc : c.isAlpha)
    (hnumber : (c.isDigit || c = '-') = false) (hletters : ∀ d ∈ letters, d.isAlpha)
    (hword : ofWord? (String.ofList (c :: letters)) = some t) (hrest : Stops Char.isAlpha rest) :
    readPlain c (letters ++ rest) = some (t, rest) := by
  unfold readPlain
  split
  iterate 6 exact absurd hc (by decide)
  dsimp only
  rw [if_neg (by simp [hnumber]), takeWhile_run hletters hrest, dropWhile_run hletters hrest]
  generalize String.ofList (c :: letters) = word at hword ⊢
  unfold ofWord? at hword
  split at hword
  iterate 3
    cases hword
    rfl
  cases hword

/-- Each token is read back from its text. -/
theorem readOne_write {t : Token} (ht : t.WellFormed) (hrest : t.Ends rest) :
    ∃ c behind, t.write ++ rest = c :: behind ∧ isBlank c = false ∧
      readOne c behind = some (t, rest) := by
  cases t with
  | null =>
    refine ⟨'n', ['u', 'l', 'l'] ++ rest, rfl, rfl, ?_⟩
    rw [readOne, if_neg (by decide)]
    exact readPlain_word (by decide) (by decide)
      (forall_mem_of_all (by decide)) rfl hrest
  | bool b =>
    cases b with
    | true =>
      refine ⟨'t', ['r', 'u', 'e'] ++ rest, rfl, rfl, ?_⟩
      rw [readOne, if_neg (by decide)]
      exact readPlain_word (by decide) (by decide)
        (forall_mem_of_all (by decide)) rfl hrest
    | false =>
      refine ⟨'f', ['a', 'l', 's', 'e'] ++ rest, rfl, rfl, ?_⟩
      rw [readOne, if_neg (by decide)]
      exact readPlain_word (by decide) (by decide)
        (forall_mem_of_all (by decide)) rfl hrest
  | number spelling =>
    obtain ⟨c, behind, rfl, hc, hbehind⟩ := exists_cons_of_isNumber ht
    refine ⟨c, behind ++ rest, rfl, ?_, ?_⟩
    · by_contra hblank
      simp only [isBlank, Bool.not_eq_false, Bool.or_eq_true, decide_eq_true_eq] at hblank
      obtain ((rfl | rfl) | rfl) | rfl := hblank <;> exact absurd hc (by decide)
    · have hquote : c ≠ '"' := by
        rintro rfl
        exact absurd hc (by decide)
      rw [readOne, if_neg hquote]
      exact readPlain_number hc hbehind ht hrest
  | string points =>
    have hread : CodePoint.readString (points.flatMap CodePoint.write ++ '"' :: rest) =
        some (points, rest) := CodePoint.readString_flatMap_write ht
    refine ⟨'"', points.flatMap CodePoint.write ++ '"' :: rest, by simp [write], rfl, ?_⟩
    rw [readOne, if_pos rfl, hread]
    rfl
  | openArray => exact ⟨'[', rest, rfl, rfl, rfl⟩
  | closeArray => exact ⟨']', rest, rfl, rfl, rfl⟩
  | openObject => exact ⟨'{', rest, rfl, rfl, rfl⟩
  | closeObject => exact ⟨'}', rest, rfl, rfl, rfl⟩
  | comma => exact ⟨',', rest, rfl, rfl, rfl⟩
  | colon => exact ⟨':', rest, rfl, rfl, rfl⟩

lemma readAll_of_readOne {c : Char} {behind left : List Char} {t : Token}
    (hblank : isBlank c = false) (h : readOne c behind = some (t, left)) :
    readAll (c :: behind) = (readAll left).map (t :: ·) := by
  rw [readAll, if_neg (by simp [hblank])]
  split
  next t' left' h' =>
    rw [h] at h'
    obtain ⟨rfl, rfl⟩ := Prod.mk.inj (Option.some.inj h')
    rfl
  next h' => rw [h] at h'; cases h'

theorem readAll_write {t : Token} (ht : t.WellFormed) (hrest : t.Ends rest) :
    readAll (t.write ++ rest) = (readAll rest).map (t :: ·) := by
  obtain ⟨c, behind, htext, hblank, hread⟩ := readOne_write ht hrest
  rw [htext, readAll_of_readOne hblank hread]

/-! ## Sequences of tokens -/

/-- The tokens are read back from their texts wherever the text behind them ends the last
one, whatever it is. -/
def Legible (ts : List Token) : Prop :=
  ∀ rest, Stops isNumberChar rest → Stops Char.isAlpha rest →
    readAll (ts.flatMap write ++ rest) = (readAll rest).map (ts ++ ·)

/-- The token is a mark that ends whatever stands before it and is ended by anything. -/
structure Delimits (t : Token) : Prop where
  wellFormed : t.WellFormed
  ended : ∀ rest, t.Ends rest
  number : ∀ rest, Stops isNumberChar (t.write ++ rest)
  word : ∀ rest, Stops Char.isAlpha (t.write ++ rest)

lemma delimits_comma : Delimits comma := by
  constructor <;> simp [WellFormed, Ends, write, isNumberChar]

lemma delimits_closeArray : Delimits closeArray := by
  constructor <;> simp [WellFormed, Ends, write, isNumberChar]

lemma delimits_closeObject : Delimits closeObject := by
  constructor <;> simp [WellFormed, Ends, write, isNumberChar]

namespace Legible

variable {t : Token} {ts us : List Token}

/-- Only a number or a word depends on what follows. -/
lemma singleton (ht : t.WellFormed) : Legible [t] := by
  intro rest hnumber hword
  have hends : t.Ends rest := by
    cases t <;> first | exact trivial | exact hnumber | exact hword
  rw [List.flatMap_singleton, readAll_write ht hends]
  rfl

lemma cons (ht : t.WellFormed) (hends : ∀ rest, t.Ends rest) (hts : Legible ts) :
    Legible (t :: ts) := by
  intro rest hnumber hword
  rw [List.flatMap_cons, List.append_assoc, readAll_write ht (hends _), hts rest hnumber hword]
  cases readAll rest <;> rfl

lemma append (hts : Legible ts) (ht : t.Delimits) (hus : Legible (t :: us)) :
    Legible (ts ++ t :: us) := by
  intro rest hnumber hword
  have hsplit : ((t :: us).flatMap write ++ rest) = t.write ++ (us.flatMap write ++ rest) := by
    simp
  rw [List.flatMap_append, List.append_assoc, hts _ (hsplit ▸ ht.number _) (hsplit ▸ ht.word _),
    hus rest hnumber hword]
  cases readAll rest <;> simp

end Legible

end Token

end FleetComposition.Json
