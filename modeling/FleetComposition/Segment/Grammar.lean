import FleetComposition.Segment.Basic
import FleetComposition.Segment.Reading

/-!
# The grammar of segments

    segment = parentheses [ "!" ] [ token { "|" token } ] { field }
    token   = "@" digits | "#" digits | word, between any parentheses
    field   = quantity | slot list | level | "*" | any other character
    level   = "level>" digits

A word that is the start of a level is no token. A character that starts no
field is skipped. A number that is too large is a fault wherever it is read, and
so is a mark of a class or a ship without a number.
-/
namespace FleetComposition.Segment

open Text

namespace Reader

/-- What follows a fixed spelling. -/
def behind? : List Char → List Char → Option (List Char)
  | [], cs => some cs
  | _ :: _, [] => none
  | mark :: marks, c :: cs => if c = mark then behind? marks cs else none

def levelMark : List Char := "level>".toList

/-- The whole run of digits at the start. -/
def number : Reader UInt32 := fun cs =>
  match cs.takeWhile Char.isDigit with
  | [] => .absent
  | digits =>
    match word? digits with
    | some n => .found n (cs.dropWhile Char.isDigit)
    | none => .fault (.numberOutOfRange cs)

def level : Reader UInt32 := fun cs =>
  match behind? levelMark cs with
  | some rest => number rest
  | none => .absent

/-- The number that a mark of a class or a ship needs. -/
def reference : Reader UInt32 := fun cs =>
  (number cs).orElse (.fault (.missingShipId cs))

def word : Reader ShipToken := fun cs =>
  match cs.takeWhile isWordChar with
  | [] => .absent
  | letters => .found (.ofWord (String.ofList letters)) (cs.dropWhile isWordChar)

def bareToken : Reader ShipToken
  | '@' :: rest => (reference rest).map .shipClass
  | '#' :: rest => (reference rest).map .ship
  | cs => word cs

def isParenthesis (c : Char) : Bool :=
  c = '(' || c = ')'

def skipParentheses (cs : List Char) : List Char :=
  cs.dropWhile isParenthesis

/-- A token and the parentheses behind it, where no level is written. -/
def closedToken : Reader ShipToken := fun cs =>
  match level cs with
  | .found _ _ => .absent
  | .fault e => .fault e
  | .absent => (bareToken cs).andThen fun t rest => .found t (skipParentheses rest)

/-- A token with the parentheses around it, which mean nothing. -/
def token : Reader ShipToken := fun cs =>
  closedToken (skipParentheses cs)

/-- Ends a bracketed field. -/
def closing {α : Type} (mark : Char) (a : α) : Reader α
  | c :: rest => if c = mark then .found a rest else .absent
  | [] => .absent

/-- The upper bound of a quantity: none is written for an exact number, and a
comma with no number behind it leaves the quantity unbounded. -/
def upperBound (min : UInt32) : Reader Quantity
  | ',' :: rest => ((number rest).map (.between min)).orElse (.found (.atLeast min) rest)
  | cs => .found (.exactly min) cs

def quantityField : Reader Quantity
  | '{' :: rest => ((number rest).andThen upperBound).andThen (closing '}')
  | _ => .absent

def slotItem : Reader SlotItem := fun cs =>
  ((level cs).map .level).orElse ((number cs).map .slot)

def star : Reader Field
  | '*' :: rest => .found .star rest
  | _ => .absent

theorem behind?_eq_some_iff {mark cs rest : List Char} :
    behind? mark cs = some rest ↔ cs = mark ++ rest := by
  induction mark generalizing cs with
  | nil => simp [behind?, eq_comm]
  | cons m mark ih =>
    cases cs with
    | nil => simp [behind?]
    | cons c cs =>
      by_cases h : c = m
      · simp [behind?, h, ih]
      · simp [behind?, h]

theorem length_dropWhile_lt {p : Char → Bool} {cs : List Char} (h : cs.takeWhile p ≠ []) :
    (cs.dropWhile p).length < cs.length := by
  have hsum := congrArg List.length (List.takeWhile_append_dropWhile (p := p) (l := cs))
  have hpos := List.length_pos_iff.mpr h
  rw [List.length_append] at hsum
  omega

theorem progresses_number : Progresses number := by
  intro cs n rest h
  unfold number at h
  split at h
  · nomatch h
  · next hdigits =>
    split at h
    · cases h
      exact length_dropWhile_lt hdigits
    · nomatch h

theorem progresses_level : Progresses level := by
  intro cs n rest h
  unfold level at h
  split at h
  · next left hleft =>
    have hlt := progresses_number _ _ _ h
    rw [behind?_eq_some_iff.mp hleft, List.length_append]
    omega
  · nomatch h

theorem progresses_reference : Progresses reference := by
  intro cs n rest h
  rcases Reading.orElse_eq_found h with h | ⟨-, h⟩
  · exact progresses_number _ _ _ h
  · nomatch h

theorem progresses_word : Progresses word := by
  intro cs t rest h
  unfold word at h
  split at h
  · nomatch h
  · next hletters =>
    cases h
    exact length_dropWhile_lt hletters

theorem progresses_bareToken : Progresses bareToken := by
  intro cs t rest h
  unfold bareToken at h
  split at h
  · obtain ⟨n, h, -⟩ := Reading.map_eq_found h
    have := progresses_reference _ _ _ h
    simp only [List.length_cons]
    omega
  · obtain ⟨n, h, -⟩ := Reading.map_eq_found h
    have := progresses_reference _ _ _ h
    simp only [List.length_cons]
    omega
  · exact progresses_word _ _ _ h

theorem length_skipParentheses_le (cs : List Char) : (skipParentheses cs).length ≤ cs.length :=
  (List.dropWhile_sublist _).length_le

theorem progresses_token : Progresses token := by
  intro cs t rest h
  unfold token closedToken at h
  split at h
  · nomatch h
  · nomatch h
  · obtain ⟨t', left, hleft, h⟩ := Reading.andThen_eq_found h
    cases h
    have h1 := progresses_bareToken _ _ _ hleft
    have h2 := length_skipParentheses_le left
    have h3 := length_skipParentheses_le cs
    omega

theorem progresses_closing {α : Type} (mark : Char) (a : α) :
    Progresses (closing mark a) := by
  intro cs b rest h
  unfold closing at h
  split at h
  · split at h
    · cases h
      simp
    · nomatch h
  · nomatch h

theorem length_upperBound_le {min : UInt32} {cs rest : List Char} {q : Quantity}
    (h : upperBound min cs = .found q rest) : rest.length ≤ cs.length := by
  unfold upperBound at h
  split at h
  · next left =>
    rcases Reading.orElse_eq_found h with h | ⟨-, h⟩
    · obtain ⟨n, h, -⟩ := Reading.map_eq_found h
      have := progresses_number _ _ _ h
      simp only [List.length_cons]
      omega
    · cases h
      simp
  · cases h
    simp

theorem progresses_quantityField : Progresses quantityField := by
  intro cs q rest h
  unfold quantityField at h
  split at h
  · next left =>
    obtain ⟨q', last, h, hclose⟩ := Reading.andThen_eq_found h
    obtain ⟨n, mid, hnum, hbound⟩ := Reading.andThen_eq_found h
    have h1 := progresses_number _ _ _ hnum
    have h2 := length_upperBound_le hbound
    have h3 := progresses_closing _ _ _ _ _ hclose
    simp only [List.length_cons]
    omega
  · nomatch h

theorem progresses_slotItem : Progresses slotItem := by
  intro cs item rest h
  rcases Reading.orElse_eq_found h with h | ⟨-, h⟩
  · obtain ⟨n, h, -⟩ := Reading.map_eq_found h
    exact progresses_level _ _ _ h
  · obtain ⟨n, h, -⟩ := Reading.map_eq_found h
    exact progresses_number _ _ _ h

/-- A list of slots and levels in brackets, with at least one item. -/
def slotList : Reader (List SlotItem)
  | '[' :: rest => (separated slotItem progresses_slotItem ',' rest).andThen (closing ']')
  | _ => .absent

def field : Reader Field := fun cs =>
  (((quantityField cs).map .quantity).orElse ((slotList cs).map .slots)).orElse
    (((level cs).map .level).orElse (star cs))

theorem progresses_slotList : Progresses slotList := by
  intro cs items rest h
  unfold slotList at h
  split at h
  · next left =>
    obtain ⟨items', last, h, hclose⟩ := Reading.andThen_eq_found h
    have h1 := progresses_separated _ _ _ h
    have h2 := progresses_closing _ _ _ _ _ hclose
    simp only [List.length_cons]
    omega
  · nomatch h

theorem progresses_star : Progresses star := by
  intro cs f rest h
  unfold star at h
  split at h
  · cases h
    simp
  · nomatch h

theorem progresses_field : Progresses field := by
  intro cs f rest h
  rcases Reading.orElse_eq_found h with h | ⟨-, h⟩
  · rcases Reading.orElse_eq_found h with h | ⟨-, h⟩
    · obtain ⟨q, h, -⟩ := Reading.map_eq_found h
      exact progresses_quantityField _ _ _ h
    · obtain ⟨items, h, -⟩ := Reading.map_eq_found h
      exact progresses_slotList _ _ _ h
  · rcases Reading.orElse_eq_found h with h | ⟨-, h⟩
    · obtain ⟨n, h, -⟩ := Reading.map_eq_found h
      exact progresses_level _ _ _ h
    · exact progresses_star _ _ _ h

/-- All fields up to the end of the segment, without the characters between them
that start no field. -/
def fields (cs : List Char) : Except Fault (List Field) :=
  match cs with
  | [] => .ok []
  | c :: cs =>
    match _found : field (c :: cs) with
    | .found f rest => (fields rest).map (f :: ·)
    | .absent => fields cs
    | .fault e => .error e
termination_by cs.length
decreasing_by
  · exact progresses_field _ _ _ _found
  · simp

/-- The tokens at the start, possibly none, and the text behind them. -/
def tokens (cs : List Char) : Except Fault (List ShipToken × List Char) :=
  match separated token progresses_token '|' cs with
  | .found ts rest => .ok (ts, rest)
  | .absent => .ok ([], cs)
  | .fault e => .error e

/-- The mark of negation at the start, if there is one, and the text behind it. -/
def negation : List Char → Bool × List Char
  | '!' :: rest => (true, rest)
  | cs => (false, cs)

end Reader

def read (cs : List Char) : Except Fault Segment :=
  let (negated, body) := Reader.negation (Reader.skipParentheses cs)
  match Reader.tokens body with
  | .ok (ts, rest) => (Reader.fields rest).map fun fs => ⟨negated, ts, fs⟩
  | .error e => .error e

end FleetComposition.Segment
