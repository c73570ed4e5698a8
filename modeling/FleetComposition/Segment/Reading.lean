/-!
# Reading the start of a text

A reader looks for something at the start of a text. Either it finds it and
leaves the rest, or it is absent and something else may be tried there, or the
text is at fault and nothing else may be tried.
-/
namespace FleetComposition.Segment

/-- A fault that ends the reading of a segment, with the text from the place
where it stands. -/
inductive Fault where
  | numberOutOfRange (rest : List Char)
  | missingShipId (rest : List Char)
  deriving DecidableEq, Repr

def Fault.rest : Fault → List Char
  | numberOutOfRange rest => rest
  | missingShipId rest => rest

inductive Reading (α : Type) where
  | found (value : α) (rest : List Char)
  | absent
  | fault (fault : Fault)
  deriving DecidableEq, Repr

abbrev Reader (α : Type) := List Char → Reading α

namespace Reading

variable {α β : Type}

def map (f : α → β) : Reading α → Reading β
  | found a rest => found (f a) rest
  | absent => absent
  | fault e => fault e

/-- Reads on after what was found. -/
def andThen (r : Reading α) (next : α → Reader β) : Reading β :=
  match r with
  | found a rest => next a rest
  | absent => absent
  | fault e => fault e

/-- Tries something else where nothing was found. A fault is no reason to try. -/
def orElse (r : Reading α) (other : Reading α) : Reading α :=
  match r with
  | found a rest => found a rest
  | absent => other
  | fault e => fault e

@[simp] theorem map_found (f : α → β) (a : α) (rest : List Char) :
    (found a rest).map f = found (f a) rest := rfl

@[simp] theorem map_absent (f : α → β) : (absent : Reading α).map f = absent := rfl

@[simp] theorem map_fault (f : α → β) (e : Fault) : (fault e : Reading α).map f = fault e := rfl

@[simp] theorem found_andThen (a : α) (rest : List Char) (next : α → Reader β) :
    (found a rest).andThen next = next a rest := rfl

@[simp] theorem absent_andThen (next : α → Reader β) :
    (absent : Reading α).andThen next = absent := rfl

@[simp] theorem fault_andThen (e : Fault) (next : α → Reader β) :
    (fault e : Reading α).andThen next = fault e := rfl

@[simp] theorem found_orElse (a : α) (rest : List Char) (other : Reading α) :
    (found a rest).orElse other = found a rest := rfl

@[simp] theorem absent_orElse (other : Reading α) : (absent : Reading α).orElse other = other := rfl

@[simp] theorem fault_orElse (e : Fault) (other : Reading α) :
    (fault e : Reading α).orElse other = fault e := rfl

theorem map_eq_found {f : α → β} {r : Reading α} {b : β} {rest : List Char}
    (h : r.map f = found b rest) : ∃ a, r = found a rest ∧ f a = b := by
  cases r with
  | found a left =>
    obtain ⟨hb, hl⟩ := found.inj h
    exact ⟨a, by rw [hl], hb⟩
  | absent => nomatch h
  | fault e => nomatch h

theorem andThen_eq_found {r : Reading α} {next : α → Reader β} {b : β} {rest : List Char}
    (h : r.andThen next = found b rest) :
    ∃ a left, r = found a left ∧ next a left = found b rest := by
  cases r with
  | found a left => exact ⟨a, left, rfl, h⟩
  | absent => nomatch h
  | fault e => nomatch h

theorem orElse_eq_found {r other : Reading α} {a : α} {rest : List Char}
    (h : r.orElse other = found a rest) : r = found a rest ∨ r = absent ∧ other = found a rest := by
  cases r with
  | found b left => exact .inl h
  | absent => exact .inr ⟨rfl, h⟩
  | fault e => nomatch h

end Reading

namespace Reader

variable {α : Type}

/-- What is found takes at least one character, so that a repetition ends. -/
def Progresses (read : Reader α) : Prop :=
  ∀ cs a rest, read cs = .found a rest → rest.length < cs.length

/-- Reads items as long as a separator and an item follow. A separator with no
item behind it is left unread. -/
def further (item : Reader α) (progress : item.Progresses) (separator : Char) (cs : List Char) :
    Except Fault (List α × List Char) :=
  match cs with
  | [] => .ok ([], [])
  | c :: behind =>
    if c = separator then
      match _found : item behind with
      | .found a rest =>
        match further item progress separator rest with
        | .ok (items, left) => .ok (a :: items, left)
        | .error e => .error e
      | .absent => .ok ([], c :: behind)
      | .fault e => .error e
    else .ok ([], c :: behind)
termination_by cs.length
decreasing_by
  have := progress _ _ _ _found
  simp only [List.length_cons]
  omega

/-- Reads one item and those that follow it behind separators. -/
def separated (item : Reader α) (progress : item.Progresses) (separator : Char) :
    Reader (List α) := fun cs =>
  match item cs with
  | .found a rest =>
    match further item progress separator rest with
    | .ok (items, left) => .found (a :: items) left
    | .error e => .fault e
  | .absent => .absent
  | .fault e => .fault e

theorem length_further {item : Reader α} {progress : item.Progresses} {separator : Char}
    {cs : List Char} {items : List α} {left : List Char}
    (h : further item progress separator cs = .ok (items, left)) : left.length ≤ cs.length := by
  fun_induction further item progress separator cs generalizing items left with
  | case1 => cases h; simp
  | case2 behind a rest hitem more last hrec ih =>
    have hlt := progress _ _ _ hitem
    have hle := ih hrec
    cases h
    simp only [List.length_cons]
    omega
  | case3 => nomatch h
  | case4 => cases h; simp
  | case5 => nomatch h
  | case6 => cases h; simp

theorem progresses_separated {item : Reader α} {progress : item.Progresses} {separator : Char} :
    (separated item progress separator).Progresses := by
  intro cs items left h
  unfold separated at h
  cases hitem : item cs with
  | absent => simp [hitem] at h
  | fault e => simp [hitem] at h
  | found a rest =>
    have hlt := progress _ _ _ hitem
    simp only [hitem] at h
    cases hrec : further item progress separator rest with
    | error e => simp [hrec] at h
    | ok p =>
      obtain ⟨more, last⟩ := p
      have hle := length_further hrec
      simp only [hrec, Reading.found.injEq] at h
      obtain ⟨-, rfl⟩ := h
      omega

end Reader

end FleetComposition.Segment
