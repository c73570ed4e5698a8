import FleetComposition.Json.Value
import FleetComposition.Proofs.Json.Spelling

/-!
# Values read back

The machine that reads values goes through the tokens of a value as one step: where a value
was due, it is complete. So a value is read back from its text, whatever its arrays and
objects hold.
-/
namespace FleetComposition.Json.Value

open Text

/-! ## Values and their tokens -/

/-- What holds of the simple values, and of arrays and objects of values of which it holds,
holds of all values. -/
theorem inductionOn {P : Value → Prop} (null : P .null) (bool : ∀ b, P (.bool b))
    (number : ∀ spelling, P (.number spelling)) (string : ∀ points, P (.string points))
    (array : ∀ items, (∀ v ∈ items, P v) → P (.array items))
    (object : ∀ members : List (List CodePoint × Value),
      (∀ m ∈ members, P m.2) → P (.object members)) :
    ∀ v, P v
  | .null => null
  | .bool b => bool b
  | .number spelling => number spelling
  | .string points => string points
  | .array items => array items fun v _ => inductionOn null bool number string array object v
  | .object members =>
    object members fun m _ => inductionOn null bool number string array object m.2
termination_by v => v
decreasing_by
  · have hlt := List.sizeOf_lt_of_mem ‹v ∈ items›
    simp only [Value.array.sizeOf_spec]
    omega
  · have hlt := List.sizeOf_lt_of_mem ‹m ∈ members›
    obtain ⟨key, v⟩ := m
    simp only [Value.object.sizeOf_spec, Prod.mk.sizeOf_spec] at hlt ⊢
    omega

lemma itemTokens_cons (v : Value) (items : List Value) :
    itemTokens (v :: items) = v.tokens ++ items.flatMap fun w => .comma :: w.tokens := by
  induction items generalizing v with
  | nil => simp [itemTokens]
  | cons w items ih => rw [itemTokens, ih w, List.flatMap_cons, List.cons_append]

/-- A member is written as its key, a colon and its value. -/
def memberTokensOf (m : List CodePoint × Value) : List Token :=
  .string m.1 :: .colon :: m.2.tokens

lemma memberTokens_cons (m : List CodePoint × Value) (members : List (List CodePoint × Value)) :
    memberTokens (m :: members) =
      memberTokensOf m ++ members.flatMap fun m => .comma :: memberTokensOf m := by
  induction members generalizing m with
  | nil => simp [memberTokens, memberTokensOf]
  | cons m' members ih =>
    rw [memberTokens, ih m', List.flatMap_cons]
    simp [memberTokensOf]

/-! ## The machine -/

namespace Reading

variable {v : Value} {stack : List Frame} {rest : List Token}

/-- The state of the machine behind the tokens. -/
def run (r : Reading) (ts : List Token) : Option Reading := ts.foldlM step r

lemma run_cons {r r' : Reading} {t : Token} (h : r.step t = some r') (ts : List Token) :
    r.run (t :: ts) = r'.run ts := by
  rw [run, List.foldlM_cons, h]
  rfl

/-- The tokens of the value take the machine from where it is due to where it is complete. -/
def Reads (v : Value) : Prop :=
  ∀ stack rest, run (.value stack) (v.tokens ++ rest) = run (.complete v stack) rest

/-- Behind an item the others are read, each with a comma in front of it. -/
theorem run_items {items : List Value} (hitems : ∀ w ∈ items, Reads w) (v : Value)
    (done : List Value) :
    run (.complete v (.array done :: stack))
        ((items.flatMap fun w => .comma :: w.tokens) ++ .closeArray :: rest) =
      run (.complete (.array (done.reverse ++ v :: items)) stack) rest := by
  induction items generalizing v done with
  | nil =>
    rw [List.flatMap_nil, List.nil_append, run_cons rfl, List.reverse_cons]
  | cons w items ih =>
    obtain ⟨hw, hitems⟩ := List.forall_mem_cons.mp hitems
    rw [List.flatMap_cons, List.cons_append, List.cons_append, run_cons rfl, List.append_assoc, hw,
      ih hitems, List.reverse_cons, List.append_assoc]
    rfl

lemma run_member {m : List CodePoint × Value} (hm : Reads m.2)
    (done : List (List CodePoint × Value)) {r : Reading}
    (hkey : r.step (.string m.1) = some (.colon done m.1 stack)) :
    run r (memberTokensOf m ++ rest) = run (.complete m.2 (.object done m.1 :: stack)) rest := by
  rw [memberTokensOf, List.cons_append, List.cons_append, run_cons hkey, run_cons rfl, hm]

theorem run_members {members : List (List CodePoint × Value)} (hmembers : ∀ m ∈ members, Reads m.2)
    (m : List CodePoint × Value) (done : List (List CodePoint × Value)) :
    run (.complete m.2 (.object done m.1 :: stack))
        ((members.flatMap fun m => .comma :: memberTokensOf m) ++ .closeObject :: rest) =
      run (.complete (.object (done.reverse ++ m :: members)) stack) rest := by
  induction members generalizing m done with
  | nil =>
    rw [List.flatMap_nil, List.nil_append, run_cons rfl, List.reverse_cons]
  | cons m' members ih =>
    obtain ⟨hm', hmembers⟩ := List.forall_mem_cons.mp hmembers
    rw [List.flatMap_cons, List.cons_append, List.cons_append, run_cons rfl, List.append_assoc,
      run_member hm' (m :: done) rfl, ih hmembers, List.reverse_cons, List.append_assoc]
    rfl

/-- A value does not start like the end of an array, so it may be the first item. -/
lemma run_firstItem (v : Value) (rest : List Token) :
    run (.firstItem stack) (v.tokens ++ rest) =
      run (.value (.array [] :: stack)) (v.tokens ++ rest) := by
  cases v <;> rfl

theorem reads (v : Value) : Reads v := by
  intro stack rest
  -- for any stack, as an item is read above the frame of its array or object
  induction v using inductionOn generalizing stack rest with
  | null => exact run_cons rfl rest
  | bool b => exact run_cons rfl rest
  | number spelling => exact run_cons rfl rest
  | string points => exact run_cons rfl rest
  | array items ih =>
    rw [tokens, List.cons_append, List.cons_append, List.append_assoc, List.singleton_append,
      run_cons rfl]
    cases items with
    | nil => exact run_cons rfl rest
    | cons v items =>
      obtain ⟨hv, hitems⟩ := List.forall_mem_cons.mp ih
      rw [itemTokens_cons, List.append_assoc, run_firstItem, hv, run_items hitems]
      rfl
  | object members ih =>
    rw [tokens, List.cons_append, List.cons_append, List.append_assoc, List.singleton_append,
      run_cons rfl]
    cases members with
    | nil => exact run_cons rfl rest
    | cons m members =>
      obtain ⟨hm, hmembers⟩ := List.forall_mem_cons.mp ih
      rw [memberTokens_cons, List.append_assoc, run_member hm [] rfl, run_members hmembers]
      rfl

end Reading

/-- Every value is read back from its tokens. -/
theorem ofTokens?_tokens (v : Value) : ofTokens? v.tokens = some v := by
  have hrun := Reading.reads v [] []
  rw [List.append_nil] at hrun
  have hfold : v.tokens.foldlM Reading.step (.value []) = some (.complete v []) := hrun
  rw [ofTokens?, hfold]
  rfl

/-! ## The text of a value -/

/-- The numbers of the value are numbers, and its strings are sequences of code points. -/
def WellFormed (v : Value) : Prop := ∀ t ∈ v.tokens, t.WellFormed

lemma wellFormed_array {items : List Value} :
    WellFormed (.array items) ↔ ∀ v ∈ items, v.WellFormed := by
  have hopen : Token.WellFormed .openArray := trivial
  have hcomma : Token.WellFormed .comma := trivial
  have hclose : Token.WellFormed .closeArray := trivial
  unfold WellFormed
  cases items with
  | nil => simp [tokens, itemTokens, hopen, hclose]
  | cons v items =>
    simp only [tokens, itemTokens_cons, List.forall_mem_append, List.forall_mem_cons,
      List.forall_mem_flatMap, List.not_mem_nil, false_imp_iff, implies_true, hopen, hcomma,
      hclose, true_and, and_true]

lemma wellFormed_object {members : List (List CodePoint × Value)} : WellFormed (.object members) ↔
    ∀ m ∈ members, Token.WellFormed (.string m.1) ∧ m.2.WellFormed := by
  have hopen : Token.WellFormed .openObject := trivial
  have hcolon : Token.WellFormed .colon := trivial
  have hcomma : Token.WellFormed .comma := trivial
  have hclose : Token.WellFormed .closeObject := trivial
  unfold WellFormed
  cases members with
  | nil => simp [tokens, memberTokens, hopen, hclose]
  | cons m members =>
    simp only [tokens, memberTokens_cons, memberTokensOf, List.forall_mem_append,
      List.forall_mem_cons, List.forall_mem_flatMap, List.not_mem_nil, false_imp_iff, implies_true,
      hopen, hcolon, hcomma, hclose, true_and, and_true]

open Token (Legible)

/-- Several things with commas between them are read up to the mark that closes them. -/
lemma legible_listed {ι : Type} {f : ι → List Token} {close : Token} (hclose : close.Delimits)
    (i : ι) (is : List ι) (h : ∀ j ∈ i :: is, Legible (f j)) :
    Legible (f i ++ ((is.flatMap fun j => .comma :: f j) ++ [close])) := by
  induction is generalizing i with
  | nil => exact (h i (by simp)).append hclose (Legible.singleton hclose.wellFormed)
  | cons j is ih =>
    obtain ⟨hi, his⟩ := List.forall_mem_cons.mp h
    have hothers := Legible.cons Token.delimits_comma.wellFormed Token.delimits_comma.ended
      (ih j his)
    rw [List.flatMap_cons, List.cons_append, List.cons_append, List.append_assoc]
    exact hi.append Token.delimits_comma hothers

theorem legible_tokens {v : Value} (h : v.WellFormed) : Legible v.tokens := by
  induction v using inductionOn with
  | null => exact Legible.singleton trivial
  | bool b => exact Legible.singleton trivial
  | number spelling => exact Legible.singleton (h _ List.mem_cons_self)
  | string points => exact Legible.singleton (h _ List.mem_cons_self)
  | array items ih =>
    rw [wellFormed_array] at h
    rw [tokens, List.cons_append]
    refine Legible.cons (t := .openArray) trivial (fun _ => trivial) ?_
    cases items with
    | nil => exact Legible.singleton trivial
    | cons v items =>
      rw [itemTokens_cons, List.append_assoc]
      exact legible_listed Token.delimits_closeArray v items fun w hw => ih w hw (h w hw)
  | object members ih =>
    rw [wellFormed_object] at h
    rw [tokens, List.cons_append]
    refine Legible.cons (t := .openObject) trivial (fun _ => trivial) ?_
    cases members with
    | nil => exact Legible.singleton trivial
    | cons m members =>
      rw [memberTokens_cons, List.append_assoc]
      refine legible_listed Token.delimits_closeObject m members fun m hm => ?_
      obtain ⟨hkey, hvalue⟩ := h m hm
      exact Legible.cons hkey (fun _ => trivial)
        (Legible.cons trivial (fun _ => trivial) (ih m hm hvalue))

/-- Every value is read back from its text. -/
theorem ofText?_write {v : Value} (h : v.WellFormed) : ofText? v.write = some v := by
  have hread := legible_tokens h [] (stops_nil _) (stops_nil _)
  have hend : Token.readAll [] = some [] := by rw [Token.readAll]
  rw [List.append_nil, hend] at hread
  rw [ofText?, write, String.toList_ofList, hread]
  simp [ofTokens?_tokens]

end FleetComposition.Json.Value
