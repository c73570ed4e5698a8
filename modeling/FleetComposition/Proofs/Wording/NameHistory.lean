import FleetComposition.Wording.Naming
import Mathlib.Data.Finset.Card

/-!
# Names after a history of insertions

What a name table answers can be told from the insertions that made it. Of the insertions
for a token and a language the last one counts, and only where there is none does the last
one for the token in all languages count.
-/
namespace FleetComposition.NameTable

/-- A name for a token, in one language or in all of them. -/
structure Insertion where
  token : ShipToken
  language : Option Language
  name : String
  deriving DecidableEq, Repr

/-- What the insertion gives a name to. -/
def Insertion.key (i : Insertion) : ShipToken × Option Language := (i.token, i.language)

def insertAll (table : NameTable) (history : List Insertion) : NameTable :=
  history.foldl (fun table i => table.insert i.token i.language i.name) table

def ofHistory (history : List Insertion) : NameTable := empty.insertAll history

/-- The name that was given last, if any was given. -/
def latestName (key : ShipToken × Option Language) (history : List Insertion) : Option String :=
  (history.reverse.find? fun i => i.key = key).map Insertion.name

variable {key : ShipToken × Option Language} {history : List Insertion}

/-! ## Latest names -/

lemma latestName_append (key : ShipToken × Option Language) (earlier later : List Insertion) :
    latestName key (earlier ++ later) = (latestName key later).or (latestName key earlier) := by
  rw [latestName, List.reverse_append, List.find?_append, Option.map_or]
  rfl

lemma latestName_singleton (key : ShipToken × Option Language) (i : Insertion) :
    latestName key [i] = if i.key = key then some i.name else none := by
  by_cases h : i.key = key <;> simp [latestName, h]

lemma latestName_of_ne {i : Insertion} (h : i.key ≠ key) (history : List Insertion) :
    latestName key (history ++ [i]) = latestName key history := by
  rw [latestName_append, latestName_singleton, if_neg h, Option.none_or]

lemma isSome_latestName : (latestName key history).isSome ↔ key ∈ history.map Insertion.key := by
  simp [latestName, List.find?_isSome, List.mem_map]

/-- Which of two neighbours came first does not matter if they name different things. -/
lemma latestName_swap {a b : Insertion} (h : a.key ≠ b.key) (key : ShipToken × Option Language)
    (before after : List Insertion) :
    latestName key (before ++ b :: a :: after) = latestName key (before ++ a :: b :: after) := by
  have hpair : latestName key ([b] ++ [a]) = latestName key ([a] ++ [b]) := by
    rw [latestName_append, latestName_append, latestName_singleton, latestName_singleton]
    by_cases ha : a.key = key
    · have hb : b.key ≠ key := fun hb => h (ha.trans hb.symm)
      rw [if_pos ha, if_neg hb, Option.or_none, Option.none_or]
    · rw [if_neg ha, Option.none_or, Option.or_none]
  have hsplit : ∀ x y, before ++ x :: y :: after = before ++ (([x] ++ [y]) ++ after) :=
    fun _ _ => rfl
  rw [hsplit, hsplit, latestName_append, latestName_append _ _ after, hpair,
    ← latestName_append _ _ after, ← latestName_append]

/-! ## Tables of a history -/

/-- Keys are compared part by part, which is the same as comparing them as values. -/
lemma lookup_insert (table : NameTable) (i : Insertion) (key : ShipToken × Option Language) :
    (table.insert i.token i.language i.name).entries.lookup key =
      if i.key = key then some i.name else table.entries.lookup key := by
  have hbeq : (instBEqProd : BEq (ShipToken × Option Language)) = instBEqOfDecidableEq :=
    lawful_beq_subsingleton _ _
  rw [hbeq, insert, Latest.lookup_record]
  simp only [Insertion.key, eq_comm]

/-- The table holds the latest name of everything that has one, each under its key. -/
structure Reflects (table : NameTable) (history : List Insertion) : Prop where
  names : ∀ key, table.entries.lookup key = latestName key history
  distinct : Latest.Distinct table.entries

namespace Reflects

variable {table : NameTable}

theorem empty : Reflects empty [] where
  names := fun _ => rfl
  distinct := List.nodup_nil

theorem insert (h : table.Reflects history) (i : Insertion) :
    (table.insert i.token i.language i.name).Reflects (history ++ [i]) where
  names := fun key => by
    rw [lookup_insert, latestName_append, latestName_singleton, h.names]
    by_cases hkey : i.key = key
    · rw [if_pos hkey, if_pos hkey, Option.some_or]
    · rw [if_neg hkey, if_neg hkey, Option.none_or]
  distinct := Latest.distinct_record _ _ h.distinct

theorem insertAll (h : table.Reflects history) (later : List Insertion) :
    (table.insertAll later).Reflects (history ++ later) := by
  induction later generalizing table history with
  | nil => rwa [List.append_nil]
  | cons i later ih =>
    rw [← List.singleton_append, ← List.append_assoc]
    exact ih (h.insert i)

theorem ofHistory (history : List Insertion) : (ofHistory history).Reflects history :=
  empty.insertAll history

theorem naming_eq (h : table.Reflects history) (token : ShipToken) (language : Language) :
    table.naming token language =
      ((latestName (token, some language) history).or (latestName (token, none) history)).getD
        token.text := by
  rw [naming, h.names, h.names]
  cases latestName (token, some language) history <;> rfl

theorem mem_keys (h : table.Reflects history) :
    key ∈ table.entries.map Prod.fst ↔ key ∈ history.map Insertion.key := by
  rw [← isSome_latestName, ← h.names, List.lookup_isSome_iff, List.mem_map]
  exact exists_congr fun e => and_congr_right fun _ => by rw [beq_iff_eq, eq_comm]

theorem size_eq (h : table.Reflects history) :
    table.size = (history.map Insertion.key).toFinset.card := by
  have hkeys : (table.entries.map Prod.fst).toFinset = (history.map Insertion.key).toFinset := by
    ext key
    rw [List.mem_toFinset, List.mem_toFinset, h.mem_keys]
  rw [size, ← hkeys, List.toFinset_card_of_nodup h.distinct, List.length_map]

end Reflects

/-- A table answers with the latest name for the token and the language, else with the latest
one for the token alone, else with the token as it is spelt, and it counts what has been
named. So neighbouring insertions for different things may change places, and an insertion
for another token makes no difference, not even for one that is spelt alike. -/
theorem naming_ofHistory (history : List Insertion) :
    let table := ofHistory history
    (∀ token language, table.naming token language =
      ((latestName (token, some language) history).or (latestName (token, none) history)).getD
        token.text) ∧
    table.size = (history.map Insertion.key).toFinset.card ∧
    (∀ before a b after, history = before ++ a :: b :: after → a.key ≠ b.key →
      (ofHistory (before ++ b :: a :: after)).naming = table.naming) ∧
    (∀ i token language, i.token ≠ token →
      (ofHistory (history ++ [i])).naming token language = table.naming token language) ∧
    ∀ id, ShipToken.code (ShipToken.shipClass id).text ≠ .shipClass id ∧
      (ShipToken.code (ShipToken.shipClass id).text).text = (ShipToken.shipClass id).text := by
  intro table
  have htable : table.Reflects history := .ofHistory history
  refine ⟨htable.naming_eq, htable.size_eq, fun before a b after heq hne => ?_,
    fun i token language hne => ?_, fun id => ⟨nofun, rfl⟩⟩
  · subst heq
    funext token language
    rw [(Reflects.ofHistory _).naming_eq, htable.naming_eq, latestName_swap hne,
      latestName_swap hne]
  · have hkey : ∀ l, i.key ≠ (token, l) := fun l heq => hne (congrArg Prod.fst heq)
    rw [(Reflects.ofHistory _).naming_eq, htable.naming_eq, latestName_of_ne (hkey _),
      latestName_of_ne (hkey _)]

/-- A code that is spelt like a class has a name of its own, and that of the class for all
languages does not hide the one in Japanese, though it was given later. -/
theorem naming_ofHistory_spelt_alike :
    let code : Insertion := ⟨.code "@30", none, "thirty"⟩
    let japanese : Insertion := ⟨.shipClass 30, some .japanese, "陽炎型"⟩
    let everywhere : Insertion := ⟨.shipClass 30, none, "Kagerou-class"⟩
    let table := ofHistory [code, japanese, everywhere]
    (ofHistory [code, everywhere, japanese]).naming = table.naming ∧
      table.naming (.shipClass 30) .japanese = "陽炎型" ∧
      table.naming (.shipClass 30) .english = "Kagerou-class" ∧
      table.naming (.code "@30") .japanese = "thirty" ∧ table.size = 3 := by
  intro code japanese everywhere table
  obtain ⟨hnames, hsize, hswap, -, -⟩ := naming_ofHistory [code, japanese, everywhere]
  refine ⟨hswap [code] japanese everywhere [] rfl (by decide), ?_, ?_, ?_, ?_⟩
  · exact (hnames (.shipClass 30) .japanese).trans (by decide)
  · exact (hnames (.shipClass 30) .english).trans (by decide)
  · exact (hnames (.code "@30") .japanese).trans (by decide)
  · exact hsize.trans (by decide)

end FleetComposition.NameTable
