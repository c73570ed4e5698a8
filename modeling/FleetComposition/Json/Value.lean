import FleetComposition.Json.Token

/-!
# JSON values

A value is written as the sequence of its tokens. It is read by a machine that
takes one token after the other and keeps the arrays and objects that are still
open on a stack.
-/
namespace FleetComposition.Json

/-- The members of an object stand in the order of the text, and a key may occur
more than once. -/
inductive Value where
  | null
  | bool (value : Bool)
  | number (spelling : List Char)
  | string (points : List CodePoint)
  | array (items : List Value)
  | object (members : List (List CodePoint × Value))
  deriving Repr

namespace Value

def ofText (text : String) : Value := .string (CodePoint.ofText text)

def ofNat (n : Nat) : Value := .number (Nat.toDigits 10 n)

/-- An object with the given fields. -/
def record (fields : List (String × Value)) : Value :=
  .object (fields.map fun (name, value) => (CodePoint.ofText name, value))

mutual

def tokens : Value → List Token
  | .null => [.null]
  | .bool b => [.bool b]
  | .number spelling => [.number spelling]
  | .string points => [.string points]
  | .array items => .openArray :: itemTokens items ++ [.closeArray]
  | .object members => .openObject :: memberTokens members ++ [.closeObject]
termination_by structural value => value

def itemTokens : List Value → List Token
  | [] => []
  | [v] => v.tokens
  | v :: w :: rest => v.tokens ++ .comma :: itemTokens (w :: rest)
termination_by structural items => items

def memberTokens : List (List CodePoint × Value) → List Token
  | [] => []
  | [(key, v)] => .string key :: .colon :: v.tokens
  | (key, v) :: m :: rest => .string key :: .colon :: v.tokens ++ .comma :: memberTokens (m :: rest)
termination_by structural members => members

end

/-- The shortest text of a value. -/
def write (v : Value) : String :=
  String.ofList (v.tokens.flatMap Token.write)

/-- An array or object that is still open, with what it holds so far, the last
first. -/
inductive Frame where
  | array (items : List Value)
  | object (members : List (List CodePoint × Value)) (key : List CodePoint)
  deriving Repr

/-- What may come next. -/
inductive Reading where
  /-- A value is due. -/
  | value (stack : List Frame)
  /-- The first item of an array, or its end. -/
  | firstItem (stack : List Frame)
  /-- The first key of an object, or its end. -/
  | firstKey (stack : List Frame)
  /-- A further key of an object. -/
  | nextKey (members : List (List CodePoint × Value)) (stack : List Frame)
  /-- The colon behind a key. -/
  | colon (members : List (List CodePoint × Value)) (key : List CodePoint) (stack : List Frame)
  /-- A value has been read, and belongs to the innermost open frame. -/
  | complete (value : Value) (stack : List Frame)
  deriving Repr

namespace Reading

/-- Starts to read a value. -/
def start (stack : List Frame) : Token → Option Reading
  | .null => some (.complete .null stack)
  | .bool b => some (.complete (.bool b) stack)
  | .number spelling => some (.complete (.number spelling) stack)
  | .string points => some (.complete (.string points) stack)
  | .openArray => some (.firstItem stack)
  | .openObject => some (.firstKey stack)
  | _ => none

/-- Goes on behind a value. -/
def goOn (v : Value) : List Frame → Token → Option Reading
  | .array items :: stack, .comma => some (.value (.array (v :: items) :: stack))
  | .array items :: stack, .closeArray => some (.complete (.array (v :: items).reverse) stack)
  | .object members key :: stack, .comma => some (.nextKey ((key, v) :: members) stack)
  | .object members key :: stack, .closeObject =>
    some (.complete (.object ((key, v) :: members).reverse) stack)
  | _, _ => none

def step : Reading → Token → Option Reading
  | .value stack, t => start stack t
  | .firstItem stack, .closeArray => some (.complete (.array []) stack)
  | .firstItem stack, t => start (.array [] :: stack) t
  | .firstKey stack, .closeObject => some (.complete (.object []) stack)
  | .firstKey stack, .string key => some (.colon [] key stack)
  | .firstKey _, _ => none
  | .nextKey members stack, .string key => some (.colon members key stack)
  | .nextKey _ _, _ => none
  | .colon members key stack, .colon => some (.value (.object members key :: stack))
  | .colon _ _ _, _ => none
  | .complete v stack, t => goOn v stack t

/-- The value, if everything that was opened has been closed. -/
def result? : Reading → Option Value
  | .complete v [] => some v
  | _ => none

end Reading

/-- The value of a sequence of tokens, all of which belong to it. -/
def ofTokens? (ts : List Token) : Option Value := do
  let r ← ts.foldlM Reading.step (.value [])
  r.result?

def ofText? (text : String) : Option Value := do
  let ts ← Token.readAll text.toList
  ofTokens? ts

end Value

end FleetComposition.Json
