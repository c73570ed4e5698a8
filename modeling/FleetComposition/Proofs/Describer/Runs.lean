import FleetComposition.Describer

/-!
# Runs of a describer

Every way of using a describer is a call, and a run is a sequence of calls in
which each one is answered by the describer that the calls before it left.
-/
namespace FleetComposition.Describer

inductive Call where
  | describe (text : String) (language : Language)
  | describeInDefault (text : String)
  | describeInTag (text tag : String)
  | describeAll (texts : List String) (language : Language)
  | describeExpression (e : Expression)
  | remembered (text : String) (language : Language)
  | clearCache

/-- What a call gives back; a cleared cache gives nothing. -/
inductive Answer where
  | result (result : Except Error String)
  | results (results : List (Except Error String))
  | memory (kept : Option String)
  | nothing

def respond (d : Describer) : Call → Answer × Describer
  | .describe text language =>
    (.result (d.describe text language).1, (d.describe text language).2)
  | .describeInDefault text => (.result (d.describeInDefault text).1, (d.describeInDefault text).2)
  | .describeInTag text tag => (.result (d.describeInTag text tag).1, (d.describeInTag text tag).2)
  | .describeAll texts language =>
    (.results (d.describeAll texts language).1, (d.describeAll texts language).2)
  | .describeExpression e => (.result (.ok (d.describeExpression e)), d)
  | .remembered text language =>
    (.memory (d.remembered text language).1, (d.remembered text language).2)
  | .clearCache => (.nothing, d.clearCache)

/-- The answers to a sequence of calls, and the describer after them. -/
def run (d : Describer) : List Call → List Answer × Describer
  | [] => ([], d)
  | call :: calls =>
    ((d.respond call).1 :: ((d.respond call).2.run calls).1, ((d.respond call).2.run calls).2)

end FleetComposition.Describer
