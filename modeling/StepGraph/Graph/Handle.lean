/-!
# Edge handles

An edge leaves its source node from a handle: the primary or the secondary
one, a switch's default, or one of its cases. On the wire a handle is a
text, and every text is one.
-/

namespace StepGraph

/-- The output of a node that an edge leaves from. -/
inductive Handle where
  | primary
  | secondary
  | defaultBranch
  | caseBranch (value : String)
  deriving DecidableEq, Repr

namespace Handle

/-- The wire text of a handle. -/
def text : Handle → String
  | primary => "a"
  | secondary => "b"
  | defaultBranch => "default"
  | caseBranch value => value

/-- The handle that a wire text names; a text that names no other handle is
a case. -/
def ofText (text : String) : Handle :=
  if text = "a" then primary
  else if text = "b" then secondary
  else if text = "default" then defaultBranch
  else caseBranch text

end Handle

end StepGraph
