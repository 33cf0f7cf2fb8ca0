import FlowScript.Policy

/-! Sources of scripts, and the keys under which what was compiled from them is kept. -/
namespace FlowScript

structure CodeSource where
  text : String
  name : String
  isCacheable : Bool
  deriving DecidableEq, Repr

/-- The name under which the scripts of a workflow are compiled. -/
def CodeSource.scriptName : String := "WorkflowScript"

def CodeSource.ofText (text : String) : CodeSource := ⟨text, scriptName, true⟩

/-- A source compiled under a policy. -/
structure CacheKey where
  policy : Policy
  source : CodeSource
  deriving DecidableEq

end FlowScript
