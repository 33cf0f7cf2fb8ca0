import FlowScript.CodeSource
import FlowScript.Execution
import FlowScript.FileTree.Resolve

/-! Definitions of flows: where a flow has its script from, and whether it is trusted. A script file is
read only from inside the checkout, wherever links and dots may lead. -/
namespace FlowScript

inductive ScriptOrigin where
  | inline (text : String)
  | file (checkout script : Path)
  deriving DecidableEq, Repr

structure FlowDefinition where
  origin : ScriptOrigin
  isSandboxed : Bool
  deriving DecidableEq, Repr

inductive DefinitionError where
  | outsideCheckout (script checkout : Path)
  | unreadable (fault : IoFault)
  deriving DecidableEq, Repr

def DefinitionError.message : DefinitionError → String
  | .outsideCheckout script checkout =>
    script.text ++ " references a location that is not inside " ++ checkout.text
  | .unreadable fault => "Unable to read " ++ fault.path.text

namespace FlowDefinition

/-- The policy that scripts of the definition are compiled under. -/
def policy (d : FlowDefinition) (sandbox : Policy) : Policy :=
  if d.isSandboxed then sandbox else .unrestricted

/-- The path of a script, without links, in a checkout. -/
def resolveInside (files : FileTree) (checkout script : Path) : Except DefinitionError Path := do
  let root ← (files.locate checkout).mapError fun e => .unreadable ⟨checkout, e⟩
  let rootPath := FileTree.pathOf root
  let candidate := rootPath.join script
  let file ← (files.locate candidate).mapError fun e => .unreadable ⟨candidate, e⟩
  if root.isPrefixOf file then return FileTree.pathOf file
  else .error (.outsideCheckout script rootPath)

def codeSource (d : FlowDefinition) (files : FileTree) : Except DefinitionError CodeSource :=
  match d.origin with
  | .inline text => .ok (.ofText text)
  | .file checkout script => do
    let file ← resolveInside files checkout script
    let text ← (files.readText file).mapError fun e => .unreadable ⟨file, e⟩
    return .ofText text

/-- A new execution with the source that it runs. -/
def createExecution (d : FlowDefinition) (files : FileTree) (id : ExecutionId) (job : String)
    (root : Path) : Except DefinitionError (Execution × CodeSource) :=
  (d.codeSource files).map fun source => (.create id job root, source)

end FlowDefinition
end FlowScript
