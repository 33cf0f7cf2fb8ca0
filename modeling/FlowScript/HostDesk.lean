import FlowScript.Invoker

/-! A host described by data: functions with fixed behaviour, layers around the built-in members, and
a desk that keeps what calls leave behind. -/
namespace FlowScript

/-- What a host function does. -/
inductive HostAction where
  | arguments
  | firstArgument
  | countCalls
  | answer (v : Value)
  | fail (f : Failure)
  | cancelRun (v : Value)

/-- What calls leave behind: how often each counting function was called, the recorded signatures
(the last first), and whether the run was cancelled. -/
structure HostDesk where
  counts : Entries Nat
  log : List String
  isCancelled : Bool

def HostDesk.empty : HostDesk := ⟨[], [], false⟩

/-- The recorded signatures in their order. -/
def HostDesk.calls (d : HostDesk) : List String := d.log.reverse

def HostDesk.record (signature : String) (d : HostDesk) : HostDesk := { d with log := signature :: d.log }

def HostAction.function (name : String) : HostAction → Invoker.HostFunction HostDesk
  | .arguments => fun args d => (.ok (.list args), d)
  | .firstArgument => fun args d => (.ok (args.headD .null), d)
  | .countCalls => fun _ d =>
    let n := (d.counts.find? name).getD 0 + 1
    (.ok (Invoker.count n), { d with counts := d.counts.insert name n })
  | .answer v => fun _ d => (.ok v, d)
  | .fail f => fun _ d => (.error f, d)
  | .cancelRun v => fun _ d => (.ok v, { d with isCancelled := true })

inductive Layer where
  | sandbox
  | logging
  deriving DecidableEq, Repr

structure HostSetup where
  functions : Entries HostAction
  policy : Policy
  internalTypes : List String
  layers : List Layer

/-- The invoker of a setup; its layers are given from the outermost to the innermost. -/
def HostSetup.invoker (s : HostSetup) : Invoker HostDesk :=
  s.layers.foldr
    (fun layer inner =>
      match layer with
      | .sandbox => inner.sandboxed s.policy
      | .logging => inner.logged s.internalTypes HostDesk.record)
    (Invoker.builtin (s.functions.map fun (name, action) => (name, action.function name)))

end FlowScript
