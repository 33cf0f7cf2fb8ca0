import FlowScript.Frame.Resume

/-! Tables of registered resume points, and the delivery of a signal to a continuation. -/
namespace FlowScript

/-- A host registers groups of resume points; the others cannot be resumed. Groups of a host's own are left out
here, as no block of a program makes a frame for one of their points. -/
structure Table where
  groups : List Group

/-- What comes of delivering a signal. -/
inductive Delivery where
  | next (step : Step)
  | halted (signal : Signal)

namespace Table

def standard : Table := ⟨Group.all⟩

def contains (t : Table) (p : ResumePoint) : Bool := t.groups.contains p.group

def points (t : Table) : List ResumePoint := ResumePoint.all.filter t.contains

/-- The registered point of a pair of names. -/
def resolve (t : Table) (group method : String) : Except EngineError ResumePoint :=
  match ResumePoint.ofNames? group method with
  | some p => if t.contains p then .ok p else .error (.unknownNames group method)
  | none => .error (.unknownNames group method)

/-- Resumes the innermost frame itself, registered or not, without going past it on a failure. -/
def resumeInnermost (h : Heap) (k : Continuation) (s : Signal) : Heap × Except EngineError Delivery :=
  match k with
  | [] => (h, .ok (.halted s))
  | f :: rest =>
    match f.resume s rest with
    | .error e => (h, .error e)
    | .ok go =>
      let (h, step) := go h
      (h, .ok (.next step))

/-- Delivers a signal to the innermost frame. A failure goes past a frame that does not intercept it,
and the frame's captured state is not looked at. -/
def deliver (t : Table) (h : Heap) (k : Continuation) (s : Signal) :
    Heap × Except EngineError Delivery :=
  match k with
  | [] => (h, .ok (.halted s))
  | f :: rest =>
    if !t.contains f.point then (h, .error (.unknownPoint f.point))
    else if s.isThrown && !f.point.intercepts then (h, .ok (.next (.resume s rest)))
    else resumeInnermost h (f :: rest) s

/-- The names of the registered points, in order. -/
def text (t : Table) : String :=
  let names := (t.points.map fun p => "\"" ++ p.name ++ "\"").mergeSort (· ≤ ·)
  "DispatchTable \x7b tags: [" ++ ", ".intercalate names ++ "] \x7d"

theorem standard_contains (p : ResumePoint) : standard.contains p = true := by
  cases p <;> decide

end Table
end FlowScript
