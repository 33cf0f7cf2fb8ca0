import FlowScript.Frame.Json
import FlowScript.Machine

/-! Suspended runs as plain data. Scopes are numbered in the order of their first use, ancestors
before descendants, so that frames that share a scope still share it once they are restored. -/
namespace FlowScript

structure ScopeRecord where
  parent : Option Nat
  bindings : Bindings

structure FrameRecord where
  group : String
  method : String
  scope : Nat
  captured : Captured

/-- The frames stand innermost first. -/
structure Snapshot where
  request : Value
  scopes : List ScopeRecord
  frames : List FrameRecord

/-- Why a snapshot cannot be restored. -/
inductive SnapshotError where
  | parentNotBefore (scope parent : Nat)
  | unknownNames (group method : String)
  | missingScope (point : ResumePoint) (scope : Nat)
  deriving DecidableEq, Repr

def SnapshotError.message : SnapshotError → String
  | .parentNotBefore scope parent =>
    "malformed snapshot: scope " ++ toString scope ++ " names parent " ++ toString parent ++
      " which does not precede it"
  | .unknownNames group method => (EngineError.unknownNames group method).message
  | .missingScope point scope =>
    "malformed snapshot: frame " ++ point.name ++ " refers to missing scope " ++ toString scope

/-! ### Capture -/

/-- The scopes recorded so far: the place of a scope in `seen` is its number. -/
structure Recorded where
  seen : Array ScopeId
  records : Array ScopeRecord

namespace Recorded

def empty : Recorded := ⟨#[], #[]⟩

def place? (r : Recorded) (e : ScopeId) : Option Nat := r.seen.findIdx? (· == e)

/-- Records one scope that is not there yet, and its parent's number if the parent is there. -/
def add (h : Heap) (r : Recorded) (e : ScopeId) : Recorded :=
  ⟨r.seen.push e, r.records.push ⟨(h.parent? e).bind r.place?, h.locals e⟩⟩

/-- Records a scope behind its ancestors and gives its number. -/
def intern (h : Heap) (r : Recorded) (e : ScopeId) : Nat × Recorded :=
  match r.place? e with
  | some n => (n, r)
  | none =>
    let fresh := ((h.chain e).takeWhile fun s => (r.place? s).isNone).reverse
    let r := fresh.foldl (add h) r
    (r.seen.size - 1, r)

/-- Records the scopes of a chain of frames. -/
def ofFrames (h : Heap) : Recorded → Continuation → List FrameRecord × Recorded
  | r, [] => ([], r)
  | r, f :: k =>
    let (scope, r) := intern h r f.scope
    let (frames, r) := ofFrames h r k
    (⟨f.point.group.name, f.point.method, scope, f.captured⟩ :: frames, r)

end Recorded

namespace Snapshot

def capture (h : Heap) (s : Suspension) : Snapshot :=
  let (frames, recorded) := Recorded.ofFrames h .empty s.k
  ⟨s.request, recorded.records.toList, frames⟩

/-! ### Restoring -/

/-- Every scope names a parent before it, every frame a registered point and a scope that is there. -/
def WellFormed (t : Table) (s : Snapshot) : Prop :=
  (∀ (i : Nat) (record : ScopeRecord) (p : Nat),
    s.scopes[i]? = some record → record.parent = some p → p < i) ∧
    ∀ f ∈ s.frames, (∃ point, t.resolve f.group f.method = .ok point) ∧ f.scope < s.scopes.length

/-- The first scope whose parent does not come before it. -/
def badParent? (scopes : List ScopeRecord) : Option (Nat × Nat) :=
  scopes.zipIdx.findSome? fun ((record, i) : ScopeRecord × Nat) =>
    (record.parent.filter fun p => decide (i ≤ p)).map fun p => (i, p)

/-- Adds the scopes to a heap; `base` is the number that the first of them gets. -/
def addScopes (base : ScopeId) (h : Heap) (scopes : List ScopeRecord) : Heap :=
  scopes.foldl (fun h record => h.addScope (record.parent.map (base + ·)) record.bindings) h

def restoreFrame (t : Table) (base count : Nat) (f : FrameRecord) : Except SnapshotError Frame :=
  match t.resolve f.group f.method with
  | .error _ => .error (.unknownNames f.group f.method)
  | .ok point =>
    if f.scope < count then .ok ⟨point, base + f.scope, f.captured⟩
    else .error (.missingScope point f.scope)

/-- Builds the chain from its outer end. -/
def restoreFrames (t : Table) (base count : Nat) : List FrameRecord → Except SnapshotError Continuation
  | [] => .ok []
  | f :: rest => do
    let k ← restoreFrames t base count rest
    let frame ← restoreFrame t base count f
    return frame :: k

/-- A suspension over fresh scopes. -/
def restore (s : Snapshot) (t : Table) (h : Heap) : Heap × Except SnapshotError Suspension :=
  let base := h.next
  match badParent? s.scopes with
  | some (scope, parent) => (h, .error (.parentNotBefore scope parent))
  | none =>
    match restoreFrames t base s.scopes.length s.frames with
    | .error e => (h, .error e)
    | .ok k => (addScopes base h s.scopes, .ok ⟨s.request, k⟩)

/-! ### As JSON -/

def recordJson (r : ScopeRecord) : Json :=
  .record [("parent", .optional (r.parent.map fun p => .int p)),
    ("bindings", Value.bindingsToJson r.bindings)]

def frameJson (f : FrameRecord) : Json :=
  .record [("group", .string f.group), ("method", .string f.method), ("scope", .int f.scope),
    ("captured", f.captured.toJson)]

def toJson (s : Snapshot) : Json :=
  .record [("request", s.request.toJson), ("scopes", .list (s.scopes.map recordJson)),
    ("frames", .list (s.frames.map frameJson))]

def recordOfJson : Json.Decoder ScopeRecord :=
  Json.asRecord ⟨["parent", "bindings"], 2⟩ fun fields =>
    ScopeRecord.mk <$> Json.optionalField fields "parent" (Json.asNat UInt64.size)
      <*> Json.required fields "bindings" (Value.bindingsOfJson .text)

def frameOfJson : Json.Decoder FrameRecord :=
  Json.asRecord ⟨["group", "method", "scope", "captured"], 4⟩ fun fields =>
    FrameRecord.mk <$> Json.required fields "group" Json.asString
      <*> Json.required fields "method" Json.asString
      <*> Json.required fields "scope" (Json.asNat UInt64.size)
      <*> Json.required fields "captured" Captured.ofJson

def ofJson : Json.Decoder Snapshot :=
  Json.asRecord ⟨["request", "scopes", "frames"], 3⟩ fun fields =>
    Snapshot.mk <$> Json.required fields "request" (Value.ofJson .text)
      <*> Json.required fields "scopes" (Json.asList recordOfJson)
      <*> Json.required fields "frames" (Json.asList frameOfJson)

def text (s : Snapshot) : String := s.toJson.text

def ofText (text : String) : Except Json.Problem Snapshot := Json.decodeText ofJson text

end Snapshot
end FlowScript
