import FlowScript.Value

/-! Lexical scopes. All scopes of a world live in one heap and are named by number; a scope refers to
its parent by a number below its own, so chains of parents end. Whoever holds the number of a scope
sees what others write to it. -/
namespace FlowScript

abbrev ScopeId := Nat

structure Scope where
  parent : Option ScopeId
  bindings : Bindings

structure Heap where
  scopes : Array Scope
  parent_lt : ∀ i p, (scopes[i]?).bind Scope.parent = some p → p < i

namespace Heap

def empty : Heap := ⟨#[], by simp⟩

instance : Inhabited Heap := ⟨empty⟩

/-- The number the next scope gets. -/
def next (h : Heap) : ScopeId := h.scopes.size

def parent? (h : Heap) (e : ScopeId) : Option ScopeId := (h.scopes[e]?).bind Scope.parent

/-- The bindings held by the scope itself. -/
def locals (h : Heap) (e : ScopeId) : Bindings := ((h.scopes[e]?).map Scope.bindings).getD []

/-- Adds a scope; a parent that is not in the heap counts as none. -/
def addScope (h : Heap) (parent : Option ScopeId) (bindings : Bindings) : Heap :=
  { scopes := h.scopes.push ⟨parent.filter (· < h.next), bindings⟩
    parent_lt := by
      intro i p hp
      rw [Array.getElem?_push] at hp
      split at hp
      · next hi =>
        simp only [Option.bind_some, Option.filter_eq_some_iff, decide_eq_true_eq] at hp
        exact hi ▸ hp.2
      · exact h.parent_lt i p hp }

/-- A scope below `e`, without bindings; its number is `h.next`. -/
def child (h : Heap) (e : ScopeId) : Heap := h.addScope (some e) []

/-- Sets a name in the scope itself. -/
def declare (h : Heap) (e : ScopeId) (name : String) (v : Value) : Heap :=
  { scopes := h.scopes.modify e fun s => { s with bindings := s.bindings.insert name v }
    parent_lt := by
      intro i p hp
      apply h.parent_lt i p
      rw [Array.getElem?_modify] at hp
      split at hp
      · next hi => subst hi; cases hs : h.scopes[e]? <;> simp_all
      · exact hp }

/-- The scopes from one on, up to the root of its chain, at most `fuel` of them. -/
def chainFrom (h : Heap) : Nat → Option ScopeId → List ScopeId
  | _, none => []
  | 0, some _ => []
  | fuel + 1, some e => e :: chainFrom h fuel (h.parent? e)

/-- The scope, its parent, and so on up to the root. -/
def chain (h : Heap) (e : ScopeId) : List ScopeId := h.chainFrom (e + 1) (some e)

/-- The nearest binding of a name on the chain. -/
def lookup (h : Heap) (e : ScopeId) (name : String) : Option Value :=
  (h.chain e).findSome? fun s => (h.locals s).find? name

/-- Where an assignment goes: the nearest scope that binds the name, or the root. -/
def target (h : Heap) (e : ScopeId) (name : String) : ScopeId :=
  ((h.chain e).find? fun s => (h.locals s).binds name).getD ((h.chain e).getLastD e)

def assign (h : Heap) (e : ScopeId) (name : String) (v : Value) : Heap :=
  h.declare (h.target e name) name v

/-- How many ancestors the scope has. -/
def depth (h : Heap) (e : ScopeId) : Nat := (h.chain e).length - 1

theorem parent?_lt {h : Heap} {e p : Nat} (hp : h.parent? e = some p) : p < e :=
  h.parent_lt e p hp

theorem chainFrom_of_lt (h : Heap) {e fuel : Nat} (he : e < fuel) :
    h.chainFrom fuel (some e) = h.chain e := by
  induction fuel using Nat.strongRecOn generalizing e with
  | _ fuel ih =>
    match fuel with
    | fuel + 1 =>
      unfold chain
      simp only [chainFrom]
      match hp : h.parent? e with
      | none => simp [chainFrom]
      | some p =>
        have hlt := parent?_lt hp
        rw [ih fuel (Nat.lt_succ_self _) (by omega)]
        match e with
        | e + 1 =>
          by_cases hef : e + 1 < fuel + 1
          · rw [ih (e + 1) hef (by omega)]
          · omega

/-- A chain is the scope followed by the chain of its parent. -/
theorem chain_eq (h : Heap) (e : ScopeId) :
    h.chain e = e :: ((h.parent? e).map h.chain).getD [] := by
  conv => lhs; unfold chain
  simp only [chainFrom]
  match hp : h.parent? e with
  | none => simp [chainFrom]
  | some p => simp [chainFrom_of_lt h (parent?_lt hp)]

end Heap
end FlowScript
