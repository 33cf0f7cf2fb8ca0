import FlowScript.Execution
import FlowScript.Proofs.Receivers

/-! The log of calls. A layer that logs stands between sandboxes around it and sandboxes behind it. It enters
each call on an internal type that comes to it, once and before the call is answered, and changes nothing. -/
namespace FlowScript

/-- What a layer that logs leaves behind: its own log, and the state of its recorder. -/
structure CallBook (ρ : Type) where
  log : List String
  recorder : ρ

/-- Enters a signature in the log and tells it to the recorder. -/
def CallBook.enter (note : String → ρ → ρ) (signature : String) (book : CallBook ρ) : CallBook ρ :=
  ⟨book.log ++ [signature], note signature book.recorder⟩

/-- The book after several signatures, in their order. -/
def CallBook.enterAll (note : String → ρ → ρ) (book : CallBook ρ) (signatures : List String) : CallBook ρ :=
  signatures.foldl (fun book signature => book.enter note signature) book

theorem CallBook.enterAll_eq (note : String → ρ → ρ) (book : CallBook ρ) (signatures : List String) :
    book.enterAll note signatures =
      ⟨book.log ++ signatures,
        signatures.foldl (fun state signature => note signature state) book.recorder⟩ := by
  induction signatures generalizing book with
  | nil => simp [enterAll]
  | cons signature rest ih =>
    have first : book.enterAll note (signature :: rest) = (book.enter note signature).enterAll note rest := rfl
    rw [first, ih]
    simp [enter]

/-- The sandboxes let the call through and its receiver is of an internal type. -/
def Invocation.isEntered (around : List Policy) (internalTypes : List String) (call : Invocation) : Bool :=
  around.all (·.permits call) && internalTypes.contains call.receiverType

namespace Invoker
variable {σ τ : Type}

/-- The invoker beside a state that it neither sees nor changes. -/
def beside (inner : Invoker σ) : Invoker (σ × τ) :=
  let aside (reply : Reply σ) : Reply (σ × τ) := fun u => ((reply u.1).1, (reply u.1).2, u.2)
  { methodCall := fun receiver method args => aside (inner.methodCall receiver method args)
    getProperty := fun receiver name => aside (inner.getProperty receiver name)
    setProperty := fun receiver name value => aside (inner.setProperty receiver name value)
    getAttribute := fun receiver name => aside (inner.getAttribute receiver name)
    setAttribute := fun receiver name value => aside (inner.setAttribute receiver name value)
    invoke := fun call => aside (inner.invoke call) }

/-- The invoker in sandboxes, the outermost first. -/
def confined (inner : Invoker σ) (policies : List Policy) : Invoker σ := inner.under (policies.map .sandbox)

/-- The invoker with one layer that logs, in sandboxes around it and behind it. The layer has a state of its
own. -/
def logging (inner : Invoker σ) (around behind : List Policy) (internalTypes : List String)
    (record : String → τ → τ) : Invoker (σ × τ) :=
  inner.beside.under (around.map .sandbox ++
    .logging internalTypes (fun signature u => (u.1, record signature u.2)) :: behind.map .sandbox)

/-- Sandboxes pass a call on if all of them permit it; the refusal is the same whoever refuses. -/
theorem confined_invoke (inner : Invoker σ) (policies : List Policy) (call : Invocation) (u : σ) :
    (inner.confined policies).invoke call u =
      if policies.all (·.permits call) then inner.invoke call u else (.error (Policy.rejection call), u) := by
  induction policies with
  | nil => simp [confined, under]
  | cons policy policies ih =>
    have outer : inner.confined (policy :: policies) = (inner.confined policies).sandboxed policy := rfl
    rw [outer]
    cases permitted : policy.permits call with
    | true => simp [sandboxed_permitted permitted, ih, permitted]
    | false => simp [sandboxed_refused permitted, permitted]

theorem under_append (inner : Invoker σ) (first second : List (Cover σ)) :
    inner.under (first ++ second) = (inner.under second).under first := List.foldr_append

/-- The layer answers as what it covers, and enters the call if it comes to it and is internal. -/
theorem logging_invoke (inner : Invoker σ) (around behind : List Policy) (internalTypes : List String)
    (record : String → τ → τ) (call : Invocation) (u : σ) (t : τ) :
    (inner.logging around behind internalTypes record).invoke call (u, t) =
      (((inner.confined (around ++ behind)).invoke call u).1,
        ((inner.confined (around ++ behind)).invoke call u).2,
        if call.isEntered around internalTypes then record call.signature t else t) := by
  have layers : inner.logging around behind internalTypes record =
      ((inner.beside.confined behind).logged internalTypes
        fun signature u => (u.1, record signature u.2)).confined around := under_append _ _ _
  rw [layers, confined_invoke, confined_invoke, List.all_append, Invocation.isEntered]
  cases around.all (·.permits call) with
  | false => simp
  | true =>
    simp only [logged, confined_invoke, Bool.true_and, if_true]
    cases behind.all (·.permits call) <;> cases internalTypes.contains call.receiverType <;> rfl

end Invoker

namespace Program
variable {σ τ : Type}

/-- The machine whose host is in sandboxes. -/
def confined (p : Program) (inner : Invoker σ) (policies : List Policy) (isCancelled : σ → Bool) : Machine σ :=
  ⟨p, .standard, (inner.confined policies).invoke, isCancelled⟩

/-- The machine whose host has a layer that logs, in the same sandboxes. -/
def logging (p : Program) (inner : Invoker σ) (around behind : List Policy) (internalTypes : List String)
    (record : String → τ → τ) (isCancelled : σ → Bool) : Machine (σ × τ) :=
  ⟨p, .standard, (inner.logging around behind internalTypes record).invoke, fun u => isCancelled u.1⟩

variable (p : Program) (inner : Invoker σ) (around behind : List Policy) (internalTypes : List String)
  (isCancelled : σ → Bool)

/-- Nothing is changed by the layer. -/
theorem logging_akin (record : String → τ → τ) :
    Machine.Akin (fun u v => u.1 = v) (p.logging inner around behind internalTypes record isCancelled)
      (p.confined inner (around ++ behind) isCancelled) where
  program := rfl
  table := rfl
  answer := by
    rintro ⟨u, t⟩ v call rfl
    exact congrArg Prod.fst (Invoker.logging_invoke inner around behind internalTypes record call u t)
  stays := by
    rintro ⟨u, t⟩ v call rfl
    exact congrArg (·.2.1) (Invoker.logging_invoke inner around behind internalTypes record call u t)
  cancels := by
    rintro ⟨u, t⟩ v rfl
    rfl

/-- A book is kept as the plain list of signatures is. -/
theorem book_akin (note : String → ρ → ρ) (book : CallBook ρ) :
    Machine.Akin (fun u v => u = (v.1, book.enterAll note v.2))
      (p.logging inner around behind internalTypes (CallBook.enter note) isCancelled)
      (p.logging inner around behind internalTypes (fun signature list => list ++ [signature]) isCancelled) where
  program := rfl
  table := rfl
  answer := by
    rintro _ ⟨u, list⟩ call rfl
    simp only [logging, Invoker.logging_invoke]
  stays := by
    rintro _ ⟨u, list⟩ call rfl
    simp only [logging, Invoker.logging_invoke]
    split
    · simp [CallBook.enterAll]
    · rfl
  cancels := by
    rintro _ ⟨u, list⟩ rfl
    rfl

/-- The list has an entry for each call that is entered. -/
theorem listing_log (w : World σ) (e : ScopeId) (moves : List Move) :
    let m := p.confined inner (around ++ behind) isCancelled
    let n := p.logging inner around behind internalTypes (fun signature list => list ++ [signature]) isCancelled
    (n.after (n.opening ⟨w.heap, w.host, []⟩ e) moves).world.host.2 =
      ((calls (m.journey (m.opening w e) moves)).filter (·.isEntered around internalTypes)).map
        Invocation.signature := by
  intro m n
  obtain ⟨-, steps⟩ :=
    (p.logging_akin inner around behind internalTypes isCancelled
        fun signature list => list ++ [signature]).after
      (a := n.opening ⟨w.heap, w.host, []⟩ e) (b := m.opening w e) ⟨⟨rfl, rfl⟩, rfl⟩ moves
  have notes : ∀ call u, (n.host call u).2.2 = u.2 ++
      ([call].filter (·.isEntered around internalTypes)).map Invocation.signature := by
    intro call u
    have answered := Invoker.logging_invoke inner around behind internalTypes
      (fun signature list => list ++ [signature]) call u.1 u.2
    refine (congrArg (·.2.2) answered).trans ?_
    cases entered : call.isEntered around internalTypes <;> simp [entered]
  have log : (n.after (n.opening ⟨w.heap, w.host, []⟩ e) moves).world.host.2 = [] ++ _ :=
    n.after_log Prod.snd notes (n.opening ⟨w.heap, w.host, []⟩ e) moves
  rw [log, Machine.calls_eq_of_akin steps, ← List.map_flatMap, ← List.filter_flatMap,
    List.flatMap_singleton', List.nil_append]

end Program

/-- The execution counts the signatures that it is told, each under its name. -/
theorem Execution.find?_internalCalls (signatures : List String) (x : Execution) (signature : String) :
    (signatures.foldl (fun x s => x.recordCall s) x).internalCalls.find? signature =
      if signature ∈ signatures then
        some ((x.internalCalls.find? signature).getD 0 + signatures.count signature)
      else x.internalCalls.find? signature := by
  induction signatures generalizing x with
  | nil => simp
  | cons first rest ih =>
    rw [List.foldl_cons, ih]
    simp only [recordCall, Entries.increment, Entries.find?_insert, List.mem_cons, List.count_cons, beq_iff_eq]
    by_cases same : first = signature
    · subst same
      by_cases again : first ∈ rest
      · simp [again]
        omega
      · simp [again, List.count_eq_zero_of_not_mem again]
    · simp [same, Ne.symm same]

/-- The log of calls is exact, for all programs, hosts, internal types and moves of the host, and for any
sandboxes around the layer that logs and behind it. The layer changes nothing: the run takes the same steps,
with the same answers of the host, as it does without it. The log gets, in their order, the signatures of the
calls of the run whose receiver is of an internal type, each call once whether it succeeds or fails, and of
these only those that all sandboxes around the layer permit; sandboxes behind it keep nothing from the log. The
recorder is told the same signatures in the same order. An execution that is told them has counted each
signature as often as it is in the log. -/
theorem call_log_is_exact {σ ρ : Type} (p : Program) (inner : Invoker σ) (around behind : List Policy)
    (internalTypes : List String) (note : String → ρ → ρ) (isCancelled : σ → Bool) (w : World σ)
    (book : CallBook ρ) (e : ScopeId) (moves : List Move) :
    let m := p.confined inner (around ++ behind) isCancelled
    let n := p.logging inner around behind internalTypes (CallBook.enter note) isCancelled
    let run := m.journey (m.opening w e) moves
    let logged := n.after (n.opening ⟨w.heap, w.host, book⟩ e) moves
    let entries := ((calls run).filter (·.isEntered around internalTypes)).map Invocation.signature
    (logged.Akin (fun u v => u.1 = v) (m.after (m.opening w e) moves) ∧
        List.Forall₂ (Step.Akin fun u v => u.1 = v)
          (n.journey (n.opening ⟨w.heap, w.host, book⟩ e) moves) run) ∧
      logged.world.host.2.log = book.log ++ entries ∧
      logged.world.host.2.recorder = entries.foldl (fun state signature => note signature state) book.recorder ∧
      ∀ (x : Execution) (signature : String),
        (entries.foldl (fun x s => x.recordCall s) x).internalCalls.find? signature =
          if signature ∈ entries then
            some ((x.internalCalls.find? signature).getD 0 + entries.count signature)
          else x.internalCalls.find? signature := by
  intro m n run logged entries
  obtain ⟨stages, steps⟩ :=
    (p.logging_akin inner around behind internalTypes isCancelled (CallBook.enter note)).after
      (a := n.opening ⟨w.heap, w.host, book⟩ e) (b := m.opening w e) ⟨⟨rfl, rfl⟩, rfl⟩ moves
  let listing := p.logging inner around behind internalTypes (fun signature list => list ++ [signature]) isCancelled
  obtain ⟨kept, -⟩ :=
    (p.book_akin inner around behind internalTypes isCancelled note book).after
      (a := n.opening ⟨w.heap, w.host, book⟩ e) (b := listing.opening ⟨w.heap, w.host, []⟩ e)
      ⟨⟨rfl, rfl⟩, rfl⟩ moves
  have list : (listing.after (listing.opening ⟨w.heap, w.host, []⟩ e) moves).world.host.2 = entries :=
    p.listing_log inner around behind internalTypes isCancelled w e moves
  have written : logged.world.host.2 = book.enterAll note entries := list ▸ congrArg Prod.snd kept.world.host
  rw [CallBook.enterAll_eq] at written
  exact ⟨⟨stages, steps⟩, congrArg CallBook.log written, congrArg CallBook.recorder written,
    fun x signature => x.find?_internalCalls entries signature⟩

end FlowScript
