import FlowScript.Proofs.Receivers

/-! Routes to a host. An invoker has an entrance for each kind of call and one for calls of any kind, and
layers treat the entrances apart. A stack of layers over the built-in members answers a call alike by either
route, and has afterwards the same on record. -/
namespace FlowScript

/-- The entrance by which a call is presented: the one of its kind, or the one for all kinds. -/
inductive Entrance where
  | own
  | shared

namespace Invocation

/-- The call with an attribute taken as the property of its name. -/
def asProperty : Invocation → Invocation
  | .getAttribute receiver name => .getProperty receiver name
  | .setAttribute receiver name value => .setProperty receiver name value
  | call => call

@[simp] theorem receiverType_asProperty (call : Invocation) :
    call.asProperty.receiverType = call.receiverType := by cases call <;> rfl

@[simp] theorem signature_asProperty (call : Invocation) : call.asProperty.signature = call.signature := by
  cases call <;> rfl

end Invocation

@[simp] theorem Policy.permits_asProperty (policy : Policy) (call : Invocation) :
    policy.permits call.asProperty = policy.permits call := by
  simp only [permits, Invocation.signature_asProperty, Invocation.receiverType_asProperty]

@[simp] theorem Policy.rejection_asProperty (call : Invocation) :
    Policy.rejection call.asProperty = Policy.rejection call := by
  simp only [rejection, Invocation.signature_asProperty]

namespace Invoker
variable {σ : Type} {i : Invoker σ}

def present (i : Invoker σ) : Entrance → Invocation → Reply σ
  | .own => i.direct
  | .shared => i.invoke

/-- The answers to calls, each presented by its route, and the state of the host behind them. -/
def answers (i : Invoker σ) : List (Entrance × Invocation) → σ → List (Except Failure Value) × σ
  | [], u => ([], u)
  | (route, call) :: calls, u =>
    let (answer, u) := i.present route call u
    let (others, u) := i.answers calls u
    (answer :: others, u)

/-- The routes come to the same, and so do attributes and properties. -/
structure Uniform (i : Invoker σ) : Prop where
  direct : ∀ call u, i.direct call u = i.invoke call u
  asProperty : ∀ call u, i.invoke call.asProperty u = i.invoke call u

namespace Uniform

theorem builtin (functions : Entries (HostFunction σ)) : (builtin functions).Uniform where
  direct call u := by cases call <;> rfl
  asProperty call u := by cases call <;> rfl

theorem sandboxed (uniform : i.Uniform) (policy : Policy) : (i.sandboxed policy).Uniform := by
  have asProperty : ∀ call u, (i.sandboxed policy).invoke call.asProperty u =
      (i.sandboxed policy).invoke call u := by
    intro call u
    cases permitted : policy.permits call with
    | true =>
      have permitted' := (policy.permits_asProperty call).trans permitted
      rw [sandboxed_permitted permitted, sandboxed_permitted permitted']
      exact uniform.asProperty call u
    | false =>
      have refused' := (policy.permits_asProperty call).trans permitted
      rw [sandboxed_refused permitted, sandboxed_refused refused', Policy.rejection_asProperty]
  refine ⟨fun call u => ?_, asProperty⟩
  cases call with
  | methodCall | getProperty | setProperty => rfl
  | getAttribute receiver name =>
    -- A sandbox hands attributes on as properties.
    exact asProperty (.getAttribute receiver name) u
  | setAttribute receiver name value => exact asProperty (.setAttribute receiver name value) u

theorem logged (uniform : i.Uniform) (internalTypes : List String) (record : String → σ → σ) :
    (i.logged internalTypes record).Uniform where
  direct call u := by
    cases call with
    | methodCall receiver method args =>
      -- A method goes to the method below it. Its record is made without the arguments, which no
      -- signature shows.
      have named : Invocation.signature (.methodCall receiver method []) =
          Invocation.signature (.methodCall receiver method args) := by cases receiver <;> rfl
      have typed : Invocation.receiverType (.methodCall receiver method []) =
          Invocation.receiverType (.methodCall receiver method args) := by cases receiver <;> rfl
      have below := uniform.direct (.methodCall receiver method args)
      simp only [Invoker.direct, Invoker.logged, named, typed] at below ⊢
      exact below _
    | getProperty | setProperty | getAttribute | setAttribute => rfl
  asProperty call u := by
    simp only [Invoker.logged, Invocation.signature_asProperty, Invocation.receiverType_asProperty]
    exact uniform.asProperty call _

theorem present (uniform : i.Uniform) (route : Entrance) (call : Invocation) (u : σ) :
    i.present route call u = i.invoke call.asProperty u := by
  rw [uniform.asProperty]
  cases route with
  | own => exact uniform.direct call u
  | shared => rfl

theorem answers (uniform : i.Uniform) (calls : List (Entrance × Invocation)) (u : σ) :
    i.answers calls u = i.answers (calls.map fun c => (.shared, c.2.asProperty)) u := by
  induction calls generalizing u with
  | nil => rfl
  | cons c calls ih =>
    obtain ⟨route, call⟩ := c
    simp only [Invoker.answers, List.map_cons, uniform.present route, ih]
    rfl

end Uniform

/-! ### What is on record -/

/-- A host with what has come to it: the functions that were called, with their arguments, and the
signatures that were recorded, each with the number of the layer. Layers are numbered from the innermost. -/
structure Ledger (σ : Type) where
  host : σ
  heard : List (String × List Value)
  recorded : List (Nat × String)

/-- The function enters what it is called with. -/
def HostFunction.entered (name : String) (f : HostFunction σ) : HostFunction (Ledger σ) :=
  fun args l => ((f args l.host).1, ⟨(f args l.host).2, l.heard ++ [(name, args)], l.recorded⟩)

/-- The functions under layers, the outermost first, with all entered in one ledger. -/
def ledgered (functions : Entries (HostFunction σ)) : List (Cover σ) → Invoker (Ledger σ)
  | [] => builtin (functions.map fun (name, f) => (name, f.entered name))
  | .sandbox policy :: covers => (ledgered functions covers).sandboxed policy
  | .logging internalTypes record :: covers =>
    (ledgered functions covers).logged internalTypes fun signature l =>
      ⟨record signature l.host, l.heard, l.recorded ++ [(covers.length, signature)]⟩

/-- What layers record of a call, the outermost first, as far as it is let through. -/
def records : List (Cover σ) → Invocation → List (Nat × String)
  | [], _ => []
  | .sandbox policy :: covers, call => if policy.permits call then records covers call else []
  | .logging internalTypes _ :: covers, call =>
    (if internalTypes.contains call.receiverType then [(covers.length, call.signature)] else []) ++
      records covers call

theorem uniform_ledgered (functions : Entries (HostFunction σ)) (covers : List (Cover σ)) :
    (ledgered functions covers).Uniform := by
  induction covers with
  | nil => exact .builtin _
  | cons cover covers ih =>
    cases cover with
    | sandbox policy => exact ih.sandboxed policy
    | logging internalTypes record => exact ih.logged internalTypes _

theorem find?_entered (functions : Entries (HostFunction σ)) (name : String) :
    Entries.find? (functions.map fun (name, f) => (name, f.entered name)) name =
      (functions.find? name).map (·.entered name) := by
  induction functions with
  | nil => rfl
  | cons entry rest ih =>
    simp only [List.map_cons, Entries.find?]
    split
    · next same => rw [same]; rfl
    · exact ih

/-- The ledger changes no answer. It gets the call of the function that the call comes to, and what the
layers record. -/
theorem ledgered_invoke (functions : Entries (HostFunction σ)) (covers : List (Cover σ))
    (call : Invocation) (l : Ledger σ) :
    (ledgered functions covers).invoke call l =
      ((((builtin functions).under covers).invoke call l.host).1,
        ⟨(((builtin functions).under covers).invoke call l.host).2,
          l.heard ++ (call.function? functions covers).toList, l.recorded ++ records covers call⟩) := by
  induction covers generalizing l with
  | nil =>
    cases call with
    | methodCall receiver method args =>
      cases receiver with
      | null =>
        simp only [ledgered, under, List.foldr_nil, builtin, ofMembers, find?_entered,
          Invocation.function?, List.all_nil, Bool.true_and, Entries.binds, records]
        cases functions.find? method <;> simp [HostFunction.entered]
      | _ => simp [ledgered, under, builtin, ofMembers, Invocation.function?, records]
    | _ => simp [ledgered, under, builtin, ofMembers, Invocation.function?, records]
  | cons cover covers ih =>
    rw [Invocation.function?_cons]
    cases cover with
    | sandbox policy =>
      by_cases permitted : policy.permits call = true
      · have passes : Cover.passes (.sandbox policy : Cover σ) call = true := permitted
        rw [if_pos passes, ledgered, under_sandbox, records, sandboxed_permitted permitted,
          sandboxed_permitted permitted, ih, if_pos permitted]
      · have refused := Bool.eq_false_iff.2 permitted
        have stopped : ¬Cover.passes (.sandbox policy : Cover σ) call = true := permitted
        rw [if_neg stopped, ledgered, under_sandbox, records, sandboxed_refused refused,
          sandboxed_refused refused, if_neg permitted]
        simp
    | logging internalTypes record =>
      have passes : Cover.passes (.logging internalTypes record : Cover σ) call = true := rfl
      rw [if_pos passes, ledgered, under_logging, records]
      simp only [logged]
      by_cases internal : internalTypes.contains call.receiverType = true
      · simp only [internal, if_true]
        rw [ih, List.append_assoc]
      · simp only [internal, Bool.false_eq_true, if_false]
        rw [ih, List.nil_append]

theorem uniform_under (functions : Entries (HostFunction σ)) (covers : List (Cover σ)) :
    ((builtin functions).under covers).Uniform := by
  induction covers with
  | nil => exact .builtin _
  | cons cover covers ih =>
    cases cover with
    | sandbox policy => exact ih.sandboxed policy
    | logging internalTypes record => exact ih.logged internalTypes record

theorem ledgered_answers (functions : Entries (HostFunction σ)) (covers : List (Cover σ))
    (calls : List (Entrance × Invocation)) (l : Ledger σ) :
    (ledgered functions covers).answers calls l =
      ((((builtin functions).under covers).answers calls l.host).1,
        ⟨(((builtin functions).under covers).answers calls l.host).2,
          l.heard ++ calls.filterMap (·.2.function? functions covers),
          l.recorded ++ calls.flatMap (records covers ·.2)⟩) := by
  induction calls generalizing l with
  | nil => simp [answers]
  | cons c calls ih =>
    obtain ⟨route, call⟩ := c
    have plain : ((builtin functions).under covers).present route call l.host =
        ((builtin functions).under covers).invoke call l.host := by
      cases route with
      | own => exact (uniform_under functions covers).direct call _
      | shared => rfl
    have entered : (ledgered functions covers).present route call l =
        (ledgered functions covers).invoke call l := by
      cases route with
      | own => exact (uniform_ledgered functions covers).direct call l
      | shared => rfl
    simp only [answers, plain, entered, ledgered_invoke, ih, List.append_assoc, List.flatMap_cons]
    cases reached : call.function? functions covers <;> simp [reached]

end Invoker
open Invoker

/-- A call is presented the same way by every route, for all functions of the host and all layers over them.
Each call has the same answer, leaves the host the same and enters the same in the ledger by either entrance,
and so has an attribute and the property of its name; so it is for calls in turn by any mixture of routes.
What is entered is what the call comes to: the function of the host that is reached through all sandboxes,
and the signature at each layer that records the type of the receiver, down to the first sandbox that refuses
the call. -/
theorem routes_agree {σ : Type} (functions : Entries (HostFunction σ)) (covers : List (Cover σ)) (l : Ledger σ) :
    let i := ledgered functions covers
    (∀ call, i.direct call l = i.invoke call l ∧ i.direct call.asProperty l = i.direct call l ∧
        i.invoke call.asProperty l = i.invoke call l) ∧
      ∀ calls : List (Entrance × Invocation),
        i.answers calls l = i.answers (calls.map fun c => (.shared, c.2.asProperty)) l ∧
          i.answers calls l =
            ((((builtin functions).under covers).answers calls l.host).1,
              ⟨(((builtin functions).under covers).answers calls l.host).2,
                l.heard ++ calls.filterMap (·.2.function? functions covers),
                l.recorded ++ calls.flatMap (records covers ·.2)⟩) := by
  intro i
  have uniform : i.Uniform := uniform_ledgered functions covers
  refine ⟨fun call => ⟨uniform.direct call l, ?_, uniform.asProperty call l⟩,
    fun calls => ⟨uniform.answers calls l, ledgered_answers functions covers calls l⟩⟩
  rw [uniform.direct, uniform.direct, uniform.asProperty]

end FlowScript
