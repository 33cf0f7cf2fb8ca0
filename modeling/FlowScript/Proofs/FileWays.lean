import FlowScript.FileTree.Resolve
import FlowScript.Proofs.PathParts
import Mathlib.Logic.Relation

/-! The ways that paths take through a tree of files. Where a way leads depends on the links of the tree
only; which directories there are decides how far it can be gone. -/
namespace FlowScript

/-- The part of a path says the name of a child of the directory that has been reached. -/
structure IsPlain (part : String) : Prop where
  some : part ≠ ""
  notHere : part ≠ "."
  notUp : part ≠ ".."

/-- A name that a directory takes. -/
structure IsName (part : String) : Prop extends IsPlain part where
  short : part.utf8ByteSize ≤ FileTree.maxNameSize

theorem IsPlain.not_blank (plain : IsPlain part) : ¬(part = "" ∨ part = ".") :=
  not_or.2 ⟨plain.some, plain.notHere⟩

namespace FileTree

/-- Where a path begins. -/
def start (t : FileTree) (p : Path) : Location := if p.isAbsolute then [] else t.workingDirectory

/-- Where the target of a link begins that stands in a directory. -/
def linkBase (d : Location) (target : Path) : Location := if target.isAbsolute then [] else d

/-- One move on a way. Names are entered where that is allowed; links are always followed. -/
inductive Moves (t : FileTree) (enters : Option FileNode → Prop) :
    Location × List String → Location × List String → Prop where
  | skip : part = "" ∨ part = "." → Moves t enters (d, part :: rest) (d, rest)
  | up : Moves t enters (d, ".." :: rest) (d.dropLast, rest)
  | down : IsName part → (∀ target, t.node? (d ++ [part]) ≠ some (.link target)) →
      enters (t.node? (d ++ [part])) → Moves t enters (d, part :: rest) (d ++ [part], rest)
  | link : IsName part → t.node? (d ++ [part]) = some (.link target) →
      Moves t enters (d, part :: rest) (linkBase d target, target.parts ++ rest)

/-- The way comes to a place, with these parts left. Nothing needs to be there. -/
abbrev Comes (t : FileTree) : Location × List String → Location × List String → Prop :=
  Relation.ReflTransGen (t.Moves fun _ => True)

/-- The way comes to a place through directories that are there. -/
abbrev Gets (t : FileTree) : Location × List String → Location × List String → Prop :=
  Relation.ReflTransGen (t.Moves (· = some .directory))

/-- The way leads to the location, whether something is there or not. -/
def Leads (t : FileTree) (d : Location) (parts : List String) (l : Location) : Prop :=
  t.Comes (d, parts) (l, [])

/-- The way comes by the location: it is a place on the way, or looked up from one. -/
def Passes (t : FileTree) (d : Location) (parts : List String) (l : Location) : Prop :=
  ∃ e left, t.Comes (d, parts) (e, left) ∧
    (l = e ∨ ∃ part rest, left = part :: rest ∧ IsName part ∧ l = e ++ [part])

/-- There are no links at the names below a location. -/
def Linkless (t : FileTree) (e : Location) (names : List String) : Prop :=
  ∀ m, m <+: names → m ≠ [] → ∀ target, t.node? (e ++ m) ≠ some (.link target)

/-- What a walk finds at the end of its way. -/
inductive Arrives (t : FileTree) (followLast : Bool) : Location → List String → Place → Prop where
  | directory : Arrives t followLast d [] (.taken d .directory)
  | file : IsName part → t.node? (d ++ [part]) = some (.file content) →
      Arrives t followLast d [part] (.taken (d ++ [part]) (.file content))
  | link : followLast = false → IsName part → t.node? (d ++ [part]) = some (.link target) →
      Arrives t followLast d [part] (.taken (d ++ [part]) (.link target))
  | free : IsName part → t.node? (d ++ [part]) = none → (∀ blank ∈ rest, blank = "") →
      Arrives t followLast d (part :: rest) (.free (d ++ [part]))

/-- What was there is there still; a file may have other content. -/
def Stays (a b : Option FileNode) : Prop :=
  match a with
  | none => True
  | some (.file _) => ∃ content, b = some (.file content)
  | some node => b = some node

variable {t : FileTree} {followLast : Bool} {n : Nat} {d l : Location} {part name : String}
  {rest names : List String}

/-! ### Walking part by part -/

@[simp] theorem walk_nil : t.walk followLast n d [] = .ok (.taken d .directory) := by
  cases n <;> simp [walk, descend]

theorem walk_skip (blank : part = "" ∨ part = ".") :
    t.walk followLast n d (part :: rest) = t.walk followLast n d rest := by
  cases n <;> simp [walk, descend, blank]

theorem walk_up : t.walk followLast n d (".." :: rest) = t.walk followLast n d.dropLast rest := by
  cases n <;> simp [walk, descend]

theorem walk_long (some : part ≠ "") (notHere : part ≠ ".") (notUp : part ≠ "..")
    (long : maxNameSize < part.utf8ByteSize) :
    t.walk followLast n d (part :: rest) = .error .invalidFilename := by
  cases n <;> simp [walk, descend, some, notHere, notUp, long]

theorem walk_name (isName : IsName part) :
    t.walk followLast n d (part :: rest) =
      match t.node? (d ++ [part]) with
      | none => if rest.all String.isEmpty then .ok (.free (d ++ [part])) else .error .notFound
      | some .directory => t.walk followLast n (d ++ [part]) rest
      | some (.file content) =>
        if rest.isEmpty then .ok (.taken (d ++ [part]) (.file content)) else .error .notADirectory
      | some (.link target) =>
        if rest.isEmpty && !followLast then .ok (.taken (d ++ [part]) (.link target))
        else
          match n with
          | 0 => .error .filesystemLoop
          | links + 1 => t.walk followLast links (linkBase d target) (target.parts ++ rest) := by
  obtain ⟨⟨some, notHere, notUp⟩, short⟩ := isName
  rcases there : t.node? (d ++ [part]) with _ | node
  · cases n <;> simp only [walk, descend, some, notHere, notUp, short, Nat.not_lt.2, or_self, if_false, there]
  · cases n <;> cases node <;>
      simp only [walk, descend, some, notHere, notUp, short, Nat.not_lt.2, or_self, if_false, there, linkBase]

/-- Walks are followed part by part; the target of a link comes before the parts behind the link, with
one link less to follow. -/
theorem walk_induction {P : Nat → Location → List String → Prop} (nil : ∀ n d, P n d [])
    (skip : ∀ n d part rest, part = "" ∨ part = "." → P n d rest → P n d (part :: rest))
    (up : ∀ n d rest, P n d.dropLast rest → P n d (".." :: rest))
    (long : ∀ n d part rest, part ≠ "" → part ≠ "." → part ≠ ".." → maxNameSize < part.utf8ByteSize →
      P n d (part :: rest))
    (name : ∀ n d part rest, IsName part → P n (d ++ [part]) rest →
      (∀ m target, n = m + 1 → P m (linkBase d target) (target.parts ++ rest)) → P n d (part :: rest))
    (n : Nat) (d : Location) (parts : List String) : P n d parts := by
  induction n using Nat.strongRecOn generalizing d parts with
  | _ n fewer =>
    induction parts generalizing d with
    | nil => exact nil n d
    | cons part rest ih =>
      by_cases blank : part = "" ∨ part = "."
      · exact skip n d part rest blank (ih d)
      · obtain ⟨some, notHere⟩ := not_or.1 blank
        by_cases isUp : part = ".."
        · exact isUp ▸ up n d rest (ih _)
        · by_cases short : part.utf8ByteSize ≤ maxNameSize
          · exact name n d part rest ⟨⟨some, notHere, isUp⟩, short⟩ (ih _)
              fun m target is => fewer m (is ▸ Nat.lt_succ_self m) _ _
          · exact long n d part rest some notHere isUp (Nat.lt_of_not_le short)

/-! ### Ways -/

section
variable {enters : Option FileNode → Prop} {x y z : Location × List String}

theorem Moves.imp (weaker : ∀ node, enters node → enters' node) (moves : t.Moves enters x y) :
    t.Moves enters' x y := by
  cases moves with
  | skip blank => exact .skip blank
  | up => exact .up
  | down isName plain entered => exact .down isName plain (weaker _ entered)
  | link isName there => exact .link isName there

theorem Gets.comes (gets : t.Gets x y) : t.Comes x y :=
  Relation.ReflTransGen.mono (fun _ _ => Moves.imp fun _ _ => trivial) _ _ gets

theorem Moves.unique (first : t.Moves enters x y) (second : t.Moves enters x z) : y = z := by
  cases first with
  | skip blank =>
    cases second with
    | skip => rfl
    | up => simp at blank
    | down isName | link isName => exact absurd blank isName.not_blank
  | up =>
    cases second with
    | skip blank => simp at blank
    | up => rfl
    | down isName | link isName => exact absurd rfl isName.notUp
  | down isName plain =>
    cases second with
    | skip blank => exact absurd blank isName.not_blank
    | up => exact absurd rfl isName.notUp
    | down => rfl
    | link _ there => exact absurd there (plain _)
  | link isName there =>
    cases second with
    | skip blank => exact absurd blank isName.not_blank
    | up => exact absurd rfl isName.notUp
    | down _ plain => exact absurd there (plain _)
    | link _ there' =>
      obtain ⟨rfl⟩ := there.symm.trans there'
      rfl

theorem comes_nil (comes : t.Comes (l, []) x) : x = (l, []) := by
  rcases Relation.ReflTransGen.cases_head comes with same | ⟨_, moves, _⟩
  · exact same.symm
  · cases moves

/-- Of two places on one way, the one comes before the other. -/
theorem Comes.total (first : t.Comes x y) (second : t.Comes x z) : t.Comes y z ∨ t.Comes z y :=
  Relation.ReflTransGen.total_of_right_unique (fun _ _ _ => Moves.unique) first second

theorem Leads.unique (first : t.Leads d parts l) (second : t.Leads d parts l') : l = l' := by
  rcases Comes.total first second with comes | comes
  · exact (Prod.mk.inj (comes_nil comes)).1.symm
  · exact (Prod.mk.inj (comes_nil comes)).1

theorem Moves.append (moves : t.Moves enters (d, a) (e, left)) (b : List String) :
    t.Moves enters (d, a ++ b) (e, left ++ b) := by
  cases moves with
  | skip blank => exact .skip blank
  | up => exact .up
  | down isName plain entered => exact .down isName plain entered
  | link isName there =>
    rw [List.append_assoc]
    exact .link isName there

theorem Comes.append (comes : t.Comes (d, a) (e, left)) (b : List String) :
    t.Comes (d, a ++ b) (e, left ++ b) :=
  Relation.ReflTransGen.lift (fun x : Location × List String => (x.1, x.2 ++ b))
    (fun _ _ moves => Moves.append moves b) _ _ comes

theorem Leads.append (first : t.Leads d a e) (second : t.Leads e b l) : t.Leads d (a ++ b) l :=
  Relation.ReflTransGen.trans (Comes.append first b) second

/-- A way along two paths is still on the first one, or has come behind it. -/
theorem Comes.of_append (comes : t.Comes (d, a ++ b) (e, left)) :
    (∃ ahead, left = ahead ++ b ∧ t.Comes (d, a) (e, ahead)) ∨
      ∃ e', t.Leads d a e' ∧ t.Comes (e', b) (e, left) := by
  generalize reached : (e, left) = x at comes
  induction comes generalizing e left with
  | refl =>
    obtain ⟨rfl, rfl⟩ := Prod.mk.inj reached
    exact .inl ⟨a, rfl, .refl⟩
  | @tail y _ _ moves ih =>
    subst reached
    obtain ⟨e₁, left₁⟩ := y
    rcases ih rfl with ⟨ahead, rfl, comes⟩ | ⟨e', leads, comes⟩
    · cases ahead with
      | nil => exact .inr ⟨e₁, comes, .single moves⟩
      | cons part rest =>
        refine .inl ?_
        cases moves with
        | skip blank => exact ⟨rest, rfl, comes.tail (.skip blank)⟩
        | up => exact ⟨rest, rfl, comes.tail .up⟩
        | down isName plain entered => exact ⟨rest, rfl, comes.tail (.down isName plain entered)⟩
        | link isName there => exact ⟨_, (List.append_assoc _ _ _).symm, comes.tail (.link isName there)⟩
    · exact .inr ⟨e', leads, comes.tail moves⟩

theorem Leads.of_append (leads : t.Leads d (a ++ b) l) : ∃ e, t.Leads d a e ∧ t.Leads e b l := by
  rcases Comes.of_append leads with ⟨ahead, none, comes⟩ | behind
  · obtain ⟨rfl, rfl⟩ := List.append_eq_nil_iff.1 none.symm
    exact ⟨l, comes, .refl⟩
  · exact behind

theorem Passes.here (t : FileTree) (d : Location) (parts : List String) : t.Passes d parts d :=
  ⟨d, parts, .refl, .inl rfl⟩

theorem Leads.passes (leads : t.Leads d parts l) : t.Passes d parts l := ⟨l, [], leads, .inl rfl⟩

theorem Passes.append (passes : t.Passes d a l) (b : List String) : t.Passes d (a ++ b) l := by
  obtain ⟨e, left, comes, here | ⟨part, rest, rfl, isName, looked⟩⟩ := passes
  · exact ⟨e, left ++ b, comes.append b, .inl here⟩
  · exact ⟨e, _, comes.append b, .inr ⟨part, rest ++ b, rfl, isName, looked⟩⟩

theorem Passes.of_append (passes : t.Passes d (a ++ b) l) :
    t.Passes d a l ∨ ∃ e, t.Leads d a e ∧ t.Passes e b l := by
  obtain ⟨e, left, comes, by_⟩ := passes
  rcases comes.of_append with ⟨ahead, rfl, first⟩ | ⟨e', leads, second⟩
  · rcases by_ with rfl | ⟨part, rest, split, isName, rfl⟩
    · exact .inl ⟨l, ahead, first, .inl rfl⟩
    · cases ahead with
      | nil => exact .inr ⟨e, first, e, b, .refl, .inr ⟨part, rest, split, isName, rfl⟩⟩
      | cons next ahead =>
        obtain ⟨rfl, rfl⟩ := List.cons.inj split
        exact .inl ⟨e, _, first, .inr ⟨next, ahead, rfl, isName, rfl⟩⟩
  · exact .inr ⟨e', leads, e, left, second, by_⟩

theorem Leads.passes_append (leads : t.Leads d a e) (passes : t.Passes e b l) : t.Passes d (a ++ b) l := by
  obtain ⟨e', left, comes, by_⟩ := passes
  exact ⟨e', left, (Comes.append leads b).trans comes, by_⟩

/-- An empty part at the end adds nothing. -/
theorem leads_blank : t.Leads d (a ++ [""]) l ↔ t.Leads d a l := by
  constructor
  · intro leads
    obtain ⟨e, first, last⟩ := leads.of_append
    obtain rfl := last.unique (.single (.skip (.inl rfl)))
    exact first
  · exact fun leads => leads.append (.single (.skip (.inl rfl)))

theorem Passes.of_nil (passes : t.Passes d [] l) : l = d := by
  obtain ⟨e, left, comes, by_⟩ := passes
  obtain ⟨rfl, rfl⟩ := Prod.mk.inj (comes_nil comes)
  rcases by_ with rfl | ⟨_, _, none, _⟩
  · rfl
  · exact nomatch none

theorem Passes.of_skip (passes : t.Passes d ("" :: a) l) : t.Passes d a l := by
  obtain ⟨e, left, comes, by_⟩ := passes
  rcases Relation.ReflTransGen.cases_head comes with same | ⟨x, moves, comes⟩
  · obtain ⟨rfl, rfl⟩ := Prod.mk.inj same
    rcases by_ with rfl | ⟨_, _, same, isName, -⟩
    · exact .here t _ a
    · exact absurd (List.cons.inj same).1.symm isName.some
  · obtain rfl := moves.unique (.skip (.inl rfl))
    exact ⟨e, left, comes, by_⟩

theorem passes_blank : t.Passes d (a ++ [""]) l ↔ t.Passes d a l := by
  refine ⟨fun passes => ?_, fun passes => passes.append [""]⟩
  rcases passes.of_append with first | ⟨e, leads, last⟩
  · exact first
  · obtain rfl := last.of_skip.of_nil
    exact leads.passes

end

theorem Passes.of_moves (moves : t.Moves (fun _ => True) (d, parts) (e, left))
    (passes : t.Passes e left l) :
    t.Passes d parts l := by
  obtain ⟨e', left', comes, by_⟩ := passes
  exact ⟨e', left', .head moves comes, by_⟩

theorem Passes.looked (t : FileTree) (d : Location) (isName : IsName part) (rest : List String) :
    t.Passes d (part :: rest) (d ++ [part]) :=
  ⟨d, _, .refl, .inr ⟨part, rest, rfl, isName, rfl⟩⟩

/-! ### Ways without links -/

theorem Linkless.tail (linkless : t.Linkless e (name :: names)) : t.Linkless (e ++ [name]) names := by
  intro m first some target
  rw [List.append_assoc]
  exact linkless (name :: m) (List.cons_prefix_cons.2 ⟨rfl, first⟩) (List.cons_ne_nil _ _) target

theorem Linkless.head (linkless : t.Linkless e (name :: names)) (target : Path) :
    t.node? (e ++ [name]) ≠ some (.link target) :=
  linkless [name] (by simp) (by simp) target

theorem leads_names (isName : ∀ name ∈ names, IsName name) (linkless : t.Linkless e names) :
    t.Leads e names (e ++ names) := by
  induction names generalizing e with
  | nil =>
    rw [List.append_nil]
    exact .refl
  | cons name names ih =>
    obtain ⟨first, others⟩ := List.forall_mem_cons.1 isName
    have rest := ih others linkless.tail
    rw [List.append_assoc] at rest
    exact .head (.down first linkless.head trivial) rest

theorem comes_names (plain : ∀ name ∈ names, IsPlain name) (linkless : t.Linkless e names)
    (comes : t.Comes (e, names) (e', left)) : ∃ m, names = m ++ left ∧ e' = e ++ m := by
  generalize reached : (e', left) = x at comes
  induction comes generalizing e' left with
  | refl =>
    obtain ⟨rfl, rfl⟩ := Prod.mk.inj reached
    exact ⟨[], rfl, (List.append_nil _).symm⟩
  | @tail y _ _ moves ih =>
    subst reached
    obtain ⟨e₁, left₁⟩ := y
    obtain ⟨m, rfl, rfl⟩ := ih rfl
    cases moves with
    | @skip part _ _ blank => exact absurd blank (plain part (by simp)).not_blank
    | up => exact absurd rfl (plain ".." (by simp)).notUp
    | @down part => exact ⟨m ++ [part], by simp, by simp⟩
    | @link part _ _ _ _ there =>
      have none := linkless (m ++ [part]) (by simp) (by simp)
      rw [← List.append_assoc] at none
      exact absurd there (none _)

theorem passes_names (plain : ∀ name ∈ names, IsPlain name) (linkless : t.Linkless e names)
    (passes : t.Passes e names l) : ∃ m, m <+: names ∧ l = e ++ m := by
  obtain ⟨e', left, comes, by_⟩ := passes
  obtain ⟨m, rfl, rfl⟩ := comes_names plain linkless comes
  rcases by_ with rfl | ⟨part, rest, rfl, _, rfl⟩
  · exact ⟨m, List.prefix_append m left, rfl⟩
  · exact ⟨m ++ [part], by simp, by simp⟩

/-! ### Trees that agree on a way -/

/-- Where two trees have the same links on a way, it is one way. -/
theorem comes_congr {t' : FileTree}
    (same : ∀ l, t.Passes d parts l →
      ∀ target, t'.node? l = some (.link target) ↔ t.node? l = some (.link target)) :
    t'.Comes (d, parts) x ↔ t.Comes (d, parts) x := by
  have moves_iff : ∀ y z, t.Comes (d, parts) y →
      (t'.Moves (fun _ => True) y z ↔ t.Moves (fun _ => True) y z) := by
    rintro ⟨e, left⟩ z comes
    have links : ∀ part rest, left = part :: rest → IsName part → ∀ target,
        t'.node? (e ++ [part]) = some (.link target) ↔ t.node? (e ++ [part]) = some (.link target) :=
      fun part rest is isName => same _ ⟨e, left, comes, .inr ⟨part, rest, is, isName, rfl⟩⟩
    constructor
    · rintro (blank | _ | ⟨isName, plain, -⟩ | ⟨isName, there⟩)
      · exact .skip blank
      · exact .up
      · exact .down isName (fun target is => plain target ((links _ _ rfl isName target).2 is)) trivial
      · exact .link isName ((links _ _ rfl isName _).1 there)
    · rintro (blank | _ | ⟨isName, plain, -⟩ | ⟨isName, there⟩)
      · exact .skip blank
      · exact .up
      · exact .down isName (fun target is => plain target ((links _ _ rfl isName target).1 is)) trivial
      · exact .link isName ((links _ _ rfl isName _).2 there)
  constructor
  · intro comes
    induction comes with
    | refl => exact .refl
    | tail _ moves ih => exact ih.tail ((moves_iff _ _ ih).1 moves)
  · intro comes
    induction comes with
    | refl => exact .refl
    | tail comes moves ih => exact ih.tail ((moves_iff _ _ comes).2 moves)

theorem passes_congr {t' : FileTree}
    (same : ∀ l, t.Passes d parts l →
      ∀ target, t'.node? l = some (.link target) ↔ t.node? l = some (.link target)) :
    t'.Passes d parts l ↔ t.Passes d parts l := by
  simp only [Passes, comes_congr same]

theorem leads_congr {t' : FileTree}
    (same : ∀ l, t.Passes d parts l →
      ∀ target, t'.node? l = some (.link target) ↔ t.node? l = some (.link target)) :
    t'.Leads d parts l ↔ t.Leads d parts l := comes_congr same

/-! ### Walks along ways -/

theorem walk_finds (found : t.walk followLast n d parts = .ok place) :
    ∃ e left, t.Gets (d, parts) (e, left) ∧ t.Arrives followLast e left place := by
  induction n, d, parts using walk_induction generalizing place with
  | nil n d =>
    rw [walk_nil] at found
    obtain rfl := Except.ok.inj found
    exact ⟨d, [], .refl, .directory⟩
  | skip n d part rest blank ih =>
    rw [walk_skip blank] at found
    obtain ⟨e, left, gets, arrives⟩ := ih found
    exact ⟨e, left, .head (.skip blank) gets, arrives⟩
  | up n d rest ih =>
    rw [walk_up] at found
    obtain ⟨e, left, gets, arrives⟩ := ih found
    exact ⟨e, left, .head .up gets, arrives⟩
  | long n d part rest some notHere notUp long =>
    rw [walk_long some notHere notUp long] at found
    exact nomatch found
  | name n d part rest isName ih followed =>
    rw [walk_name isName] at found
    split at found
    · next absent =>
      split at found
      · next blank =>
        obtain rfl := Except.ok.inj found
        exact ⟨d, _, .refl, .free isName absent (by simpa using blank)⟩
      · exact nomatch found
    · next there =>
      obtain ⟨e, left, gets, arrives⟩ := ih found
      exact ⟨e, left, .head (.down isName (by simp [there]) there) gets, arrives⟩
    · next there =>
      split at found
      · next last =>
        obtain rfl := Except.ok.inj found
        obtain rfl : rest = [] := by simpa using last
        exact ⟨d, _, .refl, .file isName there⟩
      · exact nomatch found
    · next target there =>
      split at found
      · next last =>
        obtain rfl := Except.ok.inj found
        obtain ⟨rfl, kept⟩ : rest = [] ∧ followLast = false := by simpa using last
        exact ⟨d, _, .refl, .link kept isName there⟩
      · cases n with
        | zero => exact nomatch found
        | succ m =>
          obtain ⟨e, left, gets, arrives⟩ := followed m target rfl found
          exact ⟨e, left, .head (.link isName there) gets, arrives⟩

/-- Behind a directory that has been reached, a walk goes on from there. -/
theorem walk_append (got : t.walk true n d a = .ok (.taken e .directory))
    (more : followLast = true ∨ b ≠ []) :
    ∃ m, t.walk followLast n d (a ++ b) = t.walk followLast m e b := by
  induction n, d, a using walk_induction with
  | nil n d =>
    obtain ⟨rfl, -⟩ := Place.taken.inj (Except.ok.inj (walk_nil.symm.trans got))
    exact ⟨n, rfl⟩
  | skip n d part rest blank ih =>
    rw [walk_skip blank] at got
    rw [List.cons_append, walk_skip blank]
    exact ih got
  | up n d rest ih =>
    rw [walk_up] at got
    rw [List.cons_append, walk_up]
    exact ih got
  | long n d part rest some notHere notUp long =>
    rw [walk_long some notHere notUp long] at got
    cases got
  | name n d part rest isName ih followed =>
    rw [walk_name isName] at got
    rw [List.cons_append, walk_name isName]
    split at got
    · split at got <;> cases got
    · exact ih got
    · split at got <;> cases got
    · next target there =>
      have goes_on : ((rest ++ b).isEmpty && !followLast) = false := by
        rcases more with rfl | some
        · simp
        · simp [some]
      simp only [Bool.not_true, Bool.and_false, Bool.false_eq_true, if_false] at got
      simp only [goes_on, Bool.false_eq_true, if_false]
      cases n with
      | zero => cases got
      | succ m =>
        simp only [← List.append_assoc]
        exact followed m target rfl got

/-- A walk that gets to a directory gets to one with each of its first parts. -/
theorem walk_prefix (got : t.walk followLast n d (a ++ b) = .ok (.taken l .directory)) :
    ∃ e, t.walk true n d a = .ok (.taken e .directory) := by
  induction n, d, a using walk_induction with
  | nil n d => exact ⟨d, walk_nil⟩
  | skip n d part rest blank ih =>
    rw [List.cons_append, walk_skip blank] at got
    rw [walk_skip blank]
    exact ih got
  | up n d rest ih =>
    rw [List.cons_append, walk_up] at got
    rw [walk_up]
    exact ih got
  | long n d part rest some notHere notUp long =>
    rw [List.cons_append, walk_long some notHere notUp long] at got
    cases got
  | name n d part rest isName ih followed =>
    rw [List.cons_append, walk_name isName] at got
    rw [walk_name isName]
    split at got
    · split at got <;> cases got
    · exact ih got
    · split at got <;> cases got
    · next target there =>
      simp only [Bool.not_true, Bool.and_false, Bool.false_eq_true, if_false]
      split at got
      · cases got
      · cases n with
        | zero => cases got
        | succ m =>
          simp only [← List.append_assoc] at got
          exact followed m target rfl got

/-- Trees that are the same along a way are walked alike. -/
theorem walk_congr {t' : FileTree} (same : ∀ l, t.Passes d parts l → t'.node? l = t.node? l) :
    t'.walk followLast n d parts = t.walk followLast n d parts := by
  induction n, d, parts using walk_induction with
  | nil n d => rw [walk_nil, walk_nil]
  | skip n d part rest blank ih =>
    rw [walk_skip blank, walk_skip blank]
    exact ih fun l passes => same l (.of_moves (.skip blank) passes)
  | up n d rest ih =>
    rw [walk_up, walk_up]
    exact ih fun l passes => same l (.of_moves .up passes)
  | long n d part rest some notHere notUp long =>
    rw [walk_long some notHere notUp long, walk_long some notHere notUp long]
  | name n d part rest isName ih followed =>
    rw [walk_name isName, walk_name isName, same _ (.looked t d isName rest)]
    split
    · rfl
    · next there =>
      exact ih fun l passes => same l (.of_moves (.down isName (by simp [there]) trivial) passes)
    · rfl
    · next target there =>
      split
      · rfl
      · cases n with
        | zero => rfl
        | succ m =>
          exact followed m target rfl fun l passes => same l (.of_moves (.link isName there) passes)

theorem Stays.refl (a : Option FileNode) : Stays a a := by
  rcases a with _ | _ | _ | _ <;> simp [Stays]

/-- A walk that has got somewhere gets there also where there is more. -/
theorem walk_stays {t' : FileTree} (stays : ∀ l, t.Passes d parts l → Stays (t.node? l) (t'.node? l))
    (found : t.walk followLast n d parts = .ok (.taken l node)) :
    ∃ node', t'.walk followLast n d parts = .ok (.taken l node') ∧ Stays (some node) (some node') := by
  induction n, d, parts using walk_induction with
  | nil n d =>
    rw [walk_nil] at found ⊢
    obtain ⟨rfl, rfl⟩ := Place.taken.inj (Except.ok.inj found)
    exact ⟨_, rfl, .refl _⟩
  | skip n d part rest blank ih =>
    rw [walk_skip blank] at found ⊢
    exact ih (fun l passes => stays l (.of_moves (.skip blank) passes)) found
  | up n d rest ih =>
    rw [walk_up] at found ⊢
    exact ih (fun l passes => stays l (.of_moves .up passes)) found
  | long n d part rest some notHere notUp long =>
    rw [walk_long some notHere notUp long] at found
    cases found
  | name n d part rest isName ih followed =>
    rw [walk_name isName] at found ⊢
    have here := stays _ (.looked t d isName rest)
    split at found
    · split at found <;> cases found
    · next there =>
      have here : t'.node? (d ++ [part]) = some .directory := by simpa [there, Stays] using here
      simp only [here]
      exact ih (fun l passes => stays l (.of_moves (.down isName (by simp [there]) trivial) passes)) found
    · next content there =>
      obtain ⟨content', here⟩ : ∃ content', t'.node? (d ++ [part]) = some (.file content') := by
        simpa [there, Stays] using here
      split at found
      · next last =>
        obtain ⟨rfl, rfl⟩ := Place.taken.inj (Except.ok.inj found)
        simp only [here, last, if_true]
        exact ⟨_, rfl, content', rfl⟩
      · cases found
    · next target there =>
      have here : t'.node? (d ++ [part]) = some (.link target) := by simpa [there, Stays] using here
      simp only [here]
      split at found
      · next last =>
        obtain ⟨rfl, rfl⟩ := Place.taken.inj (Except.ok.inj found)
        simp only [last, if_true]
        exact ⟨_, rfl, .refl _⟩
      · next last =>
        simp only [last, Bool.false_eq_true, if_false]
        cases n with
        | zero => cases found
        | succ m =>
          exact followed m target rfl
            (fun l passes => stays l (.of_moves (.link isName there) passes)) found

end FileTree
end FlowScript
