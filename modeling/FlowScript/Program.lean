import FlowScript.Block

/-! Programs: blocks in a row, each made of blocks before it, and the block a run starts from. -/
namespace FlowScript

structure Program where
  blocks : Array Block
  root : BlockId

inductive ProgramError where
  | empty
  | outOfRange (block parent : BlockId) (length : Nat)
  deriving DecidableEq, Repr

def ProgramError.message : ProgramError → String
  | .empty => "program has no root block"
  | .outOfRange block parent length =>
    "block " ++ block.text ++ " referenced by block " ++ parent.text ++
      " is out of order or outside the program (len " ++ toString length ++ ")"

namespace Program

def size (p : Program) : Nat := p.blocks.size

def block? (p : Program) (b : BlockId) : Option Block := p.blocks[b]?

/-- Every block refers to blocks before it only, and the root is one of the blocks. -/
def WellFormed (p : Program) : Prop :=
  (∀ b block, p.block? b = some block → ∀ child ∈ block.children, child < b) ∧ p.root < p.size

/-- The first reference, in the order of the blocks, to no earlier block. -/
def badReference? (p : Program) : Option (BlockId × BlockId) :=
  (p.blocks.toList.zipIdx).findSome? fun (block, b) =>
    (block.children.find? fun child => decide (b ≤ child)).map fun child => (child, b)

def validate (p : Program) : Except ProgramError Unit :=
  if p.size = 0 then .error .empty
  else
    match p.badReference? with
    | some (child, parent) => .error (.outOfRange child parent p.size)
    | none => if p.size ≤ p.root then .error (.outOfRange p.root p.root p.size) else .ok ()

theorem badReference?_eq_none_iff (p : Program) :
    p.badReference? = none ↔
      ∀ b block, p.block? b = some block → ∀ child ∈ block.children, child < b := by
  simp only [badReference?, List.findSome?_eq_none_iff, Option.map_eq_none_iff,
    List.find?_eq_none, block?, Prod.forall, List.mk_mem_zipIdx_iff_getElem?,
    Array.getElem?_toList, decide_eq_true_eq, Nat.not_le]
  grind

/-- Exactly the well-formed programs are valid. -/
theorem validate_eq_ok_iff (p : Program) : p.validate = .ok () ↔ p.WellFormed := by
  unfold validate WellFormed
  rw [← badReference?_eq_none_iff]
  split
  · next h => exact ⟨(nomatch ·), fun w => absurd (h ▸ w.2) (Nat.not_lt_zero _)⟩
  · split
    · next h => simp [h]
    · next h =>
      split
      · next hr => exact ⟨(nomatch ·), fun w => absurd w.2 (Nat.not_lt.2 hr)⟩
      · next hr => exact ⟨fun _ => ⟨h, Nat.lt_of_not_le hr⟩, fun _ => rfl⟩

end Program

/-- A program from its blocks and its root. -/
def Program.ofBlocks (blocks : Array Block) (root : BlockId) : Except ProgramError Program := do
  let p : Program := ⟨blocks, root⟩
  p.validate
  return p

end FlowScript
