import FlowScript.Program

/-! Building a program from its leaves upwards. -/
namespace FlowScript

/-- The blocks so far. A block that is added gets the number of blocks before it. -/
structure Builder where
  blocks : Array Block

namespace Builder

def empty : Builder := ⟨#[]⟩

def push (b : Builder) (block : Block) : BlockId × Builder := (b.blocks.size, ⟨b.blocks.push block⟩)

/-- What a block may be wrapped into. -/
inductive Wrapper where
  | not | scope | sequence | throw | tryOnly | tryCleanup | andLeft | orRight | add | yield
  deriving DecidableEq, Repr

/-- One wrapping of a block; some wrappers first add a constant of their own. -/
def wrap (b : Builder) (w : Wrapper) (inner : BlockId) : BlockId × Builder :=
  match w with
  | .not => b.push (.not inner)
  | .scope => b.push (.scope inner)
  | .sequence => b.push (.sequence [inner])
  | .throw => b.push (.throw inner)
  | .tryOnly => b.push (.tryCatch inner [] none)
  | .tryCleanup => let (n, b) := b.push (.constant .null); b.push (.tryCatch inner [] (some n))
  | .andLeft => let (n, b) := b.push (.constant (.bool true)); b.push (.logical .and inner n)
  | .orRight => let (n, b) := b.push (.constant (.bool false)); b.push (.logical .or n inner)
  | .add => let (n, b) := b.push (.constant (.int 1)); b.push (.binary .add inner n)
  | .yield => b.push (.yield inner)

/-- Wraps a block `times` times. -/
def nest (b : Builder) (w : Wrapper) : Nat → BlockId → BlockId × Builder
  | 0, inner => (inner, b)
  | times + 1, inner => let (outer, b) := b.wrap w inner; nest b w times outer

def finish (b : Builder) (root : BlockId) : Except ProgramError Program := Program.ofBlocks b.blocks root

end Builder
end FlowScript
