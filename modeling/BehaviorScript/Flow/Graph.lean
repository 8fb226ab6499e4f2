import BehaviorScript.Code.Instruction
import BehaviorScript.Flow.Explore

/-!
# Flow graphs

The control flow of one script. Consecutive instructions share a block
as long as control can only step from one to the next; every pointer in
use is an edge, also one that ends the script or leads nowhere. Blocks
are reached from the first one (`visitOrder`), and a block is reached as
a whole.
-/

namespace BehaviorScript

inductive EdgeTarget where
  /-- Instruction `index`, which lies in block `block`. -/
  | block (block index : Nat)
  | terminal (terminal : Terminal)
  | invalid (pointer : UInt8)
deriving DecidableEq, Repr

inductive EdgeKind where
  | whenTrue
  | whenFalse
  /-- A continuing step to the next instruction, where a block begins. -/
  | fallthrough
deriving DecidableEq, Repr

structure Edge where
  source : Nat
  target : EdgeTarget
  kind : EdgeKind
  /-- Leads to the head of a block at or before its source. -/
  isBack : Bool
deriving DecidableEq, Repr

structure Block where
  /-- Its place among the blocks. -/
  id : Nat
  /-- Indices in ascending order. -/
  instructions : List Nat
  isLoopHead : Bool
  reachable : Bool
  predecessors : List Nat
  successors : List Nat
deriving DecidableEq, Repr

def blockLabel (block : Nat) : String := s!"B{block}"

structure FlowGraph where
  blocks : List Block
  edges : List Edge
  /-- For each instruction, whether control can get to it. -/
  reachable : List Bool
deriving DecidableEq, Repr

namespace Flow

/-! ## Blocks -/

/-- For each instruction, the instructions that control can go to. -/
def successorTable (code : List Instruction) : List (List Nat) :=
  code.map (Instruction.successors code.length)

/-- The instructions from which control can go to `index`. -/
def sources (table : List (List Nat)) (index : Nat) : List Nat :=
  (table.zipIdx.filter fun entry => entry.1.contains index).map fun entry => entry.2

/-- Control gets to `index` from the instruction before it and from
nowhere else, and that instruction goes nowhere else. -/
def joins (code : List Instruction) (table : List (List Nat)) (before index : Nat) : Bool :=
  match code[before]? with
  | some i => i.targets code.length = [.instruction index] && sources table index = [before]
  | none => false

/-- The blocks as runs of consecutive indices. -/
def runs (code : List Instruction) : List (List Nat) :=
  let table := successorTable code
  (List.range code.length).splitBy (joins code table)

def isHead (runs : List (List Nat)) (index : Nat) : Bool :=
  runs.any fun run => run.head? = some index

/-- The block that holds an instruction. -/
def blockOf? (runs : List (List Nat)) (index : Nat) : Option Nat :=
  runs.findIdx? fun run => run.contains index

/-! ## Edges -/

def edgeTarget (runs : List (List Nat)) : Target → EdgeTarget
  | .instruction index => .block ((blockOf? runs index).getD 0) index
  | .terminal t => .terminal t
  | .invalid pointer => .invalid pointer

def edge (count : Nat) (runs : List (List Nat)) (source : Nat) (i : Instruction)
    (exit : Bool × UInt8) : Edge :=
  let target := Target.resolve exit.2 count
  let kind : EdgeKind := if exit.1 then .whenTrue else .whenFalse
  { source
    target := edgeTarget runs target
    kind := match target with
      | .instruction index =>
        if i.flow = .continues && index = source + 1 && isHead runs index then .fallthrough
        else kind
      | _ => kind
    isBack := match target with
      | .instruction index => isHead runs index && index ≤ source
      | _ => false }

/-- The edges by source, the true pointer first. -/
def edges (code : List Instruction) (runs : List (List Nat)) : List Edge :=
  (code.mapIdx fun source i => i.exits.map (edge code.length runs source i)).flatten

/-! ## Links between blocks -/

/-- The block that an edge from block `block` links it to. A step inside
of the block is no link. -/
def linked? (runs : List (List Nat)) (block : Nat) (e : Edge) : Option Nat :=
  match e.target with
  | .block other index => if other = block && !isHead runs index then none else some other
  | _ => none

/-- For each block, the blocks it is linked to, in ascending order. -/
def links (runs : List (List Nat)) (edges : List Edge) : List (List Nat) :=
  runs.mapIdx fun block run =>
    let targets := (edges.filter fun e => run.contains e.source).filterMap (linked? runs block)
    (List.range runs.length).filter targets.contains

/-- The blocks that can be reached, in the order of their visits. -/
def visitOrder (links : List (List Nat)) : List Nat :=
  (explore (List.range links.length)
    (fun block (_ : Unit) => ((links[block]?).getD []).map fun next => (next, ())) 0 ()).map
      fun visit => visit.1

end Flow

namespace FlowGraph

/-- The flow graph of a script. -/
def ofCode (code : List Instruction) : FlowGraph :=
  let runs := Flow.runs code
  let edges := Flow.edges code runs
  let links := Flow.links runs edges
  let order := Flow.visitOrder links
  { blocks := runs.mapIdx fun block run =>
      { id := block
        instructions := run
        isLoopHead := edges.any fun e =>
          match e.target with
          | .block other _ => e.isBack && other = block
          | _ => false
        reachable := order.contains block
        predecessors :=
          (List.range runs.length).filter fun other => ((links[other]?).getD []).contains block
        successors := (links[block]?).getD [] }
    edges
    reachable := (runs.mapIdx fun block run => run.map fun _ => order.contains block).flatten }

/-- The block that holds an instruction. -/
def blockOf? (g : FlowGraph) (index : Nat) : Option Nat :=
  (g.blocks.find? fun block => block.instructions.contains index).map Block.id

def edgesFrom (g : FlowGraph) (index : Nat) : List Edge :=
  g.edges.filter fun e => e.source = index

def backEdges (g : FlowGraph) : List Edge := g.edges.filter fun e => e.isBack

/-- Control can get to an instruction. -/
def isReachable (g : FlowGraph) (index : Nat) : Bool := (g.reachable[index]?).getD false

/-- A back edge leaves an instruction that can be reached. -/
def hasLoops (g : FlowGraph) : Bool := g.backEdges.any fun e => g.isReachable e.source

/-- The instructions that control cannot get to, in ascending order. -/
def deadInstructions (g : FlowGraph) : List Nat :=
  (g.reachable.zipIdx.filter fun entry => !entry.1).map fun entry => entry.2

/-- The blocks that a back edge leads to. -/
def loopHeads (g : FlowGraph) : List Nat :=
  (g.blocks.filter fun block => block.isLoopHead).map Block.id

end FlowGraph

end BehaviorScript
