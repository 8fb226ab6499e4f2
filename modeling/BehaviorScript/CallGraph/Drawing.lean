import BehaviorScript.CallGraph.Basic
import BehaviorScript.Text.Hex

/-!
# Drawings of call graphs

The nodes and edges of a call graph with their looks (`Drawing`), and
their text in the DOT language (`Drawing.dot`): three lines of heading,
a line for each hook, node and edge, and a closing brace.
-/

namespace BehaviorScript

/-- Line style and color of an edge. -/
def CallKind.looks : CallKind → String × String
  | .call => ("solid", "black")
  | .lifecycleHook => ("bold", "firebrick")
  | .interactionAction => ("dashed", "royalblue")
  | .interactionGuard => ("dotted", "darkorange")

structure DrawnNode where
  key : String
  label : String
  scope : ScriptScope
  status : NodeStatus
  isExternal : Bool
deriving DecidableEq, Repr

structure DrawnEdge where
  source : CallSource
  target : String
  kind : CallKind
deriving DecidableEq, Repr

structure Drawing where
  nodes : List DrawnNode
  edges : List DrawnEdge
deriving DecidableEq, Repr

def nodeKey (node : Nat) : String := s!"n{node}"

def Hook.key (hook : Hook) : String := "engine:" ++ hook.label

/-- The name of an edge's source in the drawing. -/
def CallSource.key : CallSource → String
  | .script node => nodeKey node
  | .engine hook => hook.key

def CallNode.drawn (place : Nat) (n : CallNode) : DrawnNode where
  key := nodeKey place
  label := match n.owner with
    | some owner => Hex.word n.scriptId ++ "\n" ++ owner
    | none => Hex.word n.scriptId
  scope := n.scope
  status := n.status
  isExternal := n.isExternal

def CallGraph.drawing (g : CallGraph) : Drawing where
  nodes := g.nodes.mapIdx CallNode.drawn
  edges := g.edges.map fun e => ⟨e.source, nodeKey e.callee, e.kind⟩

namespace Drawing

/-! ## Quoted text -/

def escapeChar (c : Char) : List Char :=
  if c = '\\' then ['\\', '\\']
  else if c = '"' then ['\\', '"']
  else if c = '\n' then ['\\', 'n']
  else [c]

def escape (s : String) : String := String.ofList (s.toList.flatMap escapeChar)

def quoted (s : String) : String := "\"" ++ escape s ++ "\""

/-! ## Lines -/

def heading : List String :=
  ["digraph calls \x7b", "    rankdir=LR;", "    node [shape=box, style=filled];"]

/-- The hooks that some edge comes from, each once, by name. -/
def hooks (d : Drawing) : List Hook :=
  ((d.edges.filterMap fun e => match e.source with
    | .engine hook => some hook
    | .script _ => none).mergeSort fun a b => a.key ≤ b.key).eraseDups

def hookLine (hook : Hook) : String :=
  "    " ++ quoted hook.key ++ " [shape=ellipse, style=solid, label=" ++ quoted hook.label ++ "];"

def nodeLine (n : DrawnNode) : String :=
  let style := if n.isExternal then "filled,dashed" else "filled"
  "    " ++ n.key ++ " [label=" ++ quoted n.label ++ ", fillcolor=" ++ n.scope.color
    ++ ", style=\"" ++ style ++ "\"];"

def edgeLine (e : DrawnEdge) : String :=
  "    " ++ quoted e.source.key ++ " -> " ++ e.target ++ " [style=" ++ e.kind.looks.1
    ++ ", color=" ++ e.kind.looks.2 ++ "];"

def lines (d : Drawing) : List String :=
  heading ++ d.hooks.map hookLine ++ d.nodes.map nodeLine ++ d.edges.map edgeLine ++ ["\x7d"]

/-- The drawing in the DOT language. -/
def dot (d : Drawing) : String := String.join (d.lines.map fun line => line ++ "\n")

end Drawing

def CallGraph.dot (g : CallGraph) : String := g.drawing.dot

end BehaviorScript
