import BehaviorScript.CallGraph.Drawing
import BehaviorScript.Proofs.CallGraph.WellFormed
import BehaviorScript.Proofs.Text.Unambiguous

/-!
# Drawings can be read back

The owner of a script is any text, and the label of its node holds it. So a
reader of lines stands beside the writer: it knows the line format alone, takes
quoted text up to the first quote without a backslash, and undoes the escapes.

`unescape_escape` and `scanQuoted_escape` say that quoted text ends where it was
meant to end and means what was quoted, whatever it is. From the three kinds of
lines `map_read?_dot` reads the whole text back: no label adds a line, hides one
or makes one say something else. `declared_of_edge` is about the text alone: a
line that reads as an edge comes after the lines that introduce both its ends.
-/

namespace BehaviorScript

namespace Drawing

/-! ## Quoted text -/

/-- Quoted text up to its closing quote, as it is written, and what
follows. A backslash takes the next character with it. -/
def scanQuoted : List Char → Option (List Char × List Char)
  | [] => none
  | '"' :: rest => some ([], rest)
  | '\\' :: c :: rest => (scanQuoted rest).map fun found => ('\\' :: c :: found.1, found.2)
  | c :: rest => (scanQuoted rest).map fun found => (c :: found.1, found.2)

/-- Undoes the escapes. -/
def unescape : List Char → List Char
  | [] => []
  | '\\' :: '\\' :: rest => '\\' :: unescape rest
  | '\\' :: '"' :: rest => '"' :: unescape rest
  | '\\' :: 'n' :: rest => '\n' :: unescape rest
  | c :: rest => c :: unescape rest

theorem escapeChar_cases (c : Char) :
    (c = '\\' ∧ escapeChar c = ['\\', '\\']) ∨ (c = '"' ∧ escapeChar c = ['\\', '"'])
      ∨ (c = '\n' ∧ escapeChar c = ['\\', 'n'])
      ∨ (c ≠ '\\' ∧ c ≠ '"' ∧ c ≠ '\n' ∧ escapeChar c = [c]) := by
  unfold escapeChar
  split_ifs <;> simp_all

theorem scanQuoted_cons {c : Char} (hslash : c ≠ '\\') (hquote : c ≠ '"') (rest : List Char) :
    scanQuoted (c :: rest) = (scanQuoted rest).map fun found => (c :: found.1, found.2) :=
  scanQuoted.eq_4 c rest hquote fun _ _ hc _ => hslash hc

theorem scanQuoted_flatMap (s rest : List Char) :
    scanQuoted (s.flatMap escapeChar ++ '"' :: rest) = some (s.flatMap escapeChar, rest) := by
  induction s with
  | nil => rfl
  | cons c s ih =>
      rw [List.flatMap_cons, List.append_assoc]
      rcases escapeChar_cases c with ⟨-, hc⟩ | ⟨-, hc⟩ | ⟨-, hc⟩ | ⟨hslash, hquote, -, hc⟩
      · simp [hc, scanQuoted, ih]
      · simp [hc, scanQuoted, ih]
      · simp [hc, scanQuoted, ih]
      · simp [hc, scanQuoted_cons hslash hquote, ih]

theorem unescape_flatMap (s : List Char) : unescape (s.flatMap escapeChar) = s := by
  induction s with
  | nil => rfl
  | cons c s ih =>
      rw [List.flatMap_cons]
      rcases escapeChar_cases c with ⟨rfl, hc⟩ | ⟨rfl, hc⟩ | ⟨rfl, hc⟩ | ⟨hslash, -, -, hc⟩
      · simp [hc, unescape, ih]
      · simp [hc, unescape, ih]
      · simp [hc, unescape, ih]
      · simp [hc, unescape, ih, hslash]

theorem newline_notMem_flatMap (s : List Char) : '\n' ∉ s.flatMap escapeChar := by
  intro hmem
  obtain ⟨c, -, hc⟩ := List.mem_flatMap.mp hmem
  rcases escapeChar_cases c with ⟨-, h⟩ | ⟨-, h⟩ | ⟨-, h⟩ | ⟨-, -, hne, h⟩
  · simp [h] at hc
  · simp [h] at hc
  · simp [h] at hc
  · rw [h, List.mem_singleton] at hc
    exact hne hc.symm

theorem toList_escape (s : String) : (escape s).toList = s.toList.flatMap escapeChar :=
  String.toList_ofList

theorem scanQuoted_escape (s : String) (rest : List Char) :
    scanQuoted ((escape s).toList ++ '"' :: rest) = some ((escape s).toList, rest) := by
  rw [toList_escape]
  exact scanQuoted_flatMap s.toList rest

theorem unescape_escape (s : String) : unescape (escape s).toList = s.toList := by
  rw [toList_escape]
  exact unescape_flatMap s.toList

theorem escape_injective : Function.Injective escape := by
  intro s t h
  apply String.toList_inj.mp
  rw [← unescape_escape s, ← unescape_escape t, h]

theorem newline_notMem_escape (s : String) : '\n' ∉ (escape s).toList := by
  rw [toList_escape]
  exact newline_notMem_flatMap s.toList

theorem toList_quoted (s : String) : (quoted s).toList = '"' :: ((escape s).toList ++ ['"']) := by
  simp [quoted]

/-! ## Lines -/

/-- What a line states. -/
inductive Statement where
  | hook (name : List Char)
  | node (name label : List Char)
  | edge (source target : List Char)
deriving DecidableEq, Repr

/-- What follows the first quote. -/
def behindQuote (line : List Char) : List Char := (line.dropWhile fun c => c ≠ '"').tail

/-- A name without quotes ends at a blank. -/
def plainName (text : List Char) : List Char := text.takeWhile fun c => c ≠ ' '

/-- Reads an indented line. -/
def Statement.read? (line : List Char) : Option Statement :=
  match line.drop 4 with
  | '"' :: rest =>
    match scanQuoted rest with
    | some (name, ' ' :: '[' :: _) => some (.hook (unescape name))
    | some (source, ' ' :: '-' :: '>' :: ' ' :: rest) =>
      some (.edge (unescape source) (plainName rest))
    | _ => none
  | rest =>
    (scanQuoted (behindQuote rest)).map fun found => .node (plainName rest) (unescape found.1)

theorem read?_hookLine (hook : Hook) :
    Statement.read? (hookLine hook).toList = some (.hook hook.key.toList) := by
  have hline : (hookLine hook).toList = "    ".toList ++ '"' :: ((escape hook.key).toList
      ++ '"' :: ' ' :: '[' :: ("shape=ellipse, style=solid, label=" ++ quoted hook.label
        ++ "];").toList) := by
    delta hookLine
    simp [toList_quoted]
  rw [hline, Statement.read?]
  simp [scanQuoted_escape, unescape_escape]

/-- The node line behind the label. -/
def nodeEnd (n : DrawnNode) : String :=
  ", fillcolor=" ++ n.scope.color ++ ", style=\"" ++ (if n.isExternal then "filled,dashed"
    else "filled") ++ "\"];"

theorem toList_nodeLine (n : DrawnNode) : (nodeLine n).toList = "    ".toList ++ n.key.toList
    ++ " [label=".toList ++ '"' :: ((escape n.label).toList ++ '"' :: (nodeEnd n).toList) := by
  delta nodeLine nodeEnd
  simp only [String.toList_append, toList_quoted, List.append_assoc, List.cons_append,
    List.nil_append]

/-- The edge line behind the target. -/
def edgeEnd (e : DrawnEdge) : String :=
  "[style=" ++ e.kind.looks.1 ++ ", color=" ++ e.kind.looks.2 ++ "];"

theorem toList_edgeLine (e : DrawnEdge) : (edgeLine e).toList = "    ".toList ++ '"'
    :: ((escape e.source.key).toList ++ '"' :: ' ' :: '-' :: '>' :: ' ' :: (e.target.toList
      ++ ' ' :: (edgeEnd e).toList)) := by
  delta edgeLine edgeEnd
  simp [toList_quoted]

/-! ## Names -/

theorem toList_nodeKey (p : Nat) : (nodeKey p).toList = 'n' :: (toString p).toList := by
  show ("n" ++ toString p).toList = _
  simp

theorem nodeKey_injective : Function.Injective nodeKey := by
  intro p q h
  have hdigits : "n" ++ toString p = "n" ++ toString q := h
  exact Nat.repr_inj.mp ((String.append_right_inj _).mp hdigits)

theorem notMem_nodeKey {c : Char} (hletter : c ≠ 'n') (hdigit : c.isDigit = false) (p : Nat) :
    c ∉ (nodeKey p).toList := by
  rw [toList_nodeKey, List.mem_cons, not_or]
  refine ⟨hletter, fun hmem => ?_⟩
  rw [Text.isDigit_of_mem_toString hmem] at hdigit
  cases hdigit

theorem plainName_nodeKey (p : Nat) (rest : List Char) :
    plainName ((nodeKey p).toList ++ ' ' :: rest) = (nodeKey p).toList := by
  have hname : ∀ c ∈ (nodeKey p).toList, decide (c ≠ ' ') = true := by
    intro c hc
    refine decide_eq_true fun hblank => ?_
    exact notMem_nodeKey (by decide) (by decide) p (hblank ▸ hc)
  rw [plainName, List.takeWhile_append_of_pos hname, List.takeWhile_cons_of_neg (by simp),
    List.append_nil]

theorem behindQuote_append {front : List Char} (hfront : '"' ∉ front) (rest : List Char) :
    behindQuote (front ++ '"' :: rest) = rest := by
  have hplain : ∀ c ∈ front, decide (c ≠ '"') = true := by
    intro c hc
    exact decide_eq_true fun hquote => hfront (hquote ▸ hc)
  rw [behindQuote, List.dropWhile_append_of_pos hplain, List.dropWhile_cons_of_neg (by simp),
    List.tail_cons]

/-- The first quote of a node line opens the label, and the label ends at
the quote that was written to close it. -/
theorem scanQuoted_nodeLine {n : DrawnNode} {p : Nat} (hkey : n.key = nodeKey p) :
    scanQuoted (behindQuote (nodeLine n).toList)
      = some ((escape n.label).toList, (nodeEnd n).toList) := by
  have hfront : '"' ∉ "    ".toList ++ n.key.toList ++ " [label=".toList := by
    rw [hkey]
    simp [notMem_nodeKey]
  rw [toList_nodeLine, behindQuote_append hfront, scanQuoted_escape]

theorem read?_nodeLine {n : DrawnNode} {p : Nat} (hkey : n.key = nodeKey p) :
    Statement.read? (nodeLine n).toList = some (.node n.key.toList n.label.toList) := by
  have hline : (nodeLine n).toList.drop 4 = (nodeKey p).toList ++ " [label=".toList
      ++ '"' :: ((escape n.label).toList ++ '"' :: (nodeEnd n).toList) := by
    rw [toList_nodeLine, hkey]
    simp
  have hfront : '"' ∉ (nodeKey p).toList ++ " [label=".toList := by
    simp [notMem_nodeKey]
  have hname : plainName ((nodeKey p).toList ++ " [label=".toList
      ++ '"' :: ((escape n.label).toList ++ '"' :: (nodeEnd n).toList)) = (nodeKey p).toList := by
    rw [List.append_assoc]
    exact plainName_nodeKey p _
  rw [Statement.read?, hline]
  split
  · next hquote =>
    rw [toList_nodeKey] at hquote
    simp at hquote
  · rw [behindQuote_append hfront, scanQuoted_escape, Option.map_some, hname, unescape_escape, hkey]

theorem read?_edgeLine {e : DrawnEdge} {p : Nat} (htarget : e.target = nodeKey p) :
    Statement.read? (edgeLine e).toList
      = some (.edge e.source.key.toList e.target.toList) := by
  rw [toList_edgeLine, Statement.read?, htarget]
  simp [scanQuoted_escape, unescape_escape, plainName_nodeKey]

/-! ## The whole text -/

theorem newline_notMem_hookLine (hook : Hook) : '\n' ∉ (hookLine hook).toList := by
  delta hookLine
  simp [toList_quoted, newline_notMem_escape]

theorem newline_notMem_nodeLine {n : DrawnNode} {p : Nat} (hkey : n.key = nodeKey p) :
    '\n' ∉ (nodeLine n).toList := by
  have hcolor : '\n' ∉ n.scope.color.toList := by
    cases n.scope <;> decide
  have hend : '\n' ∉ (nodeEnd n).toList := by
    delta nodeEnd
    cases n.isExternal <;> simp [hcolor]
  rw [toList_nodeLine, hkey]
  simp [newline_notMem_escape, notMem_nodeKey, hend]

theorem newline_notMem_edgeLine {e : DrawnEdge} {p : Nat} (htarget : e.target = nodeKey p) :
    '\n' ∉ (edgeLine e).toList := by
  have hlooks : '\n' ∉ e.kind.looks.1.toList ∧ '\n' ∉ e.kind.looks.2.toList := by
    cases e.kind <;> decide
  have hend : '\n' ∉ (edgeEnd e).toList := by
    delta edgeEnd
    simp [hlooks]
  rw [toList_edgeLine, htarget]
  simp [newline_notMem_escape, notMem_nodeKey, hend]

/-- Lines without a newline are found again between the newlines. -/
theorem splitOn_join {lines : List String} (h : ∀ line ∈ lines, '\n' ∉ line.toList) :
    (String.join (lines.map fun line => line ++ "\n")).toList.splitOn '\n'
      = lines.map String.toList ++ [[]] := by
  rw [String.toList_join]
  induction lines with
  | nil => rfl
  | cons line lines ih =>
      have hline : ∀ c ∈ line.toList, (c == '\n') = false := by
        intro c hc
        have hne : c ≠ '\n' := fun hnewline => h line (List.mem_cons_self ..) (hnewline ▸ hc)
        simpa using hne
      have hrest := ih fun other hother => h other (List.mem_cons_of_mem _ hother)
      rw [List.splitOn_eq_splitOnP] at hrest ⊢
      rw [List.map_cons, List.flatMap_cons, String.toList_append, List.append_assoc]
      rw [List.map_cons, List.cons_append, ← hrest]
      exact List.splitOnP_append_cons_of_forall_mem hline '\n' rfl _

/-- The hooks and nodes, by name. -/
def declarations (d : Drawing) : List Statement :=
  d.hooks.map (fun hook => .hook hook.key.toList)
    ++ d.nodes.map fun n => .node n.key.toList n.label.toList

/-- What the lines between heading and closing brace state. -/
def statements (d : Drawing) : List Statement :=
  d.declarations ++ d.edges.map fun e => .edge e.source.key.toList e.target.toList

/-- Line `i` of a text introduces a name, as a hook or as a node. -/
def Declares (text : String) (i : Nat) (name : List Char) : Prop :=
  ∃ line, (text.toList.splitOn '\n')[i]? = some line
    ∧ (Statement.read? line = some (.hook name)
      ∨ ∃ label, Statement.read? line = some (.node name label))

/-- Of a list in two parts, the members of the first part come first. -/
theorem exists_lt_of_mem_front {α β : Type} {f : α → β} {l : List α} {front back : List β} {y : β}
    (h : l.map f = front ++ back) (hy : y ∈ front) :
    ∃ i < front.length, ∃ x, l[i]? = some x ∧ f x = y := by
  obtain ⟨i, hi⟩ := List.mem_iff_getElem?.mp hy
  have hlt := (List.getElem?_eq_some_iff.mp hi).1
  rw [← List.getElem?_append_left hlt, ← h, List.getElem?_map, Option.map_eq_some_iff] at hi
  exact ⟨i, hlt, hi⟩

theorem length_le_of_notMem_front {α β : Type} {f : α → β} {l : List α} {front back : List β}
    {k : Nat} {x : α} (h : l.map f = front ++ back) (hx : l[k]? = some x) (hfront : f x ∉ front) :
    front.length ≤ k := by
  by_contra hlt
  have hk : (l.map f)[k]? = some (f x) := by rw [List.getElem?_map, hx, Option.map_some]
  rw [h, List.getElem?_append_left (by omega)] at hk
  exact hfront (List.mem_of_getElem? hk)

section

variable {d : Drawing} (hnodes : ∀ n ∈ d.nodes, ∃ p, n.key = nodeKey p)
  (hedges : ∀ e ∈ d.edges, ∃ p, e.target = nodeKey p)
include hnodes hedges

theorem newline_notMem_lines {line : String} (hline : line ∈ d.lines) : '\n' ∉ line.toList := by
  have hheading : ∀ line ∈ heading ++ ["\x7d"], '\n' ∉ line.toList := by decide +kernel
  simp only [lines, List.mem_append, List.mem_map] at hline
  rcases hline with (((hline | ⟨hook, -, rfl⟩) | ⟨n, hn, rfl⟩) | ⟨e, he, rfl⟩) | hline
  · exact hheading line (List.mem_append_left _ hline)
  · exact newline_notMem_hookLine hook
  · obtain ⟨p, hkey⟩ := hnodes n hn
    exact newline_notMem_nodeLine hkey
  · obtain ⟨p, htarget⟩ := hedges e he
    exact newline_notMem_edgeLine htarget
  · exact hheading line (List.mem_append_right _ hline)

theorem splitOn_dot : d.dot.toList.splitOn '\n' = d.lines.map String.toList ++ [[]] :=
  splitOn_join fun _ hline => newline_notMem_lines hnodes hedges hline

/-- Reading the lines gives back what the drawing states, and nothing
else. -/
theorem map_read?_dot :
    (d.dot.toList.splitOn '\n').map Statement.read?
      = List.replicate 3 none ++ d.statements.map some ++ [none, none] := by
  have hheading : heading.map (fun line => Statement.read? line.toList)
      = List.replicate 3 none := by decide +kernel
  have hclosing : ["\x7d".toList, []].map Statement.read? = [none, none] := by decide +kernel
  have hhookLines : d.hooks.map (fun hook => Statement.read? (hookLine hook).toList)
      = d.hooks.map fun hook => some (.hook hook.key.toList) :=
    List.map_congr_left fun hook _ => read?_hookLine hook
  have hnodeLines : d.nodes.map (fun n => Statement.read? (nodeLine n).toList)
      = d.nodes.map fun n => some (.node n.key.toList n.label.toList) := by
    refine List.map_congr_left fun n hn => ?_
    obtain ⟨p, hkey⟩ := hnodes n hn
    exact read?_nodeLine hkey
  have hedgeLines : d.edges.map (fun e => Statement.read? (edgeLine e).toList)
      = d.edges.map fun e => some (.edge e.source.key.toList e.target.toList) := by
    refine List.map_congr_left fun e he => ?_
    obtain ⟨p, htarget⟩ := hedges e he
    exact read?_edgeLine htarget
  rw [splitOn_dot hnodes hedges]
  simp only [lines, statements, declarations, List.map_append, List.map_map, Function.comp_def,
    hheading, hhookLines, hnodeLines, hedgeLines, List.append_assoc]
  rw [← hclosing]
  rfl

/-- The declarations come before the edges. -/
theorem map_read?_dot_parts :
    (d.dot.toList.splitOn '\n').map Statement.read?
      = (List.replicate 3 none ++ d.declarations.map some)
        ++ (d.edges.map (fun e => some (.edge e.source.key.toList e.target.toList))
          ++ [none, none]) := by
  rw [map_read?_dot hnodes hedges, statements, List.map_append, List.map_map,
    ← List.append_assoc, List.append_assoc]
  rfl

theorem declares_of_mem {statement : Statement} {name : List Char}
    (hmem : statement ∈ d.declarations)
    (hname : statement = .hook name ∨ ∃ label, statement = .node name label) :
    ∃ i < 3 + d.declarations.length, Declares d.dot i name := by
  have hfront : some statement ∈ List.replicate 3 none ++ d.declarations.map some :=
    List.mem_append_right _ (List.mem_map_of_mem hmem)
  obtain ⟨i, hi, line, hline, hread⟩ :=
    exists_lt_of_mem_front (map_read?_dot_parts hnodes hedges) hfront
  rw [List.length_append, List.length_replicate, List.length_map] at hi
  refine ⟨i, hi, line, hline, ?_⟩
  rcases hname with rfl | ⟨label, rfl⟩
  · exact Or.inl hread
  · exact Or.inr ⟨label, hread⟩

theorem exists_edge_of_read? {k : Nat} {line source target : List Char}
    (hline : (d.dot.toList.splitOn '\n')[k]? = some line)
    (hread : Statement.read? line = some (.edge source target)) :
    3 + d.declarations.length ≤ k
      ∧ ∃ e ∈ d.edges, e.source.key.toList = source ∧ e.target.toList = target := by
  have hparts := map_read?_dot_parts hnodes hedges
  have hfront : Statement.read? line ∉ List.replicate 3 none ++ d.declarations.map some := by
    rw [hread]
    simp [declarations]
  have hmem := List.mem_map_of_mem (f := Statement.read?) (List.mem_of_getElem? hline)
  rw [hparts, List.mem_append, or_iff_right hfront, hread] at hmem
  have hlength := length_le_of_notMem_front hparts hline hfront
  rw [List.length_append, List.length_replicate, List.length_map] at hlength
  exact ⟨hlength, by simpa using hmem⟩

end

end Drawing

/-! ## Call graphs -/

namespace Hook

def all : List Hook := LifecycleHook.all.map .lifecycle ++ [.interactionAction, .interactionGuard]

theorem mem_all (hook : Hook) : hook ∈ all := by
  cases hook with
  | lifecycle event => cases event <;> decide
  | interactionAction => decide
  | interactionGuard => decide

theorem key_injective : Function.Injective Hook.key := by
  have hnodup : (all.map Hook.key).Nodup := by decide +kernel
  intro hook hook' h
  exact List.inj_on_of_nodup_map hnodup (mem_all hook) (mem_all hook') h

end Hook

namespace CallGraph

open Drawing

variable {g : CallGraph} {scripts : List ScriptCalls} {evidence : EvidenceTable}

theorem exists_key_of_drawn {n : DrawnNode} (hn : n ∈ g.drawing.nodes) :
    ∃ p, n.key = nodeKey p := by
  obtain ⟨p, -, rfl⟩ := List.mem_mapIdx.mp hn
  exact ⟨p, rfl⟩

theorem exists_target_of_drawn {e : DrawnEdge} (he : e ∈ g.drawing.edges) :
    ∃ p, e.target = nodeKey p := by
  obtain ⟨edge, -, rfl⟩ := List.mem_map.mp he
  exact ⟨edge.callee, rfl⟩

theorem map_key_drawing (g : CallGraph) :
    g.drawing.nodes.map DrawnNode.key = (List.range g.nodes.length).map nodeKey := by
  refine List.ext_getElem (by simp [drawing]) fun p hp hp' => ?_
  simp [drawing, CallNode.drawn]

theorem nodup_hooks_drawing (g : CallGraph) : g.drawing.hooks.Nodup := by
  unfold Drawing.hooks
  exact nodup_eraseDups _

theorem mem_hooks_drawing_iff {hook : Hook} :
    hook ∈ g.drawing.hooks ↔ ∃ e ∈ g.edges, e.source = .engine hook := by
  simp only [Drawing.hooks, drawing, List.mem_eraseDups, List.mem_mergeSort, List.mem_filterMap,
    List.mem_map, exists_exists_and_eq_and]
  refine exists_congr fun e => and_congr_right fun _ => ?_
  cases e.source <;> simp

/-- The text says what the graph is, line by line. -/
structure DrawnAs (g : CallGraph) (text : String) : Prop where
  /-- Nothing follows the last newline. -/
  lines : text.toList.splitOn '\n' = (heading ++ g.drawing.hooks.map hookLine
    ++ g.drawing.nodes.map nodeLine ++ g.drawing.edges.map edgeLine ++ ["\x7d"]).map String.toList
      ++ [[]]
  counts : heading.length = 3 ∧ g.drawing.nodes.length = g.nodes.length
    ∧ g.drawing.edges.length = g.edges.length
  hooks : g.drawing.hooks.Nodup
    ∧ ∀ hook, hook ∈ g.drawing.hooks ↔ ∃ e ∈ g.edges, e.source = .engine hook
  /-- The first quote of a node line opens the label, and the quote that
  was written to close it does. -/
  labels : ∀ n ∈ g.drawing.nodes, scanQuoted (behindQuote (nodeLine n).toList)
      = some ((escape n.label).toList, (nodeEnd n).toList)
    ∧ unescape (escape n.label).toList = n.label.toList
  statements : (text.toList.splitOn '\n').map Statement.read?
    = List.replicate 3 none ++ g.drawing.statements.map some ++ [none, none]
  names : (g.drawing.hooks.map Hook.key ++ g.drawing.nodes.map DrawnNode.key).Nodup
  declared : ∀ k line source target, (text.toList.splitOn '\n')[k]? = some line →
    Statement.read? line = some (.edge source target) →
      (∃ i < k, Declares text i source) ∧ ∃ j < k, Declares text j target

theorem nodup_names (g : CallGraph) :
    (g.drawing.hooks.map Hook.key ++ g.drawing.nodes.map DrawnNode.key).Nodup := by
  rw [map_key_drawing]
  refine List.nodup_append'.mpr ⟨(nodup_hooks_drawing g).map Hook.key_injective,
    List.nodup_range.map nodeKey_injective, ?_⟩
  intro name hhook hnode
  obtain ⟨hook, -, rfl⟩ := List.mem_map.mp hhook
  obtain ⟨p, -, hkey⟩ := List.mem_map.mp hnode
  have hletter := congrArg (fun name : String => name.toList.head?) hkey
  simp [toList_nodeKey, Hook.key] at hletter

/-- The ends of an edge are drawn, one of them perhaps as a hook. -/
theorem ends_drawn {e : DrawnEdge} (he : e ∈ (build scripts evidence).drawing.edges) :
    (e.source.key ∈ (build scripts evidence).drawing.hooks.map Hook.key
        ∨ e.source.key ∈ (build scripts evidence).drawing.nodes.map DrawnNode.key)
      ∧ e.target ∈ (build scripts evidence).drawing.nodes.map DrawnNode.key := by
  obtain ⟨edge, hedge, rfl⟩ := List.mem_map.mp he
  obtain ⟨hcallee, hcaller, -⟩ := ends_of_mem_edges hedge
  rw [map_key_drawing]
  refine ⟨?_, List.mem_map_of_mem (List.mem_range.mpr hcallee)⟩
  cases hsource : edge.source with
  | script a => exact Or.inr (List.mem_map_of_mem (List.mem_range.mpr (hcaller a hsource)))
  | engine hook =>
      exact Or.inl (List.mem_map_of_mem (mem_hooks_drawing_iff.mpr ⟨edge, hedge, hsource⟩))

theorem declared_of_edge {k : Nat} {line source target : List Char}
    (hline : ((build scripts evidence).dot.toList.splitOn '\n')[k]? = some line)
    (hread : Statement.read? line = some (.edge source target)) :
    (∃ i < k, Declares (build scripts evidence).dot i source)
      ∧ ∃ j < k, Declares (build scripts evidence).dot j target := by
  have hnodes : ∀ n ∈ (build scripts evidence).drawing.nodes, ∃ p, n.key = nodeKey p :=
    fun _ hn => exists_key_of_drawn hn
  have hedges : ∀ e ∈ (build scripts evidence).drawing.edges, ∃ p, e.target = nodeKey p :=
    fun _ he => exists_target_of_drawn he
  obtain ⟨hk, e, he, rfl, rfl⟩ := exists_edge_of_read? hnodes hedges hline hread
  have hhook : ∀ name ∈ (build scripts evidence).drawing.hooks.map Hook.key,
      ∃ i < k, Declares (build scripts evidence).dot i name.toList := by
    intro name hname
    obtain ⟨hook, hmem, rfl⟩ := List.mem_map.mp hname
    obtain ⟨i, hi, hdeclares⟩ := declares_of_mem hnodes hedges
      (List.mem_append_left _ (List.mem_map_of_mem hmem)) (Or.inl rfl)
    exact ⟨i, Nat.lt_of_lt_of_le hi hk, hdeclares⟩
  have hnode : ∀ name ∈ (build scripts evidence).drawing.nodes.map DrawnNode.key,
      ∃ i < k, Declares (build scripts evidence).dot i name.toList := by
    intro name hname
    obtain ⟨n, hmem, rfl⟩ := List.mem_map.mp hname
    obtain ⟨i, hi, hdeclares⟩ := declares_of_mem hnodes hedges
      (List.mem_append_right _ (List.mem_map_of_mem hmem)) (Or.inr ⟨_, rfl⟩)
    exact ⟨i, Nat.lt_of_lt_of_le hi hk, hdeclares⟩
  obtain ⟨hsource, htarget⟩ := ends_drawn he
  exact ⟨hsource.elim (hhook _) (hnode _), hnode _ htarget⟩

theorem drawnAs_dot_build (scripts : List ScriptCalls) (evidence : EvidenceTable) :
    (build scripts evidence).DrawnAs (build scripts evidence).dot
      ∧ Function.Injective escape := by
  have hnodes : ∀ n ∈ (build scripts evidence).drawing.nodes, ∃ p, n.key = nodeKey p :=
    fun _ hn => exists_key_of_drawn hn
  have hedges : ∀ e ∈ (build scripts evidence).drawing.edges, ∃ p, e.target = nodeKey p :=
    fun _ he => exists_target_of_drawn he
  refine ⟨⟨splitOn_dot hnodes hedges, ?_, ?_, ?_, map_read?_dot hnodes hedges, nodup_names _, ?_⟩,
    escape_injective⟩
  · exact ⟨rfl, List.length_mapIdx, List.length_map _⟩
  · exact ⟨nodup_hooks_drawing _, fun _ => mem_hooks_drawing_iff⟩
  · intro n hn
    obtain ⟨p, hkey⟩ := hnodes n hn
    exact ⟨scanQuoted_nodeLine hkey, unescape_escape n.label⟩
  · intro k line source target hline hread
    exact declared_of_edge hline hread

end CallGraph

end BehaviorScript
