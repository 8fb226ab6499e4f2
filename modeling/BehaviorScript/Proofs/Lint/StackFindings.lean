import BehaviorScript.Proofs.Lint.Passes
import BehaviorScript.Proofs.Text.Unambiguous
import Mathlib.Data.List.Perm.Basic

/-!
# The paths behind stack findings

The depths that a finding of the stack pass prints are those of the ways
to the instruction that the queue happened to take first. None of them is
made up: each is what the instructions on some path leave behind, also
where the pass goes on after an underflow or around a loop.

A finding is known by its text here. The three texts end in a word, a
blank and a depth, and the word tells the sort (`depthSort_of_message`);
`exists_underflow_of_message` and its two companions read the depths. The
depth of each visit has a path (`StackBalance.path_of_visit`), and so has
that of each arrival. That no instruction has two findings of one sort is
a matter of the rows that a pass is written in (`nodup_flatMap_rows`), one
row for each visit.
-/

namespace BehaviorScript

/-- The sorts of findings on the depth of the stack. -/
inductive DepthSort where
  | underflow
  | tooDeep
  | mismatch
deriving DecidableEq

def Defect.depthSort? : Defect → Option DepthSort
  | .underflow _ _ => some .underflow
  | .tooDeep _ _ => some .tooDeep
  | .depthMismatch _ _ => some .mismatch
  | _ => none

theorem Defect.exists_depthSort? {d : Defect} (h : d.category = .stackBalance) :
    ∃ s, d.depthSort? = some s := by
  cases d with
  | underflow i depth => exact ⟨.underflow, rfl⟩
  | tooDeep after bound => exact ⟨.tooDeep, rfl⟩
  | depthMismatch seen other => exact ⟨.mismatch, rfl⟩
  | _ => cases h

/-- The word in front of the last depth in a message. -/
def DepthSort.word : DepthSort → String
  | .underflow => "depth"
  | .tooDeep => "of"
  | .mismatch => "and"

theorem DepthSort.word_injective : Function.Injective word := by
  intro s t
  cases s <;> cases t <;> decide

theorem DepthSort.blank_notMem_word (s : DepthSort) : ' ' ∉ s.word.toList := by
  cases s <;> decide

namespace Finding

/-! ## Reading a message -/

theorem message_underflow (a : Nat) (i : Instruction) (depth : Int) :
    message ⟨a, .underflow i depth⟩
      = i.mnemonic ++ " pops from a stack of" ++ " " ++ "depth" ++ " " ++ toString depth := by
  show i.mnemonic ++ " pops from a stack of depth " ++ toString depth = _
  exact String.toList_inj.mp (by simp)

theorem message_tooDeep (a : Nat) (after bound : Int) :
    message ⟨a, .tooDeep after bound⟩
      = "stack depth reaches " ++ toString after ++ ", above the limit" ++ " " ++ "of" ++ " "
        ++ toString bound := by
  show "stack depth reaches " ++ toString after ++ ", above the limit of " ++ toString bound = _
  exact String.toList_inj.mp (by simp)

theorem message_depthMismatch (a : Nat) (seen other : Int) :
    message ⟨a, .depthMismatch seen other⟩
      = "paths reach instruction " ++ toString a ++ " with stack depths" ++ " " ++ toString seen
        ++ " " ++ "and" ++ " " ++ toString other := by
  show "paths reach instruction " ++ toString a ++ " with stack depths " ++ toString seen
    ++ " and " ++ toString other = _
  exact String.toList_inj.mp (by simp)

theorem message_of_depthSort? {f : Finding} {s : DepthSort} (hf : f.defect.depthSort? = some s) :
    ∃ front depth, f.message = front ++ " " ++ s.word ++ " " ++ toString (depth : Int) := by
  obtain ⟨a, d⟩ := f
  cases d with
  | underflow i depth =>
      cases hf
      exact ⟨_, depth, message_underflow a i depth⟩
  | tooDeep after bound =>
      cases hf
      exact ⟨_, bound, message_tooDeep a after bound⟩
  | depthMismatch seen other =>
      cases hf
      exact ⟨_, other, message_depthMismatch a seen other⟩
  | _ => cases hf

/-- The text of a finding tells its sort. -/
theorem depthSort_of_message {f g : Finding} (h : f.message = g.message) {s t : DepthSort}
    (hf : f.defect.depthSort? = some s) (hg : g.defect.depthSort? = some t) : s = t := by
  obtain ⟨front, depth, hmessage⟩ := message_of_depthSort? hf
  obtain ⟨front', depth', hmessage'⟩ := message_of_depthSort? hg
  rw [hmessage, hmessage'] at h
  obtain ⟨hwords, -⟩ := Text.number_at_end h
  exact DepthSort.word_injective
    (Text.word_at_end s.blank_notMem_word t.blank_notMem_word hwords).2

section

variable {f : Finding} {s : DepthSort} (hf : f.defect.depthSort? = some s) {a : Nat}
include hf

theorem exists_underflow_of_message {i : Instruction} {depth : Int}
    (h : f.message = message ⟨a, .underflow i depth⟩) : ∃ j, f.defect = .underflow j depth := by
  obtain rfl : s = .underflow := depthSort_of_message h hf rfl
  obtain ⟨b, d⟩ := f
  cases d with
  | underflow j e =>
      rw [message_underflow, message_underflow] at h
      obtain ⟨-, rfl⟩ := Text.number_at_end h
      exact ⟨j, rfl⟩
  | _ => cases hf

theorem eq_tooDeep_of_message {after bound : Int}
    (h : f.message = message ⟨a, .tooDeep after bound⟩) : f.defect = .tooDeep after bound := by
  obtain rfl : s = .tooDeep := depthSort_of_message h hf rfl
  obtain ⟨b, d⟩ := f
  cases d with
  | tooDeep after' bound' =>
      rw [message_tooDeep, message_tooDeep] at h
      obtain ⟨hfront, rfl⟩ := Text.number_at_end h
      simp only [String.append_left_inj, String.append_right_inj] at hfront
      rw [Int.repr_inj.mp hfront]
  | _ => cases hf

theorem eq_depthMismatch_of_message {seen other : Int}
    (h : f.message = message ⟨a, .depthMismatch seen other⟩) :
    f.defect = .depthMismatch seen other := by
  obtain rfl : s = .mismatch := depthSort_of_message h hf rfl
  obtain ⟨b, d⟩ := f
  cases d with
  | depthMismatch seen' other' =>
      rw [message_depthMismatch, message_depthMismatch] at h
      obtain ⟨hfront, rfl⟩ := Text.number_at_end h
      simp only [String.append_left_inj] at hfront
      obtain ⟨-, rfl⟩ := Text.number_at_end hfront
      rfl
  | _ => cases hf

end

/-! ## Rows of findings -/

/-- Where a pass is written in rows, each at an index of its own, findings
of one tag are at different indices. -/
theorem nodup_flatMap_rows {ρ τ : Type} {rows : List ρ} (place : ρ → Nat) {row : ρ → List Finding}
    {tag : Finding → τ} (hplace : (rows.map place).Nodup)
    (hindex : ∀ r ∈ rows, ∀ f ∈ row r, f.index = place r)
    (htags : ∀ r ∈ rows, ((row r).map tag).Nodup) :
    ((rows.flatMap row).map fun f => (f.index, tag f)).Nodup := by
  rw [List.map_flatMap, List.nodup_flatMap]
  refine ⟨fun r hr => ?_, ?_⟩
  · refine List.Nodup.of_map Prod.snd ?_
    rw [List.map_map]
    exact htags r hr
  · refine (List.pairwise_map.mp hplace).imp_of_mem ?_
    intro r r' hr hr' hne x hx hx'
    obtain ⟨f, hf, rfl⟩ := List.mem_map.mp hx
    obtain ⟨g, hg, hgf⟩ := List.mem_map.mp hx'
    have hindices : g.index = f.index := congrArg Prod.fst hgf
    rw [hindex r hr f hf, hindex r' hr' g hg] at hindices
    exact hne hindices.symm

end Finding

namespace Lint

open BehaviorScript.Flow

namespace StackBalance

variable {code : List Instruction} {limit : Int}

/-! ## Findings and paths -/

/-- Some path leads to instruction `a` with the stack at depth `d`. -/
def ArrivesAt (code : List Instruction) (a : Nat) (d : Int) : Prop :=
  ∃ before, Path code before a ∧ netEffect code before = d

theorem arrivesAt_of_mem_arrived {a : Nat} {e : Int} (h : (a, e) ∈ arrived code) :
    ArrivesAt code a e := by
  obtain ⟨b, d, hvisit, hstep, rfl⟩ := mem_arrived_iff.mp h
  obtain ⟨before, hpath, rfl⟩ := path_of_visit hvisit
  exact ⟨before ++ [b], hpath.step hstep, netEffect_concat before b⟩

theorem depthMismatch_of_mem {a : Nat} {seen other : Int}
    (h : ⟨a, .depthMismatch seen other⟩ ∈ stackBalance limit code) :
    (a, seen) ∈ visits code ∧ (a, other) ∈ arrived code ∧ seen ≠ other := by
  obtain ⟨⟨b, d⟩, hvisit, hdepth | hmismatch⟩ := mem_stackBalance_iff.mp h
  · obtain ⟨i, -, ⟨-, heq⟩ | ⟨-, heq⟩⟩ := mem_depthFindings_iff.mp hdepth
    · cases heq
    · cases heq
  · obtain ⟨e, harrived, hne, heq⟩ := mismatch?_eq_some hmismatch
    cases heq
    exact ⟨hvisit, harrived, hne.symm⟩

/-! ## One finding of each sort -/

/-- All that the pass has to say of one visit. -/
def findingsAt (limit : Int) (code : List Instruction) (visit : Nat × Int) : List Finding :=
  depthFindings code limit visit ++ (mismatch? (arrived code) visit).toList

theorem stackBalance_perm (limit : Int) (code : List Instruction) :
    (stackBalance limit code).Perm ((visits code).flatMap (findingsAt limit code)) := by
  have hpass : stackBalance limit code = (visits code).flatMap (depthFindings code limit)
      ++ (visits code).filterMap (mismatch? (arrived code)) := rfl
  rw [hpass, List.filterMap_eq_flatMap_toList]
  exact List.flatMap_append_perm (visits code) _ _

theorem index_of_mem_findingsAt {visit : Nat × Int} {f : Finding}
    (hf : f ∈ findingsAt limit code visit) : f.index = visit.1 := by
  obtain ⟨a, d⟩ := visit
  rcases List.mem_append.mp hf with hdepth | hmismatch
  · obtain ⟨i, -, ⟨-, rfl⟩ | ⟨-, rfl⟩⟩ := mem_depthFindings_iff.mp hdepth
    · rfl
    · rfl
  · obtain ⟨e, -, -, rfl⟩ := mismatch?_eq_some (Option.mem_toList.mp hmismatch)
    rfl

theorem sorts_findingsAt (limit : Int) (code : List Instruction) (visit : Nat × Int) :
    ((findingsAt limit code visit).map fun f => f.defect.depthSort?).Sublist
      [some .underflow, some .tooDeep, some .mismatch] := by
  have hdepth : ((depthFindings code limit visit).map fun f => f.defect.depthSort?).Sublist
      [some .underflow, some .tooDeep] := by
    unfold depthFindings
    cases code[visit.1]? with
    | none => exact List.nil_sublist _
    | some i =>
        dsimp only
        split <;> split <;> simp [Defect.depthSort?]
  have hmismatch : ((mismatch? (arrived code) visit).toList.map
      fun f => f.defect.depthSort?).Sublist [some .mismatch] := by
    cases hfound : mismatch? (arrived code) visit with
    | none => exact List.nil_sublist _
    | some f =>
        obtain ⟨e, -, -, rfl⟩ := mismatch?_eq_some hfound
        exact List.Sublist.refl _
  rw [findingsAt, List.map_append]
  exact hdepth.append hmismatch

theorem nodup_sorts_stackBalance (limit : Int) (code : List Instruction) :
    ((stackBalance limit code).map fun f => (f.index, f.defect.depthSort?)).Nodup := by
  rw [((stackBalance_perm limit code).map _).nodup_iff]
  refine Finding.nodup_flatMap_rows Prod.fst (nodup_visits code) ?_ ?_
  · intro visit _ f hf
    exact index_of_mem_findingsAt hf
  · intro visit _
    exact List.Nodup.sublist (sorts_findingsAt limit code visit) (by decide)

/-! ## What the findings tell -/

/-- A finding of the pass holds of some execution: what its message prints
is what a path leaves behind. -/
structure Explained (limit : Int) (code : List Instruction) (f : Finding) : Prop where
  live : f.index < code.length ∧ Reachable code f.index
  sort : ∃ s, f.defect.depthSort? = some s
  underflow : ∀ i d, f.message = Finding.message ⟨f.index, .underflow i d⟩ →
    ArrivesAt code f.index d ∧ d + effectAt code f.index < 0
  tooDeep : ∀ after bound, f.message = Finding.message ⟨f.index, .tooDeep after bound⟩ →
    (∃ before, Path code before f.index ∧ netEffect code (before ++ [f.index]) = after)
      ∧ limit < after
  mismatch : ∀ p q, f.message = Finding.message ⟨f.index, .depthMismatch p q⟩ →
    p ≠ q ∧ ArrivesAt code f.index p ∧ ArrivesAt code f.index q

theorem explained_of_mem {f : Finding} (hf : f ∈ stackBalance limit code) :
    Explained limit code f := by
  obtain ⟨s, hsort⟩ := Defect.exists_depthSort? (visit_of_mem_stackBalance hf).2
  refine ⟨live_of_mem_stackBalance hf, ⟨s, hsort⟩, ?_, ?_, ?_⟩
  · intro i e hmessage
    obtain ⟨j, hdefect⟩ := Finding.exists_underflow_of_message hsort hmessage
    have hmem : ⟨f.index, .underflow j e⟩ ∈ stackBalance limit code := hdefect ▸ hf
    obtain ⟨hj, hvisit, hneg⟩ := underflow_mem_iff.mp hmem
    rw [effectAt_of_getElem? hj]
    exact ⟨path_of_visit hvisit, hneg⟩
  · intro after bound hmessage
    have hdefect := Finding.eq_tooDeep_of_message hsort hmessage
    have hmem : ⟨f.index, .tooDeep after bound⟩ ∈ stackBalance limit code := hdefect ▸ hf
    obtain ⟨-, hdeep, e, hvisit, rfl⟩ := tooDeep_mem_iff.mp hmem
    obtain ⟨before, hpath, rfl⟩ := path_of_visit hvisit
    exact ⟨⟨before, hpath, netEffect_concat before f.index⟩, hdeep⟩
  · intro p q hmessage
    have hdefect := Finding.eq_depthMismatch_of_message hsort hmessage
    have hmem : ⟨f.index, .depthMismatch p q⟩ ∈ stackBalance limit code := hdefect ▸ hf
    obtain ⟨hvisit, harrived, hne⟩ := depthMismatch_of_mem hmem
    exact ⟨hne, path_of_visit hvisit, arrivesAt_of_mem_arrived harrived⟩

/-- Every finding of the pass has a path behind it, and no instruction has
two findings of one sort. -/
theorem findings_explained (limit : Int) (code : List Instruction) :
    (∀ f ∈ stackBalance limit code, Explained limit code f)
      ∧ ((stackBalance limit code).map fun f => (f.index, f.defect.depthSort?)).Nodup :=
  ⟨fun _ hf => explained_of_mem hf, nodup_sorts_stackBalance limit code⟩

/-- Pushes in a loop, then pops twice. -/
def pushLoopPopTwice : List Instruction :=
  [⟨0x02, 1, 253, ⟨0, 0, 0, 0, 1, 18, 8, 7⟩⟩, ⟨0x02, 0, 2, ⟨0, 0, 1, 0, 0, 2, 9, 7⟩⟩,
    ⟨0x02, 3, 253, ⟨0, 0, 0, 0, 1, 19, 8, 7⟩⟩, ⟨0x02, 255, 253, ⟨0, 0, 0, 0, 1, 19, 8, 7⟩⟩]

theorem findings_explained_pushLoopPopTwice :
    ArrivesAt pushLoopPopTwice 3 0 ∧ effectAt pushLoopPopTwice 3 < 0
      ∧ (∃ before, Path pushLoopPopTwice before 1
        ∧ netEffect pushLoopPopTwice (before ++ [1]) = 1)
      ∧ ArrivesAt pushLoopPopTwice 0 0 ∧ ArrivesAt pushLoopPopTwice 0 1 := by
  have hpass : stackBalance 0 pushLoopPopTwice = [⟨0, .tooDeep 1 0⟩, ⟨1, .tooDeep 1 0⟩,
      ⟨3, .underflow ⟨0x02, 255, 253, ⟨0, 0, 0, 0, 1, 19, 8, 7⟩⟩ 0⟩,
      ⟨0, .depthMismatch 0 1⟩] := by decide
  obtain ⟨hexplained, -⟩ := findings_explained 0 pushLoopPopTwice
  rw [hpass] at hexplained
  obtain ⟨hunder, hneg⟩ := (hexplained _ (.tail _ (.tail _ (.head _)))).underflow _ 0 rfl
  obtain ⟨hdeep, -⟩ := (hexplained _ (.tail _ (.head _))).tooDeep 1 0 rfl
  obtain ⟨-, hseen, hother⟩ :=
    (hexplained _ (.tail _ (.tail _ (.tail _ (.head _))))).mismatch 0 1 rfl
  exact ⟨hunder, by simpa using hneg, hdeep, hseen, hother⟩

end StackBalance

end Lint

end BehaviorScript
