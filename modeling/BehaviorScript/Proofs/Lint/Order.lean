import BehaviorScript.Proofs.Lint.StackFindings
import BehaviorScript.Proofs.Script.Sorting
import Mathlib.Data.Prod.Lex
import Mathlib.Data.String.Basic

/-!
# The order of findings

Findings are sorted by index, category, severity and message. The order
leaves out the rest of a finding, so what makes the list canonical is that
no two findings of a script agree in all four (`nodup_keys_passes`): then
there is one way to sort them, and nothing is left of the order in which
the passes ran.

Within a category the message has to do it. On the stack it tells the sort
of the finding, in the branch logic its first letter does, and on the use
of variables it tells slot and sort.
-/

namespace BehaviorScript

/-- The categories in the order of their passes. -/
def Category.all : List Category := [.deadCode, .stackBalance, .logicError, .variableUsage]

theorem Category.rank_injective : Function.Injective rank := by
  intro c d
  cases c <;> cases d <;> decide

/-- The slot that a defect is about, and the letter of the message that
tells what is wrong with it. -/
def Defect.misused? : Defect → Option (Slot × Char)
  | .slotOutOfRange slot _ => some (slot, 'o')
  | .readBeforeWrite slot => some (slot, 'r')
  | .neverRead slot => some (slot, 'w')
  | _ => none

namespace Finding

/-! ## Keys -/

/-- What findings are sorted by. -/
def key (f : Finding) : Nat ×ₗ Nat ×ₗ Nat ×ₗ String :=
  toLex (f.index, toLex (f.category.rank, toLex (f.severity.rank, f.message)))

theorem notAfter_iff {f g : Finding} : f.notAfter g = true ↔ f.key ≤ g.key := by
  simp only [key, Prod.Lex.toLex_le_toLex, notAfter]
  split_ifs with hindex hcategory hseverity
  · simp [hindex]
  · have heq : f.index = g.index := by simpa using hindex
    simp [heq, hcategory]
  · have heq : f.index = g.index := by simpa using hindex
    have heq' : f.category.rank = g.category.rank := by simpa using hcategory
    simp [heq, heq', hseverity]
  · have heq : f.index = g.index := by simpa using hindex
    have heq' : f.category.rank = g.category.rank := by simpa using hcategory
    have heq'' : f.severity.rank = g.severity.rank := by simpa using hseverity
    simp [heq, heq', heq'']

theorem notAfter_trans (f g h : Finding) (hfg : f.notAfter g = true) (hgh : g.notAfter h = true) :
    f.notAfter h = true := by
  rw [notAfter_iff] at hfg hgh ⊢
  exact hfg.trans hgh

theorem notAfter_total (f g : Finding) : (f.notAfter g || g.notAfter f) = true := by
  rw [Bool.or_eq_true, notAfter_iff, notAfter_iff]
  exact le_total f.key g.key

theorem key_inj {f g : Finding} (h : f.key = g.key) :
    f.index = g.index ∧ f.category = g.category ∧ f.message = g.message := by
  have hindex : f.index = g.index := congrArg (fun k => (ofLex k).1) h
  have hrank : f.category.rank = g.category.rank := congrArg (fun k => (ofLex (ofLex k).2).1) h
  have hmessage : f.message = g.message :=
    congrArg (fun k => (ofLex (ofLex (ofLex k).2).2).2) h
  exact ⟨hindex, Category.rank_injective hrank, hmessage⟩

/-- Keys are distinct where they tell apart tags that are. -/
theorem nodup_keys_of_tags {τ : Type} {findings : List Finding} (tag : Finding → τ)
    (htags : (findings.map tag).Nodup)
    (hkey : ∀ f ∈ findings, ∀ g ∈ findings, f.index = g.index → f.message = g.message →
      tag f = tag g) : (findings.map key).Nodup := by
  refine List.pairwise_map.mpr ((List.pairwise_map.mp htags).imp_of_mem ?_)
  intro f g hf hg hne heq
  obtain ⟨hindex, -, hmessage⟩ := key_inj heq
  exact hne (hkey f hf g hg hindex hmessage)

/-! ## Messages of the branch logic -/

/-- The first letter of the message. -/
def initial? (f : Finding) : Option Char := f.message.toList.head?

theorem initial?_pointerOutOfRange (a : Nat) (outcome : Bool) (pointer : UInt8) (last : Nat) :
    initial? ⟨a, .pointerOutOfRange outcome pointer last⟩
      = some (if outcome then 't' else 'f') := by
  show ((toString outcome ++ " pointer " ++ toString pointer.toNat
    ++ " is past the last instruction (" ++ toString last ++ ") ")
    ++ "and not a return code").toList.head? = _
  cases outcome with
  | false =>
      have hword : toString false = "false" := rfl
      simp [hword]
  | true =>
      have hword : toString true = "true" := rfl
      simp [hword]

theorem initial?_selfLoop (a : Nat) (i : Instruction) :
    initial? ⟨a, .selfLoop i⟩ = some 'i' := by
  show ("instruction " ++ toString a ++ " (" ++ i.mnemonic
    ++ ") branches to itself").toList.head? = _
  simp

theorem initial?_sameBranches (a : Nat) (i : Instruction) (target : Target) :
    initial? ⟨a, .sameBranches i target⟩ = some 'b' := by
  show ("both branches of " ++ i.mnemonic ++ " lead to " ++ target.label).toList.head? = _
  simp

/-! ## Messages on variables -/

theorem message_of_misused? {f : Finding} {slot : Slot} {letter : Char}
    (hf : f.defect.misused? = some (slot, letter)) :
    ∃ rest, f.message = slot.label ++ rest ∧ rest.toList[4]? = some letter := by
  obtain ⟨a, d⟩ := f
  cases d with
  | slotOutOfRange slot declared =>
      cases hf
      refine ⟨" is out of range; the script declares " ++ toString declared ++ " "
        ++ slot.declaredAs, ?_, by simp⟩
      show slot.label ++ " is out of range; the script declares " ++ toString declared ++ " "
        ++ slot.declaredAs = _
      simp only [String.append_assoc]
  | readBeforeWrite slot =>
      cases hf
      show ∃ rest, (if slot.scope = .local then slot.label ++ " is read before any write"
        else slot.label ++ " is read before any write; the caller may set it") = _ ∧ _
      split
      · exact ⟨_, rfl, by simp⟩
      · exact ⟨_, rfl, by simp⟩
  | neverRead slot =>
      cases hf
      exact ⟨" is written but never read", rfl, by simp⟩
  | _ => cases hf

theorem misused_of_message {f g : Finding} (h : f.message = g.message) {x y : Slot × Char}
    (hf : f.defect.misused? = some x) (hg : g.defect.misused? = some y) : x = y := by
  obtain ⟨rest, hmessage, hletter⟩ := message_of_misused? hf
  obtain ⟨rest', hmessage', hletter'⟩ := message_of_misused? hg
  rw [hmessage, hmessage'] at h
  obtain ⟨hslot, rfl⟩ := Slot.label_append_inj h
  exact Prod.ext hslot (Option.some.inj (hletter.symm.trans hletter'))

end Finding

namespace Lint

/-! ## Each pass -/

open Finding

theorem initials_outOfRange (count a : Nat) (i : Instruction) :
    ((i.exits.filterMap (outOfRange? count a)).map initial?).Sublist [some 't', some 'f'] := by
  have hexit : ∀ exit : Bool × UInt8, ((outOfRange? count a exit).toList.map initial?).Sublist
      [some (if exit.1 then 't' else 'f')] := by
    intro exit
    cases hfound : outOfRange? count a exit with
    | none => exact List.nil_sublist _
    | some f =>
        obtain ⟨pointer, -, rfl⟩ := outOfRange?_eq_some_iff.mp hfound
        rw [Option.toList_some, List.map_singleton, initial?_pointerOutOfRange]
  rw [List.filterMap_eq_flatMap_toList, List.map_flatMap, Instruction.exits]
  cases i.flow with
  | continues => exact (hexit (true, i.truePointer)).append (List.nil_sublist [some 'f'])
  | branches =>
      simp only [List.flatMap_cons, List.flatMap_nil, List.append_nil]
      exact (hexit (true, i.truePointer)).append (hexit (false, i.falsePointer))

theorem initials_selfLoop (a : Nat) (i : Instruction) :
    ((selfLoop a i).map initial?).Sublist [some 'i'] := by
  unfold selfLoop
  split
  · rw [List.map_singleton, initial?_selfLoop]
  · exact List.nil_sublist _

theorem initials_sameBranches (count a : Nat) (i : Instruction) :
    ((sameBranches count a i).map initial?).Sublist [some 'b'] := by
  unfold sameBranches
  split
  · rw [List.map_singleton, initial?_sameBranches]
  · exact List.nil_sublist _

theorem index_of_mem_row {count a : Nat} {i : Instruction} {f : Finding}
    (hf : f ∈ i.exits.filterMap (outOfRange? count a) ++ selfLoop a i ++ sameBranches count a i) :
    f.index = a := by
  rw [List.mem_append, List.mem_append, List.mem_filterMap] at hf
  rcases hf with (⟨exit, -, hfound⟩ | hself) | hsame
  · obtain ⟨pointer, -, rfl⟩ := outOfRange?_eq_some_iff.mp hfound
    rfl
  · obtain ⟨-, rfl⟩ := mem_selfLoop_iff.mp hself
    rfl
  · obtain ⟨-, rfl⟩ := mem_sameBranches_iff.mp hsame
    rfl

theorem nodup_initials_branchLogic (code : List Instruction) :
    ((branchLogic code).map fun f => (f.index, f.initial?)).Nodup := by
  refine nodup_flatMap_rows Prod.snd ?_ ?_ ?_
  · rw [List.zipIdx_map_snd]
    exact List.nodup_range'
  · intro entry _ f hf
    exact index_of_mem_row hf
  · intro entry _
    rw [List.map_append, List.map_append]
    exact List.Nodup.sublist (((initials_outOfRange code.length entry.2 entry.1).append
      (initials_selfLoop entry.2 entry.1)).append
        (initials_sameBranches code.length entry.2 entry.1)) (by decide)

theorem VariableUsage.Misuse.defect_of_message {options : Options} {s : Script} {f g : Finding}
    (hf : Misuse options s f) (hg : Misuse options s g) (h : f.message = g.message) :
    f.defect = g.defect := by
  cases hf with
  | readBeforeWrite =>
      cases hg with
      | readBeforeWrite =>
          cases misused_of_message h rfl rfl
          rfl
      | neverRead => cases misused_of_message h rfl rfl
      | slotOutOfRange => cases misused_of_message h rfl rfl
  | neverRead =>
      cases hg with
      | readBeforeWrite => cases misused_of_message h rfl rfl
      | neverRead =>
          cases misused_of_message h rfl rfl
          rfl
      | slotOutOfRange => cases misused_of_message h rfl rfl
  | slotOutOfRange _ hscope _ =>
      cases hg with
      | readBeforeWrite => cases misused_of_message h rfl rfl
      | neverRead => cases misused_of_message h rfl rfl
      | slotOutOfRange _ hscope' _ =>
          cases misused_of_message h rfl rfl
          -- the scope of the slot says which count is exceeded
          rcases hscope with ⟨hlocal, rfl⟩ | ⟨hparameter, rfl⟩
          · rcases hscope' with ⟨-, rfl⟩ | ⟨hother, -⟩
            · rfl
            · rw [hlocal] at hother
              cases hother
          · rcases hscope' with ⟨hother, -⟩ | ⟨-, rfl⟩
            · rw [hparameter] at hother
              cases hother
            · rfl

section

variable {image : Image} {s : Script} (hs : Script.ofImage image = .ok s) (options : Options)
include hs

theorem nodup_keys_pass (category : Category) :
    ((pass options s category).map Finding.key).Nodup := by
  cases category with
  | deadCode =>
      exact nodup_keys_of_tags Finding.index (nodup_index_deadCode s) fun f _ g _ hindex _ => hindex
  | stackBalance =>
      refine nodup_keys_of_tags _ (StackBalance.nodup_sorts_stackBalance _ s.code) ?_
      intro f hf g hg hindex hmessage
      obtain ⟨sort, hsort⟩ := Defect.exists_depthSort? (visit_of_mem_stackBalance hf).2
      obtain ⟨sort', hsort'⟩ := Defect.exists_depthSort? (visit_of_mem_stackBalance hg).2
      rw [hindex, hsort, hsort', depthSort_of_message hmessage hsort hsort']
  | logicError =>
      refine nodup_keys_of_tags _ (nodup_initials_branchLogic s.code) ?_
      intro f _ g _ hindex hmessage
      rw [hindex, initial?, initial?, hmessage]
  | variableUsage =>
      refine nodup_keys_of_tags _ (VariableUsage.nodup_defects_variableUsage options s) ?_
      intro f hf g hg _ hmessage
      exact ((VariableUsage.mem_variableUsage_iff hs).mp hf).defect_of_message
        ((VariableUsage.mem_variableUsage_iff hs).mp hg) hmessage

/-! ## All passes -/

omit hs in
theorem passes_eq_flatMap (s : Script) :
    passes options s = Category.all.flatMap (pass options s) := by
  simp [passes, Category.all, pass]

/-- No two findings of a script are sorted to the same place. -/
theorem nodup_keys_passes : ((passes options s).map Finding.key).Nodup := by
  rw [passes_eq_flatMap, List.map_flatMap, List.nodup_flatMap]
  refine ⟨fun category _ => nodup_keys_pass hs options category, ?_⟩
  have hdistinct : Category.all.Pairwise (· ≠ ·) := by decide
  refine hdistinct.imp ?_
  intro category category' hne key hkey hkey'
  obtain ⟨f, hf, rfl⟩ := List.mem_map.mp hkey
  obtain ⟨g, hg, hgf⟩ := List.mem_map.mp hkey'
  obtain ⟨-, hcategory, -⟩ := key_inj hgf
  rw [category_of_mem_pass hs hf, category_of_mem_pass hs hg] at hcategory
  exact hne hcategory.symm

theorem pairwise_key_lint : (s.lint options).Pairwise fun f g => f.key < g.key := by
  have hsorted : (s.lint options).Pairwise fun f g => f.notAfter g = true :=
    List.pairwise_mergeSort notAfter_trans notAfter_total _
  have hne : (s.lint options).Pairwise fun f g => f.key ≠ g.key :=
    List.pairwise_map.mp
      (((lint_perm options s).map Finding.key).nodup_iff.mpr (nodup_keys_passes hs options))
  refine (hsorted.and hne).imp ?_
  intro f g h
  exact lt_of_le_of_ne (notAfter_iff.mp h.1) h.2

theorem mergeSort_eq_lint {findings : List Finding}
    (hperm : findings.Perm (passes options s)) :
    findings.mergeSort Finding.notAfter = s.lint options := by
  refine mergeSort_eq_of_antisymm notAfter_trans notAfter_total hperm ?_
  intro f hf g hg hfg hgf
  exact List.inj_on_of_nodup_map (nodup_keys_passes hs options) (hperm.mem_iff.mp hf)
    (hperm.mem_iff.mp hg) (le_antisymm (notAfter_iff.mp hfg) (notAfter_iff.mp hgf))

end

/-- **The list of findings is canonical**: it holds what the four passes
find, in strictly ascending order, and is the same whatever the order in
which they run and their findings are put together. -/
theorem lint_canonical {image : Image} {s : Script} (hs : Script.ofImage image = .ok s)
    (options : Options) :
    (s.lint options).Perm (passes options s)
      ∧ (s.lint options).Pairwise (fun f g => f.key < g.key)
      ∧ (∀ order : List Category, order.Perm Category.all →
        (order.flatMap (pass options s)).mergeSort Finding.notAfter = s.lint options)
      ∧ ∀ findings : List Finding, findings.Perm (passes options s) →
        findings.mergeSort Finding.notAfter = s.lint options := by
  refine ⟨lint_perm options s, pairwise_key_lint hs options, ?_, ?_⟩
  · intro order horder
    refine mergeSort_eq_lint hs options ?_
    rw [passes_eq_flatMap]
    exact horder.flatMap_right _
  · intro findings hperm
    exact mergeSort_eq_lint hs options hperm

/-- A loop that pops, then dead code that leads nowhere. -/
def popLoop : Image :=
  ⟨0x1000, "lamp", 0, 0, 2, [0x02, 0, 0, 253, 0, 0, 1, 0, 1, 19, 25, 8,
    0x01, 0x10, 9, 9, 0, 0, 0, 0, 0, 0, 0, 0]⟩

theorem lint_canonical_popLoop :
    ∃ s, Script.ofImage popLoop = .ok s ∧ (s.lint Options.default).length = 9
      ∧ (s.lint Options.default).Pairwise (fun f g => f.key < g.key)
      ∧ (passes Options.default s).reverse.mergeSort Finding.notAfter = s.lint Options.default := by
  obtain ⟨s, hs⟩ : ∃ s, Script.ofImage popLoop = .ok s := ⟨_, rfl⟩
  have hlength : (passes Options.default s).length = 9 := by
    cases hs
    decide +kernel
  obtain ⟨hperm, hsorted, -, horder⟩ := lint_canonical hs Options.default
  exact ⟨s, hs, hperm.length_eq.trans hlength, hsorted, horder _ (List.reverse_perm _)⟩

end Lint

end BehaviorScript
