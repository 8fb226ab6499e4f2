import BehaviorScript.Proofs.Lint.LiveCode
import Mathlib.Data.Nat.Find

/-!
# Dead calls

A temporary that is written and never read is not reported when the
script makes calls, because the callee may read it. Calls are looked for
in the whole script, the code that control cannot get to included. This
is the only way in which dead code has an influence on the findings about
variables.

What the pass knows at its end comes from live code alone
(`finalUsage_eq`), so two scripts with the same live code differ at most
in how they judge that knowledge. With calls the unread temporaries are
left out and nothing else is (`filter_unread`).
-/

namespace BehaviorScript

open BehaviorScript.Flow

/-- A last instruction that control cannot get to may be any other one. -/
theorem Script.sameLiveCode_of_take {image : Image} {s s' : Script} (hs : ofImage image = .ok s)
    {n : Nat} (hlength : s.code.length = n + 1) (hlength' : s'.code.length = n + 1)
    (htake : s.code.take n = s'.code.take n) (hdead : s.flow.reachable[n]? = some false) :
    SameLiveCode s.code s'.code where
  length_eq := hlength.trans hlength'.symm
  getElem?_eq := by
    intro a ha
    rcases Nat.lt_trichotomy a n with hlt | rfl | hgt
    · rw [← List.getElem?_take_of_lt hlt, htake, List.getElem?_take_of_lt hlt]
    · rw [flow_ofImage hs] at hdead
      rw [← FlowGraph.reachable_getElem?_iff (by omega), hdead] at ha
      cases ha
    · rw [List.getElem?_eq_none (by omega), List.getElem?_eq_none (by omega)]

/-- A temporary is found to be written and never read. -/
def Defect.isUnreadTemporary : Defect → Bool
  | .neverRead slot => slot.scope = .temporary
  | _ => false

namespace Lint.VariableUsage

/-- Some instruction calls a script, whether or not control gets to it. -/
def MakesCalls (code : List Instruction) : Prop := ∃ i ∈ code, i.callTarget? ≠ none

/-- The live code writes the temporary and does not read it. -/
structure UnreadTemporary (code : List Instruction) (slot : Slot) : Prop where
  scope : slot.scope = .temporary
  written : ∃ a, Writes code slot a
  unread : ∀ a, ¬Reads code slot a

theorem any_callTarget?_iff {code : List Instruction} :
    (code.any fun i => i.callTarget?.isSome) = true ↔ MakesCalls code := by
  simp [MakesCalls, Option.isSome_iff_ne_none]

theorem not_makesCalls_iff {code : List Instruction} :
    ¬MakesCalls code ↔ ∀ i ∈ code, i.callTarget? = none := by
  simp [MakesCalls]

/-! ## The two runs -/

theorem visit_congr {image image' : Image} (hargs : image.argCount = image'.argCount)
    (hlocals : image.localCount = image'.localCount) : visit image = visit image' := by
  have hdeclared : declared? image = declared? image' := by
    funext scope
    cases scope <;> simp [declared?, hargs, hlocals]
  have hrange : checkRange image = checkRange image' := by
    funext index u slot
    rw [checkRange, checkRange, hdeclared]
  funext options u index e
  rw [visit_eq, visit_eq, hrange]

section

variable {image image' : Image} {s s' : Script} (hs : Script.ofImage image = .ok s)
  (hs' : Script.ofImage image' = .ok s') (h : SameLiveCode s.code s'.code)
include hs hs' h

theorem liveExpressions_eq : liveExpressions s = liveExpressions s' := by
  rw [liveExpressions, liveExpressions, Script.liveCode_eq hs hs' h]

theorem finalUsage_eq (hargs : s.image.argCount = s'.image.argCount)
    (hlocals : s.image.localCount = s'.image.localCount) (options : Options) :
    finalUsage options s = finalUsage options s' := by
  rw [finalUsage, finalUsage, liveExpressions_eq hs hs' h, visit_congr hargs hlocals]

theorem unreadTemporary_iff {slot : Slot} :
    UnreadTemporary s.code slot ↔ UnreadTemporary s'.code slot := by
  have hruns : ∀ e a, RunsAt s.code e a ↔ RunsAt s'.code e a := by
    intro e a
    rw [← mem_liveExpressions_iff hs, ← mem_liveExpressions_iff hs', liveExpressions_eq hs hs' h]
  have hreads : ∀ a, Reads s.code slot a ↔ Reads s'.code slot a := by
    intro a
    simp only [Reads, hruns]
  have hwrites : ∀ a, Writes s.code slot a ↔ Writes s'.code slot a := by
    intro a
    simp only [Writes, hruns]
  constructor
  · rintro ⟨hscope, ⟨a, ha⟩, hread⟩
    exact ⟨hscope, ⟨a, (hwrites a).mp ha⟩, fun b hb => hread b ((hreads b).mpr hb)⟩
  · rintro ⟨hscope, ⟨a, ha⟩, hread⟩
    exact ⟨hscope, ⟨a, (hwrites a).mpr ha⟩, fun b hb => hread b ((hreads b).mp hb)⟩

end

/-! ## What calls leave out -/

section

variable {image : Image} {s : Script} {options : Options}

/-- Only tracked slots are listed as written. -/
theorem scope_of_mem_written {slot : Slot} {w : Nat}
    (hmem : (slot, w) ∈ (finalUsage options s).written) :
    slot.scope = .local ∨ slot.scope = .temporary := by
  have hlookup := (mem_written_iff (distinct_finalUsage options s)).mp hmem
  rw [(tracks_finalUsage options s).written, Option.ite_none_right_eq_some] at hlookup
  simpa [isTracked] using hlookup.1

/-- With or without calls, what is left without the unread temporaries is
what a script with calls reports. -/
theorem filter_unread (makesCalls : Bool) :
    (unread makesCalls (finalUsage options s)).filter (fun f => !f.defect.isUnreadTemporary)
      = unread true (finalUsage options s) := by
  rw [unread, unread, List.filter_map, List.filter_filter]
  refine congrArg _ (List.filter_congr ?_)
  rintro ⟨slot, w⟩ hmem
  rcases scope_of_mem_written hmem with hscope | hscope <;>
    simp [Defect.isUnreadTemporary, hscope]

variable (hs : Script.ofImage image = .ok s)
include hs

/-- Nothing is left out where there is no unread temporary. -/
theorem unread_eq_of_forall_not (hnone : ∀ slot, ¬UnreadTemporary s.code slot)
    (makesCalls : Bool) :
    unread makesCalls (finalUsage options s) = unread true (finalUsage options s) := by
  rw [← filter_unread makesCalls, eq_comm, List.filter_eq_self]
  intro f hf
  obtain ⟨slot, w, rfl, hlookup, hread, -⟩ := (mem_unread_iff (distinct_finalUsage options s)).mp hf
  have htracks := tracks_finalUsage options s
  rw [htracks.written, Option.ite_none_right_eq_some, firstWrite_iff hs] at hlookup
  obtain ⟨htracked, hwrite⟩ := hlookup
  rw [htracks.read, and_iff_right htracked, ← Option.ne_none_iff_exists', not_not,
    firstRead_eq_none_iff hs] at hread
  have hscope : slot.scope ≠ .temporary := fun hscope => hnone slot ⟨hscope, ⟨w, hwrite.1⟩, hread⟩
  simp [Defect.isUnreadTemporary, hscope]

/-- An unread temporary is reported if and only if no instruction calls. -/
theorem exists_neverRead_iff (options : Options) {slot : Slot}
    (hslot : UnreadTemporary s.code slot) :
    (∃ w, ⟨w, .neverRead slot⟩ ∈ variableUsage options s) ↔ ¬MakesCalls s.code := by
  simp only [mem_variableUsage_iff hs, not_makesCalls_iff]
  constructor
  · rintro ⟨w, hmisuse⟩
    cases hmisuse with
    | neverRead _ _ hscope =>
        rcases hscope with hlocal | ⟨-, hcalls⟩
        · rw [hslot.scope] at hlocal
          cases hlocal
        · exact hcalls
  · intro hcalls
    classical
    have hleast : IsLeast {a | Writes s.code slot a} (Nat.find hslot.written) :=
      ⟨Nat.find_spec hslot.written, fun _ ha => Nat.find_min' hslot.written ha⟩
    exact ⟨_, .neverRead hleast hslot.unread (Or.inr ⟨hslot.scope, hcalls⟩)⟩

end

/-- Whatever stands where control cannot get to, the findings other than
unread temporaries come out the same, in the same order. All of them do
if and only if the scripts agree on whether they make calls or the live
code leaves no temporary unread. -/
theorem variableUsage_eq_iff_of_sameLiveCode {image image' : Image} {s s' : Script}
    (hs : Script.ofImage image = .ok s) (hs' : Script.ofImage image' = .ok s')
    (h : SameLiveCode s.code s'.code) (hargs : s.image.argCount = s'.image.argCount)
    (hlocals : s.image.localCount = s'.image.localCount) (options : Options) :
    (variableUsage options s).filter (fun f => !f.defect.isUnreadTemporary)
        = (variableUsage options s').filter (fun f => !f.defect.isUnreadTemporary)
      ∧ (variableUsage options s = variableUsage options s' ↔
        (MakesCalls s.code ↔ MakesCalls s'.code) ∨ ∀ slot, ¬UnreadTemporary s.code slot) := by
  have husage := finalUsage_eq hs hs' h hargs hlocals options
  refine ⟨?_, ?_, ?_⟩
  · rw [variableUsage_eq, variableUsage_eq, List.filter_append, List.filter_append, filter_unread,
      filter_unread, husage]
  · -- An unread temporary would be reported by the script without calls only.
    intro heq
    refine or_iff_not_imp_right.mpr fun hsome => ?_
    obtain ⟨slot, hslot⟩ := not_forall_not.mp hsome
    have hreported := exists_neverRead_iff hs options hslot
    have hslot' := (unreadTemporary_iff hs hs' h).mp hslot
    rw [heq, exists_neverRead_iff hs' options hslot'] at hreported
    exact (not_iff_not.mp hreported).symm
  · rw [variableUsage_eq, variableUsage_eq]
    rintro (hcalls | hnone)
    · rw [← any_callTarget?_iff, ← any_callTarget?_iff, ← Bool.eq_iff_iff] at hcalls
      rw [hcalls, husage]
    · have hnone' : ∀ slot, ¬UnreadTemporary s'.code slot := fun slot hslot =>
        hnone slot ((unreadTemporary_iff hs hs' h).mpr hslot)
      rw [unread_eq_of_forall_not hs hnone, unread_eq_of_forall_not hs' hnone', husage]

def sleepRecord : List UInt8 := [0x00, 0, 255, 253, 0, 0, 0, 0, 0, 0, 0, 0]

def callRecord : List UInt8 := [0x1C, 0, 255, 254, 0x01, 0x10, 0, 0, 0, 0, 0, 0]

/-- Sets a temporary, copies it into a local that is not declared and
ends. Control does not get to the last instruction. -/
def copyTemporary (last : List UInt8) : Image :=
  ⟨0x1000, "lamp", 0, 0, 3, [0x02, 0, 1, 253, 0, 0, 3, 0, 1, 5, 8, 7,
    0x02, 0, 255, 253, 0, 0, 0, 0, 1, 5, 25, 8] ++ last⟩

theorem variableUsage_eq_iff_of_sameLiveCode_copyTemporary :
    ∃ s s', Script.ofImage (copyTemporary sleepRecord) = .ok s
      ∧ Script.ofImage (copyTemporary callRecord) = .ok s'
      ∧ SameLiveCode s.code s'.code ∧ ¬MakesCalls s.code ∧ MakesCalls s'.code
      ∧ variableUsage Options.default s
        = [⟨1, .slotOutOfRange ⟨.local, 0⟩ 0⟩, ⟨1, .neverRead ⟨.local, 0⟩⟩]
      ∧ variableUsage Options.default s' = variableUsage Options.default s
      ∧ ∀ slot, ¬UnreadTemporary s.code slot := by
  obtain ⟨s, hs⟩ : ∃ s, Script.ofImage (copyTemporary sleepRecord) = .ok s := ⟨_, rfl⟩
  obtain ⟨s', hs'⟩ : ∃ s, Script.ofImage (copyTemporary callRecord) = .ok s := ⟨_, rfl⟩
  have hsame : SameLiveCode s.code s'.code := by
    refine Script.sameLiveCode_of_take (n := 2) hs ?_ ?_ ?_ ?_ <;> cases hs <;> cases hs' <;>
      decide +kernel
  have hcalls : ¬MakesCalls s.code ∧ MakesCalls s'.code := by
    rw [← any_callTarget?_iff, ← any_callTarget?_iff]
    cases hs
    cases hs'
    decide +kernel
  have hpass : variableUsage Options.default s
      = [⟨1, .slotOutOfRange ⟨.local, 0⟩ 0⟩, ⟨1, .neverRead ⟨.local, 0⟩⟩]
      ∧ variableUsage Options.default s' = variableUsage Options.default s := by
    cases hs
    cases hs'
    decide +kernel
  have hcounts : s.image.argCount = s'.image.argCount
      ∧ s.image.localCount = s'.image.localCount := by
    cases hs
    cases hs'
    exact ⟨rfl, rfl⟩
  obtain ⟨-, hiff⟩ := variableUsage_eq_iff_of_sameLiveCode hs hs' hsame hcounts.1 hcounts.2
    Options.default
  refine ⟨s, s', hs, hs', hsame, hcalls.1, hcalls.2, hpass.1, hpass.2, ?_⟩
  exact (hiff.mp hpass.2.symm).resolve_left fun h => hcalls.1 (h.mpr hcalls.2)

/-- Sets a temporary and ends. Control does not get to the last
instruction. -/
def setTemporary (last : List UInt8) : Image :=
  ⟨0x1000, "lamp", 0, 0, 2, [0x02, 0, 255, 253, 0, 0, 3, 0, 1, 5, 8, 7] ++ last⟩

/-- A call that is never made keeps an unread temporary from being
reported. -/
theorem deadCall_hides_unreadTemporary :
    ∃ s s', Script.ofImage (setTemporary sleepRecord) = .ok s
      ∧ Script.ofImage (setTemporary callRecord) = .ok s'
      ∧ SameLiveCode s.code s'.code ∧ s.image.argCount = s'.image.argCount
      ∧ s.image.localCount = s'.image.localCount
      ∧ variableUsage Options.default s = [⟨0, .neverRead ⟨.temporary, 0⟩⟩]
      ∧ variableUsage Options.default s' = [] := by
  obtain ⟨s, hs⟩ : ∃ s, Script.ofImage (setTemporary sleepRecord) = .ok s := ⟨_, rfl⟩
  obtain ⟨s', hs'⟩ : ∃ s, Script.ofImage (setTemporary callRecord) = .ok s := ⟨_, rfl⟩
  have hsame : SameLiveCode s.code s'.code := by
    refine Script.sameLiveCode_of_take (n := 1) hs ?_ ?_ ?_ ?_ <;> cases hs <;> cases hs' <;>
      decide +kernel
  refine ⟨s, s', hs, hs', hsame, ?_⟩
  cases hs
  cases hs'
  decide +kernel

end Lint.VariableUsage

end BehaviorScript
