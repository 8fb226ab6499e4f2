import BehaviorScript.Profile.Role
import BehaviorScript.Proofs.Text.Unambiguous

/-!
# The notes of a classification

A classification keeps its notes as texts. `NoteKind` sorts them by what
they are about, and two facts make the sorting exact:

- a profile gets one note of each kind that applies to it and no others
  (`mem_notes_iff`);
- the kind of a note can be read off its text, whatever number stands in
  it (`kind_of_note`).

So whether a list of notes holds one of a kind (`NoteKind.Noted`) says
whether the kind applies (`noted_iff`).
-/

namespace BehaviorScript

/-- What a note is about. -/
inductive NoteKind where
  | noRule
  | deadCode
  | unknownOpcodes
  | validationErrors
  | noYield
  | loopingAction
  | sharedAction
  | yieldingGuard
  | noCaller
  | truncated
deriving DecidableEq, Repr

namespace NoteKind

/-- The kinds that go with a deduction. -/
def penalties : List NoteKind := [.deadCode, .unknownOpcodes, .validationErrors]

def contradictions : List NoteKind :=
  [.noYield, .loopingAction, .sharedAction, .yieldingGuard, .noCaller, .truncated]

/-- In the order in which the notes stand. -/
def all : List NoteKind := .noRule :: (penalties ++ contradictions)

/-- The note of a kind that gives the number `n`; most kinds give none. -/
def note (n : Nat) : NoteKind → String
  | .noRule => "no rule matched; FLOW is a coarse fallback"
  | .deadCode => s!"dead code: {n} unreachable instruction(s) (-0.10)"
  | .unknownOpcodes => s!"utility uses {n} unknown opcode(s) (-0.15)"
  | .validationErrors => s!"{n} validation error(s) (-0.05 each)"
  | .noYield => "lifecycle loop has no yield-capable primitive"
  | .loopingAction => "interaction action contains a loop"
  | .sharedAction => s!"interaction action is also called by {n} scripts"
  | .yieldingGuard => "availability guard can yield"
  | .noCaller => "no caller or hook reaches this script"
  | .truncated => "decoded from a truncated buffer"

/-- One of `notes` is of this kind. -/
def Noted (kind : NoteKind) (notes : List String) : Prop := ∃ n, kind.note n ∈ notes

def applies (p : Profile) : NoteKind → Bool
  | .noRule => p.rule?.isNone
  | .deadCode => p.hasDeadCode
  | .unknownOpcodes => p.rule.role = .utility && p.usesUnknownOpcode
  | .validationErrors => 0 < p.validationErrors
  | .noYield => p.rule.role = .role && !p.canYield
  | .loopingAction => p.isAction && p.hasLoops
  | .sharedAction => p.rule.role = .action && 1 < p.callerCount
  | .yieldingGuard => p.isGuard && p.canYield
  | .noCaller => p.isOrphan
  | .truncated => p.shape.truncated

/-- The number that the note on a profile gives. -/
def number (p : Profile) : NoteKind → Nat
  | .deadCode => p.shape.deadInstructionCount
  | .unknownOpcodes => p.shape.unknownOpcodeCount
  | .validationErrors => p.validationErrors
  | .sharedAction => p.callerCount
  | _ => 0

def notesOn (p : Profile) (kind : NoteKind) : List String :=
  if kind.applies p then [kind.note (kind.number p)] else []

/-! ## The kind of a text -/

/-- What is left of a text without its digits. -/
def wording (text : String) : List Char := text.toList.filter fun c => !c.isDigit

theorem wording_append (front back : String) :
    wording (front ++ back) = wording front ++ wording back := by
  rw [wording, String.toList_append, List.filter_append]
  rfl

theorem wording_toString (n : Nat) : wording (toString n) = [] := by
  refine List.filter_eq_nil_iff.mpr fun c hc => ?_
  simp [Text.isDigit_of_mem_toString hc]

theorem wording_around (front back : String) (m n : Nat) :
    wording (front ++ toString m ++ back) = wording (front ++ toString n ++ back) := by
  simp only [wording_append, wording_toString]

theorem wording_note (kind : NoteKind) (m n : Nat) :
    wording (kind.note m) = wording (kind.note n) := by
  cases kind with
  | deadCode => exact wording_around "dead code: " " unreachable instruction(s) (-0.10)" m n
  | unknownOpcodes => exact wording_around "utility uses " " unknown opcode(s) (-0.15)" m n
  | validationErrors => exact wording_around "" " validation error(s) (-0.05 each)" m n
  | sharedAction => exact wording_around "interaction action is also called by " " scripts" m n
  | noRule | noYield | loopingAction | yieldingGuard | noCaller | truncated => rfl

theorem mem_all (kind : NoteKind) : kind ∈ all := by
  cases kind <;> decide

/-- Notes of two kinds differ in more than their numbers. -/
theorem kind_of_note {kind kind' : NoteKind} {m n : Nat} (h : kind.note m = kind'.note n) :
    kind = kind' := by
  have hnodup : (all.map fun kind => wording (kind.note 0)).Nodup := by decide +kernel
  have hwording : wording (kind.note 0) = wording (kind'.note 0) := by
    rw [wording_note kind 0 m, h, wording_note kind' n 0]
  exact List.inj_on_of_nodup_map hnodup (mem_all kind) (mem_all kind') hwording

end NoteKind

/-! ## The notes of a profile -/

namespace Profile

variable {p : Profile}

theorem map_note_penalties (p : Profile) :
    p.penalties.map Penalty.note = NoteKind.penalties.flatMap (NoteKind.notesOn p) := by
  have hdead : p.deadCodePenalty.map Penalty.note = NoteKind.notesOn p .deadCode :=
    apply_ite ..
  have hunknown : p.unknownOpcodePenalty.map Penalty.note = NoteKind.notesOn p .unknownOpcodes :=
    apply_ite ..
  have hvalidation : p.validationPenalty.map Penalty.note
      = NoteKind.notesOn p .validationErrors := by
    rw [validationPenalty, apply_ite (List.map Penalty.note)]
    exact if_congr decide_eq_true_iff.symm rfl rfl
  simp only [penalties, List.map_append, hdead, hunknown, hvalidation, NoteKind.penalties,
    List.flatMap_cons, List.flatMap_nil, List.append_nil, List.append_assoc]

theorem contradictions_eq (p : Profile) :
    p.contradictions = NoteKind.contradictions.flatMap (NoteKind.notesOn p) := by
  simp only [contradictions, NoteKind.contradictions, List.flatMap_cons, List.flatMap_nil,
    List.append_nil, List.append_assoc]
  rfl

/-- One note for each kind that applies. -/
theorem notes_classify (p : Profile) :
    p.classify.notes = NoteKind.all.flatMap (NoteKind.notesOn p) := by
  rw [NoteKind.all, List.flatMap_cons, List.flatMap_append, ← map_note_penalties,
    ← contradictions_eq, ← List.append_assoc]
  rfl

theorem mem_notes_iff {note : String} :
    note ∈ p.classify.notes ↔
      ∃ kind, NoteKind.applies p kind = true ∧ note = kind.note (kind.number p) := by
  rw [notes_classify, List.mem_flatMap]
  constructor
  · rintro ⟨kind, -, hnote⟩
    obtain ⟨happlies, hmem⟩ := List.mem_ite_nil_right.mp hnote
    exact ⟨kind, happlies, List.mem_singleton.mp hmem⟩
  · rintro ⟨kind, happlies, hnote⟩
    exact ⟨kind, kind.mem_all, List.mem_ite_nil_right.mpr ⟨happlies, List.mem_singleton.mpr hnote⟩⟩

theorem noted_iff {kind : NoteKind} :
    kind.Noted p.classify.notes ↔ kind.applies p = true := by
  constructor
  · rintro ⟨n, hn⟩
    obtain ⟨kind', happlies, hnote⟩ := mem_notes_iff.mp hn
    exact NoteKind.kind_of_note hnote ▸ happlies
  · intro happlies
    exact ⟨_, mem_notes_iff.mpr ⟨kind, happlies, rfl⟩⟩

end Profile

end BehaviorScript
