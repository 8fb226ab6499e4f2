import BehaviorScript.Proofs.Profile.Notes

/-!
# Degraded input

Code that is dead, unknown or cut short makes a profile less reliable.
It must not make the script another kind of script. `essence` blots out
everything in a profile that speaks of such damage, or that no rule looks
at. The rule that is found and the facts that are listed are those of the
essence (`SameEssence.rule?_eq`, `SameEssence.supportingFacts_eq`), so
profiles with one essence have one role.

The notes do depend on the damage, but in one direction only: what was
noted stays noted when the input gets worse (`applies_of_degradesTo`).
-/

namespace BehaviorScript

namespace Profile

variable {p q : Profile}

/-- The profile with its damage, and all that has no part in finding a
role, put to fixed values. -/
def essence (p : Profile) : Profile where
  identity := { p.identity with owner := "", scope := .global }
  shape :=
    { p.shape with
      declaredInstructionCount := 0
      argCount := 0
      localCount := 0
      unknownOpcodeCount := 0
      deadInstructionCount := 0
      truncated := false }
  dynamics := { p.dynamics with observedYield := false, yieldSites := [], maxIterations := none }
  relationships := { p.relationships with graphStatus := none }
  reachability := .fullyReachable
  validationErrors := 0

/-- The profiles differ in nothing but what `essence` blots out. -/
def SameEssence (p q : Profile) : Prop := p.essence = q.essence

instance (p q : Profile) : Decidable (p.SameEssence q) := inferInstanceAs (Decidable (_ = _))

/-- What is deducted for `p` is deducted for `q` too, and no less of it. -/
structure PenaltiesPersist (p q : Profile) : Prop where
  deadCode : p.reachability = .hasDeadCode → q.reachability = .hasDeadCode
  unknownOpcodes : 0 < p.shape.unknownOpcodeCount → 0 < q.shape.unknownOpcodeCount
  validationErrors : p.validationErrors ≤ q.validationErrors

/-- `q` is degraded at least as much as `p`, in every respect. -/
structure DegradesTo (p q : Profile) : Prop extends PenaltiesPersist p q where
  truncated : p.shape.truncated = true → q.shape.truncated = true
  orphan : p.relationships.graphStatus = some .orphan → q.relationships.graphStatus = some .orphan

/-! ## What the essence decides -/

namespace SameEssence

/-- What the essence keeps of a profile is the same in both. -/
theorem kept {α : Type} {fact : Profile → α} (hkept : ∀ p : Profile, fact p.essence = fact p)
    (h : p.SameEssence q) : fact p = fact q := by
  rw [← hkept p, h, hkept q]

theorem rule?_eq (h : p.SameEssence q) : p.rule? = q.rule? := h.kept fun _ => rfl

theorem rule_eq (h : p.SameEssence q) : p.rule = q.rule := h.kept fun _ => rfl

theorem supportingFacts_eq (h : p.SameEssence q) : p.supportingFacts = q.supportingFacts :=
  h.kept fun _ => rfl

theorem canYield_eq (h : p.SameEssence q) : p.canYield = q.canYield := h.kept fun _ => rfl

theorem hasLoops_eq (h : p.SameEssence q) : p.hasLoops = q.hasLoops := h.kept fun _ => rfl

theorem isAction_eq (h : p.SameEssence q) : p.isAction = q.isAction := h.kept fun _ => rfl

theorem isGuard_eq (h : p.SameEssence q) : p.isGuard = q.isGuard := h.kept fun _ => rfl

theorem callerCount_eq (h : p.SameEssence q) : p.callerCount = q.callerCount :=
  h.kept fun _ => rfl

end SameEssence

/-! ## Notes under degradation -/

theorem applies_of_degradesTo (h : p.SameEssence q) (hworse : p.DegradesTo q) {kind : NoteKind}
    (happlies : kind.applies p = true) : kind.applies q = true := by
  cases kind with
  | noRule => simpa only [NoteKind.applies, h.rule?_eq] using happlies
  | deadCode => exact decide_eq_true (hworse.deadCode (of_decide_eq_true happlies))
  | unknownOpcodes =>
      simp only [NoteKind.applies, h.rule_eq, usesUnknownOpcode, Bool.and_eq_true,
        decide_eq_true_eq] at happlies ⊢
      exact ⟨happlies.1, hworse.unknownOpcodes happlies.2⟩
  | validationErrors =>
      exact decide_eq_true (Nat.lt_of_lt_of_le (of_decide_eq_true happlies) hworse.validationErrors)
  | noYield => simpa only [NoteKind.applies, h.rule_eq, h.canYield_eq] using happlies
  | loopingAction => simpa only [NoteKind.applies, h.isAction_eq, h.hasLoops_eq] using happlies
  | sharedAction => simpa only [NoteKind.applies, h.rule_eq, h.callerCount_eq] using happlies
  | yieldingGuard => simpa only [NoteKind.applies, h.isGuard_eq, h.canYield_eq] using happlies
  | noCaller => exact decide_eq_true (hworse.orphan (of_decide_eq_true happlies))
  | truncated => exact hworse.truncated happlies

/-- Degradation changes neither the role nor what speaks for it, and
takes no note away. -/
theorem classify_of_sameEssence (h : p.SameEssence q) :
    q.classify.role = p.classify.role
      ∧ q.classify.matchedRule = p.classify.matchedRule
      ∧ q.classify.lowConfidence = p.classify.lowConfidence
      ∧ q.classify.evidence = p.classify.evidence
      ∧ (p.DegradesTo q → ∀ kind : NoteKind,
        kind.Noted p.classify.notes → kind.Noted q.classify.notes) := by
  refine ⟨?_, ?_, ?_, h.supportingFacts_eq.symm, fun hworse kind hnoted => ?_⟩
  · rw [classify, classify, h.rule_eq]
  · rw [classify, classify, h.rule_eq]
  · rw [classify, classify, h.rule?_eq]
  · exact noted_iff.mpr (applies_of_degradesTo h hworse (noted_iff.mp hnoted))

/-- A helper with an opcode that is not known. -/
def helper : Profile where
  identity := ⟨0x1000, "lamp", .local⟩
  shape := ⟨9, 9, 0, 0, 1, false, 0, false⟩
  dynamics := ⟨false, false, false, [], none⟩
  relationships := ⟨6, 2, none, none, false, some .utility⟩
  reachability := .fullyReachable
  validationErrors := 0

/-- The same helper, cut short and with dead code, in a corpus that lacks
its callers. -/
def wornHelper : Profile :=
  { helper with
    shape := ⟨9, 12, 0, 0, 2, false, 3, true⟩
    relationships := { helper.relationships with graphStatus := some .orphan }
    reachability := .hasDeadCode
    validationErrors := 4 }

theorem classify_of_sameEssence_helper :
    helper.SameEssence wornHelper ∧ helper.DegradesTo wornHelper
      ∧ wornHelper.classify.role = helper.classify.role
      ∧ wornHelper.classify.matchedRule = helper.classify.matchedRule
      ∧ wornHelper.classify.lowConfidence = helper.classify.lowConfidence
      ∧ wornHelper.classify.evidence = helper.classify.evidence
      ∧ (∀ kind : NoteKind,
        kind.Noted helper.classify.notes → kind.Noted wornHelper.classify.notes)
      ∧ helper.classify.role = .utility
      ∧ helper.classify.notes.length = 1 ∧ wornHelper.classify.notes.length = 5 := by
  have hsame : helper.SameEssence wornHelper := by decide
  have hworse : helper.DegradesTo wornHelper :=
    { deadCode := by decide
      unknownOpcodes := by decide
      validationErrors := by decide
      truncated := by decide
      orphan := by decide }
  obtain ⟨hrole, hrule, hlow, hevidence, hnotes⟩ := classify_of_sameEssence hsame
  exact ⟨hsame, hworse, hrole, hrule, hlow, hevidence, hnotes hworse, rfl, rfl, rfl⟩

end Profile

end BehaviorScript
