import BehaviorScript.Proofs.Profile.Degradation
import BehaviorScript.Proofs.Profile.Rules

/-!
# Confidence

A confidence starts with the rule that gave the role (`StartsAt`), and
every deduction from it has a note. `AccountedFrom` says that nothing
else enters: the number is what the deductions leave of the start, and it
is below the start exactly where one of them is noted.

No deduction is lost to the floor at zero, since a confidence starts at
50 at least (`RoleRule.confidence_bounds`).
-/

namespace BehaviorScript

/-! ## Where a confidence starts -/

namespace RoleRule

theorem confidence_bounds {rule : RoleRule} (hrule : rule ∈ table) (p : Profile) :
    50 ≤ rule.confidence p ∧ rule.confidence p ≤ 95 := by
  rcases mem_table_iff.mp hrule with rfl | rfl | rfl | rfl | rfl | rfl
  · by_cases hyield : p.canYield = true <;> simp [lifecycleLoop, hyield]
  · by_cases hcallers : p.callerCount ≤ 1 <;> simp [interactionAction, hcallers]
  · by_cases hguard : p.isGuard = true <;> by_cases hsmall : p.instructionCount ≤ 5 <;>
      simp [availabilityGuard, hguard, hsmall]
  · simp [sharedUtility]
  · simp [callSequence]
  · simp [fallback]

theorem confidence_essence {rule : RoleRule} (hrule : rule ∈ table) (p : Profile) :
    rule.confidence p.essence = rule.confidence p := by
  rcases mem_table_iff.mp hrule with rfl | rfl | rfl | rfl | rfl | rfl <;> rfl

end RoleRule

namespace Profile

variable {p q : Profile}

/-- The confidence before any deduction: that of the first rule that
matches, and 50 where none does. -/
inductive StartsAt (p : Profile) : Nat → Prop where
  | rule {front back : List RoleRule} {rule : RoleRule}
      (htable : RoleRule.all = front ++ rule :: back)
      (hfront : ∀ earlier ∈ front, earlier.isMatch p = false) (hmatch : rule.isMatch p = true) :
      StartsAt p (rule.confidence p)
  | fallback (hnone : ∀ rule ∈ RoleRule.all, rule.isMatch p = false) : StartsAt p 50

theorem startsAt_iff {start : Nat} : p.StartsAt start ↔ start = p.rule.confidence p := by
  constructor
  · rintro (⟨htable, hfront, hmatch⟩ | hnone)
    · have hfound : p.rule? = some _ := List.find?_eq_some_iff_append.mpr
        ⟨hmatch, _, _, htable, fun earlier h => by rw [hfront earlier h]; rfl⟩
      rw [rule, hfound, Option.getD_some]
    · have hfound : p.rule? = none :=
        List.find?_eq_none.mpr fun rule h => Bool.eq_false_iff.mp (hnone rule h)
      rw [rule, hfound, Option.getD_none]
      rfl
  · rintro rfl
    unfold rule
    cases hfound : p.rule? with
    | none =>
        exact .fallback fun rule h => Bool.eq_false_iff.mpr (List.find?_eq_none.mp hfound rule h)
    | some found =>
        obtain ⟨hmatch, front, back, htable, hfront⟩ := List.find?_eq_some_iff_append.mp hfound
        exact .rule htable (fun earlier h => by simpa using hfront earlier h) hmatch

/-! ## What is deducted -/

/-- All deductions together, in hundredths. -/
def deducted (p : Profile) : Nat :=
  (if p.reachability = .hasDeadCode then 10 else 0)
    + (if p.rule.role = .utility ∧ 0 < p.shape.unknownOpcodeCount then 15 else 0)
    + 5 * p.validationErrors

theorem SameEssence.start_eq (h : p.SameEssence q) :
    p.rule.confidence p = q.rule.confidence q := by
  rw [← RoleRule.confidence_essence (rule_mem_table p), h.rule_eq, h,
    RoleRule.confidence_essence (rule_mem_table q)]

theorem foldr_penalty {c : Prop} [Decidable c] (penalty : Penalty) (rest : Nat) :
    (if c then [penalty] else []).foldr (fun penalty total => penalty.hundredths + total) rest
      = (if c then penalty.hundredths else 0) + rest := by
  by_cases hc : c <;> simp [hc]

theorem confidence_eq (p : Profile) : p.confidence = p.rule.confidence p - p.deducted := by
  have herrors : (if 0 < p.validationErrors then 5 * p.validationErrors else 0)
      = 5 * p.validationErrors := by
    split <;> omega
  rw [confidence, penalties, List.foldr_append, List.foldr_append, deadCodePenalty,
    unknownOpcodePenalty, validationPenalty, foldr_penalty, foldr_penalty, foldr_penalty, herrors]
  simp only [deducted, hasDeadCode, usesUnknownOpcode, Bool.and_eq_true, decide_eq_true_eq,
    Nat.add_zero, Nat.add_assoc]

theorem deducted_pos_iff :
    0 < p.deducted ↔ ∃ kind ∈ NoteKind.penalties, NoteKind.applies p kind = true := by
  simp only [NoteKind.penalties, List.mem_cons, List.not_mem_nil, or_false, exists_eq_or_imp,
    exists_eq_left, NoteKind.applies, hasDeadCode, usesUnknownOpcode, Bool.and_eq_true,
    decide_eq_true_eq, deducted]
  split_ifs with hdead hunknown hunknown
  · exact iff_of_true (by omega) (Or.inl hdead)
  · exact iff_of_true (by omega) (Or.inl hdead)
  · exact iff_of_true (by omega) (Or.inr (Or.inl hunknown))
  · simp [hdead, hunknown]

theorem deduction_le {c d : Prop} [Decidable c] [Decidable d] (h : c → d) (n : Nat) :
    (if c then n else 0) ≤ if d then n else 0 := by
  by_cases hc : c
  · simp [hc, h hc]
  · simp [hc]

theorem deducted_le (h : p.SameEssence q) (hmore : p.PenaltiesPersist q) :
    p.deducted ≤ q.deducted := by
  have hunknown : p.rule.role = .utility ∧ 0 < p.shape.unknownOpcodeCount →
      q.rule.role = .utility ∧ 0 < q.shape.unknownOpcodeCount := by
    rw [h.rule_eq]
    exact And.imp_right hmore.unknownOpcodes
  exact Nat.add_le_add
    (Nat.add_le_add (deduction_le hmore.deadCode 10) (deduction_le hunknown 15))
    (Nat.mul_le_mul_left 5 hmore.validationErrors)

/-! ## The account -/

/-- The confidence is what the noted deductions leave of `start`. -/
structure AccountedFrom (p : Profile) (start : Nat) : Prop where
  formula : (p.classify.confidence : Int)
    = max 0 ((start : Int) - 10 * (if p.reachability = .hasDeadCode then 1 else 0)
      - 15 * (if p.classify.role = .utility ∧ 0 < p.shape.unknownOpcodeCount then 1 else 0)
      - 5 * p.validationErrors)
  le : p.classify.confidence ≤ 95
  /-- More of what is deducted for never raises it. -/
  antitone : ∀ q, p.SameEssence q → p.PenaltiesPersist q →
    q.classify.confidence ≤ p.classify.confidence
  below_iff : p.classify.confidence < start ↔
    ∃ kind ∈ NoteKind.penalties, kind.Noted p.classify.notes

theorem confidence_accounted (p : Profile) :
    ∃ start, (∀ c, p.StartsAt c ↔ c = start) ∧ p.AccountedFrom start := by
  have hbounds := RoleRule.confidence_bounds (rule_mem_table p) p
  have hconfidence : p.classify.confidence = p.rule.confidence p - p.deducted := confidence_eq p
  refine ⟨p.rule.confidence p, fun c => startsAt_iff, ?_, ?_, fun q h hmore => ?_, ?_⟩
  · have hrole : p.classify.role = p.rule.role := rfl
    rw [hconfidence, hrole, deducted]
    split_ifs <;> omega
  · omega
  · have hmore' : q.classify.confidence = q.rule.confidence q - q.deducted := confidence_eq q
    have hstart := h.start_eq
    have hdeducted := deducted_le h hmore
    omega
  · have hnoted : (∃ kind ∈ NoteKind.penalties, kind.Noted p.classify.notes) ↔ 0 < p.deducted := by
      rw [deducted_pos_iff]
      exact exists_congr fun kind => and_congr_right fun _ => noted_iff
    rw [hnoted]
    omega

theorem confidence_accounted_helper :
    ∃ start, (∀ c, helper.StartsAt c ↔ c = start) ∧ helper.AccountedFrom start
      ∧ start = 75 ∧ helper.classify.confidence = 60 ∧ wornHelper.classify.confidence = 30
      ∧ wornHelper.classify.confidence ≤ helper.classify.confidence := by
  obtain ⟨start, hstart, haccount⟩ := confidence_accounted helper
  have hworn : wornHelper.classify.confidence ≤ helper.classify.confidence :=
    haccount.antitone wornHelper (by decide) ⟨by decide, by decide, by decide⟩
  exact ⟨start, hstart, haccount, ((hstart 75).mp (startsAt_iff.mpr rfl)).symm, rfl, rfl, hworn⟩

end Profile

end BehaviorScript
