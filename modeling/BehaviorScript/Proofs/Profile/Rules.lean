import BehaviorScript.Profile.Role
import Mathlib.Data.List.Nodup

/-!
# What a role says of a profile

The role of a profile is that of the first rule that matches, and the
rules look at many facts each. What a reader of the role can rely on is
less: `Role.Presumes` lists it, role by role, and `presumes_role_rule` says
that it holds of every profile. Whether a hook runs the script then
rules roles out in both directions (`role_ne_utility_of_isEntryPoint`,
`role_of_not_isEntryPoint`).
-/

namespace BehaviorScript

namespace RoleRule

/-- The rules and the assumption that stands in for a rule. -/
def table : List RoleRule := all ++ [fallback]

theorem mem_table_iff {rule : RoleRule} :
    rule ∈ table ↔ rule = lifecycleLoop ∨ rule = interactionAction ∨ rule = availabilityGuard
      ∨ rule = sharedUtility ∨ rule = callSequence ∨ rule = fallback := by
  simp only [table, all, List.cons_append, List.nil_append, List.mem_cons, List.not_mem_nil,
    or_false]

theorem eq_of_name_eq {rule other : RoleRule} (hrule : rule ∈ table) (hother : other ∈ table)
    (h : rule.name = other.name) : rule = other := by
  have hnodup : (table.map name).Nodup := by decide
  exact List.inj_on_of_nodup_map hnodup hrule hother h

end RoleRule

/-- What a role tells of the profile that has it. -/
def Role.Presumes (p : Profile) : Role → Prop
  | .role => p.isLifecycleEntry = true
  | .action => p.isAction = true
  | .guard => p.isGuard = true ∨ 3 ≤ p.callerCount
  | .utility => p.isEntryPoint = false ∧ 5 ≤ p.callerCount
  | .flow => True
  | .unknown => False

theorem RoleRule.presumes_of_isMatch {p : Profile} {rule : RoleRule} (hrule : rule ∈ table)
    (hmatch : rule.isMatch p = true) : rule.role.Presumes p := by
  rcases mem_table_iff.mp hrule with rfl | rfl | rfl | rfl | rfl | rfl
  · simp only [lifecycleLoop, Bool.and_eq_true] at hmatch
    exact hmatch.1
  · simp only [interactionAction, Bool.and_eq_true] at hmatch
    exact hmatch.1
  · simp only [availabilityGuard, Bool.or_eq_true, Bool.and_eq_true, decide_eq_true_eq] at hmatch
    exact hmatch.imp_right fun h => h.1.1.2
  · simp only [sharedUtility, Bool.and_eq_true, Bool.not_eq_true', decide_eq_true_eq] at hmatch
    exact hmatch.1.1
  · exact trivial
  · exact trivial

namespace Profile

variable {p : Profile}

/-! ## The rule that gave the role -/

theorem rule_mem_table (p : Profile) : p.rule ∈ RoleRule.table := by
  unfold rule
  cases hfind : p.rule? with
  | none => exact List.mem_append_right _ (List.mem_singleton.mpr rfl)
  | some found => exact List.mem_append_left _ (List.mem_of_find?_eq_some hfind)

theorem isMatch_rule (p : Profile) : p.rule.isMatch p = true := by
  unfold rule
  cases hfind : p.rule? with
  | none => rfl
  | some found => simpa using List.find?_some hfind

theorem isMatch_of_matchedRule {rule : RoleRule} (hrule : rule ∈ RoleRule.table)
    (h : p.classify.matchedRule = rule.name) : rule.isMatch p = true := by
  obtain rfl : p.rule = rule := RoleRule.eq_of_name_eq (rule_mem_table p) hrule h
  exact isMatch_rule p

theorem presumes_role_rule (p : Profile) : p.rule.role.Presumes p :=
  RoleRule.presumes_of_isMatch (rule_mem_table p) (isMatch_rule p)

/-! ## Roles and entry points -/

theorem isEntryPoint_of_isLifecycleEntry (h : p.isLifecycleEntry = true) :
    p.isEntryPoint = true := by
  have hhook : p.relationships.lifecycleHook.isSome = true := h
  simp [isEntryPoint, Relationships.isEntryPoint, hhook]

theorem isEntryPoint_of_isAction (h : p.isAction = true) : p.isEntryPoint = true := by
  have hinteraction : p.relationships.interaction = some .action := of_decide_eq_true h
  simp [isEntryPoint, Relationships.isEntryPoint, hinteraction]

theorem isEntryPoint_of_isGuard (h : p.isGuard = true) : p.isEntryPoint = true := by
  have hguard : p.relationships.isGuard = true := h
  simp [isEntryPoint, Relationships.isEntryPoint, hguard]

theorem role_ne_utility_of_isEntryPoint (h : p.isEntryPoint = true) :
    p.classify.role ≠ .utility := by
  intro hrole
  have hpresumes : Role.utility.Presumes p := hrole ▸ presumes_role_rule p
  exact Bool.eq_false_iff.mp hpresumes.1 h

theorem not_callSequence_of_isEntryPoint (h : p.isEntryPoint = true) :
    RoleRule.callSequence.isMatch p = false := by
  simp [RoleRule.callSequence, h]

theorem matchedRule_ne_callSequence_of_isEntryPoint (h : p.isEntryPoint = true) :
    p.classify.matchedRule ≠ RoleRule.callSequence.name := by
  intro hname
  have hmem : RoleRule.callSequence ∈ RoleRule.table := by simp [RoleRule.mem_table_iff]
  exact Bool.eq_false_iff.mp (not_callSequence_of_isEntryPoint h)
    (isMatch_of_matchedRule hmem hname)

/-- Without a hook, a script that is not taken for part of the flow has
callers that speak for it. -/
theorem role_of_not_isEntryPoint (h : p.isEntryPoint = false) :
    p.classify.role ≠ .role ∧ p.classify.role ≠ .action
      ∧ (p.classify.role = .flow ∨ 3 ≤ p.callerCount) := by
  have hnot : p.isEntryPoint ≠ true := Bool.eq_false_iff.mp h
  have hpresumes : p.classify.role.Presumes p := presumes_role_rule p
  generalize p.classify.role = assigned at hpresumes ⊢
  cases assigned with
  | role => exact absurd (isEntryPoint_of_isLifecycleEntry hpresumes) hnot
  | action => exact absurd (isEntryPoint_of_isAction hpresumes) hnot
  | guard =>
      have hcallers := hpresumes.resolve_left fun hguard => hnot (isEntryPoint_of_isGuard hguard)
      exact ⟨by decide, by decide, Or.inr hcallers⟩
  | utility => exact ⟨by decide, by decide, Or.inr (Nat.le_trans (by decide) hpresumes.2)⟩
  | flow => exact ⟨by decide, by decide, Or.inl rfl⟩
  | unknown => exact hpresumes.elim

end Profile

end BehaviorScript
