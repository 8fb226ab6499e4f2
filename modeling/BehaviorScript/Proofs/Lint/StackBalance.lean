import BehaviorScript.Lint.StackBalance
import BehaviorScript.Proofs.Flow.Exploration
import BehaviorScript.Proofs.Flow.Path
import Mathlib.Data.List.Nodup

/-!
# Stack depths along paths

The pass visits each instruction once, with one depth, while control may
come by on any number of paths. This file relates the two:

- each visit lies at the end of a path with that net effect
  (`path_of_visit`), and each reachable instruction is visited
  (`visited_of_path`);
- a finding is a fact about one visit (`underflow_mem_iff`,
  `tooDeep_mem_iff`) or about an arrival that disagrees with one
  (`mismatch_of_arrival`);
- without a mismatch every arrival agrees with the visit, and by induction
  along the path so does the effect of every path (`mem_visits_of_path`).

`depth_of_every_path` is the result: where the pass reports no mismatch,
the depths it reports on are those of all executions.
-/

namespace BehaviorScript.Lint

open BehaviorScript.Flow

namespace StackBalance

variable {code : List Instruction} {limit : Int}

/-- Net effect of the instruction at an index; none behind the end. -/
def effectAt (code : List Instruction) (a : Nat) : Int :=
  ((code[a]?).map Instruction.stackEffect).getD 0

/-- Net effect of running instructions in sequence. -/
def netEffect (code : List Instruction) : List Nat → Int
  | [] => 0
  | a :: rest => effectAt code a + netEffect code rest

theorem effectAt_of_getElem? {a : Nat} {i : Instruction} (hi : code[a]? = some i) :
    effectAt code a = i.stackEffect := by
  rw [effectAt, hi, Option.map_some, Option.getD_some]

theorem netEffect_concat (before : List Nat) (a : Nat) :
    netEffect code (before ++ [a]) = netEffect code before + effectAt code a := by
  induction before with
  | nil => simp [netEffect]
  | cons b rest ih => rw [List.cons_append, netEffect, netEffect, ih, Int.add_assoc]

/-! ## Visits -/

theorem arrival_iff {a b : Nat} {d e : Int} :
    Explore.Arrival (arrivals code) (a, d) (b, e) ↔
      Step code a b ∧ e = d + effectAt code a := by
  unfold Explore.Arrival arrivals
  cases hi : code[a]? with
  | none => simp [step_iff_successor, hi]
  | some i =>
      simp only [List.mem_map, Prod.mk.injEq, step_iff_successor, hi, Option.some.injEq,
        exists_eq_left', effectAt_of_getElem? hi]
      constructor
      · rintro ⟨next, hnext, rfl, rfl⟩
        exact ⟨hnext, rfl⟩
      · rintro ⟨hb, rfl⟩
        exact ⟨b, hb, rfl, rfl⟩

theorem nodup_visits (code : List Instruction) : ((visits code).map Prod.fst).Nodup :=
  nodup_explore List.nodup_range

theorem visit_unique {a : Nat} {d e : Int} (hd : (a, d) ∈ visits code)
    (he : (a, e) ∈ visits code) : d = e :=
  congrArg Prod.snd (List.inj_on_of_nodup_map (nodup_visits code) hd he rfl)

theorem lt_of_visit {a : Nat} {d : Int} (h : (a, d) ∈ visits code) : a < code.length :=
  List.mem_range.mp (mem_nodes_of_mem_explore h)

theorem first_visit (hpos : 0 < code.length) : (0, 0) ∈ visits code :=
  start_mem_explore (List.mem_range.mpr hpos)

theorem visited_of_step {a b : Nat} {d : Int} (ha : (a, d) ∈ visits code)
    (hstep : Step code a b) : ∃ e, (b, e) ∈ visits code :=
  explore_closed ha (arrival_iff.mpr ⟨hstep, rfl⟩) (List.mem_range.mpr hstep.target_lt)

theorem path_of_arrives {x : Nat × Int}
    (h : Relation.ReflTransGen (Explore.Arrival (arrivals code)) (0, 0) x) :
    ∃ before, Path code before x.1 ∧ netEffect code before = x.2 := by
  induction h with
  | refl => exact ⟨[], Path.start, rfl⟩
  | @tail y z _ harrival ih =>
      obtain ⟨before, hpath, heffect⟩ := ih
      obtain ⟨hstep, hdepth⟩ := arrival_iff.mp harrival
      refine ⟨before ++ [y.1], hpath.step hstep, ?_⟩
      rw [netEffect_concat, heffect, hdepth]

/-- A visit stands for a path: its depth is what the instructions on the
way have left behind. -/
theorem path_of_visit {a : Nat} {d : Int} (h : (a, d) ∈ visits code) :
    ∃ before, Path code before a ∧ netEffect code before = d :=
  path_of_arrives (arrives_of_mem_explore h)

theorem reachable_of_visit {x : Nat × Int} (hx : x ∈ visits code) : Reachable code x.1 := by
  obtain ⟨before, hpath, -⟩ := path_of_visit hx
  exact ⟨before, hpath⟩

theorem visited_of_path {before : List Nat} {a : Nat} (hpath : Path code before a)
    (ha : a < code.length) : ∃ d, (a, d) ∈ visits code := by
  induction hpath with
  | start => exact ⟨0, first_visit ha⟩
  | @step before a b _ hstep ih =>
      obtain ⟨d, hd⟩ := ih hstep.source_lt
      exact visited_of_step hd hstep

/-! ## Findings -/

theorem mem_depthFindings_iff {f : Finding} {a : Nat} {d : Int} :
    f ∈ depthFindings code limit (a, d) ↔ ∃ i, code[a]? = some i
      ∧ (d + i.stackEffect < 0 ∧ f = ⟨a, .underflow i d⟩
        ∨ limit < d + i.stackEffect ∧ f = ⟨a, .tooDeep (d + i.stackEffect) limit⟩) := by
  unfold depthFindings
  cases hi : code[a]? with
  | none => simp
  | some i =>
      simp only [Option.some.injEq, exists_eq_left', List.mem_append, List.mem_ite_nil_right,
        List.mem_singleton]

/-- Everything that is arrived at in the course of the visits. -/
def arrived (code : List Instruction) : List (Nat × Int) :=
  (visits code).flatMap fun visit => arrivals code visit.1 visit.2

theorem mem_arrived_iff {b : Nat} {e : Int} :
    (b, e) ∈ arrived code ↔
      ∃ a d, (a, d) ∈ visits code ∧ Step code a b ∧ e = d + effectAt code a := by
  simp only [arrived, List.mem_flatMap]
  constructor
  · rintro ⟨⟨a, d⟩, hvisit, harrival⟩
    exact ⟨a, d, hvisit, arrival_iff.mp harrival⟩
  · rintro ⟨a, d, hvisit, harrival⟩
    exact ⟨(a, d), hvisit, arrival_iff.mpr harrival⟩

theorem mem_stackBalance_iff {f : Finding} :
    f ∈ stackBalance limit code ↔ ∃ visit ∈ visits code,
      f ∈ depthFindings code limit visit ∨ mismatch? (arrived code) visit = some f := by
  have hpass : stackBalance limit code = (visits code).flatMap (depthFindings code limit)
      ++ (visits code).filterMap (mismatch? (arrived code)) := rfl
  simp only [hpass, List.mem_append, List.mem_flatMap, List.mem_filterMap]
  constructor
  · rintro (⟨visit, hvisit, hf⟩ | ⟨visit, hvisit, hf⟩)
    · exact ⟨visit, hvisit, Or.inl hf⟩
    · exact ⟨visit, hvisit, Or.inr hf⟩
  · rintro ⟨visit, hvisit, hf | hf⟩
    · exact Or.inl ⟨visit, hvisit, hf⟩
    · exact Or.inr ⟨visit, hvisit, hf⟩

theorem mismatch?_eq_some {table : List (Nat × Int)} {a : Nat} {d : Int} {f : Finding}
    (h : mismatch? table (a, d) = some f) :
    ∃ e, (a, e) ∈ table ∧ e ≠ d ∧ f = ⟨a, .depthMismatch d e⟩ := by
  unfold mismatch? at h
  split at h
  · next x hfind =>
    obtain ⟨b, e⟩ := x
    have hmem := List.mem_of_find?_eq_some hfind
    have htest := List.find?_some hfind
    simp only [ne_eq, decide_not, Bool.and_eq_true, decide_eq_true_eq,
      Bool.not_eq_eq_eq_not, Bool.not_true, decide_eq_false_iff_not] at htest
    obtain ⟨rfl, hne⟩ := htest
    exact ⟨e, hmem, hne, (Option.some.inj h).symm⟩
  · cases h

/-- An arrival that disagrees with the visit is reported, or an earlier
one is. -/
theorem mismatch_of_arrival (limit : Int) {a : Nat} {d e : Int} (hvisit : (a, d) ∈ visits code)
    (harrived : (a, e) ∈ arrived code) (hne : e ≠ d) :
    ∃ other, ⟨a, .depthMismatch d other⟩ ∈ stackBalance limit code := by
  have hsome : ((arrived code).find? fun x => x.1 = a && x.2 ≠ d).isSome := by
    rw [List.find?_isSome]
    exact ⟨(a, e), harrived, by simp [hne]⟩
  obtain ⟨x, hx⟩ := Option.isSome_iff_exists.mp hsome
  refine ⟨x.2, mem_stackBalance_iff.mpr ⟨(a, d), hvisit, Or.inr ?_⟩⟩
  unfold mismatch?
  rw [hx]

theorem underflow_mem_iff {a : Nat} {i : Instruction} {d : Int} :
    ⟨a, .underflow i d⟩ ∈ stackBalance limit code ↔
      code[a]? = some i ∧ (a, d) ∈ visits code ∧ d + i.stackEffect < 0 := by
  rw [mem_stackBalance_iff]
  constructor
  · rintro ⟨⟨b, e⟩, hvisit, hf | hf⟩
    · obtain ⟨j, hj, ⟨hneg, heq⟩ | ⟨-, heq⟩⟩ := mem_depthFindings_iff.mp hf
      · simp only [Finding.mk.injEq, Defect.underflow.injEq] at heq
        obtain ⟨rfl, rfl, rfl⟩ := heq
        exact ⟨hj, hvisit, hneg⟩
      · simp at heq
    · obtain ⟨_, -, -, heq⟩ := mismatch?_eq_some hf
      simp at heq
  · rintro ⟨hi, hvisit, hneg⟩
    exact ⟨(a, d), hvisit, Or.inl (mem_depthFindings_iff.mpr ⟨i, hi, Or.inl ⟨hneg, rfl⟩⟩)⟩

theorem tooDeep_mem_iff {a : Nat} {after bound : Int} :
    ⟨a, .tooDeep after bound⟩ ∈ stackBalance limit code ↔ bound = limit ∧ limit < after
      ∧ ∃ d, (a, d) ∈ visits code ∧ after = d + effectAt code a := by
  rw [mem_stackBalance_iff]
  constructor
  · rintro ⟨⟨b, e⟩, hvisit, hf | hf⟩
    · obtain ⟨j, hj, ⟨-, heq⟩ | ⟨hdeep, heq⟩⟩ := mem_depthFindings_iff.mp hf
      · simp at heq
      · simp only [Finding.mk.injEq, Defect.tooDeep.injEq] at heq
        obtain ⟨rfl, rfl, rfl⟩ := heq
        exact ⟨rfl, hdeep, e, hvisit, by rw [effectAt_of_getElem? hj]⟩
    · obtain ⟨_, -, -, heq⟩ := mismatch?_eq_some hf
      simp at heq
  · rintro ⟨rfl, hdeep, d, hvisit, rfl⟩
    have hi := List.getElem?_eq_getElem (lt_of_visit hvisit)
    rw [effectAt_of_getElem? hi] at hdeep ⊢
    exact ⟨(a, d), hvisit, Or.inl (mem_depthFindings_iff.mpr ⟨_, hi, Or.inr ⟨hdeep, rfl⟩⟩)⟩

/-! ## No mismatch -/

/-- No two ways to an instruction were seen to differ in depth. -/
def NoMismatch (findings : List Finding) : Prop :=
  ∀ f ∈ findings, ∀ seen other, f.defect ≠ .depthMismatch seen other

/-- Without a mismatch a step carries the visited depth on: the arrival
that it causes is the visit of its target. -/
theorem visit_step (hno : NoMismatch (stackBalance limit code)) {a b : Nat} {d : Int}
    (ha : (a, d) ∈ visits code) (hstep : Step code a b) :
    (b, d + effectAt code a) ∈ visits code := by
  obtain ⟨e, he⟩ := visited_of_step ha hstep
  by_cases heq : d + effectAt code a = e
  · rwa [heq]
  · have harrived : (b, d + effectAt code a) ∈ arrived code :=
      mem_arrived_iff.mpr ⟨a, d, ha, hstep, rfl⟩
    obtain ⟨other, hmem⟩ := mismatch_of_arrival limit he harrived heq
    exact absurd rfl (hno _ hmem e other)

theorem mem_visits_of_path (hno : NoMismatch (stackBalance limit code)) {before : List Nat}
    {a : Nat} (hpath : Path code before a) (ha : a < code.length) :
    (a, netEffect code before) ∈ visits code := by
  induction hpath with
  | start => exact first_visit ha
  | @step before a b _ hstep ih =>
      rw [netEffect_concat]
      exact visit_step hno (ih hstep.source_lt) hstep

/-- The depth that an instruction is visited with. -/
def depthAt (code : List Instruction) (a : Nat) : Int :=
  (((visits code).find? fun visit => visit.1 = a).map Prod.snd).getD 0

theorem depthAt_of_visit {a : Nat} {d : Int} (h : (a, d) ∈ visits code) : depthAt code a = d := by
  have hsome : ((visits code).find? fun visit => visit.1 = a).isSome := by
    rw [List.find?_isSome]
    exact ⟨(a, d), h, by simp⟩
  obtain ⟨x, hx⟩ := Option.isSome_iff_exists.mp hsome
  have hfst : x.1 = a := by simpa using List.find?_some hx
  rw [depthAt, hx, Option.map_some, Option.getD_some]
  exact visit_unique (hfst ▸ List.mem_of_find?_eq_some hx) h

theorem visit_depthAt {a : Nat} (h : Reachable code a) (ha : a < code.length) :
    (a, depthAt code a) ∈ visits code := by
  obtain ⟨before, hpath⟩ := h
  obtain ⟨d, hd⟩ := visited_of_path hpath ha
  rwa [depthAt_of_visit hd]

theorem netEffect_of_path (hno : NoMismatch (stackBalance limit code)) {before : List Nat}
    {a : Nat} (hpath : Path code before a) : netEffect code before = depthAt code a := by
  by_cases ha : a < code.length
  · exact (depthAt_of_visit (mem_visits_of_path hno hpath ha)).symm
  · -- behind the end there is only the empty path of an empty script
    cases hpath with
    | start =>
        have hempty : code = [] := List.eq_nil_of_length_eq_zero (by omega)
        subst hempty
        rfl
    | step _ hstep => exact absurd hstep.target_lt ha

theorem underflow_reported_iff (limit : Int) {a : Nat} {i : Instruction} (hi : code[a]? = some i) :
    (∃ j seen, ⟨a, .underflow j seen⟩ ∈ stackBalance limit code) ↔
      Reachable code a ∧ depthAt code a + i.stackEffect < 0 := by
  constructor
  · rintro ⟨j, seen, hmem⟩
    obtain ⟨hj, hvisit, hneg⟩ := underflow_mem_iff.mp hmem
    obtain rfl := Option.some.inj (hi.symm.trans hj)
    obtain ⟨before, hpath, -⟩ := path_of_visit hvisit
    rw [depthAt_of_visit hvisit]
    exact ⟨⟨before, hpath⟩, hneg⟩
  · rintro ⟨hreach, hneg⟩
    have hvisit := visit_depthAt hreach (List.getElem?_eq_some_iff.mp hi).1
    exact ⟨i, _, underflow_mem_iff.mpr ⟨hi, hvisit, hneg⟩⟩

theorem tooDeep_reported_iff (limit : Int) {a : Nat} {i : Instruction} (hi : code[a]? = some i) :
    (∃ after bound, ⟨a, .tooDeep after bound⟩ ∈ stackBalance limit code) ↔
      Reachable code a ∧ limit < depthAt code a + i.stackEffect := by
  rw [← effectAt_of_getElem? hi]
  constructor
  · rintro ⟨after, bound, hmem⟩
    obtain ⟨-, hdeep, d, hvisit, rfl⟩ := tooDeep_mem_iff.mp hmem
    obtain ⟨before, hpath, -⟩ := path_of_visit hvisit
    rw [depthAt_of_visit hvisit]
    exact ⟨⟨before, hpath⟩, hdeep⟩
  · rintro ⟨hreach, hdeep⟩
    have hvisit := visit_depthAt hreach (List.getElem?_eq_some_iff.mp hi).1
    exact ⟨_, _, tooDeep_mem_iff.mpr ⟨rfl, hdeep, _, hvisit, rfl⟩⟩

/-- Besides a mismatch there are two kinds of findings, and their severity
tells them apart. -/
theorem finding_cases (hno : NoMismatch (stackBalance limit code)) {f : Finding}
    (hf : f ∈ stackBalance limit code) :
    (f.severity = .error ∧ ∃ i seen, f.defect = .underflow i seen)
      ∨ (f.severity = .warning ∧ ∃ after, f.defect = .tooDeep after limit) := by
  obtain ⟨⟨a, d⟩, -, hdepth | hmismatch⟩ := mem_stackBalance_iff.mp hf
  · obtain ⟨i, -, ⟨-, rfl⟩ | ⟨-, rfl⟩⟩ := mem_depthFindings_iff.mp hdepth
    · exact Or.inl ⟨rfl, i, d, rfl⟩
    · exact Or.inr ⟨rfl, _, rfl⟩
  · obtain ⟨e, -, -, rfl⟩ := mismatch?_eq_some hmismatch
    exact absurd rfl (hno _ hf d e)

/-- **The pass is sound**: where it reports no mismatch, all paths to an
instruction leave the stack at one depth, and underflows and depths above
the limit are reported exactly where this depth gives rise to them, the
former as errors, the latter as warnings. With no finding at all the depth
stays within its bounds on every path. -/
theorem depth_of_every_path (limit : Int) (code : List Instruction)
    (hno : NoMismatch (stackBalance limit code)) :
    ∃ depth : Nat → Int,
      (∀ before a, Path code before a → netEffect code before = depth a)
        ∧ (∀ (a : Nat) (i : Instruction), code[a]? = some i →
          ((∃ j seen, ⟨a, .underflow j seen⟩ ∈ stackBalance limit code) ↔
              Reachable code a ∧ depth a + i.stackEffect < 0)
            ∧ ((∃ after bound, ⟨a, .tooDeep after bound⟩ ∈ stackBalance limit code) ↔
              Reachable code a ∧ limit < depth a + i.stackEffect))
        ∧ (∀ f ∈ stackBalance limit code,
          (f.severity = .error ∧ ∃ i seen, f.defect = .underflow i seen)
            ∨ (f.severity = .warning ∧ ∃ after, f.defect = .tooDeep after limit))
        ∧ (stackBalance limit code = [] → ∀ before a i, Path code before a →
          code[a]? = some i → 0 ≤ netEffect code before + i.stackEffect
            ∧ netEffect code before + i.stackEffect ≤ limit) := by
  refine ⟨depthAt code, fun before a hpath => netEffect_of_path hno hpath,
    fun a i hi => ⟨underflow_reported_iff limit hi, tooDeep_reported_iff limit hi⟩,
    fun f hf => finding_cases hno hf, ?_⟩
  intro hclean before a i hpath hi
  rw [netEffect_of_path hno hpath]
  constructor
  · by_contra hneg
    obtain ⟨_, _, hmem⟩ := (underflow_reported_iff limit hi).mpr
      ⟨⟨before, hpath⟩, by omega⟩
    rw [hclean] at hmem
    exact List.not_mem_nil hmem
  · by_contra hdeep
    obtain ⟨_, _, hmem⟩ := (tooDeep_reported_iff limit hi).mpr
      ⟨⟨before, hpath⟩, by omega⟩
    rw [hclean] at hmem
    exact List.not_mem_nil hmem

/-- Pushes and pops in a loop, then pops once more. -/
def pushPopLoop : List Instruction :=
  [⟨0x02, 1, 253, ⟨0, 0, 0, 0, 1, 18, 8, 7⟩⟩, ⟨0x02, 2, 253, ⟨0, 0, 0, 0, 1, 19, 8, 7⟩⟩,
    ⟨0x02, 0, 3, ⟨0, 0, 1, 0, 0, 2, 9, 7⟩⟩, ⟨0x02, 255, 253, ⟨0, 0, 0, 0, 1, 19, 8, 7⟩⟩]

theorem depth_of_every_path_pushPopLoop :
    stackBalance 0 pushPopLoop = [⟨0, .tooDeep 1 0⟩,
        ⟨3, .underflow ⟨0x02, 255, 253, ⟨0, 0, 0, 0, 1, 19, 8, 7⟩⟩ 0⟩]
      ∧ NoMismatch (stackBalance 0 pushPopLoop) ∧ Reachable pushPopLoop 3
      ∧ Path pushPopLoop [0] 1 ∧ Path pushPopLoop [0, 1, 2, 0] 1
      ∧ ∃ depth : Nat → Int, depth 1 = 1
        ∧ ∀ before a, Path pushPopLoop before a → netEffect pushPopLoop before = depth a := by
  have hpass : stackBalance 0 pushPopLoop = [⟨0, .tooDeep 1 0⟩,
      ⟨3, .underflow ⟨0x02, 255, 253, ⟨0, 0, 0, 0, 1, 19, 8, 7⟩⟩ 0⟩] := by decide
  have hno : NoMismatch (stackBalance 0 pushPopLoop) := by
    rw [hpass]
    intro f hf seen other
    rcases List.mem_pair.mp hf with rfl | rfl <;> simp
  obtain ⟨depth, hpath, hreport, -⟩ := depth_of_every_path 0 pushPopLoop hno
  have hunderflow : ∃ j seen, ⟨3, .underflow j seen⟩ ∈ stackBalance 0 pushPopLoop :=
    ⟨_, _, hpass ▸ List.mem_cons_of_mem _ (List.mem_cons_self ..)⟩
  have hpush : Step pushPopLoop 0 1 := ⟨_, rfl, .inl (by decide)⟩
  have hpop : Step pushPopLoop 1 2 := ⟨_, rfl, .inl (by decide)⟩
  have hback : Step pushPopLoop 2 0 := ⟨_, rfl, .inl (by decide)⟩
  have hfirst : Path pushPopLoop [0] 1 := Path.start.step hpush
  have hagain : Path pushPopLoop [0, 1, 2, 0] 1 := ((hfirst.step hpop).step hback).step hpush
  have hdepth : depth 1 = 1 := (hpath _ _ hfirst).symm.trans (by decide)
  exact ⟨hpass, hno, ((hreport 3 _ rfl).1.mp hunderflow).1, hfirst, hagain, depth, hdepth, hpath⟩

end StackBalance

end BehaviorScript.Lint
