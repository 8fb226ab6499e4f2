import BehaviorScript.Proofs.Code.Records
import BehaviorScript.Proofs.Lint.StackFindings

/-!
# How far a depth can go

A loop that pushes has paths of every depth, yet the pass carries a depth
over each instruction only once. The way on which it gets to a visit
(`Trail`) is made of earlier visits, so no instruction is on it twice, and
no instruction moves the stack by more than one
(`Instruction.natAbs_stackEffect_le`). Hence depths stay within the length
of the script (`natAbs_after_le`), which is too short for the limit that
scripts are held against by default.

Along the same ways a depth below zero is carried on from where it arose.
Going back as long as the depth is negative leads to an instruction that
pops from an empty stack (`Trail.exists_pop`). It is reported as well, but
so is everything behind it that leaves the depth below zero, whether it
pops or not.
-/

namespace BehaviorScript

/-! ## One instruction -/

theorem Primitive.stackEffect_of_find? {opcode : UInt16} {p : Primitive}
    (h : Primitive.find? opcode = some p) :
    p.stackEffect.natAbs ≤ 1 ∧ (p.schema = .expression → p.stackEffect = 0) := by
  have hcatalog : ∀ p ∈ Primitive.catalog, p.stackEffect.natAbs ≤ 1
      ∧ (p.schema = .expression → p.stackEffect = 0) := by decide
  exact hcatalog p (List.mem_of_find?_eq_some h)

theorem Operator.natAbs_stackEffect_le (op : Operator) : op.stackEffect.natAbs ≤ 1 := by
  cases op <;> simp [stackEffect]

theorem Operand.schemaOf_of_decode {opcode : UInt16} {bytes : OperandBytes} {e : Expression}
    (h : Operand.decode opcode bytes = .expression e) : schemaOf opcode = .expression := by
  unfold decode at h
  split at h
  · cases h
  · split at h
    · assumption
    · cases h
    · cases h

/-- The effect of an expression is that of its operator alone. -/
theorem Instruction.primitiveEffect_of_expression {i : Instruction} {e : Expression}
    (h : i.operand = .expression e) : (i.primitive?.map Primitive.stackEffect).getD 0 = 0 := by
  have hschema := Operand.schemaOf_of_decode h
  unfold Operand.schemaOf at hschema
  unfold primitive?
  split at hschema
  · next p hp =>
    rw [hp]
    exact (Primitive.stackEffect_of_find? hp).2 hschema
  · cases hschema

theorem Instruction.natAbs_stackEffect_le (i : Instruction) : i.stackEffect.natAbs ≤ 1 := by
  have hown : ((i.primitive?.map Primitive.stackEffect).getD 0).natAbs ≤ 1 := by
    cases hp : i.primitive? with
    | none => decide
    | some p => exact (Primitive.stackEffect_of_find? hp).1
  unfold stackEffect
  cases hoperand : i.operand with
  | expression e =>
      dsimp only
      rw [primitiveEffect_of_expression hoperand, Int.zero_add]
      exact e.operator.natAbs_stackEffect_le
  | call c => exact hown
  | raw bytes => exact hown

namespace Lint

open BehaviorScript.Flow

namespace StackBalance

variable {code : List Instruction} {limit : Int}

theorem natAbs_effectAt_le (code : List Instruction) (a : Nat) :
    (effectAt code a).natAbs ≤ 1 := by
  unfold effectAt
  cases code[a]? with
  | none => decide
  | some i => exact i.natAbs_stackEffect_le

theorem natAbs_netEffect_le (code : List Instruction) (before : List Nat) :
    (netEffect code before).natAbs ≤ before.length := by
  induction before with
  | nil => exact Nat.le_refl 0
  | cons a rest ih =>
      have hstep := natAbs_effectAt_le code a
      rw [netEffect, List.length_cons]
      omega

/-! ## The way to a visit -/

/-- The visits over which the depth of `x` was carried, from the first
one on. -/
structure Trail (code : List Instruction) (trail : List (Nat × Int)) (x : Nat × Int) : Prop where
  chain : (trail ++ [x]).IsChain (Explore.Arrival (arrivals code))
  start : (trail ++ [x]).head? = some (0, 0)
  sublist : (trail ++ [x]).Sublist (visits code)

theorem exists_trail_to {x : Nat × Int} (hx : x ∈ visits code) : ∃ trail, Trail code trail x := by
  obtain ⟨trail, hchain, hstart, hsublist⟩ := exists_trail hx
  exact ⟨trail, hchain, hstart, hsublist⟩

namespace Trail

variable {trail : List (Nat × Int)} {x y : Nat × Int}

theorem mem_visits (h : Trail code trail x) : x ∈ visits code :=
  h.sublist.subset (List.mem_append_right _ (List.mem_singleton.mpr rfl))

theorem eq_start (h : Trail code [] x) : x = (0, 0) := Option.some.inj h.start

/-- Without its end a way leads to the visit before. -/
theorem front (h : Trail code (trail ++ [y]) x) : Trail code trail y where
  chain := h.chain.left_of_append
  start := by
    have hstart := h.start
    rwa [List.head?_append_of_ne_nil _ (by simp)] at hstart
  sublist := (List.sublist_append_left _ _).trans h.sublist

theorem last (h : Trail code (trail ++ [y]) x) :
    Step code y.1 x.1 ∧ x.2 = y.2 + effectAt code y.1 := by
  have hchain := h.chain
  rw [List.append_assoc] at hchain
  exact arrival_iff.mp (List.isChain_pair.mp hchain.right_of_append)

theorem path (h : Trail code trail x) :
    Path code (trail.map Prod.fst) x.1 ∧ netEffect code (trail.map Prod.fst) = x.2 := by
  induction trail using List.reverseRecOn generalizing x with
  | nil =>
      rw [h.eq_start]
      exact ⟨Path.start, rfl⟩
  | append_singleton trail y ih =>
      obtain ⟨hpath, heffect⟩ := ih h.front
      obtain ⟨hstep, hdepth⟩ := h.last
      rw [List.map_append, List.map_singleton, netEffect_concat, heffect, hdepth]
      exact ⟨hpath.step hstep, rfl⟩

theorem nodup (h : Trail code trail x) : ((trail ++ [x]).map Prod.fst).Nodup :=
  List.Nodup.sublist (h.sublist.map Prod.fst) (nodup_visits code)

theorem length_lt (h : Trail code trail x) : trail.length < code.length := by
  have hrange : (trail ++ [x]).map Prod.fst ⊆ List.range code.length := by
    intro a ha
    obtain ⟨y, hy, rfl⟩ := List.mem_map.mp ha
    exact mem_nodes_of_mem_explore (h.sublist.subset hy)
  have hlength := (List.subperm_of_subset h.nodup hrange).length_le
  simp only [List.length_map, List.length_append, List.length_singleton,
    List.length_range] at hlength
  omega

/-- Back along the way as long as the depth is negative. -/
theorem exists_pop (h : Trail code trail x) (hneg : x.2 < 0) :
    ∃ front y rest, trail = front ++ y :: rest ∧ Trail code front y ∧ 0 ≤ y.2
      ∧ y.2 + effectAt code y.1 < 0 := by
  induction trail using List.reverseRecOn generalizing x with
  | nil =>
      rw [h.eq_start] at hneg
      exact absurd hneg (Int.lt_irrefl 0)
  | append_singleton trail y ih =>
      obtain ⟨-, hdepth⟩ := h.last
      rcases Int.lt_or_le y.2 0 with hbelow | habove
      · obtain ⟨front, z, rest, rfl, hz⟩ := ih h.front hbelow
        exact ⟨front, z, rest ++ [y], by simp, hz⟩
      · exact ⟨trail, y, [], rfl, h.front, habove, hdepth ▸ hneg⟩

end Trail

/-! ## Bounds -/

theorem natAbs_depth_lt {a : Nat} {d : Int} (h : (a, d) ∈ visits code) :
    d.natAbs < code.length := by
  obtain ⟨trail, htrail⟩ := exists_trail_to h
  have hbound := natAbs_netEffect_le code (trail.map Prod.fst)
  rw [htrail.path.2, List.length_map] at hbound
  exact Nat.lt_of_le_of_lt hbound htrail.length_lt

theorem natAbs_after_le {a : Nat} {d : Int} (h : (a, d) ∈ visits code) :
    (d + effectAt code a).natAbs ≤ code.length := by
  have hbefore := natAbs_depth_lt h
  have hstep := natAbs_effectAt_le code a
  omega

theorem natAbs_arrived_le {a : Nat} {d : Int} (h : (a, d) ∈ arrived code) :
    d.natAbs ≤ code.length := by
  obtain ⟨b, e, hvisit, -, rfl⟩ := mem_arrived_iff.mp h
  exact natAbs_after_le hvisit

theorem length_le_of_ofImage {image : Image} {s : Script} (hs : Script.ofImage image = .ok s) :
    s.code.length ≤ 253 :=
  length_le_of_decode (Script.decode_ofImage hs)

theorem message_ne_tooDeep (hlimit : (code.length : Int) ≤ limit) {f : Finding}
    (hf : f ∈ stackBalance limit code) (after bound : Int) :
    f.message ≠ Finding.message ⟨f.index, .tooDeep after bound⟩ := by
  intro hmessage
  obtain ⟨s, hsort⟩ := Defect.exists_depthSort? (visit_of_mem_stackBalance hf).2
  have hdefect := Finding.eq_tooDeep_of_message hsort hmessage
  have hmem : ⟨f.index, .tooDeep after bound⟩ ∈ stackBalance limit code := hdefect ▸ hf
  obtain ⟨-, hdeep, d, hvisit, rfl⟩ := tooDeep_mem_iff.mp hmem
  have hbound := natAbs_after_le hvisit
  omega

/-- **Depths are bounded by the length of the script**: the depth before
and behind every instruction, and with it every depth that is arrived at,
so that 32 bits hold all of them. A limit of 253 or more is never exceeded,
however often control can go around a loop that pushes. -/
theorem depths_within_length {image : Image} {s : Script} (hs : Script.ofImage image = .ok s) :
    s.code.length ≤ 253
      ∧ (∀ a i d, (a, d) ∈ visits s.code → s.code[a]? = some i →
        d.natAbs ≤ s.code.length ∧ (d + i.stackEffect).natAbs ≤ s.code.length
          ∧ (Int32.ofInt d + Int32.ofInt i.stackEffect).toInt = d + i.stackEffect)
      ∧ (∀ a d, (a, d) ∈ arrived s.code → d.natAbs ≤ s.code.length)
      ∧ (∀ limit : Int, 253 ≤ limit → ∀ f ∈ stackBalance limit s.code, ∀ after bound,
        f.message ≠ Finding.message ⟨f.index, .tooDeep after bound⟩)
      ∧ 253 ≤ Options.default.maxStackDepth := by
  have hlength := length_le_of_ofImage hs
  refine ⟨hlength, ?_, fun a d harrived => natAbs_arrived_le harrived, ?_, by decide⟩
  · intro a i d hvisit hi
    have hbefore := natAbs_depth_lt hvisit
    have hafter := natAbs_after_le hvisit
    rw [effectAt_of_getElem? hi] at hafter
    refine ⟨Nat.le_of_lt hbefore, hafter, ?_⟩
    rw [← Int32.ofInt_add, Int32.toInt_ofInt_of_le (by omega) (by omega)]
  · intro limit hlimit f hf after bound
    exact message_ne_tooDeep (by omega) hf after bound

/-- Pushes and starts again, for ever. -/
def endlessPush : Image :=
  ⟨0x1000, "lamp", 0, 0, 2, [0x02, 0, 1, 253, 0, 0, 0, 0, 1, 18, 8, 7,
    0x02, 0, 0, 253, 0, 0, 0, 0, 1, 18, 8, 7]⟩

theorem depths_within_length_endlessPush :
    ∃ s, Script.ofImage endlessPush = .ok s ∧ (1, 1) ∈ visits s.code
      ∧ (2 : Int).natAbs ≤ s.code.length ∧ (Int32.ofInt 1 + Int32.ofInt 1).toInt = 2
      ∧ (0, 2) ∈ arrived s.code
      ∧ ∀ f ∈ stackBalance 253 s.code, f.message ≠ Finding.message ⟨f.index, .tooDeep 2 253⟩ := by
  obtain ⟨s, hs⟩ : ∃ s, Script.ofImage endlessPush = .ok s := ⟨_, rfl⟩
  have hvisits : visits s.code = [(0, 0), (1, 1)] ∧ (0, 2) ∈ arrived s.code
      ∧ s.code[1]?.map Instruction.stackEffect = some 1 := by
    cases hs
    decide
  obtain ⟨hvisits, harrived, heffect⟩ := hvisits
  obtain ⟨i, hi, hpush⟩ := Option.map_eq_some_iff.mp heffect
  obtain ⟨-, hdepths, -, hlimit, -⟩ := depths_within_length hs
  have hvisit : (1, 1) ∈ visits s.code := by simp [hvisits]
  obtain ⟨-, hafter, hexact⟩ := hdepths 1 i 1 hvisit hi
  rw [hpush] at hafter hexact
  exact ⟨s, hs, hvisit, hafter, hexact, harrived,
    fun f hf => hlimit 253 (Int.le_refl 253) f hf 2 253⟩

/-! ## Where an underflow comes from -/

theorem eq_zero_of_pop {a : Nat} {d : Int} (hpos : 0 ≤ d) (hneg : d + effectAt code a < 0) :
    d = 0 ∧ effectAt code a = -1 := by
  have hstep := natAbs_effectAt_le code a
  omega

/-- What is found below zero lies behind an instruction that pops from an
empty stack, and this one is found as well. -/
theorem exists_pop_before {a : Nat} {d : Int} (h : (a, d) ∈ visits code) (hneg : d < 0) :
    ∃ before b j rest, Path code (before ++ b :: rest) a
      ∧ netEffect code (before ++ b :: rest) = d ∧ netEffect code before = 0
      ∧ ⟨b, .underflow j 0⟩ ∈ stackBalance limit code ∧ j.stackEffect = -1 := by
  obtain ⟨trail, htrail⟩ := exists_trail_to h
  obtain ⟨front, ⟨b, e⟩, rest, rfl, hfront, hpos, hbelow⟩ := htrail.exists_pop hneg
  obtain ⟨rfl, hpops⟩ := eq_zero_of_pop hpos hbelow
  have hvisit := hfront.mem_visits
  have hj := List.getElem?_eq_getElem (lt_of_visit hvisit)
  rw [effectAt_of_getElem? hj] at hpops hbelow
  have hpath := htrail.path
  rw [List.map_append, List.map_cons] at hpath
  exact ⟨_, b, _, _, hpath.1, hpath.2, hfront.path.2,
    underflow_mem_iff.mpr ⟨hj, hvisit, hbelow⟩, hpops⟩

theorem stackEffect_neg_of_visit_iff {d : Int} (i : Instruction) :
    (d + i.stackEffect < 0 → i.stackEffect < 0) ↔
      (d < 0 → i.stackEffect = -1 ∨ d = -1 ∧ i.stackEffect = 1) := by
  have hstep := i.natAbs_stackEffect_le
  omega

/-- **Where an underflow is found**: at an instruction that pops from an
empty stack, or below zero on a way from one that does. All findings are
at instructions that pop exactly if, below zero, the pass meets no others
but a push that gets the depth back to zero. -/
theorem underflow_from_pop (limit : Int) (code : List Instruction) :
    (∀ a i d, ⟨a, .underflow i d⟩ ∈ stackBalance limit code →
      d = 0 ∧ i.stackEffect = -1
        ∨ d < 0 ∧ ∃ before b j rest, Path code (before ++ b :: rest) a
          ∧ netEffect code (before ++ b :: rest) = d ∧ netEffect code before = 0
          ∧ ⟨b, .underflow j 0⟩ ∈ stackBalance limit code ∧ j.stackEffect = -1)
      ∧ ((∀ a i d, ⟨a, .underflow i d⟩ ∈ stackBalance limit code → i.stackEffect < 0) ↔
        ∀ a i d, (a, d) ∈ visits code → code[a]? = some i → d < 0 →
          i.stackEffect = -1 ∨ d = -1 ∧ i.stackEffect = 1) := by
  constructor
  · intro a i d hmem
    obtain ⟨hi, hvisit, hneg⟩ := underflow_mem_iff.mp hmem
    rcases Int.lt_or_le d 0 with hbelow | hpos
    · exact Or.inr ⟨hbelow, exists_pop_before hvisit hbelow⟩
    · rw [← effectAt_of_getElem? hi] at hneg ⊢
      exact Or.inl (eq_zero_of_pop hpos hneg)
  · simp only [underflow_mem_iff]
    constructor
    · intro h a i d hvisit hi
      exact (stackEffect_neg_of_visit_iff i).mp fun hneg => h a i d ⟨hi, hvisit, hneg⟩
    · intro h a i d hmem
      obtain ⟨hi, hvisit, hneg⟩ := hmem
      exact (stackEffect_neg_of_visit_iff i).mpr (h a i d hvisit hi) hneg

/-- Pops twice and pushes once. -/
def popTwicePush : List Instruction :=
  [⟨0x1E, 1, 254, ⟨0, 0, 0, 0, 0, 0, 0, 0⟩⟩, ⟨0x1E, 2, 254, ⟨0, 0, 0, 0, 0, 0, 0, 0⟩⟩,
    ⟨0x03, 255, 254, ⟨0, 0, 0, 0, 0, 0, 0, 0⟩⟩]

theorem underflow_from_pop_popTwicePush :
    ⟨2, .underflow ⟨0x03, 255, 254, ⟨0, 0, 0, 0, 0, 0, 0, 0⟩⟩ (-2)⟩
        ∈ stackBalance 256 popTwicePush
      ∧ ∃ before b j rest, Path popTwicePush (before ++ b :: rest) 2
        ∧ netEffect popTwicePush (before ++ b :: rest) = -2 ∧ netEffect popTwicePush before = 0
        ∧ ⟨b, .underflow j 0⟩ ∈ stackBalance 256 popTwicePush ∧ j.stackEffect = -1 := by
  have hmem : ⟨2, .underflow ⟨0x03, 255, 254, ⟨0, 0, 0, 0, 0, 0, 0, 0⟩⟩ (-2)⟩
      ∈ stackBalance 256 popTwicePush := by decide
  refine ⟨hmem, ?_⟩
  rcases (underflow_from_pop 256 popTwicePush).1 _ _ _ hmem with ⟨hzero, -⟩ | ⟨-, hpop⟩
  · exact absurd hzero (by decide)
  · exact hpop

/-- Pops from an empty stack, then sleeps. -/
def popThenSleep : Image :=
  ⟨0x1000, "lamp", 0, 0, 2, [0x1E, 0, 1, 254, 0, 0, 0, 0, 0, 0, 0, 0,
    0x00, 0, 255, 253, 0, 0, 0, 0, 0, 0, 0, 0]⟩

/-- An instruction that leaves the stack alone is said to pop. -/
theorem underflow_of_sleep :
    ∃ s, Script.ofImage popThenSleep = .ok s
      ∧ ∃ f ∈ s.lint Options.default, f ∈ stackBalance Options.default.maxStackDepth s.code
        ∧ f.severity = .error ∧ f.message = "sleep pops from a stack of depth -1"
        ∧ ∃ i, s.code[f.index]? = some i ∧ f.defect = .underflow i (-1)
          ∧ ¬i.stackEffect < 0 := by
  obtain ⟨s, hs⟩ : ∃ s, Script.ofImage popThenSleep = .ok s := ⟨_, rfl⟩
  have hpass : ⟨1, .underflow ⟨0x00, 255, 253, ⟨0, 0, 0, 0, 0, 0, 0, 0⟩⟩ (-1)⟩
        ∈ stackBalance Options.default.maxStackDepth s.code
      ∧ s.code[1]? = some ⟨0x00, 255, 253, ⟨0, 0, 0, 0, 0, 0, 0, 0⟩⟩ := by
    cases hs
    decide
  obtain ⟨hmem, hi⟩ := hpass
  have hlint : _ ∈ pass Options.default s .stackBalance := hmem
  exact ⟨s, hs, _, ((mem_pass_iff hs).mp hlint).1, hmem, rfl, by decide +kernel, _, hi, rfl,
    by decide⟩

end StackBalance

end Lint

end BehaviorScript
