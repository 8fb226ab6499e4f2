import BehaviorScript.Lint.VariableUsage
import Mathlib.Data.List.Induction
import Mathlib.Data.List.Nodup

/-!
# Steps of the usage pass

One expression is taken in by up to three range checks, two reads and a
write, each of which looks at one part of the state and adds to another.
This file says once what each of them does (`checkRange_cases`,
`noteRead_cases`, `noteWrite_cases`) and what they do one after another:

- for each part of the state, what is in it after an expression
  (`mem_read_visit`, `lookup_visit`, `mem_outOfRange_visit`,
  `mem_findings_visit`); everything else is left alone (`foldl_frame`);
- what is reported is put on record first, so no defect is reported twice
  (`Distinct`).
-/

namespace BehaviorScript.Lint.VariableUsage

/-! ## The slots of an expression -/

/-- The slots that an expression reads. -/
def readSlots (e : Expression) : List Slot := e.reads.filterMap Variable.slot?

/-- The slot that an expression writes, if any. -/
def writeSlots (e : Expression) : List Slot := (e.write?.bind Variable.slot?).toList

theorem slot?_eq_some_iff {v : Variable} {slot : Slot} :
    v.slot? = some slot ↔ v = .stored slot := by
  cases v <;> simp [Variable.slot?]

theorem mem_readSlots_iff {e : Expression} {slot : Slot} :
    slot ∈ readSlots e ↔ e.operator.readsLeft = true ∧ e.left = .stored slot
      ∨ e.operator.readsRight = true ∧ e.right = .stored slot := by
  unfold readSlots Expression.reads
  cases e.operator.readsLeft <;> cases e.operator.readsRight <;>
    simp [slot?_eq_some_iff, @eq_comm _ (Variable.stored slot)]

theorem mem_writeSlots_iff {e : Expression} {slot : Slot} :
    slot ∈ writeSlots e ↔ e.operator.writesLeft = true ∧ e.left = .stored slot := by
  unfold writeSlots Expression.write?
  cases e.operator.writesLeft <;> simp [slot?_eq_some_iff]

def isRead (slot : Slot) (e : Expression) : Bool := (readSlots e).contains slot

def isWritten (slot : Slot) (e : Expression) : Bool := (writeSlots e).contains slot

def isUsed (slot : Slot) (e : Expression) : Bool := isRead slot e || isWritten slot e

/-! ## One access -/

/-- The slot lies behind the `declared` places of its scope. -/
def Exceeds (image : Image) (slot : Slot) (declared : Nat) : Prop :=
  declared? image slot.scope = some declared ∧ declared ≤ slot.index.toNat

/-- A read of the slot would be reported, if it is the first one. -/
def Early (options : Options) (u : Usage) (slot : Slot) : Prop :=
  u.written.lookup slot = none ∧ (slot.scope = .local ∨ options.reportTempReads = true)

section

variable {image : Image} {options : Options} {index : Nat} {u : Usage} {slot t : Slot}
  {f : Finding}

theorem checkRange_cases (image : Image) (index : Nat) (u : Usage) (slot : Slot) :
    checkRange image index u slot = u ∧ (∀ n, Exceeds image slot n → slot ∈ u.outOfRange)
      ∨ ∃ n, Exceeds image slot n ∧ slot ∉ u.outOfRange
        ∧ checkRange image index u slot = { u with
            outOfRange := slot :: u.outOfRange
            findings := u.findings ++ [⟨index, .slotOutOfRange slot n⟩] } := by
  unfold checkRange Exceeds
  cases hdeclared : declared? image slot.scope with
  | none =>
      left
      exact ⟨rfl, fun n hn => by cases hn.1⟩
  | some n =>
      by_cases hlt : slot.index.toNat < n
      · left
        refine ⟨by simp [hlt], ?_⟩
        rintro m ⟨hm, hle⟩
        obtain rfl := Option.some.inj hm
        omega
      · by_cases hseen : slot ∈ u.outOfRange
        · left
          exact ⟨by simp [hseen], fun _ _ => hseen⟩
        · right
          exact ⟨n, ⟨rfl, Nat.not_lt.mp hlt⟩, hseen, by simp [hlt, hseen]⟩

theorem noteRead_cases (options : Options) (index : Nat) (u : Usage) (slot : Slot) :
    slot ∈ u.read ∧ noteRead options index u slot = u
      ∨ slot ∉ u.read ∧ (Early options u slot ∧ noteRead options index u slot = { u with
            read := slot :: u.read
            findings := u.findings ++ [⟨index, .readBeforeWrite slot⟩] }
          ∨ ¬Early options u slot ∧ noteRead options index u slot
            = { u with read := slot :: u.read }) := by
  unfold noteRead Early
  by_cases hread : slot ∈ u.read
  · left
    exact ⟨hread, by simp [hread]⟩
  · right
    refine ⟨hread, ?_⟩
    by_cases hearly : u.written.lookup slot = none
        ∧ (slot.scope = .local ∨ options.reportTempReads = true)
    · left
      exact ⟨hearly, by simp [hread, hearly]⟩
    · right
      refine ⟨hearly, ?_⟩
      have hreported : ((u.written.lookup slot).isNone
          && (decide (slot.scope = .local) || options.reportTempReads)) = false := by
        rw [← Bool.not_eq_true]
        simpa using hearly
      simp [hread, hreported]

theorem noteWrite_cases (index : Nat) (u : Usage) (slot : Slot) :
    (u.written.lookup slot).isSome ∧ noteWrite index u slot = u
      ∨ u.written.lookup slot = none
        ∧ noteWrite index u slot = { u with written := u.written ++ [(slot, index)] } := by
  unfold noteWrite
  cases hwritten : u.written.lookup slot with
  | some w => exact Or.inl ⟨rfl, rfl⟩
  | none => exact Or.inr ⟨rfl, rfl⟩

theorem Exceeds.unique {m n : Nat} (hm : Exceeds image slot m) (hn : Exceeds image slot n) :
    m = n :=
  Option.some.inj (hm.1.symm.trans hn.1)

@[simp]
theorem read_checkRange : (checkRange image index u slot).read = u.read := by
  rcases checkRange_cases image index u slot with ⟨heq, -⟩ | ⟨n, -, -, heq⟩ <;> rw [heq]

@[simp]
theorem written_checkRange : (checkRange image index u slot).written = u.written := by
  rcases checkRange_cases image index u slot with ⟨heq, -⟩ | ⟨n, -, -, heq⟩ <;> rw [heq]

@[simp]
theorem mem_outOfRange_checkRange :
    t ∈ (checkRange image index u slot).outOfRange ↔
      t ∈ u.outOfRange ∨ t = slot ∧ ∃ n, Exceeds image slot n := by
  rcases checkRange_cases image index u slot with ⟨heq, hseen⟩ | ⟨n, hn, -, heq⟩
  · rw [heq]
    constructor
    · exact Or.inl
    · rintro (ht | ⟨rfl, n, hn⟩)
      · exact ht
      · exact hseen n hn
  · have hexceeds : ∃ n, Exceeds image slot n := ⟨n, hn⟩
    simp [heq, hexceeds, or_comm]

@[simp]
theorem mem_findings_checkRange :
    f ∈ (checkRange image index u slot).findings ↔ f ∈ u.findings
      ∨ slot ∉ u.outOfRange ∧ ∃ n, Exceeds image slot n ∧ f = ⟨index, .slotOutOfRange slot n⟩ := by
  rcases checkRange_cases image index u slot with ⟨heq, hseen⟩ | ⟨n, hn, hfresh, heq⟩
  · rw [heq]
    constructor
    · exact Or.inl
    · rintro (hf | ⟨hfresh, n, hn, -⟩)
      · exact hf
      · exact absurd (hseen n hn) hfresh
  · rw [heq]
    simp only [List.mem_append, List.mem_singleton]
    constructor
    · rintro (hf | rfl)
      · exact Or.inl hf
      · exact Or.inr ⟨hfresh, n, hn, rfl⟩
    · rintro (hf | ⟨-, m, hm, rfl⟩)
      · exact Or.inl hf
      · exact Or.inr (by rw [hm.unique hn])

@[simp]
theorem outOfRange_noteRead : (noteRead options index u slot).outOfRange = u.outOfRange := by
  rcases noteRead_cases options index u slot with ⟨-, heq⟩ | ⟨-, ⟨-, heq⟩ | ⟨-, heq⟩⟩ <;> rw [heq]

@[simp]
theorem written_noteRead : (noteRead options index u slot).written = u.written := by
  rcases noteRead_cases options index u slot with ⟨-, heq⟩ | ⟨-, ⟨-, heq⟩ | ⟨-, heq⟩⟩ <;> rw [heq]

@[simp]
theorem mem_read_noteRead : t ∈ (noteRead options index u slot).read ↔ t ∈ u.read ∨ t = slot := by
  rcases noteRead_cases options index u slot with ⟨hread, heq⟩ | ⟨-, ⟨-, heq⟩ | ⟨-, heq⟩⟩
  · rw [heq]
    constructor
    · exact Or.inl
    · rintro (ht | rfl)
      · exact ht
      · exact hread
  · simp [heq, or_comm]
  · simp [heq, or_comm]

@[simp]
theorem mem_findings_noteRead :
    f ∈ (noteRead options index u slot).findings ↔ f ∈ u.findings
      ∨ slot ∉ u.read ∧ Early options u slot ∧ f = ⟨index, .readBeforeWrite slot⟩ := by
  rcases noteRead_cases options index u slot with ⟨hread, heq⟩ | ⟨hread, ⟨he, heq⟩ | ⟨he, heq⟩⟩
  · simp [heq, hread]
  · simp [heq, hread, he]
  · simp [heq, hread, he]

@[simp]
theorem read_noteWrite : (noteWrite index u slot).read = u.read := by
  rcases noteWrite_cases index u slot with ⟨-, heq⟩ | ⟨-, heq⟩ <;> rw [heq]

@[simp]
theorem outOfRange_noteWrite : (noteWrite index u slot).outOfRange = u.outOfRange := by
  rcases noteWrite_cases index u slot with ⟨-, heq⟩ | ⟨-, heq⟩ <;> rw [heq]

@[simp]
theorem findings_noteWrite : (noteWrite index u slot).findings = u.findings := by
  rcases noteWrite_cases index u slot with ⟨-, heq⟩ | ⟨-, heq⟩ <;> rw [heq]

theorem lookup_noteWrite :
    (noteWrite index u slot).written.lookup t
      = (u.written.lookup t).or (if t = slot then some index else none) := by
  rcases noteWrite_cases index u slot with ⟨hsome, heq⟩ | ⟨-, heq⟩
  · rw [heq]
    by_cases ht : t = slot
    · obtain ⟨w, hw⟩ := Option.isSome_iff_exists.mp hsome
      rw [ht, hw]
      rfl
    · rw [if_neg ht, Option.or_none]
  · rw [heq, List.lookup_append, List.lookup_cons]
    by_cases ht : t = slot
    · simp [ht]
    · have hne : (t == slot) = false := beq_false_of_ne ht
      simp [ht, hne]

end

/-! ## The accesses of one expression -/

section

variable {image : Image} {options : Options} {index : Nat} {u : Usage} {slots : List Slot}
  {t : Slot} {f : Finding}

/-- What no single access changes, a row of them does not change. -/
theorem foldl_frame {γ : Type} {step : Usage → Slot → Usage} (view : Usage → γ)
    (h : ∀ u slot, view (step u slot) = view u) (slots : List Slot) (u : Usage) :
    view (slots.foldl step u) = view u := by
  induction slots generalizing u with
  | nil => rfl
  | cons slot rest ih => rw [List.foldl_cons, ih, h]

theorem mem_outOfRange_foldl_checkRange :
    t ∈ (slots.foldl (checkRange image index) u).outOfRange ↔
      t ∈ u.outOfRange ∨ t ∈ slots ∧ ∃ n, Exceeds image t n := by
  induction slots generalizing u with
  | nil => simp
  | cons slot rest ih =>
      rw [List.foldl_cons, ih, mem_outOfRange_checkRange, List.mem_cons]
      constructor
      · rintro ((ht | ⟨rfl, hn⟩) | ⟨ht, hn⟩)
        · exact Or.inl ht
        · exact Or.inr ⟨Or.inl rfl, hn⟩
        · exact Or.inr ⟨Or.inr ht, hn⟩
      · rintro (ht | ⟨rfl | ht, hn⟩)
        · exact Or.inl (Or.inl ht)
        · exact Or.inl (Or.inr ⟨rfl, hn⟩)
        · exact Or.inr ⟨ht, hn⟩

theorem mem_findings_foldl_checkRange :
    f ∈ (slots.foldl (checkRange image index) u).findings ↔ f ∈ u.findings
      ∨ ∃ slot ∈ slots, slot ∉ u.outOfRange
        ∧ ∃ n, Exceeds image slot n ∧ f = ⟨index, .slotOutOfRange slot n⟩ := by
  induction slots generalizing u with
  | nil => simp
  | cons slot rest ih =>
      rw [List.foldl_cons, ih]
      grind [mem_findings_checkRange, mem_outOfRange_checkRange]

theorem mem_read_foldl_noteRead :
    t ∈ (slots.foldl (noteRead options index) u).read ↔ t ∈ u.read ∨ t ∈ slots := by
  induction slots generalizing u with
  | nil => simp
  | cons slot rest ih => rw [List.foldl_cons, ih, mem_read_noteRead, List.mem_cons, or_assoc]

theorem mem_findings_foldl_noteRead :
    f ∈ (slots.foldl (noteRead options index) u).findings ↔ f ∈ u.findings
      ∨ ∃ slot ∈ slots, slot ∉ u.read ∧ Early options u slot
        ∧ f = ⟨index, .readBeforeWrite slot⟩ := by
  induction slots generalizing u with
  | nil => simp
  | cons slot rest ih =>
      rw [List.foldl_cons, ih]
      grind [mem_findings_noteRead, mem_read_noteRead, written_noteRead, Early]

theorem lookup_foldl_noteWrite :
    (slots.foldl (noteWrite index) u).written.lookup t
      = (u.written.lookup t).or (if t ∈ slots then some index else none) := by
  induction slots generalizing u with
  | nil => simp
  | cons slot rest ih =>
      rw [List.foldl_cons, ih, lookup_noteWrite]
      by_cases ht : t = slot <;> simp [ht]

end

/-! ## One expression -/

section

variable {image : Image} {options : Options} {index : Nat} {u : Usage} {e : Expression}
  {slot : Slot} {f : Finding}

theorem visit_eq (image : Image) (options : Options) (u : Usage) (index : Nat) (e : Expression) :
    visit image options u index e
      = ((writeSlots e).filter isTracked).foldl (noteWrite index)
        (((readSlots e).filter isTracked).foldl (noteRead options index)
          ((readSlots e ++ writeSlots e).foldl (checkRange image index) u)) := rfl

theorem mem_read_visit :
    slot ∈ (visit image options u index e).read ↔
      slot ∈ u.read ∨ isTracked slot = true ∧ isRead slot e = true := by
  rw [visit_eq, foldl_frame Usage.read fun _ _ => read_noteWrite,
    mem_read_foldl_noteRead, foldl_frame Usage.read fun _ _ => read_checkRange]
  simp [isRead, and_comm]

theorem lookup_visit :
    (visit image options u index e).written.lookup slot
      = (u.written.lookup slot).or
        (if isTracked slot = true ∧ isWritten slot e = true then some index else none) := by
  rw [visit_eq, lookup_foldl_noteWrite, foldl_frame Usage.written fun _ _ => written_noteRead,
    foldl_frame Usage.written fun _ _ => written_checkRange]
  simp [isWritten, and_comm]

theorem mem_outOfRange_visit :
    slot ∈ (visit image options u index e).outOfRange ↔
      slot ∈ u.outOfRange ∨ isUsed slot e = true ∧ ∃ n, Exceeds image slot n := by
  rw [visit_eq, foldl_frame Usage.outOfRange fun _ _ => outOfRange_noteWrite,
    foldl_frame Usage.outOfRange fun _ _ => outOfRange_noteRead,
    mem_outOfRange_foldl_checkRange]
  simp [isUsed, isRead, isWritten]

theorem mem_findings_visit :
    f ∈ (visit image options u index e).findings ↔ f ∈ u.findings
      ∨ (∃ slot, isUsed slot e = true ∧ slot ∉ u.outOfRange
        ∧ ∃ n, Exceeds image slot n ∧ f = ⟨index, .slotOutOfRange slot n⟩)
      ∨ ∃ slot, (isTracked slot = true ∧ isRead slot e = true) ∧ slot ∉ u.read
        ∧ Early options u slot ∧ f = ⟨index, .readBeforeWrite slot⟩ := by
  have hread : ((readSlots e ++ writeSlots e).foldl (checkRange image index) u).read = u.read :=
    foldl_frame Usage.read (fun _ _ => read_checkRange) _ _
  have hwritten : ((readSlots e ++ writeSlots e).foldl (checkRange image index) u).written
      = u.written :=
    foldl_frame Usage.written (fun _ _ => written_checkRange) _ _
  rw [visit_eq, foldl_frame Usage.findings fun _ _ => findings_noteWrite,
    mem_findings_foldl_noteRead, mem_findings_foldl_checkRange, or_assoc]
  simp only [Early, hread, hwritten, isUsed, isRead, isWritten, List.mem_append, List.mem_filter,
    List.contains_iff_mem, Bool.or_eq_true, and_comm]

end

/-! ## Nothing twice -/

/-- The sets of the state hold the slot of the finding. -/
def Recorded (u : Usage) (f : Finding) : Prop :=
  (∃ slot ∈ u.read, f.defect = .readBeforeWrite slot)
    ∨ ∃ slot ∈ u.outOfRange, ∃ n, f.defect = .slotOutOfRange slot n

theorem Recorded.mono {u v : Usage} {f : Finding} (h : Recorded u f) (hread : u.read ⊆ v.read)
    (hrange : u.outOfRange ⊆ v.outOfRange) : Recorded v f := by
  rcases h with ⟨slot, hslot, hf⟩ | ⟨slot, hslot, hf⟩
  · exact Or.inl ⟨slot, hread hslot, hf⟩
  · exact Or.inr ⟨slot, hrange hslot, hf⟩

/-- No defect was found twice, and no slot is listed twice as written. -/
structure Distinct (u : Usage) : Prop where
  defects : (u.findings.map Finding.defect).Nodup
  recorded : ∀ f ∈ u.findings, Recorded u f
  slots : (u.written.map Prod.fst).Nodup

theorem nodup_defects_concat {findings : List Finding} {f : Finding}
    (h : (findings.map Finding.defect).Nodup) (hnew : ∀ g ∈ findings, g.defect ≠ f.defect) :
    ((findings ++ [f]).map Finding.defect).Nodup := by
  rw [List.map_append, List.map_singleton, ← List.concat_eq_append]
  refine List.Nodup.concat ?_ h
  intro hmem
  obtain ⟨g, hg, hdefect⟩ := List.mem_map.mp hmem
  exact hnew g hg hdefect

namespace Distinct

variable {image : Image} {options : Options} {index : Nat} {u : Usage}

theorem start : Distinct Usage.start :=
  ⟨List.nodup_nil, fun _ hf => absurd hf List.not_mem_nil, List.nodup_nil⟩

theorem checkRange (h : Distinct u) (slot : Slot) :
    Distinct (checkRange image index u slot) := by
  rcases checkRange_cases image index u slot with ⟨heq, -⟩ | ⟨n, -, hfresh, heq⟩
  · rwa [heq]
  · rw [heq]
    refine ⟨nodup_defects_concat h.defects ?_, ?_, h.slots⟩
    · intro g hg hdefect
      rcases h.recorded g hg with ⟨t, -, ht⟩ | ⟨t, hseen, m, ht⟩
      · rw [ht] at hdefect
        cases hdefect
      · rw [ht] at hdefect
        cases hdefect
        exact hfresh hseen
    · intro f hf
      rcases List.mem_append.mp hf with hf | hf
      · exact (h.recorded f hf).mono (List.Subset.refl _) (List.subset_cons_self ..)
      · rw [List.mem_singleton.mp hf]
        exact Or.inr ⟨slot, List.mem_cons_self .., n, rfl⟩

theorem noteRead (h : Distinct u) (slot : Slot) : Distinct (noteRead options index u slot) := by
  rcases noteRead_cases options index u slot with ⟨-, heq⟩ | ⟨hfresh, ⟨-, heq⟩ | ⟨-, heq⟩⟩
  · rwa [heq]
  · rw [heq]
    refine ⟨nodup_defects_concat h.defects ?_, ?_, h.slots⟩
    · intro g hg hdefect
      rcases h.recorded g hg with ⟨t, hseen, ht⟩ | ⟨t, -, n, ht⟩
      · rw [ht] at hdefect
        cases hdefect
        exact hfresh hseen
      · rw [ht] at hdefect
        cases hdefect
    · intro f hf
      rcases List.mem_append.mp hf with hf | hf
      · exact (h.recorded f hf).mono (List.subset_cons_self ..) (List.Subset.refl _)
      · rw [List.mem_singleton.mp hf]
        exact Or.inl ⟨slot, List.mem_cons_self .., rfl⟩
  · rw [heq]
    exact ⟨h.defects, fun f hf => (h.recorded f hf).mono (List.subset_cons_self ..)
      (List.Subset.refl _), h.slots⟩

theorem noteWrite (h : Distinct u) (slot : Slot) : Distinct (noteWrite index u slot) := by
  rcases noteWrite_cases index u slot with ⟨-, heq⟩ | ⟨hnone, heq⟩
  · rwa [heq]
  · rw [heq]
    refine ⟨h.defects, h.recorded, ?_⟩
    rw [List.map_append, List.map_singleton, ← List.concat_eq_append]
    refine List.Nodup.concat ?_ h.slots
    intro hmem
    obtain ⟨entry, hentry, hslot⟩ := List.mem_map.mp hmem
    have hsome : (u.written.lookup slot).isSome :=
      List.lookup_isSome_iff.mpr ⟨entry, hentry, by simp [hslot]⟩
    rw [hnone] at hsome
    cases hsome

theorem foldl {step : Usage → Slot → Usage} (hstep : ∀ u slot, Distinct u → Distinct (step u slot))
    (slots : List Slot) (h : Distinct u) : Distinct (slots.foldl step u) := by
  induction slots generalizing u with
  | nil => exact h
  | cons slot rest ih => exact ih (hstep u slot h)

theorem visit (h : Distinct u) (e : Expression) : Distinct (visit image options u index e) := by
  rw [visit_eq]
  exact foldl (fun _ slot h => h.noteWrite slot) _
    (foldl (fun _ slot h => h.noteRead slot) _ (foldl (fun _ slot h => h.checkRange slot) _ h))

end Distinct

theorem distinct_foldl (image : Image) (options : Options) (seen : List (Expression × Nat)) :
    Distinct (seen.foldl (fun u x => visit image options u x.2 x.1) Usage.start) := by
  induction seen using List.reverseRecOn with
  | nil => exact Distinct.start
  | append_singleton seen x ih =>
      rw [List.foldl_append]
      exact ih.visit x.1

theorem mem_written_iff {u : Usage} (h : Distinct u) {slot : Slot} {w : Nat} :
    (slot, w) ∈ u.written ↔ u.written.lookup slot = some w := by
  constructor
  · intro hmem
    obtain ⟨before, after, hsplit⟩ := List.append_of_mem hmem
    refine List.lookup_eq_some_iff.mpr ⟨before, after, hsplit, ?_⟩
    intro entry hentry
    have hslots := h.slots
    rw [hsplit, List.map_append, List.nodup_append] at hslots
    have hne := hslots.2.2 entry.1 (List.mem_map_of_mem hentry) slot (by simp)
    simpa using hne.symm
  · intro hlookup
    obtain ⟨before, after, hsplit, -⟩ := List.lookup_eq_some_iff.mp hlookup
    rw [hsplit]
    simp

theorem mem_unread_iff {u : Usage} (h : Distinct u) {makesCalls : Bool} {f : Finding} :
    f ∈ unread makesCalls u ↔ ∃ slot w, f = ⟨w, .neverRead slot⟩
      ∧ u.written.lookup slot = some w ∧ slot ∉ u.read
      ∧ (slot.scope = .local ∨ makesCalls = false) := by
  simp only [unread, List.mem_map, List.mem_filter, Bool.and_eq_true, Bool.not_eq_true',
    Bool.or_eq_true, decide_eq_true_eq]
  constructor
  · rintro ⟨⟨slot, w⟩, ⟨hmem, hread, hscope⟩, rfl⟩
    exact ⟨slot, w, rfl, (mem_written_iff h).mp hmem, by simpa using hread, hscope⟩
  · rintro ⟨slot, w, rfl, hlookup, hread, hscope⟩
    exact ⟨(slot, w), ⟨(mem_written_iff h).mpr hlookup, by simpa using hread, hscope⟩, rfl⟩

theorem nodup_defects_unread {u : Usage} (h : Distinct u) (makesCalls : Bool) :
    ((unread makesCalls u).map Finding.defect).Nodup := by
  have hslots : ((u.written.filter fun x =>
      !u.read.contains x.1 && (x.1.scope = .local || !makesCalls)).map Prod.fst).Nodup :=
    h.slots.sublist (List.filter_sublist.map _)
  have hinjective : Function.Injective Defect.neverRead := fun _ _ => Defect.neverRead.inj
  have hdefects := hslots.map hinjective
  rw [List.map_map] at hdefects
  rw [unread, List.map_map]
  exact hdefects

end BehaviorScript.Lint.VariableUsage
