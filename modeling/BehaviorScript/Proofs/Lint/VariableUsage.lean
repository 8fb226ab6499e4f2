import BehaviorScript.Proofs.Flow.Reachability
import BehaviorScript.Proofs.Lint.Usage
import Mathlib.Order.Bounds.Basic

/-!
# First reads and first writes

The pass goes once over the expressions that control can get to and keeps
three sets. What it reports has a meaning without them: a slot is misused
(`Misuse`) by where it is read first and where it is written first.

The two meet in `Tracks`, which says what the sets hold after the
expressions seen so far; the pass keeps it up (`Tracks.visit`), and so it
holds at the end (`tracks_foldl`). Of the order of the expressions only
one thing is used there: an index that comes later is greater, so that
the first index in the list is the least one (`firstAt?_eq_some_iff`).
-/

namespace BehaviorScript

theorem Script.mem_liveCode_iff {image : Image} {s : Script} (hs : ofImage image = .ok s)
    {i : Instruction} {a : Nat} :
    (i, a) ∈ s.liveCode ↔ s.code[a]? = some i ∧ Flow.Reachable s.code a := by
  rw [liveCode, List.mem_filter, List.mem_zipIdx_iff_getElem?, flow_ofImage hs,
    FlowGraph.isReachable_iff]
  constructor
  · rintro ⟨hi, -, hreach⟩
    exact ⟨hi, hreach⟩
  · rintro ⟨hi, hreach⟩
    exact ⟨hi, (List.getElem?_eq_some_iff.mp hi).1, hreach⟩

namespace Lint.VariableUsage

open BehaviorScript.Flow

/-! ## Accesses -/

/-- Control can get to the expression `e` at instruction `a`. -/
def RunsAt (code : List Instruction) (e : Expression) (a : Nat) : Prop :=
  Reachable code a ∧ ∃ i, code[a]? = some i ∧ i.operand = .expression e

def Reads (code : List Instruction) (slot : Slot) (a : Nat) : Prop :=
  ∃ e, RunsAt code e a ∧ (e.operator.readsLeft = true ∧ e.left = .stored slot
    ∨ e.operator.readsRight = true ∧ e.right = .stored slot)

def Writes (code : List Instruction) (slot : Slot) (a : Nat) : Prop :=
  ∃ e, RunsAt code e a ∧ e.operator.writesLeft = true ∧ e.left = .stored slot

/-! ## What the findings mean -/

/-- What is wrong with the use of a slot, at the instruction to blame. -/
inductive Misuse (options : Options) (s : Script) : Finding → Prop
  | readBeforeWrite {slot : Slot} {r : Nat} (hread : IsLeast {a | Reads s.code slot a} r)
      (hwrite : ∀ w, IsLeast {a | Writes s.code slot a} w → r ≤ w)
      (hscope : slot.scope = .local
        ∨ slot.scope = .temporary ∧ options.reportTempReads = true) :
      Misuse options s ⟨r, .readBeforeWrite slot⟩
  | neverRead {slot : Slot} {w : Nat} (hwrite : IsLeast {a | Writes s.code slot a} w)
      (hread : ∀ a, ¬Reads s.code slot a)
      (hscope : slot.scope = .local
        ∨ slot.scope = .temporary ∧ ∀ i ∈ s.code, i.callTarget? = none) :
      Misuse options s ⟨w, .neverRead slot⟩
  | slotOutOfRange {slot : Slot} {declared a : Nat}
      (huse : IsLeast {a | Reads s.code slot a ∨ Writes s.code slot a} a)
      (hscope : slot.scope = .local ∧ declared = s.image.localCount.toNat
        ∨ slot.scope = .parameter ∧ declared = s.image.argCount.toNat)
      (hrange : declared ≤ slot.index.toNat) :
      Misuse options s ⟨a, .slotOutOfRange slot declared⟩

/-! ## The expressions of a script -/

theorem mem_liveExpressions_iff {image : Image} {s : Script} (hs : Script.ofImage image = .ok s)
    {e : Expression} {a : Nat} : (e, a) ∈ liveExpressions s ↔ RunsAt s.code e a := by
  have hexpression : ∀ o : Operand, o.expression? = some e ↔ o = .expression e := by
    intro o
    cases o <;> simp [Operand.expression?]
  simp only [liveExpressions, List.mem_filterMap, Option.map_eq_some_iff, Prod.mk.injEq, RunsAt]
  constructor
  · rintro ⟨⟨i, b⟩, hlive, e', he, rfl, rfl⟩
    obtain ⟨hi, hreach⟩ := (Script.mem_liveCode_iff hs).mp hlive
    exact ⟨hreach, i, hi, (hexpression _).mp he⟩
  · rintro ⟨hreach, i, hi, he⟩
    have hlive := (Script.mem_liveCode_iff hs).mpr ⟨hi, hreach⟩
    exact ⟨(i, a), hlive, e, (hexpression _).mpr he, rfl, rfl⟩

theorem pairwise_liveExpressions (s : Script) :
    (liveExpressions s).Pairwise fun x y => x.2 < y.2 := by
  have hlive : s.liveCode.Pairwise fun x y => x.2 < y.2 :=
    List.pairwise_map.mp (pairwise_filter_zipIdx s.code _)
  refine List.pairwise_filterMap.mpr (hlive.imp ?_)
  intro x y hxy x' hx y' hy
  obtain ⟨e, -, rfl⟩ := Option.map_eq_some_iff.mp hx
  obtain ⟨e', -, rfl⟩ := Option.map_eq_some_iff.mp hy
  exact hxy

/-! ## The first of a list -/

/-- The index of the first expression that passes a test. -/
def firstAt? (test : Expression → Bool) (seen : List (Expression × Nat)) : Option Nat :=
  (seen.find? fun x => test x.1).map Prod.snd

theorem firstAt?_concat (test : Expression → Bool) (seen : List (Expression × Nat))
    (e : Expression) (a : Nat) :
    firstAt? test (seen ++ [(e, a)])
      = (firstAt? test seen).or (if test e then some a else none) := by
  unfold firstAt?
  rw [List.find?_append]
  cases hseen : seen.find? fun x => test x.1 with
  | some x => rfl
  | none => cases he : test e <;> simp [he]

theorem firstAt?_eq_none_iff {test : Expression → Bool} {seen : List (Expression × Nat)} :
    firstAt? test seen = none ↔ ∀ x ∈ seen, test x.1 = false := by
  simp [firstAt?]

theorem mem_of_firstAt? {test : Expression → Bool} {seen : List (Expression × Nat)} {a : Nat}
    (h : firstAt? test seen = some a) : ∃ e, (e, a) ∈ seen ∧ test e = true := by
  obtain ⟨⟨e, b⟩, hfind, rfl⟩ := Option.map_eq_some_iff.mp h
  have htest := List.find?_some hfind
  exact ⟨e, List.mem_of_find?_eq_some hfind, htest⟩

/-- In ascending order the first index is the least one. -/
theorem firstAt?_eq_some_iff {test : Expression → Bool} {seen : List (Expression × Nat)}
    (hseen : seen.Pairwise fun x y => x.2 < y.2) {a : Nat} :
    firstAt? test seen = some a ↔ IsLeast {b | ∃ e, (e, b) ∈ seen ∧ test e = true} a := by
  have hleast : ∀ b, firstAt? test seen = some b →
      IsLeast {b | ∃ e, (e, b) ∈ seen ∧ test e = true} b := by
    intro b hb
    refine ⟨mem_of_firstAt? hb, ?_⟩
    rintro c ⟨e, hmem, htest⟩
    induction seen with
    | nil => simp at hmem
    | cons x rest ih =>
        obtain ⟨habove, hrest⟩ := List.pairwise_cons.mp hseen
        cases hx : test x.1 with
        | true =>
            have hxb : x.2 = b := by simpa [firstAt?, hx] using hb
            rcases List.mem_cons.mp hmem with rfl | hmem
            · exact Nat.le_of_eq hxb.symm
            · exact Nat.le_of_lt (hxb ▸ habove _ hmem)
        | false =>
            have hb' : firstAt? test rest = some b := by simpa [firstAt?, hx] using hb
            rcases List.mem_cons.mp hmem with rfl | hmem
            · rw [htest] at hx
              cases hx
            · exact ih hrest hb' hmem
  constructor
  · exact hleast a
  · rintro ⟨⟨e, hmem, htest⟩, hlower⟩
    cases hfirst : firstAt? test seen with
    | none =>
        rw [firstAt?_eq_none_iff.mp hfirst _ hmem] at htest
        cases htest
    | some b => rw [(hleast b hfirst).unique ⟨⟨e, hmem, htest⟩, hlower⟩]

/-! ## The whole pass -/

theorem firstAt?_concat_eq_some_iff {test : Expression → Bool} {seen : List (Expression × Nat)}
    {e : Expression} {a b : Nat} :
    firstAt? test (seen ++ [(e, a)]) = some b ↔
      firstAt? test seen = some b ∨ firstAt? test seen = none ∧ test e = true ∧ a = b := by
  rw [firstAt?_concat]
  cases firstAt? test seen <;> simp

/-- The slot is first read at `r` and not written before. -/
def UnsetAt (seen : List (Expression × Nat)) (slot : Slot) (r : Nat) : Prop :=
  firstAt? (isRead slot) seen = some r ∧ ∀ w, firstAt? (isWritten slot) seen = some w → r ≤ w

/-- An expression reads before it writes, so what it writes itself comes
too late for its reads. -/
theorem unsetAt_concat {seen : List (Expression × Nat)} {e : Expression} {a r : Nat} {slot : Slot}
    (habove : ∀ x ∈ seen, x.2 < a) :
    UnsetAt (seen ++ [(e, a)]) slot r ↔ UnsetAt seen slot r
      ∨ firstAt? (isRead slot) seen = none ∧ firstAt? (isWritten slot) seen = none
        ∧ isRead slot e = true ∧ a = r := by
  have hlt : ∀ test b, firstAt? test seen = some b → b < a := by
    intro test b hb
    obtain ⟨x, hx, -⟩ := mem_of_firstAt? hb
    exact habove _ hx
  unfold UnsetAt
  simp only [firstAt?_concat_eq_some_iff]
  constructor
  · rintro ⟨hr | ⟨hnone, hread, rfl⟩, hwrite⟩
    · exact Or.inl ⟨hr, fun w hw => hwrite w (Or.inl hw)⟩
    · refine Or.inr ⟨hnone, ?_, hread, rfl⟩
      cases hw : firstAt? (isWritten slot) seen with
      | none => rfl
      | some w =>
          have hle := hwrite w (Or.inl hw)
          have hgt := hlt _ w hw
          omega
  · rintro (⟨hr, hwrite⟩ | ⟨hnone, hunset, hread, rfl⟩)
    · refine ⟨Or.inl hr, ?_⟩
      rintro w (hw | ⟨-, -, rfl⟩)
      · exact hwrite w hw
      · exact Nat.le_of_lt (hlt _ r hr)
    · refine ⟨Or.inr ⟨hnone, hread, rfl⟩, ?_⟩
      rintro w (hw | ⟨-, -, rfl⟩)
      · rw [hunset] at hw
        cases hw
      · exact Nat.le_refl _

/-- What the pass knows after the expressions `seen`. -/
structure Tracks (image : Image) (options : Options) (seen : List (Expression × Nat))
    (u : Usage) : Prop where
  read : ∀ slot, slot ∈ u.read ↔
    isTracked slot = true ∧ ∃ r, firstAt? (isRead slot) seen = some r
  written : ∀ slot, u.written.lookup slot
    = if isTracked slot then firstAt? (isWritten slot) seen else none
  outOfRange : ∀ slot, slot ∈ u.outOfRange ↔
    (∃ a, firstAt? (isUsed slot) seen = some a) ∧ ∃ n, Exceeds image slot n
  findings : ∀ f, f ∈ u.findings ↔
    (∃ slot n a, f = ⟨a, .slotOutOfRange slot n⟩ ∧ Exceeds image slot n
      ∧ firstAt? (isUsed slot) seen = some a)
    ∨ ∃ slot r, f = ⟨r, .readBeforeWrite slot⟩ ∧ isTracked slot = true
      ∧ (slot.scope = .local ∨ options.reportTempReads = true) ∧ UnsetAt seen slot r

theorem tracks_start (image : Image) (options : Options) :
    Tracks image options [] Usage.start where
  read := by simp [Usage.start, firstAt?]
  written := by simp [Usage.start, firstAt?]
  outOfRange := by simp [Usage.start, firstAt?]
  findings := by simp [Usage.start, firstAt?, UnsetAt]

theorem Tracks.visit {image : Image} {options : Options} {seen : List (Expression × Nat)}
    {u : Usage} (h : Tracks image options seen u) {e : Expression} {a : Nat}
    (habove : ∀ x ∈ seen, x.2 < a) :
    Tracks image options (seen ++ [(e, a)]) (visit image options u a e) where
  read := by
    intro slot
    rw [mem_read_visit, h.read, firstAt?_concat]
    cases isTracked slot <;> cases firstAt? (isRead slot) seen <;> simp
  written := by
    intro slot
    rw [lookup_visit, h.written, firstAt?_concat]
    cases htracked : isTracked slot <;> simp
  outOfRange := by
    intro slot
    rw [mem_outOfRange_visit, h.outOfRange, firstAt?_concat]
    cases firstAt? (isUsed slot) seen <;> simp
  findings := by
    intro f
    have hread : ∀ slot, isTracked slot = true →
        (slot ∉ u.read ↔ firstAt? (isRead slot) seen = none) := by
      intro slot htracked
      rw [h.read, and_iff_right htracked, Option.eq_none_iff_forall_ne_some, not_exists]
    have hwritten : ∀ slot, isTracked slot = true →
        u.written.lookup slot = firstAt? (isWritten slot) seen := by
      intro slot htracked
      rw [h.written, if_pos htracked]
    have hused : ∀ slot n, Exceeds image slot n →
        (slot ∉ u.outOfRange ↔ firstAt? (isUsed slot) seen = none) := by
      intro slot n hn
      rw [h.outOfRange, and_iff_left ⟨n, hn⟩, Option.eq_none_iff_forall_ne_some, not_exists]
    rw [mem_findings_visit, h.findings]
    constructor
    · rintro ((⟨slot, n, b, rfl, hn, hb⟩ | ⟨slot, r, rfl, htracked, hscope, hunset⟩)
        | ⟨slot, huse, hfresh, n, hn, rfl⟩
        | ⟨slot, ⟨htracked, hr⟩, hfresh, ⟨hearly, hscope⟩, rfl⟩)
      · exact Or.inl ⟨slot, n, b, rfl, hn, firstAt?_concat_eq_some_iff.mpr (Or.inl hb)⟩
      · exact Or.inr ⟨slot, r, rfl, htracked, hscope, (unsetAt_concat habove).mpr (Or.inl hunset)⟩
      · exact Or.inl ⟨slot, n, a, rfl, hn, firstAt?_concat_eq_some_iff.mpr
          (Or.inr ⟨(hused slot n hn).mp hfresh, huse, rfl⟩)⟩
      · rw [hwritten slot htracked] at hearly
        exact Or.inr ⟨slot, a, rfl, htracked, hscope, (unsetAt_concat habove).mpr
          (Or.inr ⟨(hread slot htracked).mp hfresh, hearly, hr, rfl⟩)⟩
    · rintro (⟨slot, n, b, rfl, hn, hb⟩ | ⟨slot, r, rfl, htracked, hscope, hunset⟩)
      · rcases firstAt?_concat_eq_some_iff.mp hb with hb | ⟨hnone, huse, rfl⟩
        · exact Or.inl (Or.inl ⟨slot, n, b, rfl, hn, hb⟩)
        · exact Or.inr (Or.inl ⟨slot, huse, (hused slot n hn).mpr hnone, n, hn, rfl⟩)
      · rcases (unsetAt_concat habove).mp hunset with hunset | ⟨hnone, hfresh, hr, rfl⟩
        · exact Or.inl (Or.inr ⟨slot, r, rfl, htracked, hscope, hunset⟩)
        · refine Or.inr (Or.inr ⟨slot, ⟨htracked, hr⟩, (hread slot htracked).mpr hnone, ?_, rfl⟩)
          exact ⟨(hwritten slot htracked).trans hfresh, hscope⟩

/-- What the pass knows at its end. -/
def finalUsage (options : Options) (s : Script) : Usage :=
  (liveExpressions s).foldl (fun u x => visit s.image options u x.2 x.1) Usage.start

theorem tracks_foldl (image : Image) (options : Options) {seen : List (Expression × Nat)}
    (hseen : seen.Pairwise fun x y => x.2 < y.2) :
    Tracks image options seen
      (seen.foldl (fun u x => visit image options u x.2 x.1) Usage.start) := by
  induction seen using List.reverseRecOn with
  | nil => exact tracks_start image options
  | append_singleton seen x ih =>
      obtain ⟨hbefore, -, habove⟩ := List.pairwise_append.mp hseen
      rw [List.foldl_append]
      exact (ih hbefore).visit fun y hy => habove y hy x (List.mem_singleton.mpr rfl)

theorem tracks_finalUsage (options : Options) (s : Script) :
    Tracks s.image options (liveExpressions s) (finalUsage options s) :=
  tracks_foldl s.image options (pairwise_liveExpressions s)

theorem distinct_finalUsage (options : Options) (s : Script) : Distinct (finalUsage options s) :=
  distinct_foldl s.image options (liveExpressions s)

theorem variableUsage_eq (options : Options) (s : Script) :
    variableUsage options s = (finalUsage options s).findings
      ++ unread (s.code.any fun i => i.callTarget?.isSome) (finalUsage options s) := rfl

theorem nodup_defects_variableUsage (options : Options) (s : Script) :
    ((variableUsage options s).map Finding.defect).Nodup := by
  have h := distinct_finalUsage options s
  rw [variableUsage_eq, List.map_append, List.nodup_append]
  refine ⟨h.defects, nodup_defects_unread h _, ?_⟩
  intro d hd d' hd' heq
  obtain ⟨f, hf, rfl⟩ := List.mem_map.mp hd
  obtain ⟨g, hg, rfl⟩ := List.mem_map.mp hd'
  obtain ⟨slot, w, rfl, -⟩ := (mem_unread_iff h).mp hg
  rcases h.recorded f hf with ⟨t, -, ht⟩ | ⟨t, -, n, ht⟩
  · rw [ht] at heq
    cases heq
  · rw [ht] at heq
    cases heq

/-! ## The meaning of the findings -/

theorem isTracked_and_iff {slot : Slot} {p : Prop} :
    isTracked slot = true ∧ (slot.scope = .local ∨ p) ↔
      slot.scope = .local ∨ slot.scope = .temporary ∧ p := by
  unfold isTracked
  cases slot.scope <;> simp

theorem exceeds_iff {image : Image} {slot : Slot} {n : Nat} :
    Exceeds image slot n ↔ (slot.scope = .local ∧ n = image.localCount.toNat
      ∨ slot.scope = .parameter ∧ n = image.argCount.toNat) ∧ n ≤ slot.index.toNat := by
  unfold Exceeds declared?
  refine and_congr_left fun _ => ?_
  cases slot.scope <;> simp [eq_comm]

section

variable {image : Image} {s : Script} (hs : Script.ofImage image = .ok s) {slot : Slot}

include hs

theorem reads_iff {a : Nat} :
    Reads s.code slot a ↔ ∃ e, (e, a) ∈ liveExpressions s ∧ isRead slot e = true := by
  simp only [Reads, mem_liveExpressions_iff hs, isRead, List.contains_iff_mem, mem_readSlots_iff]

theorem writes_iff {a : Nat} :
    Writes s.code slot a ↔ ∃ e, (e, a) ∈ liveExpressions s ∧ isWritten slot e = true := by
  simp only [Writes, mem_liveExpressions_iff hs, isWritten, List.contains_iff_mem,
    mem_writeSlots_iff]

theorem firstRead_iff {r : Nat} :
    firstAt? (isRead slot) (liveExpressions s) = some r ↔ IsLeast {a | Reads s.code slot a} r := by
  rw [firstAt?_eq_some_iff (pairwise_liveExpressions s)]
  simp only [reads_iff hs]

theorem firstRead_eq_none_iff :
    firstAt? (isRead slot) (liveExpressions s) = none ↔ ∀ a, ¬Reads s.code slot a := by
  rw [firstAt?_eq_none_iff]
  constructor
  · intro h a ha
    obtain ⟨e, hmem, hread⟩ := (reads_iff hs).mp ha
    rw [h (e, a) hmem] at hread
    cases hread
  · intro h x hx
    cases hread : isRead slot x.1 with
    | true => exact absurd ((reads_iff hs).mpr ⟨x.1, hx, hread⟩) (h x.2)
    | false => rfl

theorem firstWrite_iff {w : Nat} :
    firstAt? (isWritten slot) (liveExpressions s) = some w ↔
      IsLeast {a | Writes s.code slot a} w := by
  rw [firstAt?_eq_some_iff (pairwise_liveExpressions s)]
  simp only [writes_iff hs]

theorem firstUse_iff {a : Nat} :
    firstAt? (isUsed slot) (liveExpressions s) = some a ↔
      IsLeast {a | Reads s.code slot a ∨ Writes s.code slot a} a := by
  rw [firstAt?_eq_some_iff (pairwise_liveExpressions s)]
  simp only [reads_iff hs, writes_iff hs, isUsed, Bool.or_eq_true, and_or_left, exists_or]

theorem mem_variableUsage_iff {options : Options} {f : Finding} :
    f ∈ variableUsage options s ↔ Misuse options s f := by
  have htracks := tracks_finalUsage options s
  have hcalls : (s.code.any fun i => i.callTarget?.isSome) = false ↔
      ∀ i ∈ s.code, i.callTarget? = none := by
    simp
  rw [variableUsage_eq, List.mem_append, htracks.findings,
    mem_unread_iff (distinct_finalUsage options s), hcalls]
  constructor
  · rintro ((⟨slot, n, a, rfl, hn, ha⟩ | ⟨slot, r, rfl, htracked, hscope, hr, hw⟩)
      | ⟨slot, w, rfl, hlookup, hread, hscope⟩)
    · obtain ⟨hscope, hrange⟩ := exceeds_iff.mp hn
      exact .slotOutOfRange ((firstUse_iff hs).mp ha) hscope hrange
    · exact .readBeforeWrite ((firstRead_iff hs).mp hr)
        (fun w hleast => hw w ((firstWrite_iff hs).mpr hleast))
        (isTracked_and_iff.mp ⟨htracked, hscope⟩)
    · rw [htracks.written, Option.ite_none_right_eq_some] at hlookup
      obtain ⟨htracked, hw⟩ := hlookup
      rw [htracks.read, and_iff_right htracked, not_exists] at hread
      exact .neverRead ((firstWrite_iff hs).mp hw)
        ((firstRead_eq_none_iff hs).mp (Option.eq_none_iff_forall_ne_some.mpr hread))
        (isTracked_and_iff.mp ⟨htracked, hscope⟩)
  · intro h
    cases h with
    | @readBeforeWrite slot r hread hwrite hscope =>
        obtain ⟨htracked, hscope⟩ := isTracked_and_iff.mpr hscope
        exact Or.inl (Or.inr ⟨slot, r, rfl, htracked, hscope, (firstRead_iff hs).mpr hread,
          fun w hw => hwrite w ((firstWrite_iff hs).mp hw)⟩)
    | @neverRead slot w hwrite hread hscope =>
        obtain ⟨htracked, hscope⟩ := isTracked_and_iff.mpr hscope
        refine Or.inr ⟨slot, w, rfl, ?_, ?_, hscope⟩
        · rw [htracks.written, if_pos htracked]
          exact (firstWrite_iff hs).mpr hwrite
        · rw [htracks.read, (firstRead_eq_none_iff hs).mpr hread]
          simp
    | @slotOutOfRange slot n a huse hscope hrange =>
        exact Or.inl (Or.inl ⟨slot, n, a, rfl, exceeds_iff.mpr ⟨hscope, hrange⟩,
          (firstUse_iff hs).mpr huse⟩)

end

theorem Misuse.severity {options : Options} {s : Script} {f : Finding} (h : Misuse options s f) :
    (∃ slot declared, f.defect = .slotOutOfRange slot declared ∧ f.severity = .error)
      ∨ ∃ slot, (f.defect = .readBeforeWrite slot ∨ f.defect = .neverRead slot)
        ∧ (slot.scope = .local ∧ f.severity = .warning
          ∨ slot.scope = .temporary ∧ f.severity = .info) := by
  cases h with
  | @readBeforeWrite slot r _ _ hscope =>
      refine Or.inr ⟨slot, Or.inl rfl, ?_⟩
      rcases hscope with hlocal | ⟨htemporary, -⟩
      · exact Or.inl ⟨hlocal, if_pos hlocal⟩
      · exact Or.inr ⟨htemporary, if_neg (by simp [htemporary])⟩
  | @neverRead slot w _ _ hscope =>
      refine Or.inr ⟨slot, Or.inr rfl, ?_⟩
      rcases hscope with hlocal | ⟨htemporary, -⟩
      · exact Or.inl ⟨hlocal, if_pos hlocal⟩
      · exact Or.inr ⟨htemporary, if_neg (by simp [htemporary])⟩
  | @slotOutOfRange slot n a _ _ _ => exact Or.inl ⟨slot, n, rfl, rfl⟩

/-- The findings are exactly the misuses of slots, each with the severity
of its kind, and no slot is found twice with the same defect. -/
theorem variableUsage_reports_misuse {image : Image} {s : Script}
    (hs : Script.ofImage image = .ok s) (options : Options) :
    (∀ f, f ∈ variableUsage options s ↔ Misuse options s f)
      ∧ ((variableUsage options s).map Finding.defect).Nodup
      ∧ ∀ f ∈ variableUsage options s,
        (∃ slot declared, f.defect = .slotOutOfRange slot declared ∧ f.severity = .error)
          ∨ ∃ slot, (f.defect = .readBeforeWrite slot ∨ f.defect = .neverRead slot)
            ∧ (slot.scope = .local ∧ f.severity = .warning
              ∨ slot.scope = .temporary ∧ f.severity = .info) :=
  ⟨fun _ => mem_variableUsage_iff hs, nodup_defects_variableUsage options s,
    fun _ hf => ((mem_variableUsage_iff hs).mp hf).severity⟩

/-- Adds a temporary to a local, then sets a local that is not declared. -/
def unsetLocals : Image :=
  ⟨0x1000, "lamp", 0, 1, 2, [0x02, 0, 1, 253, 0, 0, 1, 0, 1, 3, 25, 8,
    0x02, 0, 255, 253, 3, 0, 5, 0, 1, 5, 25, 7]⟩

theorem variableUsage_reports_misuse_unsetLocals :
    ∃ s, Script.ofImage unsetLocals = .ok s
      ∧ Misuse Options.default s ⟨0, .readBeforeWrite ⟨.local, 0⟩⟩
      ∧ Misuse Options.default s ⟨0, .readBeforeWrite ⟨.temporary, 1⟩⟩
      ∧ Misuse Options.default s ⟨1, .slotOutOfRange ⟨.local, 3⟩ 1⟩
      ∧ Misuse Options.default s ⟨1, .neverRead ⟨.local, 3⟩⟩ := by
  obtain ⟨s, hs⟩ : ∃ s, Script.ofImage unsetLocals = .ok s := ⟨_, rfl⟩
  have hpass : variableUsage Options.default s = [⟨0, .readBeforeWrite ⟨.local, 0⟩⟩,
      ⟨0, .readBeforeWrite ⟨.temporary, 1⟩⟩, ⟨1, .slotOutOfRange ⟨.local, 3⟩ 1⟩,
      ⟨1, .neverRead ⟨.local, 3⟩⟩] := by
    cases hs
    decide +kernel
  obtain ⟨hmisuse, -⟩ := variableUsage_reports_misuse hs Options.default
  simp only [hpass] at hmisuse
  refine ⟨s, hs, ?_, ?_, ?_, ?_⟩ <;> exact (hmisuse _).mp (by simp)

end Lint.VariableUsage

end BehaviorScript
