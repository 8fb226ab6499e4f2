import BehaviorScript.Json.Reader
import Mathlib.Data.List.Basic

/-!
# Whole numbers of a document

A number is whole only if it was written so and fits in 64 bits; every
other literal is a double. So no whole number of a document that has been
read leaves the range of 64 bits, wherever it stands (`bounded_ofBytes?`).

The literals are the one place where numbers come from
(`inRange_number?`). The reader only moves them about: a step puts the
values of its token and of its stack together in another way
(`bounded_step`), and so does a whole run (`bounded_run`).
-/

namespace BehaviorScript

/-- A whole number fits in 64 bits, with a sign or without. -/
def JsonNumber.InRange : JsonNumber → Prop
  | .whole n => -(Nat.pow 2 63 : Nat) ≤ n ∧ n < UInt64.size
  | .double _ => True

/-- Every number in the value is in range. -/
inductive Json.Bounded : Json → Prop
  | null : Bounded .null
  | bool (value : Bool) : Bounded (.bool value)
  | number {value : JsonNumber} (h : value.InRange) : Bounded (.number value)
  | text (value : String) : Bounded (.text value)
  | array {items : List Json} (h : ∀ item ∈ items, Bounded item) : Bounded (.array items)
  | object {fields : List (String × Json)} (h : ∀ field ∈ fields, Bounded field.2) :
      Bounded (.object fields)

/-! ## Literals -/

namespace Token

theorem absorb_lt {s : Nat} (hs : s < UInt64.size) (ds : List Char) :
    (absorb s ds).1 < UInt64.size := by
  fun_induction absorb s ds with
  | case1 s => exact hs
  | case2 s d ds next hnext ih => exact ih hnext
  | case3 s d ds next hnext => exact hs

theorem inRange_number? {l : Literal} {n : JsonNumber} (h : l.number? = some n) : n.InRange := by
  have hlt : (absorb 0 l.whole).1 < UInt64.size := absorb_lt (by decide) l.whole
  unfold Literal.number? at h
  dsimp only at h
  split at h
  · cases h
    exact ⟨by omega, by exact_mod_cast hlt⟩
  · split at h
    · next hnegative =>
      cases h
      have hle : (absorb 0 l.whole).1 ≤ Nat.pow 2 63 := by simp_all
      exact ⟨by omega, by omega⟩
    · obtain ⟨m, -, rfl⟩ := Option.map_eq_some_iff.mp h
      trivial

def Bounded : Token → Prop
  | .scalar v => v.Bounded
  | _ => True

theorem bounded_scalar? {cs rest : List Char} {v : Json} (h : scalar? cs = some (v, rest)) :
    v.Bounded := by
  unfold scalar? at h
  split at h
  · unfold string? at h
    split at h
    · obtain ⟨s, -, hs⟩ := Option.map_eq_some_iff.mp h
      cases hs
      exact .text s
    · cases h
  · cases h
    exact .null
  · cases h
    exact .bool true
  · cases h
    exact .bool false
  · unfold number? at h
    split at h
    · obtain ⟨n, hn, hv⟩ := Option.map_eq_some_iff.mp h
      cases hv
      exact .number (inRange_number? hn)
    · cases h

theorem bounded_of_punctuation? {c : Char} {t : Token} (h : punctuation? c = some t) :
    t.Bounded := by
  unfold punctuation? at h
  split at h <;> cases h <;> trivial

theorem bounded_scanWith {done : List Token} (hdone : ∀ t ∈ done, t.Bounded) {fuel : Nat}
    {cs : List Char} {tokens : List Token} (h : scanWith done fuel cs = some tokens) :
    ∀ t ∈ tokens, t.Bounded := by
  fun_induction scanWith done fuel cs with
  | case1 =>
      cases h
      simpa using hdone
  | case2 => cases h
  | case3 done fuel c rest hspace ih => exact ih hdone h
  | case4 done fuel c rest hspace t ht ih =>
      exact ih (List.forall_mem_cons.mpr ⟨bounded_of_punctuation? ht, hdone⟩) h
  | case5 done fuel c rest hspace hnone v rest' hv ih =>
      exact ih (List.forall_mem_cons.mpr ⟨bounded_scalar? hv, hdone⟩) h
  | case6 => cases h

end Token

/-! ## The reader -/

namespace Json

theorem bounded_insertField {key : String} {value : Json} (hvalue : value.Bounded)
    {fields : List (String × Json)} (h : ∀ field ∈ fields, field.2.Bounded) :
    ∀ field ∈ insertField key value fields, field.2.Bounded := by
  fun_induction insertField key value fields with
  | case1 => simpa using hvalue
  | case2 k v rest hlt => exact List.forall_mem_cons.mpr ⟨hvalue, h⟩
  | case3 v rest hlt =>
      exact List.forall_mem_cons.mpr ⟨hvalue, (List.forall_mem_cons.mp h).2⟩
  | case4 k v rest hlt hne ih =>
      obtain ⟨hv, hrest⟩ := List.forall_mem_cons.mp h
      exact List.forall_mem_cons.mpr ⟨hv, ih hrest⟩

theorem bounded_record {fields : List (String × Json)} (h : ∀ field ∈ fields, field.2.Bounded) :
    (record fields).Bounded := by
  have hkept : ∀ done : List (String × Json), (∀ field ∈ done, field.2.Bounded) →
      ∀ field ∈ fields, ∀ f ∈ insertField field.1 field.2 done, f.2.Bounded :=
    fun done hdone field hfield => bounded_insertField (h field hfield) hdone
  exact .object (List.foldlRecOn fields _ (List.forall_mem_nil _) hkept)

theorem Bounded.field {j v : Json} {name : String} (hj : j.Bounded)
    (h : j.field? name = some v) : v.Bounded := by
  cases hj with
  | object hfields =>
      obtain ⟨front, back, rfl, -⟩ := List.lookup_eq_some_iff.mp h
      exact hfields (name, v) (by simp)
  | _ => cases h

theorem Bounded.nat_lt {n : Nat} (h : (nat n).Bounded) : n < UInt64.size := by
  obtain ⟨-, hlt⟩ : (JsonNumber.whole n).InRange := by
    cases h with
    | number hrange => exact hrange
  exact_mod_cast hlt

theorem Bounded.item {items : List Json} (h : (Json.array items).Bounded) :
    ∀ item ∈ items, item.Bounded := by
  cases h with
  | array hitems => exact hitems

end Json

namespace Reader

def Frame.Bounded : Frame → Prop
  | .item done => ∀ v ∈ done, v.Bounded
  | .field done _ => ∀ field ∈ done, field.2.Bounded

def State.Bounded : State → Prop
  | .value stack | .firstItem stack | .firstKey stack => ∀ frame ∈ stack, frame.Bounded
  | .key done stack | .colon done _ stack =>
    (∀ field ∈ done, field.2.Bounded) ∧ ∀ frame ∈ stack, frame.Bounded
  | .ended v stack => v.Bounded ∧ ∀ frame ∈ stack, frame.Bounded

section

variable {s s' : State} {t : Token} {stack : List Frame}

theorem bounded_beginValue? (hstack : ∀ frame ∈ stack, frame.Bounded) (ht : t.Bounded)
    (h : beginValue? stack t = some s') : s'.Bounded := by
  unfold beginValue? at h
  split at h
  · cases h
    exact ⟨ht, hstack⟩
  · split at h
    · cases h
      exact hstack
    · cases h
  · split at h
    · cases h
      exact hstack
    · cases h
  · cases h

theorem bounded_continue? {v : Json} {frame : Frame} (hv : v.Bounded) (hframe : frame.Bounded)
    (hstack : ∀ frame ∈ stack, frame.Bounded) (h : continue? v frame stack t = some s') :
    s'.Bounded := by
  unfold continue? at h
  split at h
  · cases h
    exact List.forall_mem_cons.mpr ⟨List.forall_mem_cons.mpr ⟨hv, hframe⟩, hstack⟩
  · next done =>
    cases h
    have hitems : ∀ item ∈ v :: done, item.Bounded := List.forall_mem_cons.mpr ⟨hv, hframe⟩
    exact ⟨.array fun item hitem => hitems item (List.mem_reverse.mp hitem), hstack⟩
  · cases h
    exact ⟨List.forall_mem_cons.mpr ⟨hv, hframe⟩, hstack⟩
  · next done key =>
    cases h
    have hfields : ∀ field ∈ (key, v) :: done, field.2.Bounded :=
      List.forall_mem_cons.mpr ⟨hv, hframe⟩
    exact ⟨Json.bounded_record fun field hfield => hfields field (List.mem_reverse.mp hfield),
      hstack⟩
  · cases h

/-- A step keeps the values that it was given. -/
theorem bounded_step (hs : s.Bounded) (ht : t.Bounded) (h : step s t = some s') : s'.Bounded := by
  unfold step at h
  split at h
  · exact bounded_beginValue? hs ht h
  · cases h
    exact ⟨.array nofun, hs⟩
  · have hempty : (Frame.item []).Bounded := List.forall_mem_nil _
    exact bounded_beginValue? (List.forall_mem_cons.mpr ⟨hempty, hs⟩) ht h
  · cases h
    exact ⟨.object nofun, hs⟩
  · cases h
    exact ⟨nofun, hs⟩
  · cases h
  · cases h
    exact hs
  · cases h
  · cases h
    exact List.forall_mem_cons.mpr hs
  · cases h
  · obtain ⟨hv, hstack⟩ := hs
    obtain ⟨hframe, hrest⟩ := List.forall_mem_cons.mp hstack
    exact bounded_continue? hv hframe hrest h
  · cases h

end

theorem bounded_run {s s' : State} {tokens : List Token} (hs : s.Bounded)
    (htokens : ∀ t ∈ tokens, t.Bounded) (h : run s tokens = some s') : s'.Bounded := by
  fun_induction run s tokens with
  | case1 s =>
      cases h
      exact hs
  | case2 s t ts next hnext ih =>
      obtain ⟨ht, hts⟩ := List.forall_mem_cons.mp htokens
      exact ih (bounded_step hs ht hnext) hts h
  | case3 => cases h

end Reader

theorem Json.bounded_ofBytes? {bytes : ByteArray} {j : Json} (h : Json.ofBytes? bytes = some j) :
    j.Bounded := by
  unfold Json.ofBytes? Json.parse? at h
  split at h
  · split at h
    · next tokens htokens =>
      split at h
      · next v hrun =>
        cases h
        have htokens' : ∀ t ∈ tokens, t.Bounded := Token.bounded_scanWith (by simp) htokens
        exact (Reader.bounded_run (s := .value []) (by simp [Reader.State.Bounded]) htokens' hrun).1
      · cases h
    · cases h
  · cases h

end BehaviorScript
