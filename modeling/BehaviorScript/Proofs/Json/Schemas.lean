import BehaviorScript.Json.Schema
import Mathlib.Data.List.Forall2

/-!
# Values that were read, values that passed

Two descriptions of a value stand side by side: the readers that turn it
into a number, a text or a list, and the schemas that it is checked with.
Here is what each of them says of the value.

A reader that succeeds has found one value (`natUpTo?_eq_some_iff` and its
like). A schema that finds nothing wrong leaves, keyword by keyword, a fact
about the value (`Passes`). Where the two meet is the type `integer`: a
double without a fraction passes it, and no reader of whole numbers takes
it (`exists_natUpTo?_iff`).
-/

namespace BehaviorScript

/-- Reading all of a list pairs each member with what it is read as. -/
theorem mapM_eq_some_iff {α β : Type} {read : α → Option β} {xs : List α} {ys : List β} :
    xs.mapM read = some ys ↔ List.Forall₂ (fun x y => read x = some y) xs ys := by
  induction xs generalizing ys with
  | nil => cases ys <;> simp
  | cons x xs ih =>
      rw [List.mapM_cons, List.forall₂_cons_left_iff]
      simp only [Option.bind_eq_bind, Option.pure_def, Option.bind_eq_some_iff, Option.some.injEq,
        ih]
      constructor
      · rintro ⟨y, hy, rest, hrest, rfl⟩
        exact ⟨y, rest, hy, hrest, rfl⟩
      · rintro ⟨y, rest, hy, hrest, rfl⟩
        exact ⟨y, hy, rest, hrest, rfl⟩

theorem exists_mapM_iff {α β : Type} {read : α → Option β} {xs : List α} :
    (∃ ys, xs.mapM read = some ys) ↔ ∀ x ∈ xs, ∃ y, read x = some y := by
  induction xs with
  | nil => simp
  | cons x xs ih =>
      rw [List.forall_mem_cons, ← ih]
      simp only [List.mapM_cons, Option.bind_eq_bind, Option.pure_def, Option.bind_eq_some_iff,
        Option.some.injEq]
      constructor
      · rintro ⟨_, y, hy, rest, hrest, -⟩
        exact ⟨⟨y, hy⟩, rest, hrest⟩
      · rintro ⟨⟨y, hy⟩, rest, hrest⟩
        exact ⟨y :: rest, y, hy, rest, hrest, rfl⟩

/-! ## Reading -/

namespace Json

theorem natUpTo?_eq_some_iff {max n : Nat} {j : Json} :
    j.natUpTo? max = some n ↔ n ≤ max ∧ j = .nat n := by
  constructor
  · intro h
    unfold natUpTo? whole? at h
    split at h
    · next value hvalue =>
      split at h
      · next hrange =>
        cases h
        split at hvalue
        · cases hvalue
          refine ⟨by omega, ?_⟩
          rw [nat, Int.toNat_of_nonneg hrange.1]
        · cases hvalue
      · cases h
    · cases h
  · rintro ⟨hmax, rfl⟩
    simp [natUpTo?, nat, whole?, hmax]

theorem text?_eq_some_iff {s : String} {j : Json} : j.text? = some s ↔ j = .text s := by
  cases j <;> simp [text?]

theorem array?_eq_some_iff {items : List Json} {j : Json} :
    j.array? = some items ↔ j = .array items := by
  cases j <;> simp [array?]

end Json

/-! ## Passing -/

namespace JsonType

/-- The values that have a type. A whole number is some number. -/
def Shape : JsonType → Json → Prop
  | .array, j => ∃ items, j = .array items
  | .boolean, j => ∃ value, j = .bool value
  | .integer, j => ∃ value, j = .number value
  | .null, j => j = .null
  | .object, j => ∃ fields, j = .object fields
  | .string, j => ∃ value, j = .text value

theorem shape_of_admits {t : JsonType} {j : Json} (h : t.admits j = true) : t.Shape j := by
  cases t <;> cases j <;> simp_all [admits, Shape]

end JsonType

namespace Schema

/-- Nothing is wrong with the value, wherever it stands. -/
def Passes (schema : Schema) (j : Json) : Prop := ∃ pointer, check pointer j schema = []

theorem eq_of_sameScalar {j value : Json} (h : sameScalar j value = true) : j = value := by
  cases j <;> cases value <;> simp_all [sameScalar]

theorem check_eq_nil_iff {pointer : String} {j : Json} {schema : Schema} :
    check pointer j schema = [] ↔ ∀ keyword ∈ schema, checkKeyword pointer j keyword = [] := by
  induction schema with
  | nil => simp [check]
  | cons keyword rest ih => rw [check, List.append_eq_nil_iff, ih, List.forall_mem_cons]

theorem checkProperties_eq_nil_iff {pointer : String} {j : Json}
    {schemas : List (String × Schema)} :
    checkProperties pointer j schemas = [] ↔ ∀ entry ∈ schemas, ∀ v ∈ j.field? entry.1,
      check s!"{pointer}/{entry.1}" v entry.2 = [] := by
  induction schemas with
  | nil => simp [checkProperties]
  | cons entry rest ih =>
      rw [checkProperties, List.append_eq_nil_iff, ih, List.forall_mem_cons]
      refine and_congr_left' ?_
      cases j.field? entry.1 <;> simp

namespace Passes

variable {schema : Schema} {j : Json}

theorem keyword (h : schema.Passes j) {keyword : Keyword} (hmem : keyword ∈ schema) :
    ∃ pointer, checkKeyword pointer j keyword = [] := by
  obtain ⟨pointer, hcheck⟩ := h
  exact ⟨pointer, check_eq_nil_iff.mp hcheck keyword hmem⟩

theorem type (h : schema.Passes j) {types : List JsonType} (hmem : .type types ∈ schema) :
    ∃ t ∈ types, t.admits j = true := by
  obtain ⟨pointer, hcheck⟩ := h.keyword hmem
  rw [checkKeyword, checkType] at hcheck
  split at hcheck
  · next hany => exact List.any_eq_true.mp hany
  · cases hcheck

theorem admits (h : schema.Passes j) {t : JsonType} (hmem : .type [t] ∈ schema) :
    t.admits j = true := by
  obtain ⟨t', ht, hadmits⟩ := h.type hmem
  rwa [List.mem_singleton.mp ht] at hadmits

theorem minimum {n : JsonNumber} (h : schema.Passes (.number n)) {limit : Nat}
    (hmem : .minimum limit ∈ schema) : n.isBelow limit = false := by
  obtain ⟨pointer, hcheck⟩ := h.keyword hmem
  rw [checkKeyword, checkMinimum] at hcheck
  split at hcheck
  · cases hcheck
  · next hnot => exact Bool.eq_false_iff.mpr hnot

theorem maximum {n : JsonNumber} (h : schema.Passes (.number n)) {limit : Nat}
    (hmem : .maximum limit ∈ schema) : n.exceeds limit = false := by
  obtain ⟨pointer, hcheck⟩ := h.keyword hmem
  rw [checkKeyword, checkMaximum] at hcheck
  split at hcheck
  · cases hcheck
  · next hnot => exact Bool.eq_false_iff.mpr hnot

theorem enum (h : schema.Passes j) {values : List Json} (hmem : .enum values ∈ schema) :
    j ∈ values := by
  obtain ⟨pointer, hcheck⟩ := h.keyword hmem
  rw [checkKeyword, checkEnum] at hcheck
  split at hcheck
  · next hany =>
    obtain ⟨value, hvalue, hsame⟩ := List.any_eq_true.mp hany
    rwa [eq_of_sameScalar hsame]
  · cases hcheck

theorem items {items : List Json} (h : schema.Passes (.array items)) {inner : Schema}
    (hmem : .items inner ∈ schema) : ∀ item ∈ items, inner.Passes item := by
  obtain ⟨pointer, hcheck⟩ := h.keyword hmem
  rw [checkKeyword, List.flatten_eq_nil_iff] at hcheck
  intro item hitem
  obtain ⟨i, hi⟩ := List.getElem?_of_mem hitem
  refine ⟨s!"{pointer}/{i}", hcheck _ (List.mem_of_getElem? (i := i) ?_)⟩
  rw [List.getElem?_mapIdx, hi, Option.map_some]

theorem properties (h : schema.Passes j) {schemas : List (String × Schema)}
    (hmem : .properties schemas ∈ schema) :
    ∀ p ∈ schemas, ∀ v ∈ j.field? p.1, p.2.Passes v := by
  obtain ⟨pointer, hcheck⟩ := h.keyword hmem
  rw [checkKeyword, checkProperties_eq_nil_iff] at hcheck
  exact fun p hp v hv => ⟨_, hcheck p hp v hv⟩

theorem required {fields : List (String × Json)} (h : schema.Passes (.object fields))
    {names : List String} (hmem : .required names ∈ schema) :
    ∀ name ∈ names, ∃ v, (Json.object fields).field? name = some v := by
  obtain ⟨pointer, hcheck⟩ := h.keyword hmem
  rw [checkKeyword, checkRequired, List.map_eq_nil_iff, List.filter_eq_nil_iff] at hcheck
  intro name hname
  have hsome := hcheck name hname
  rw [Option.isNone_iff_eq_none] at hsome
  exact Option.ne_none_iff_exists'.mp hsome

/-- The schema of a record: it is an object, it has what it must have, and
what it has passes. -/
theorem record {schemas : List (String × Schema)} {names : List String}
    (h : Schema.Passes [.properties schemas, .required names, .type [.object]] j) :
    (∃ fields, j = .object fields) ∧ (∀ name ∈ names, ∃ v, j.field? name = some v)
      ∧ ∀ p ∈ schemas, ∀ v ∈ j.field? p.1, p.2.Passes v := by
  obtain ⟨fields, rfl⟩ := JsonType.shape_of_admits (h.admits (t := .object) (by simp))
  exact ⟨⟨fields, rfl⟩, h.required (by simp), h.properties (by simp)⟩

end Passes

theorem passes_of_violations {schema : Schema} {j : Json} (h : violations schema j = []) :
    schema.Passes j := ⟨"", h⟩

end Schema

/-! ## Whole numbers that no reader takes -/

namespace Json

/-- A number that passes for a whole one and is not read as one up to
`max`: it is a double, or greater. -/
def Misfit (max : Nat) (j : Json) : Prop :=
  (∃ d, j = .number (.double d)) ∨ ∃ n : Nat, max < n ∧ j = .nat n

variable {schema : Schema} {j : Json}

theorem exists_natUpTo?_iff (h : schema.Passes j) (hinteger : JsonType.integer.admits j = true)
    (hminimum : .minimum 0 ∈ schema) (max : Nat) :
    (∃ n, j.natUpTo? max = some n) ↔ ¬j.Misfit max := by
  cases j with
  | number value =>
      have hbelow := h.minimum hminimum
      cases value with
      | whole value =>
          have hnonneg : 0 ≤ value := by simpa [JsonNumber.isBelow] using hbelow
          obtain ⟨n, rfl⟩ := Int.eq_ofNat_of_zero_le hnonneg
          simp only [natUpTo?_eq_some_iff, Misfit, nat, number.injEq, JsonNumber.whole.injEq,
            Int.ofNat_inj]
          simp
      | double d => simp [natUpTo?_eq_some_iff, Misfit, nat]
  | _ => cases hinteger

theorem misfit_iff_double (h : schema.Passes j) {max : Nat} (hmaximum : .maximum max ∈ schema) :
    j.Misfit max ↔ ∃ d, j = .number (.double d) := by
  refine or_iff_left ?_
  rintro ⟨n, hlt, rfl⟩
  have hexceeds := h.maximum hmaximum
  simp [JsonNumber.exceeds] at hexceeds
  omega

end Json

end BehaviorScript
