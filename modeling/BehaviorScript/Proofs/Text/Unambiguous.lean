import BehaviorScript.Code.Variable
import Mathlib

/-!
# Texts that can be read back

Texts are put together from fixed words, numbers and names, and some of
them have to tell apart what they were made from. Two things are enough
for that: a separator that does not occur in front of it, or behind it,
cuts a text in one place only (`cut_at_first`, `cut_at_last`), and a number
is known by its digits (`Int.repr_inj`). Texts that end in a number
are read from the end (`number_at_end`), those that begin with a variable
from the front (`Slot.label_append_inj`).
-/

namespace BehaviorScript

namespace Text

/-! ## Separators -/

theorem cut_at_first {c : Char} {front front' rest rest' : List Char} (hfront : c ∉ front)
    (hfront' : c ∉ front') (h : front ++ c :: rest = front' ++ c :: rest') :
    front = front' ∧ rest = rest' := by
  induction front generalizing front' with
  | nil =>
      cases front' with
      | nil => exact ⟨rfl, (List.cons.inj h).2⟩
      | cons b front' =>
          obtain ⟨rfl, -⟩ := List.cons.inj h
          exact absurd (List.mem_cons_self ..) hfront'
  | cons a front ih =>
      cases front' with
      | nil =>
          obtain ⟨rfl, -⟩ := List.cons.inj h
          exact absurd (List.mem_cons_self ..) hfront
      | cons b front' =>
          obtain ⟨rfl, htail⟩ := List.cons.inj h
          obtain ⟨rfl, hrest⟩ := ih (fun hc => hfront (List.mem_cons_of_mem _ hc))
            (fun hc => hfront' (List.mem_cons_of_mem _ hc)) htail
          exact ⟨rfl, hrest⟩

theorem cut_at_last {c : Char} {front front' rest rest' : List Char} (hrest : c ∉ rest)
    (hrest' : c ∉ rest') (h : front ++ c :: rest = front' ++ c :: rest') :
    front = front' ∧ rest = rest' := by
  have hreverse := congrArg List.reverse h
  simp only [List.reverse_append, List.reverse_cons, List.append_assoc, List.singleton_append]
    at hreverse
  obtain ⟨hrest, hfront⟩ := cut_at_first (by simpa using hrest) (by simpa using hrest') hreverse
  exact ⟨List.reverse_inj.mp hfront, List.reverse_inj.mp hrest⟩

/-- A text without the separator that begins another one ends in front of
its separator. -/
theorem prefix_front {c : Char} {text front rest : List Char} (hc : c ∉ text)
    (h : text <+: front ++ c :: rest) : text <+: front := by
  obtain ⟨tail, htail⟩ := h
  rcases List.append_eq_append_iff.mp htail with ⟨mid, rfl, -⟩ | ⟨mid, rfl, hmid⟩
  · exact List.prefix_append _ _
  · cases mid with
    | nil => simp
    | cons a mid =>
        obtain ⟨rfl, -⟩ := List.cons.inj hmid
        simp at hc

/-- No two blanks meet in the text, and none is its last character. -/
def SingleBlanks (text : List Char) : Prop := ¬[' ', ' '] <:+: text ++ [' ']

instance (text : List Char) : Decidable (SingleBlanks text) := inferInstanceAs (Decidable (¬_))

theorem eq_nil_of_singleBlanks {front mid rest rest' : List Char}
    (hfront : SingleBlanks (front ++ mid))
    (h : ' ' :: ' ' :: rest = mid ++ ' ' :: ' ' :: rest') : mid = [] := by
  match mid with
  | [] => rfl
  | [a] =>
      obtain ⟨rfl, -⟩ := List.cons.inj h
      exact absurd ⟨front, [], by simp⟩ hfront
  | a :: b :: mid =>
      obtain ⟨rfl, htail⟩ := List.cons.inj h
      obtain ⟨rfl, -⟩ := List.cons.inj htail
      exact absurd ⟨front, mid ++ [' '], by simp⟩ hfront

/-- Two blanks are a separator behind a text that has single ones only. -/
theorem cut_at_blanks {front front' rest rest' : List Char} (hfront : SingleBlanks front)
    (hfront' : SingleBlanks front')
    (h : front ++ ' ' :: ' ' :: rest = front' ++ ' ' :: ' ' :: rest') :
    front = front' ∧ rest = rest' := by
  rcases List.append_eq_append_iff.mp h with ⟨mid, rfl, hmid⟩ | ⟨mid, rfl, hmid⟩
  · obtain rfl := eq_nil_of_singleBlanks hfront' hmid
    simpa using hmid
  · obtain rfl := eq_nil_of_singleBlanks hfront hmid
    simpa using hmid.symm

/-! ## Numbers -/

theorem isDigit_of_mem_toString {n : Nat} {c : Char} (h : c ∈ (toString n).toList) :
    c.isDigit = true := by
  rw [Nat.toString_eq_repr, Nat.toList_repr] at h
  exact Nat.isDigit_of_mem_toDigits (by decide) (by decide) h

theorem notMem_toString {c : Char} (hc : c.isDigit = false) (n : Nat) :
    c ∉ (toString n).toList := by
  intro hmem
  rw [isDigit_of_mem_toString hmem] at hc
  cases hc

/-- A number with another character behind it can be read back. -/
theorem number_at_front {c : Char} (hc : c.isDigit = false) {m n : Nat} {rest rest' : List Char}
    (h : (toString m).toList ++ c :: rest = (toString n).toList ++ c :: rest') :
    m = n ∧ rest = rest' := by
  obtain ⟨hnumber, hrest⟩ := cut_at_first (notMem_toString hc m) (notMem_toString hc n) h
  exact ⟨Nat.repr_inj.mp (String.toList_inj.mp hnumber), hrest⟩

theorem toString_negSucc (n : Nat) : toString (Int.negSucc n) = "-" ++ toString (n + 1) := rfl

theorem notMem_toString_int {c : Char} (hc : c.isDigit = false) (hsign : c ≠ '-') (d : Int) :
    c ∉ (toString d).toList := by
  cases d with
  | ofNat n => exact notMem_toString hc n
  | negSucc n =>
      rw [toString_negSucc, String.toList_append, List.mem_append, not_or]
      exact ⟨fun h => hsign (List.mem_singleton.mp h), notMem_toString hc _⟩

theorem blank_notMem_toString (d : Int) : ' ' ∉ (toString d).toList :=
  notMem_toString_int (by decide) (by decide) d

/-! ## The last word -/

/-- The word behind the last blank of a text can be read back, and so can
what is in front of it. -/
theorem word_at_end {front front' word word' : String} (hword : ' ' ∉ word.toList)
    (hword' : ' ' ∉ word'.toList) (h : front ++ " " ++ word = front' ++ " " ++ word') :
    front = front' ∧ word = word' := by
  have hlists : front.toList ++ ' ' :: word.toList = front'.toList ++ ' ' :: word'.toList := by
    simpa using congrArg String.toList h
  obtain ⟨hfront, hlast⟩ := cut_at_last hword hword' hlists
  exact ⟨String.toList_inj.mp hfront, String.toList_inj.mp hlast⟩

theorem number_at_end {front front' : String} {d e : Int}
    (h : front ++ " " ++ toString d = front' ++ " " ++ toString e) : front = front' ∧ d = e := by
  obtain ⟨hfront, hnumber⟩ := word_at_end (blank_notMem_toString d) (blank_notMem_toString e) h
  exact ⟨hfront, Int.repr_inj.mp hnumber⟩

end Text

/-! ## Slots -/

namespace VariableScope

theorem mem_all (scope : VariableScope) : scope ∈ all := by
  cases scope <;> decide

theorem name_injective : Function.Injective name := by
  have hnodup : (all.map name).Nodup := by decide +kernel
  intro scope scope' h
  exact List.inj_on_of_nodup_map hnodup (mem_all scope) (mem_all scope') h

theorem bracket_notMem_name (scope : VariableScope) : '[' ∉ scope.name.toList := by
  have hall : ∀ scope ∈ all, '[' ∉ scope.name.toList := by decide +kernel
  exact hall scope (mem_all scope)

end VariableScope

/-- A label at the front of a text can be read back. -/
theorem Slot.label_append_inj {slot slot' : Slot} {rest rest' : String}
    (h : slot.label ++ rest = slot'.label ++ rest') : slot = slot' ∧ rest = rest' := by
  have hlabel : ∀ (slot : Slot) (rest : String), (slot.label ++ rest).toList
      = slot.scope.name.toList ++ '[' :: ((toString slot.index.toNat).toList
        ++ ']' :: rest.toList) := by
    intro slot rest
    show ((slot.scope.name ++ "[" ++ toString slot.index.toNat ++ "]") ++ rest).toList = _
    simp
  have hlists := congrArg String.toList h
  rw [hlabel, hlabel] at hlists
  obtain ⟨hname, htail⟩ := Text.cut_at_first (VariableScope.bracket_notMem_name _)
    (VariableScope.bracket_notMem_name _) hlists
  obtain ⟨hindex, hrest⟩ := Text.number_at_front (by decide) htail
  obtain ⟨scope, index⟩ := slot
  obtain ⟨scope', index'⟩ := slot'
  obtain rfl := VariableScope.name_injective (String.toList_inj.mp hname)
  obtain rfl := UInt16.toNat_inj.mp hindex
  exact ⟨rfl, String.toList_inj.mp hrest⟩

end BehaviorScript
