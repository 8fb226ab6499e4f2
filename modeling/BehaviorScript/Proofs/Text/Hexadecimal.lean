import BehaviorScript.Text.Hex
import Mathlib.Data.List.Forall2
import Mathlib.Data.List.TakeWhile

/-!
# Texts that spell bytes

What the reader of hexadecimal text accepts, said without it. A text
spells bytes if it is their encoding with some of its letters in upper
case (`Hex.Spells`), and `decode?` finds these bytes (`decode?_eq_some_iff`).
There are such bytes exactly for an even number of digits (`Hex.IsText`),
so that a text of characters outside of ASCII is refused however many
bytes they take.

Trimming takes away blanks from the ends and nothing else, up to where
the text neither begins nor ends with one (`Trims`), and there is one way
to do that (`trims_iff`).
-/

namespace BehaviorScript

namespace Hex

/-! ## Digits -/

/-- The digits of both cases. -/
def digits : List Char := "0123456789abcdefABCDEF".toList

/-- The character is the digit, in lower or in upper case. -/
def IsDigit (c d : Char) : Prop := c = d ∨ c = d.toUpper

theorem digitValue?_of_isDigit {c : Char} {n : Nat} (hn : n < 16) (h : IsDigit c (digit n)) :
    digitValue? c = some n := by
  have hupper : ∀ m : Fin 16, digitValue? (digit m.val).toUpper = some m.val := by decide
  rcases h with rfl | rfl
  · exact digitValue?_digit hn
  · exact hupper ⟨n, hn⟩

/-- The characters of a range are its first one and those behind it. -/
theorem exists_offset {c first last : Char} (hfirst : first ≤ c) (hlast : c ≤ last) :
    ∃ k, k ≤ last.toNat - first.toNat ∧ c = Char.ofNat (first.toNat + k) := by
  have hle : first.toNat ≤ c.toNat := hfirst
  have hle' : c.toNat ≤ last.toNat := hlast
  refine ⟨c.toNat - first.toNat, Nat.sub_le_sub_right hle' _, ?_⟩
  rw [Nat.add_sub_cancel' hle, Char.ofNat_toNat]

theorem isDigit_of_digitValue? {c : Char} {n : Nat} (h : digitValue? c = some n) :
    n < 16 ∧ IsDigit c (digit n) ∧ c ∈ digits := by
  have htable : digits.all (fun d => (digitValue? d).all fun k =>
      k < 16 ∧ (d = digit k ∨ d = (digit k).toUpper)) = true := by decide
  have hmem : c ∈ digits := by
    have hdecimal : ∀ k ≤ 9, Char.ofNat (48 + k) ∈ digits := by decide
    have hlower : ∀ k ≤ 5, Char.ofNat (97 + k) ∈ digits := by decide
    have hupper : ∀ k ≤ 5, Char.ofNat (65 + k) ∈ digits := by decide
    unfold digitValue? at h
    split at h
    · next hrange =>
      obtain ⟨k, hk, rfl⟩ := exists_offset hrange.1 hrange.2
      exact hdecimal k hk
    · split at h
      · next hrange =>
        obtain ⟨k, hk, rfl⟩ := exists_offset hrange.1 hrange.2
        exact hlower k hk
      · split at h
        · next hrange =>
          obtain ⟨k, hk, rfl⟩ := exists_offset hrange.1 hrange.2
          exact hupper k hk
        · cases h
  have hvalue := List.all_eq_true.mp htable c hmem
  rw [h, Option.all_some] at hvalue
  obtain ⟨hlt, hdigit⟩ := of_decide_eq_true hvalue
  exact ⟨hlt, hdigit, hmem⟩

theorem exists_digitValue? {c : Char} (h : c ∈ digits) : ∃ n, digitValue? c = some n := by
  have htable : digits.all (fun c => (digitValue? c).isSome) = true := by decide
  exact Option.isSome_iff_exists.mp (List.all_eq_true.mp htable c h)

theorem digit_inj {m n : Nat} (hm : m < 16) (hn : n < 16) (h : digit m = digit n) : m = n := by
  have hvalue := congrArg digitValue? h
  rw [digitValue?_digit hm, digitValue?_digit hn] at hvalue
  exact Option.some.inj hvalue

theorem digit_ne {c : Char} (hc : digitValue? c = none) {n : Nat} (hn : n < 16) : c ≠ digit n := by
  rintro rfl
  rw [digitValue?_digit hn] at hc
  cases hc

/-! ## Bytes -/

theorem byteDigits_inj {b b' : UInt8} (h : byteDigits b = byteDigits b') : b = b' := by
  obtain ⟨hhigh, hlow⟩ : digit (b.toNat / 16) = digit (b'.toNat / 16)
      ∧ digit (b.toNat % 16) = digit (b'.toNat % 16) := by simpa [byteDigits] using h
  have hb := b.toNat_lt
  have hb' := b'.toNat_lt
  have hdiv := digit_inj (by omega) (by omega) hhigh
  have hmod := digit_inj (by omega) (by omega) hlow
  exact UInt8.toNat_inj.mp (by omega)

/-- The text is the encoding of the bytes, in letters of either case. -/
def Spells (text : List Char) (bytes : List UInt8) : Prop :=
  List.Forall₂ IsDigit text (encode bytes).toList

/-- An even number of digits. -/
def IsText (text : List Char) : Prop := text.length % 2 = 0 ∧ ∀ c ∈ text, c ∈ digits

instance (text : List Char) : Decidable (IsText text) := inferInstanceAs (Decidable (_ ∧ _))

theorem spells_nil : Spells [] [] := List.Forall₂.nil

theorem spells_cons_iff {text : List Char} {b : UInt8} {bytes : List UInt8} :
    Spells text (b :: bytes) ↔ ∃ hi lo rest, text = hi :: lo :: rest
      ∧ IsDigit hi (digit (b.toNat / 16)) ∧ IsDigit lo (digit (b.toNat % 16))
      ∧ Spells rest bytes := by
  unfold Spells encode
  rw [String.toList_ofList, List.flatMap_cons, byteDigits, List.cons_append, List.cons_append,
    List.nil_append, String.toList_ofList]
  constructor
  · rintro (_ | ⟨hhi, _ | ⟨hlo, hrest⟩⟩)
    exact ⟨_, _, _, rfl, hhi, hlo, hrest⟩
  · rintro ⟨hi, lo, rest, rfl, hhi, hlo, hrest⟩
    exact .cons hhi (.cons hlo hrest)

theorem spells_of_decode? {text : List Char} {bytes : List UInt8} (h : decode? text = some bytes) :
    Spells text bytes := by
  fun_induction decode? text generalizing bytes with
  | case1 =>
      cases h
      exact spells_nil
  | case2 => cases h
  | case3 hi lo rest x y tail hrest hlo hhi ih =>
      cases h
      obtain ⟨hx, hhigh, -⟩ := isDigit_of_digitValue? hhi
      obtain ⟨hy, hlow, -⟩ := isDigit_of_digitValue? hlo
      have hvalue : (UInt8.ofNat (16 * x + y)).toNat = 16 * x + y := by
        rw [UInt8.toNat_ofNat', Nat.mod_eq_of_lt (by omega)]
      have hdiv : (16 * x + y) / 16 = x := by omega
      have hmod : (16 * x + y) % 16 = y := by omega
      rw [spells_cons_iff, hvalue, hdiv, hmod]
      exact ⟨hi, lo, rest, rfl, hhigh, hlow, ih hrest⟩
  | case4 => cases h

-- Over the bytes, since it is they that say how long the text is.
theorem decode?_of_spells {text : List Char} {bytes : List UInt8} (h : Spells text bytes) :
    decode? text = some bytes := by
  induction bytes generalizing text with
  | nil =>
      cases h
      rfl
  | cons b bytes ih =>
      obtain ⟨hi, lo, rest, rfl, hhi, hlo, hrest⟩ := spells_cons_iff.mp h
      have hlt : b.toNat < 256 := b.toNat_lt
      have hvalue : 16 * (b.toNat / 16) + b.toNat % 16 = b.toNat := by omega
      simp only [decode?, digitValue?_of_isDigit (by omega) hhi,
        digitValue?_of_isDigit (by omega) hlo, ih hrest, hvalue, UInt8.ofNat_toNat]

theorem decode?_eq_some_iff {text : List Char} {bytes : List UInt8} :
    decode? text = some bytes ↔ Spells text bytes :=
  ⟨spells_of_decode?, decode?_of_spells⟩

theorem isText_cons_iff {hi lo : Char} {text : List Char} :
    IsText (hi :: lo :: text) ↔ hi ∈ digits ∧ lo ∈ digits ∧ IsText text := by
  have hlength : (text.length + 1 + 1) % 2 = text.length % 2 := by omega
  unfold IsText
  simp only [List.length_cons, hlength, List.forall_mem_cons]
  exact and_left_comm.trans (and_congr_right' and_left_comm)

/-- Only the number of the characters and each of them on its own count. -/
theorem exists_decode?_iff {text : List Char} :
    (∃ bytes, decode? text = some bytes) ↔ IsText text := by
  fun_induction decode? text with
  | case1 => simp [IsText]
  | case2 => simp [IsText]
  | case3 hi lo rest x y tail hrest hlo hhi ih =>
      refine iff_of_true ⟨_, rfl⟩ (isText_cons_iff.mpr ⟨?_, ?_, ih.mp ⟨tail, hrest⟩⟩)
      · exact (isDigit_of_digitValue? hhi).2.2
      · exact (isDigit_of_digitValue? hlo).2.2
  | case4 hi lo rest hnone ih =>
      refine iff_of_false (fun ⟨_, h⟩ => nomatch h) fun htext => ?_
      obtain ⟨hhi, hlo, hrest⟩ := isText_cons_iff.mp htext
      obtain ⟨x, hx⟩ := exists_digitValue? hhi
      obtain ⟨y, hy⟩ := exists_digitValue? hlo
      obtain ⟨tail, htail⟩ := ih.mpr hrest
      exact hnone x y tail hx hy htail

/-! ## Words -/

theorem length_word (w : UInt16) : (word w).toList.length = 6 := by
  rw [word, String.toList_ofList]
  rfl

theorem word_injective : Function.Injective word := by
  intro w w' h
  rw [word, word, String.ofList_inj] at h
  simp only [List.cons.injEq, and_true, true_and] at h
  obtain ⟨h3, h2, h1, h0⟩ := h
  have hw := w.toNat_lt
  have hw' := w'.toNat_lt
  have hd3 := digit_inj (by omega) (by omega) h3
  have hd2 := digit_inj (by omega) (by omega) h2
  have hd1 := digit_inj (by omega) (by omega) h1
  have hd0 := digit_inj (by omega) (by omega) h0
  exact UInt16.toNat_inj.mp (by omega)

/-- A word at the front of a text can be read back. -/
theorem word_append_inj {w w' : UInt16} {rest rest' : List Char}
    (h : (word w).toList ++ rest = (word w').toList ++ rest') : w = w' ∧ rest = rest' := by
  obtain ⟨hword, hrest⟩ := List.append_inj h ((length_word w).trans (length_word w').symm)
  exact ⟨word_injective (String.toList_inj.mp hword), hrest⟩

theorem notMem_word {c : Char} (hc : digitValue? c = none) (hx : c ≠ 'x') (w : UInt16) :
    c ∉ (word w).toList := by
  have hw := w.toNat_lt
  have hzero : c ≠ '0' := digit_ne hc (n := 0) (by omega)
  unfold word
  rw [String.toList_ofList]
  simp only [List.mem_cons, List.not_mem_nil, or_false, not_or]
  exact ⟨hzero, hx, digit_ne hc (by omega), digit_ne hc (by omega), digit_ne hc (by omega),
    digit_ne hc (by omega)⟩

end Hex

/-! ## Blanks -/

/-- The text is `cs` without the blanks at both ends. -/
structure Trims (cs text : List Char) : Prop where
  around : ∃ front back, cs = front ++ text ++ back ∧ ∀ c ∈ front ++ back, isBlank c = true
  first : ∀ c ∈ text.head?, isBlank c = false
  last : ∀ c ∈ text.getLast?, isBlank c = false

theorem dropWhile_blank_append {front text : List Char} (hfront : ∀ c ∈ front, isBlank c = true)
    (htext : ∀ c ∈ text.head?, isBlank c = false) :
    (front ++ text).dropWhile isBlank = text := by
  rw [List.dropWhile_append_of_pos hfront]
  cases text with
  | nil => rfl
  | cons c rest => exact List.dropWhile_cons_of_neg (by simp [htext c rfl])

theorem head?_dropWhile_blank (cs : List Char) :
    ∀ c ∈ (cs.dropWhile isBlank).head?, isBlank c = false := by
  intro c hc
  have hnot := List.head?_dropWhile_not isBlank cs
  rw [hc] at hnot
  simpa using hnot

theorem exists_blank_append (cs : List Char) :
    ∃ front, cs = front ++ cs.dropWhile isBlank ∧ ∀ c ∈ front, isBlank c = true :=
  ⟨cs.takeWhile isBlank, List.takeWhile_append_dropWhile.symm,
    fun _ hc => List.mem_takeWhile_imp hc⟩

theorem trims_trimBlank (cs : List Char) : Trims cs (trimBlank cs) := by
  obtain ⟨front, hfront, hblank⟩ := exists_blank_append cs
  obtain ⟨back, hback, hblank'⟩ := exists_blank_append (cs.dropWhile isBlank).reverse
  have hrest : cs.dropWhile isBlank = trimBlank cs ++ back.reverse := by
    rw [trimBlank, ← List.reverse_append, ← hback, List.reverse_reverse]
  refine ⟨⟨front, back.reverse, ?_, ?_⟩, ?_, ?_⟩
  · rw [List.append_assoc, ← hrest, ← hfront]
  · intro c hc
    rw [List.mem_append, List.mem_reverse] at hc
    exact hc.elim (hblank c) (hblank' c)
  · -- what is left of the front after the second cut is where the first one stopped
    intro c hc
    refine head?_dropWhile_blank cs c ?_
    rw [hrest, List.head?_append, hc]
    rfl
  · intro c hc
    rw [trimBlank, List.getLast?_reverse] at hc
    exact head?_dropWhile_blank _ c hc

theorem trimBlank_of_trims {cs text : List Char} (h : Trims cs text) : trimBlank cs = text := by
  obtain ⟨front, back, rfl, hblank⟩ := h.around
  have hfront : ∀ c ∈ front, isBlank c = true := fun c hc => hblank c (List.mem_append_left _ hc)
  have hback : ∀ c ∈ back.reverse, isBlank c = true := fun c hc =>
    hblank c (List.mem_append_right _ (List.mem_reverse.mp hc))
  cases htext : text with
  | nil =>
      have hnone : (front ++ [] ++ back).dropWhile isBlank = [] := by
        rw [List.append_nil, ← List.append_nil (front ++ back)]
        exact dropWhile_blank_append hblank nofun
      rw [trimBlank, hnone]
      rfl
  | cons c rest =>
      have hfirst : ∀ d ∈ (text ++ back).head?, isBlank d = false := by
        intro d hd
        refine h.first d ?_
        rwa [htext] at hd ⊢
      have hlast : ∀ d ∈ text.reverse.head?, isBlank d = false := by
        rw [List.head?_reverse]
        exact h.last
      rw [← htext, trimBlank, List.append_assoc, dropWhile_blank_append hfront hfirst,
        List.reverse_append, dropWhile_blank_append hback hlast, List.reverse_reverse]

theorem trims_iff {cs text : List Char} : Trims cs text ↔ trimBlank cs = text := by
  constructor
  · exact trimBlank_of_trims
  · rintro rfl
    exact trims_trimBlank cs

end BehaviorScript
