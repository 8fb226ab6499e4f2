import BehaviorScript.Proofs.Code.Records
import Mathlib.Logic.Function.Basic
import Mathlib.Tactic.SplitIfs
import Mathlib.Tactic.Tauto

/-!
# What operands keep of their bytes

Reading the operand bytes of an instruction gives up only what the layout
of the opcode leaves unused: the last four bytes of a call through the
opcode, the last two of a `gosub`, and the seven upper bits of the flag
byte of an expression (`OperandBytes.AgreeUnder`).

Everything else can be read back. The tables of scopes and operators are
read back by place, and a code behind their end is kept as it is
(`Variable.code_decode`, `Operator.code_ofCode`), so that no known variable
or operator stands for the code of another one, known or not. The issues
of an operand are found on what was read; `issues_decode` finds them on
the codes and bits themselves, hence they depend on nothing that is given
up.
-/

namespace BehaviorScript

/-! ## Codes -/

namespace Operator

/-- A code below 20 is the place of an operator; any other code is kept. -/
theorem forall_ofCode {P : UInt8 → Operator → Prop}
    (hknown : ∀ n : Fin all.length, P (UInt8.ofNat n.val) (all.get n))
    (hunknown : ∀ code : UInt8, 20 ≤ code → P code (.unknown code)) (code : UInt8) :
    P code (ofCode code) := by
  unfold ofCode
  cases hop : all[code.toNat]? with
  | none =>
      refine hunknown code (UInt8.le_iff_toNat_le.mpr ?_)
      exact List.getElem?_eq_none_iff.mp hop
  | some op =>
      obtain ⟨hlt, rfl⟩ := List.getElem?_eq_some_iff.mp hop
      have hplace := hknown ⟨code.toNat, hlt⟩
      rwa [UInt8.ofNat_toNat] at hplace

theorem code_ofCode (code : UInt8) : (ofCode code).code = code :=
  forall_ofCode (P := fun code op => op.code = code) (by decide) (fun _ _ => rfl) code

theorem ofCode_injective : Function.Injective ofCode :=
  Function.LeftInverse.injective code_ofCode

theorem ofCode_of_le {code : UInt8} : 20 ≤ code → ofCode code = .unknown code :=
  forall_ofCode (P := fun code op => 20 ≤ code → op = .unknown code) (by decide)
    (fun _ _ _ => rfl) code

/-- The codes of the assignments; a push counts as one. -/
def assignmentCodes : List UInt8 := [3, 4, 5, 6, 7, 9, 10, 12, 13, 18, 19]

/-- The codes of the operators that write the left side. -/
def writingCodes : List UInt8 := [3, 4, 5, 6, 7, 9, 10, 11, 12, 13, 17, 19]

-- as a check of the list, so that deciding it never turns to all bytes
theorem notMem_of_le {codes : List UInt8} (hcodes : codes.all (fun c => c < 20) = true)
    {code : UInt8} (h : 20 ≤ code) : code ∉ codes := by
  intro hmem
  have hlt : code < 20 := of_decide_eq_true (List.all_eq_true.mp hcodes code hmem)
  exact UInt8.not_lt.mpr h hlt

theorem kind?_ofCode_eq_none_iff (code : UInt8) : (ofCode code).kind? = none ↔ 20 ≤ code :=
  forall_ofCode (P := fun code op => op.kind? = none ↔ 20 ≤ code) (by decide)
    (fun _ h => iff_of_true rfl h) code

theorem kind?_ofCode_eq_assignment_iff (code : UInt8) :
    (ofCode code).kind? = some .assignment ↔ code ∈ assignmentCodes :=
  forall_ofCode (P := fun code op => op.kind? = some .assignment ↔ code ∈ assignmentCodes)
    (by decide) (fun _ h => iff_of_false nofun (notMem_of_le rfl h)) code

theorem writesLeft_ofCode (code : UInt8) :
    (ofCode code).writesLeft = true ↔ code ∈ writingCodes :=
  forall_ofCode (P := fun code op => op.writesLeft = true ↔ code ∈ writingCodes)
    (by decide) (fun _ h => iff_of_false nofun (notMem_of_le rfl h)) code

theorem readsRight_ofCode (code : UInt8) : (ofCode code).readsRight = true ↔ code < 18 := by
  refine forall_ofCode (P := fun code op => op.readsRight = true ↔ code < 18) (by decide) ?_ code
  intro code h
  refine iff_of_false nofun (UInt8.not_lt.mpr (UInt8.le_trans ?_ h))
  decide

end Operator

theorem VariableScope.ofCode?_eq_none_iff {code : UInt8} : ofCode? code = none ↔ 27 ≤ code := by
  rw [ofCode?, List.getElem?_eq_none_iff, UInt8.le_iff_toNat_le]
  rfl

namespace Variable

theorem decode_eq_decode_iff {code code' : UInt8} {data data' : UInt16} :
    decode code data = decode code' data' ↔ code = code' ∧ data = data' := by
  constructor
  · intro h
    have hcode := congrArg Variable.code h
    have hdata := congrArg Variable.data h
    rw [code_decode, code_decode] at hcode
    rw [data_decode, data_decode] at hdata
    exact ⟨hcode, hdata⟩
  · rintro ⟨rfl, rfl⟩
    rfl

theorem scope?_decode (code : UInt8) (data : UInt16) :
    (decode code data).scope? = VariableScope.ofCode? code := by
  unfold decode
  split <;> simp_all [scope?]

theorem isConstant_decode (code : UInt8) (data : UInt16) :
    (decode code data).isConstant = true ↔ code = 7 ∨ code = 26 := by
  have htable : ∀ scope ∈ VariableScope.all, scope.isConstant = true ↔
      UInt8.ofNat scope.code = 7 ∨ UInt8.ofNat scope.code = 26 := by decide
  unfold isConstant
  rw [scope?_decode]
  cases hscope : VariableScope.ofCode? code with
  | none =>
      refine iff_of_false Bool.false_ne_true ?_
      have hle := VariableScope.ofCode?_eq_none_iff.mp hscope
      rintro (rfl | rfl)
      · exact absurd hle (by decide)
      · exact absurd hle (by decide)
  | some scope =>
      have hmem := htable scope (List.mem_of_getElem? hscope)
      rwa [VariableScope.code_of_ofCode? hscope] at hmem

end Variable

/-! ## Layouts -/

theorem wordOfBytes_eq_iff {low high low' high' : UInt8} :
    wordOfBytes low high = wordOfBytes low' high' ↔ low = low' ∧ high = high' := by
  constructor
  · intro h
    have hlow := congrArg lowByte h
    have hhigh := congrArg highByte h
    rw [lowByte_wordOfBytes, lowByte_wordOfBytes] at hlow
    rw [highByte_wordOfBytes, highByte_wordOfBytes] at hhigh
    exact ⟨hlow, hhigh⟩
  · rintro ⟨rfl, rfl⟩
    rfl

theorem and_one_eq_mod_two (b : UInt8) : b &&& 1 = b % 2 := by
  apply UInt8.toNat_inj.mp
  rw [UInt8.toNat_and, UInt8.toNat_mod]
  exact Nat.and_one_is_mod _

/-- The lowest bit of a byte is known by whether it is set. -/
theorem and_one_eq_iff {b c : UInt8} : b &&& 1 = c &&& 1 ↔ (b % 2 = 1 ↔ c % 2 = 1) := by
  have hbit : ∀ b : UInt8, (b % 2).toNat = b.toNat % 2 := fun b => UInt8.toNat_mod b 2
  rw [and_one_eq_mod_two, and_one_eq_mod_two]
  simp only [← UInt8.toNat_inj, hbit, UInt8.reduceToNat]
  omega

/-- The bytes agree as far as the layout of the opcode uses them. -/
def OperandBytes.AgreeUnder (opcode : UInt16) (x y : OperandBytes) : Prop :=
  if 0x0100 ≤ opcode then x.toList.take 4 = y.toList.take 4
  else if opcode = 0x1C then x.toList.take 6 = y.toList.take 6
  else if opcode = 0x02 then { x with b4 := x.b4 &&& 1 } = { y with b4 := y.b4 &&& 1 }
  else x = y

namespace Expression

theorem decode_eq_decode_iff {x y : OperandBytes} :
    decode x = decode y ↔ { x with b4 := x.b4 &&& 1 } = { y with b4 := y.b4 &&& 1 } := by
  simp only [decode, Expression.mk.injEq, Variable.decode_eq_decode_iff, wordOfBytes_eq_iff,
    Operator.ofCode_injective.eq_iff, decide_eq_decide, OperandBytes.mk.injEq, and_one_eq_iff]
  tauto

end Expression

namespace Operand

theorem schemaOf_eq (opcode : UInt16) :
    schemaOf opcode = if opcode = 0x1C then .call else if opcode = 0x02 then .expression
      else .raw := by
  have hcatalog : ∀ p ∈ Primitive.catalog, p.schema = if p.opcode = 0x1C then .call
      else if p.opcode = 0x02 then .expression else .raw := by decide
  unfold schemaOf
  cases hfind : Primitive.find? opcode with
  | some p =>
      have hopcode : p.opcode = opcode := by simpa using List.find?_some hfind
      rw [← hopcode]
      exact hcatalog p (List.mem_of_find?_eq_some hfind)
  | none =>
      have hgosub : opcode ≠ 0x1C := by
        rintro rfl
        exact absurd hfind (by decide)
      have hexpression : opcode ≠ 0x02 := by
        rintro rfl
        exact absurd hfind (by decide)
      rw [if_neg hgosub, if_neg hexpression]

theorem isCallOpcode_iff {opcode : UInt16} : isCallOpcode opcode = true ↔ 0x0100 ≤ opcode :=
  decide_eq_true_iff

theorem decode_eq_decode_iff {opcode : UInt16} {x y : OperandBytes} :
    decode opcode x = decode opcode y ↔ x.AgreeUnder opcode y := by
  unfold decode OperandBytes.AgreeUnder
  rw [schemaOf_eq]
  simp only [isCallOpcode_iff]
  split_ifs with hcall hgosub hexpression
  · simp [OperandBytes.toList]
  · simp [OperandBytes.toList, wordOfBytes_eq_iff, and_assoc]
  · simp [Expression.decode_eq_decode_iff]
  · simp

end Operand

/-! ## Issues -/

namespace Expression

/-- What is wrong with the bytes of an expression, by the codes and bits
that they hold. -/
def issuesOfBytes (b : OperandBytes) : List OperandIssue :=
  let operator := Operator.ofCode b.b5
  let flag : Bool := b.b4 &&& 1 = 1
  (if 27 ≤ b.b6 then [.unknownScope .left b.b6] else [])
    ++ (if b.b5 < 18 ∧ 27 ≤ b.b7 then [.unknownScope .right b.b7] else [])
    ++ (if 20 ≤ b.b5 then [.unknownOperator b.b5]
      else if flag = decide (b.b5 ∈ Operator.assignmentCodes) then []
      else [.flagMismatch flag operator])
    ++ (if b.b5 ∈ Operator.writingCodes ∧ (b.b6 = 7 ∨ b.b6 = 26) then
        [.constantWrite operator (Variable.decode b.b6 (wordOfBytes b.b0 b.b1))]
      else [])

theorem scopeIssue_decode (side : Side) (code : UInt8) (data : UInt16) :
    scopeIssue side (Variable.decode code data)
      = if 27 ≤ code then [.unknownScope side code] else [] := by
  have hunknown : VariableScope.ofCode? code = none ↔ 27 ≤ code :=
    VariableScope.ofCode?_eq_none_iff
  unfold Variable.decode
  split <;> simp_all [scopeIssue]

theorem operatorIssue_of_kind? {e : Expression} (h : e.operator.kind? ≠ none) :
    e.operatorIssue = if e.assignmentFlag = decide (e.operator.kind? = some .assignment) then []
      else [.flagMismatch e.assignmentFlag e.operator] := by
  unfold operatorIssue
  split
  · next hoperator =>
    rw [hoperator] at h
    exact absurd rfl h
  · rfl

theorem operatorIssue_of_unknown {e : Expression} {code : UInt8} (h : e.operator = .unknown code) :
    e.operatorIssue = [.unknownOperator code] := by
  unfold operatorIssue
  rw [h]

theorem operatorIssue_decode (b : OperandBytes) :
    (decode b).operatorIssue = if 20 ≤ b.b5 then [.unknownOperator b.b5]
      else if decide (b.b4 &&& 1 = 1) = decide (b.b5 ∈ Operator.assignmentCodes) then []
      else [.flagMismatch (decide (b.b4 &&& 1 = 1)) (Operator.ofCode b.b5)] := by
  have hflag : (decode b).assignmentFlag = decide (b.b4 &&& 1 = 1) :=
    decide_eq_decide.mpr (by rw [and_one_eq_mod_two])
  by_cases hunknown : 20 ≤ b.b5
  · rw [if_pos hunknown]
    exact operatorIssue_of_unknown (Operator.ofCode_of_le hunknown)
  · have hkind : (decode b).operator.kind? ≠ none :=
      fun h => hunknown ((Operator.kind?_ofCode_eq_none_iff b.b5).mp h)
    have hassigns : decide ((decode b).operator.kind? = some .assignment)
        = decide (b.b5 ∈ Operator.assignmentCodes) :=
      decide_eq_decide.mpr (Operator.kind?_ofCode_eq_assignment_iff b.b5)
    rw [if_neg hunknown, operatorIssue_of_kind? hkind, hflag, hassigns]
    rfl

theorem issues_decode (b : OperandBytes) : (decode b).issues = issuesOfBytes b := by
  have hright : (decode b).operator.readsRight = true ↔ b.b5 < 18 :=
    Operator.readsRight_ofCode b.b5
  have hwrite : (decode b).operator.writesLeft = true ↔ b.b5 ∈ Operator.writingCodes :=
    Operator.writesLeft_ofCode b.b5
  have hconstant : (decode b).left.isConstant = true ↔ b.b6 = 7 ∨ b.b6 = 26 :=
    Variable.isConstant_decode _ _
  have hleft : scopeIssue .left (decode b).left
      = if 27 ≤ b.b6 then [.unknownScope .left b.b6] else [] := scopeIssue_decode _ _ _
  have hother : scopeIssue .right (decode b).right
      = if 27 ≤ b.b7 then [.unknownScope .right b.b7] else [] := scopeIssue_decode _ _ _
  unfold issues issuesOfBytes writeIssue
  simp only [Bool.and_eq_true, hright, hwrite, hconstant, hleft, hother, operatorIssue_decode,
    ite_and]
  rfl

end Expression

namespace Operand

/-- What is wrong with the operand bytes of an opcode. -/
def issuesOfBytes (opcode : UInt16) (b : OperandBytes) : List OperandIssue :=
  if opcode = 0x02 then Expression.issuesOfBytes b else []

theorem issues_decode (opcode : UInt16) (b : OperandBytes) :
    (decode opcode b).issues = issuesOfBytes opcode b := by
  unfold decode issuesOfBytes
  rw [schemaOf_eq]
  by_cases hexpression : opcode = 0x02
  · subst hexpression
    exact Expression.issues_decode b
  · simp only [if_neg hexpression]
    split_ifs <;> rfl

/-- Operands are equal exactly when the bytes agree as far as they are
used, and then so are the issues; and the codes are there to be read. -/
theorem decode_loses_unused_bits :
    (∀ opcode x y, (decode opcode x = decode opcode y ↔ x.AgreeUnder opcode y)
        ∧ (decode opcode x = decode opcode y → issuesOfBytes opcode x = issuesOfBytes opcode y))
      ∧ (∀ opcode x, (decode opcode x).issues = issuesOfBytes opcode x)
      ∧ (∀ code data, (Variable.decode code data).code = code
        ∧ (Variable.decode code data).data = data)
      ∧ ∀ code, (Operator.ofCode code).code = code := by
  refine ⟨fun opcode x y => ⟨decode_eq_decode_iff, fun h => ?_⟩, issues_decode,
    fun code data => ⟨Variable.code_decode code data, Variable.data_decode code data⟩,
    Operator.code_ofCode⟩
  rw [← issues_decode, ← issues_decode, h]

/-- Subtracts a tuning entry from an unknown place, with two flag bytes
that differ above the flag. -/
theorem decode_loses_unused_bits_flagByte :
    (⟨0x34, 0x12, 0x85, 1, 0xFE, 4, 40, 26⟩ : OperandBytes) ≠ ⟨0x34, 0x12, 0x85, 1, 0, 4, 40, 26⟩
      ∧ decode 0x02 ⟨0x34, 0x12, 0x85, 1, 0xFE, 4, 40, 26⟩
        = decode 0x02 ⟨0x34, 0x12, 0x85, 1, 0, 4, 40, 26⟩
      ∧ issuesOfBytes 0x02 ⟨0x34, 0x12, 0x85, 1, 0xFE, 4, 40, 26⟩
        = issuesOfBytes 0x02 ⟨0x34, 0x12, 0x85, 1, 0, 4, 40, 26⟩
      ∧ issuesOfBytes 0x02 ⟨0x34, 0x12, 0x85, 1, 0, 4, 40, 26⟩
        = [.unknownScope .left 40, .flagMismatch false .subtract] := by
  obtain ⟨hpair, -⟩ := decode_loses_unused_bits
  obtain ⟨hagree, hissues⟩ := hpair 0x02 ⟨0x34, 0x12, 0x85, 1, 0xFE, 4, 40, 26⟩
    ⟨0x34, 0x12, 0x85, 1, 0, 4, 40, 26⟩
  have hdecode := hagree.mpr rfl
  exact ⟨by decide, hdecode, hissues hdecode, by decide⟩

end Operand

end BehaviorScript
