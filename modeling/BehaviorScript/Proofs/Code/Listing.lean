import BehaviorScript.Code.Instruction
import BehaviorScript.Proofs.Code.Operands
import BehaviorScript.Proofs.Text.Hexadecimal
import BehaviorScript.Proofs.Text.Unambiguous

/-!
# Lines that can be read back

A line of a listing is put together without quotes or fixed columns, from
names and symbols with blanks in them. Still no two instructions share a
line unless they agree in all that the line is meant to show
(`Instruction.line_inj`). It is read in this order:

- the pointers are the last two words;
- the index is in front of the first colon;
- the mnemonic goes on to the first two blanks in a row, since no mnemonic
  has two of them (`Instruction.singleBlanks_mnemonic`), and it tells the
  opcode, hence the layout of the operand;
- a variable in brackets goes on to the first `]`, a literal to its second
  blank (`Variable.label_append_inj`);
- a symbol with a blank behind it does not begin another such symbol
  (`Operator.symbol_append_inj`).

Two things are not shown: the assignment flag, and which code it is that
an unknown operator has. `Operand.shown` leaves them out.
-/

namespace BehaviorScript

/-! ## Index and mnemonic -/

theorem ofDigitChars_indexLabel (index : Nat) :
    Nat.ofDigitChars 10 (indexLabel index).toList 0 = index := by
  unfold indexLabel
  rw [String.toList_ofList, Nat.ofDigitChars_append, Nat.ofDigitChars_replicate_zero, Nat.mul_zero,
    Nat.toString_eq_ofList_toDigits, String.toList_ofList, Nat.ofDigitChars_ten_toDigits]

theorem notMem_indexLabel {c : Char} (hc : c.isDigit = false) (index : Nat) :
    c ∉ (indexLabel index).toList := by
  have hzero : c ≠ '0' := by
    rintro rfl
    cases hc
  unfold indexLabel
  rw [String.toList_ofList, List.mem_append, List.mem_replicate, not_or]
  exact ⟨fun h => hzero h.2, Text.notMem_toString hc index⟩

namespace Instruction

/-- The mnemonic is a name of the catalog, or shows the opcode in full. -/
theorem mnemonic_cases (i : Instruction) :
    (∃ p ∈ Primitive.catalog, p.opcode = i.opcode ∧ i.mnemonic = p.name)
      ∨ ∃ kind ∈ ["call ", "prim "], i.mnemonic = kind ++ Hex.word i.opcode := by
  unfold mnemonic primitive?
  split
  · exact .inr ⟨"call ", by simp, rfl⟩
  · cases hfind : Primitive.find? i.opcode with
    | none => exact .inr ⟨"prim ", by simp, rfl⟩
    | some p =>
        refine .inl ⟨p, List.mem_of_find?_eq_some hfind, ?_, rfl⟩
        simpa using List.find?_some hfind

theorem singleBlanks_mnemonic (i : Instruction) : Text.SingleBlanks i.mnemonic.toList := by
  have hnames : ∀ p ∈ Primitive.catalog, Text.SingleBlanks p.name.toList := by decide +kernel
  rcases mnemonic_cases i with ⟨p, hp, -, hname⟩ | ⟨kind, hkind, hname⟩
  · rw [hname]
    exact hnames p hp
  · have hdigit : ∀ n, ' ' ≠ Hex.digit (n % 16) := fun n =>
      Hex.digit_ne (by decide) (Nat.mod_lt n (by decide))
    rw [hname, String.toList_append]
    unfold Hex.word
    rw [String.toList_ofList]
    simp only [List.mem_cons, List.not_mem_nil, or_false] at hkind
    rcases hkind with rfl | rfl
    · simp [Text.SingleBlanks, List.infix_cons_iff, hdigit]
    · simp [Text.SingleBlanks, List.infix_cons_iff, hdigit]

theorem name_ne {p : Primitive} (hp : p ∈ Primitive.catalog) {kind : String}
    (hkind : kind ∈ ["call ", "prim "]) (word : String) : p.name ≠ kind ++ word := by
  have hnames : ∀ p ∈ Primitive.catalog, ∀ kind ∈ ["call ", "prim "],
      ¬kind.toList <+: p.name.toList := by decide +kernel
  intro h
  refine hnames p hp kind hkind ?_
  rw [h, String.toList_append]
  exact List.prefix_append _ _

theorem opcode_eq_of_mnemonic_eq {i i' : Instruction} (h : i.mnemonic = i'.mnemonic) :
    i.opcode = i'.opcode := by
  have hnodup : (Primitive.catalog.map Primitive.name).Nodup := by decide +kernel
  rcases mnemonic_cases i with ⟨p, hp, hopcode, hname⟩ | ⟨kind, hkind, hname⟩
  · rcases mnemonic_cases i' with ⟨p', hp', hopcode', hname'⟩ | ⟨kind', hkind', hname'⟩
    · rw [hname, hname'] at h
      obtain rfl := List.inj_on_of_nodup_map hnodup hp hp' h
      exact hopcode.symm.trans hopcode'
    · rw [hname, hname'] at h
      exact absurd h (name_ne hp hkind' _)
  · rcases mnemonic_cases i' with ⟨p', hp', hopcode', hname'⟩ | ⟨kind', hkind', hname'⟩
    · rw [hname, hname'] at h
      exact absurd h.symm (name_ne hp' hkind _)
    · have hlength : ∀ kind ∈ ["call ", "prim "], kind.toList.length = 5 := by decide
      rw [hname, hname'] at h
      have hlists := congrArg String.toList h
      rw [String.toList_append, String.toList_append] at hlists
      obtain ⟨-, hword⟩ := List.append_inj hlists
        ((hlength kind hkind).trans (hlength kind' hkind').symm)
      exact Hex.word_injective (String.toList_inj.mp hword)

end Instruction

/-! ## Variables -/

namespace VariableScope

theorem notMem_name {c : Char} (hc : c ∈ ['#', '[', ']', '\n']) (scope : VariableScope) :
    c ∉ scope.name.toList := by
  have hall : ∀ scope ∈ all, ['#', '[', ']', '\n'].all (fun c => c ∉ scope.name.toList) = true := by
    decide +kernel
  exact of_decide_eq_true (List.all_eq_true.mp (hall scope (mem_all scope)) c hc)

end VariableScope

namespace Variable

/-- What is in front of the brackets of a variable, and what is in them. -/
def parts? : Variable → Option (String × String)
  | .literal _ => none
  | .tuning table key => some ("tuning", toString table.toNat ++ ":" ++ toString key.toNat)
  | .stored slot => some (slot.scope.name, toString slot.index.toNat)
  | .unknown code data => some ("scope#" ++ toString code.toNat, toString data.toNat)

theorem eq_literal_of_parts? {v : Variable} (h : v.parts? = none) :
    ∃ value, v = .literal value := by
  cases v with
  | literal value => exact ⟨value, rfl⟩
  | tuning table key => cases h
  | stored slot => cases h
  | unknown code data => cases h

section

variable {v v' : Variable} {place : String × String}

theorem label_of_parts? (h : v.parts? = some place) :
    v.label = place.1 ++ "[" ++ place.2 ++ "]" := by
  cases v with
  | literal value => cases h
  | tuning table key =>
      cases h
      show "tuning[" ++ toString table.toNat ++ ":" ++ toString key.toNat ++ "]" = _
      simp [String.append_assoc]
  | stored slot =>
      cases h
      rfl
  | unknown code data =>
      cases h
      rfl

theorem toList_label_append (h : v.parts? = some place) (rest : List Char) :
    v.label.toList ++ rest = place.1.toList ++ '[' :: (place.2.toList ++ ']' :: rest) := by
  rw [label_of_parts? h]
  simp

theorem toList_label_literal (value : Int16) :
    (literal value).label.toList = "literal ".toList ++ (toString value.toInt).toList := by
  show ("literal " ++ toString value.toInt).toList = _
  rw [String.toList_append]

theorem notMem_parts? {c : Char} (hc : c ∈ ['[', ']', '\n']) (h : v.parts? = some place) :
    c ∉ place.1.toList ∧ c ∉ place.2.toList := by
  have hwords : ['[', ']', '\n'].all (fun c => c.isDigit = false ∧ c ∉ "tuning".toList
      ∧ c ∉ "scope#".toList ∧ c ∉ ":".toList) = true := by decide
  obtain ⟨hdigit, htuning, hscope, hcolon⟩ :=
    of_decide_eq_true (List.all_eq_true.mp hwords c hc)
  have hnumber := Text.notMem_toString hdigit
  cases v with
  | literal value => cases h
  | tuning table key =>
      cases h
      simp only [String.toList_append, List.mem_append, not_or]
      exact ⟨htuning, ⟨hnumber _, hcolon⟩, hnumber _⟩
  | stored slot =>
      cases h
      exact ⟨VariableScope.notMem_name (List.mem_cons_of_mem _ hc) _, hnumber _⟩
  | unknown code data =>
      cases h
      simp only [String.toList_append, List.mem_append, not_or]
      exact ⟨⟨hscope, hnumber _⟩, hnumber _⟩

/-- No variable in brackets is taken for a literal. -/
theorem literal_notPrefix_parts? (h : v.parts? = some place) :
    ¬"literal ".toList <+: place.1.toList := by
  have hnames : ∀ scope ∈ VariableScope.all, ¬"literal ".toList <+: scope.name.toList := by
    decide +kernel
  cases v with
  | literal value => cases h
  | tuning table key =>
      cases h
      simp
  | stored slot =>
      cases h
      exact hnames slot.scope (VariableScope.mem_all _)
  | unknown code data =>
      cases h
      rw [String.toList_append]
      simp

theorem colon_mem_parts?_iff (h : v.parts? = some place) :
    ':' ∈ place.2.toList ↔ ∃ table key, v = .tuning table key := by
  have hnumber : ∀ n : Nat, ':' ∉ (toString n).toList := Text.notMem_toString (by decide)
  cases v with
  | literal value => cases h
  | tuning table key =>
      cases h
      exact iff_of_true (by simp) ⟨table, key, rfl⟩
  | stored slot =>
      cases h
      exact iff_of_false (hnumber _) nofun
  | unknown code data =>
      cases h
      exact iff_of_false (hnumber _) nofun

theorem sign_mem_parts?_iff (h : v.parts? = some place) :
    '#' ∈ place.1.toList ↔ ∃ code data, v = .unknown code data := by
  cases v with
  | literal value => cases h
  | tuning table key =>
      cases h
      exact iff_of_false (by simp) nofun
  | stored slot =>
      cases h
      exact iff_of_false (VariableScope.notMem_name (by simp) _) nofun
  | unknown code data =>
      cases h
      exact iff_of_true (by simp) ⟨code, data, rfl⟩

-- Only a tuning entry has a colon and only an unknown scope has a number
-- sign, so both sides are of one kind.
theorem eq_of_parts? (h : v.parts? = some place) (h' : v'.parts? = some place) : v = v' := by
  cases v with
  | literal value => cases h
  | tuning table key =>
      obtain ⟨table', key', rfl⟩ :=
        (colon_mem_parts?_iff h').mp ((colon_mem_parts?_iff h).mpr ⟨table, key, rfl⟩)
      have hinside : toString table.toNat ++ ":" ++ toString key.toNat
          = toString table'.toNat ++ ":" ++ toString key'.toNat :=
        congrArg Prod.snd (Option.some.inj (h.trans h'.symm))
      have hlists := congrArg String.toList hinside
      simp only [String.toList_append, List.append_assoc] at hlists
      obtain ⟨htable, hkey⟩ := Text.number_at_front (by decide) hlists
      rw [UInt16.toNat_inj.mp htable,
        UInt16.toNat_inj.mp (Nat.repr_inj.mp (String.toList_inj.mp hkey))]
  | stored slot =>
      cases v' with
      | literal value => cases h'
      | tuning table key =>
          obtain ⟨_, _, hne⟩ :=
            (colon_mem_parts?_iff h).mp ((colon_mem_parts?_iff h').mpr ⟨table, key, rfl⟩)
          cases hne
      | stored slot' =>
          obtain ⟨scope, index⟩ := slot
          obtain ⟨scope', index'⟩ := slot'
          obtain ⟨hname, hindex⟩ := Prod.mk.inj (Option.some.inj (h.trans h'.symm))
          obtain rfl : scope = scope' := VariableScope.name_injective hname
          obtain rfl : index = index' := UInt16.toNat_inj.mp (Nat.repr_inj.mp hindex)
          rfl
      | unknown code data =>
          obtain ⟨_, _, hne⟩ :=
            (sign_mem_parts?_iff h).mp ((sign_mem_parts?_iff h').mpr ⟨code, data, rfl⟩)
          cases hne
  | unknown code data =>
      obtain ⟨code', data', rfl⟩ :=
        (sign_mem_parts?_iff h').mp ((sign_mem_parts?_iff h).mpr ⟨code, data, rfl⟩)
      obtain ⟨hcode, hdata⟩ := Prod.mk.inj (Option.some.inj (h.trans h'.symm))
      rw [String.append_right_inj] at hcode
      rw [UInt8.toNat_inj.mp (Nat.repr_inj.mp hcode),
        UInt16.toNat_inj.mp (Nat.repr_inj.mp hdata)]

theorem literal_label_ne (h : v.parts? = some place) (value : Int16) (rest rest' : List Char) :
    (literal value).label.toList ++ rest ≠ v.label.toList ++ rest' := by
  intro heq
  rw [toList_label_literal, toList_label_append h, List.append_assoc] at heq
  have hbegins : "literal ".toList <+: place.1.toList ++ '[' :: (place.2.toList ++ ']' :: rest') :=
    heq ▸ List.prefix_append _ _
  exact literal_notPrefix_parts? h (Text.prefix_front (by decide) hbegins)

end

/-- A label with a blank behind it can be read back. -/
theorem label_append_inj {v v' : Variable} {rest rest' : List Char}
    (h : v.label.toList ++ ' ' :: rest = v'.label.toList ++ ' ' :: rest') :
    v = v' ∧ rest = rest' := by
  cases hparts : v.parts? with
  | none =>
      obtain ⟨value, rfl⟩ := eq_literal_of_parts? hparts
      cases hparts' : v'.parts? with
      | none =>
          obtain ⟨value', rfl⟩ := eq_literal_of_parts? hparts'
          rw [toList_label_literal, toList_label_literal, List.append_assoc, List.append_assoc,
            List.append_cancel_left_eq] at h
          obtain ⟨hvalue, hrest⟩ := Text.cut_at_first (Text.blank_notMem_toString _)
            (Text.blank_notMem_toString _) h
          have hint := Int.repr_inj.mp (String.toList_inj.mp hvalue)
          exact ⟨congrArg literal (Int16.toInt_inj.mp hint), hrest⟩
      | some place' => exact absurd h (literal_label_ne hparts' value _ _)
  | some place =>
      cases hparts' : v'.parts? with
      | none =>
          obtain ⟨value', rfl⟩ := eq_literal_of_parts? hparts'
          exact absurd h.symm (literal_label_ne hparts value' _ _)
      | some place' =>
          rw [toList_label_append hparts, toList_label_append hparts'] at h
          obtain ⟨hfront, htail⟩ := Text.cut_at_first (notMem_parts? (by simp) hparts).1
            (notMem_parts? (by simp) hparts').1 h
          obtain ⟨hinside, hrest⟩ := Text.cut_at_first (notMem_parts? (by simp) hparts).2
            (notMem_parts? (by simp) hparts').2 htail
          have hplace : place = place' :=
            Prod.ext (String.toList_inj.mp hfront) (String.toList_inj.mp hinside)
          exact ⟨eq_of_parts? hparts (hplace ▸ hparts'), (List.cons.inj hrest).2⟩

end Variable

/-! ## Operators -/

namespace Operator

/-- The operator as far as its symbol tells. -/
def shown : Operator → Operator
  | .unknown _ => .unknown 0
  | op => op

theorem symbol_shown (op : Operator) : op.shown.symbol = op.symbol := by
  cases op <;> rfl

theorem shown_mem (op : Operator) : op.shown ∈ all ++ [.unknown 0] := by
  cases op <;> simp [shown, all]

/-- A symbol with a blank behind it can be read back. -/
theorem symbol_append_inj {op op' : Operator} {rest rest' : List Char}
    (h : op.symbol.toList ++ ' ' :: rest = op'.symbol.toList ++ ' ' :: rest') :
    op.shown = op'.shown ∧ rest = rest' := by
  have htable : ∀ op ∈ all ++ [.unknown 0], ∀ op' ∈ all ++ [.unknown 0],
      op.symbol.toList ++ [' '] <+: op'.symbol.toList ++ [' '] → op = op' := by decide +kernel
  have hbegins : ∀ (op : Operator) rest,
      op.shown.symbol.toList ++ [' '] <+: op.symbol.toList ++ ' ' :: rest := by
    intro op rest
    rw [symbol_shown]
    exact ⟨rest, by simp⟩
  have hshown : op.shown = op'.shown := by
    rcases List.prefix_or_prefix_of_prefix (hbegins op rest) (h ▸ hbegins op' rest') with hle | hle
    · exact htable _ (shown_mem op) _ (shown_mem op') hle
    · exact (htable _ (shown_mem op') _ (shown_mem op) hle).symm
  refine ⟨hshown, ?_⟩
  rw [← symbol_shown op, ← symbol_shown op', hshown] at h
  simpa using h

end Operator

/-! ## Operands -/

namespace CallParams

theorem toList_label (p : CallParams) :
    p.label.toList = '(' :: ((toString p.p0.toNat).toList ++ ' ' :: ((toString p.p1.toNat).toList
      ++ ' ' :: ((toString p.p2.toNat).toList ++ ' ' :: ((toString p.p3.toNat).toList
        ++ [')'])))) := by
  show ("(" ++ toString p.p0.toNat ++ " " ++ toString p.p1.toNat ++ " " ++ toString p.p2.toNat
    ++ " " ++ toString p.p3.toNat ++ ")").toList = _
  simp

theorem label_inj {p p' : CallParams} (h : p.label = p'.label) : p = p' := by
  have hlists := congrArg String.toList h
  rw [toList_label, toList_label] at hlists
  obtain ⟨h0, hlists⟩ := Text.number_at_front (by decide) (List.cons.inj hlists).2
  obtain ⟨h1, hlists⟩ := Text.number_at_front (by decide) hlists
  obtain ⟨h2, hlists⟩ := Text.number_at_front (by decide) hlists
  obtain ⟨h3, -⟩ := Text.number_at_front (by decide) hlists
  obtain ⟨p0, p1, p2, p3⟩ := p
  obtain ⟨p0', p1', p2', p3'⟩ := p'
  rw [CallParams.mk.injEq, ← UInt8.toNat_inj, ← UInt8.toNat_inj, ← UInt8.toNat_inj,
    ← UInt8.toNat_inj]
  exact ⟨h0, h1, h2, h3⟩

end CallParams

/-- Bytes with a blank in front of each can be read back. -/
theorem bytes_inj {bytes bytes' : List UInt8}
    (h : bytes.flatMap (fun b => ' ' :: Hex.byteDigits b)
      = bytes'.flatMap (fun b => ' ' :: Hex.byteDigits b)) : bytes = bytes' := by
  induction bytes generalizing bytes' with
  | nil =>
      cases bytes' with
      | nil => rfl
      | cons b' bytes' => cases h
  | cons b bytes ih =>
      cases bytes' with
      | nil => cases h
      | cons b' bytes' =>
          rw [List.flatMap_cons, List.flatMap_cons] at h
          obtain ⟨hb, hbytes⟩ := List.append_inj h rfl
          rw [Hex.byteDigits_inj (List.cons.inj hb).2, ih hbytes]

namespace Operand

/-- The operand as far as a listing tells. -/
def shown : Operand → Operand
  | .expression e =>
    .expression { e with operator := e.operator.shown, assignmentFlag := false }
  | o => o

theorem label_shown (o : Operand) : o.shown.label = o.label := by
  cases o with
  | expression e =>
      show "  " ++ e.left.label ++ " " ++ e.operator.shown.symbol ++ " " ++ e.right.label
        = "  " ++ e.left.label ++ " " ++ e.operator.symbol ++ " " ++ e.right.label
      rw [Operator.symbol_shown]
  | call c => rfl
  | raw bytes => rfl

/-- The label without the blanks in front. -/
def text : Operand → List Char
  | .expression e => e.left.label.toList ++ ' ' :: (e.operator.symbol.toList
      ++ ' ' :: e.right.label.toList)
  | .call c => (if c.implicit then [] else (Hex.word c.target).toList ++ [' '])
      ++ c.params.label.toList
  | .raw bytes => (bytes.toList.flatMap fun b => ' ' :: Hex.byteDigits b).tail

theorem toList_label (o : Operand) : o.label.toList = ' ' :: ' ' :: o.text := by
  cases o with
  | expression e =>
      show ("  " ++ e.left.label ++ " " ++ e.operator.symbol ++ " " ++ e.right.label).toList = _
      simp [text]
  | call c =>
      cases himplicit : c.implicit with
      | true =>
          rw [label, if_pos himplicit]
          show ("  " ++ c.params.label).toList = _
          simp [text, himplicit]
      | false =>
          rw [label, if_neg (by simp [himplicit])]
          show ("  " ++ Hex.word c.target ++ " " ++ c.params.label).toList = _
          simp [text, himplicit]
  | raw bytes =>
      rw [label, String.toList_append, String.toList_join, List.flatMap_map]
      simp [text, OperandBytes.toList, Hex.byte]

theorem expression_shown_inj {e e' : Expression}
    (h : (Operand.expression e).text = (Operand.expression e').text) :
    (Operand.expression e).shown = (Operand.expression e').shown := by
  obtain ⟨hleft, hrest⟩ := Variable.label_append_inj h
  obtain ⟨hoperator, hlabel⟩ := Operator.symbol_append_inj hrest
  obtain ⟨hright, -⟩ := Variable.label_append_inj (congrArg (· ++ [' ']) hlabel)
  rw [shown, shown, hleft, hoperator, hright]

theorem call_inj {c c' : Call} (h : (Operand.call c).text = (Operand.call c').text)
    (hkind : c.implicit = c'.implicit) (htarget : c.implicit = true → c.target = c'.target) :
    c = c' := by
  obtain ⟨target, params, implicit⟩ := c
  obtain ⟨target', params', implicit'⟩ := c'
  obtain rfl : implicit = implicit' := hkind
  cases implicit with
  | true =>
      obtain rfl : target = target' := htarget rfl
      simp only [text, if_true, List.nil_append] at h
      rw [CallParams.label_inj (String.toList_inj.mp h)]
  | false =>
      simp only [text, Bool.false_eq_true, if_false, List.append_assoc] at h
      obtain ⟨rfl, hparams⟩ := Hex.word_append_inj h
      rw [CallParams.label_inj (String.toList_inj.mp (List.cons.inj hparams).2)]

theorem raw_inj {bytes bytes' : OperandBytes}
    (h : (Operand.raw bytes).text = (Operand.raw bytes').text) : bytes = bytes' := by
  have hlists : bytes.toList = bytes'.toList := bytes_inj (congrArg (' ' :: ·) h)
  cases bytes
  cases bytes'
  simpa [OperandBytes.toList] using hlists

/-- Operands of one opcode are told apart by their text. -/
theorem shown_decode_inj {opcode : UInt16} {x y : OperandBytes}
    (h : (decode opcode x).text = (decode opcode y).text) :
    (decode opcode x).shown = (decode opcode y).shown := by
  unfold decode at h ⊢
  rw [schemaOf_eq] at h ⊢
  split_ifs at h ⊢ with hcall hgosub hexpression
  · rw [call_inj h rfl fun _ => rfl]
  · rw [call_inj h rfl nofun]
  · exact expression_shown_inj h
  · rw [raw_inj h]

end Operand

/-! ## Lines -/

namespace Instruction

/-- The line up to the pointers. -/
def lineFront (index : Nat) (i : Instruction) : List Char :=
  (indexLabel index).toList ++ ':' :: (' ' :: (i.mnemonic.toList
    ++ ' ' :: ' ' :: (i.operand.text ++ [' '])))

theorem line_eq (index : Nat) (i : Instruction) :
    i.line index = String.ofList (i.lineFront index)
      ++ " " ++ ("T->" ++ toString i.truePointer.toNat)
      ++ " " ++ ("F->" ++ toString i.falsePointer.toNat) := by
  have hfront : String.ofList (i.lineFront index)
      = indexLabel index ++ ": " ++ i.mnemonic ++ i.operand.label ++ " " := by
    apply String.toList_inj.mp
    simp [lineFront, Operand.toList_label]
  rw [hfront]
  show indexLabel index ++ ": " ++ i.mnemonic ++ i.operand.label
    ++ ("  T->" ++ toString i.truePointer.toNat ++ " F->" ++ toString i.falsePointer.toNat) = _
  apply String.toList_inj.mp
  simp

theorem lineFront_inj {index index' : Nat} {i i' : Instruction}
    (h : i.lineFront index = i'.lineFront index') :
    index = index' ∧ i.opcode = i'.opcode ∧ i.operand.shown = i'.operand.shown := by
  obtain ⟨hindex, hrest⟩ := Text.cut_at_first (notMem_indexLabel (by decide) _)
    (notMem_indexLabel (by decide) _) h
  obtain ⟨hmnemonic, htext⟩ := Text.cut_at_blanks (singleBlanks_mnemonic i)
    (singleBlanks_mnemonic i') (List.cons.inj hrest).2
  have hopcode := opcode_eq_of_mnemonic_eq (String.toList_inj.mp hmnemonic)
  refine ⟨?_, hopcode, ?_⟩
  · rw [← ofDigitChars_indexLabel index, hindex, ofDigitChars_indexLabel]
  · have hdecode := List.append_cancel_right htext
    unfold operand at hdecode ⊢
    rw [hopcode] at hdecode ⊢
    exact Operand.shown_decode_inj hdecode

theorem notMem_pointer {c : Char} (hc : c.isDigit = false) {arrow : String}
    (harrow : c ∉ arrow.toList) (pointer : UInt8) :
    c ∉ (arrow ++ toString pointer.toNat).toList := by
  rw [String.toList_append, List.mem_append, not_or]
  exact ⟨harrow, Text.notMem_toString hc _⟩

theorem pointer_inj {arrow : String} {p p' : UInt8}
    (h : arrow ++ toString p.toNat = arrow ++ toString p'.toNat) : p = p' := by
  rw [String.append_right_inj] at h
  exact UInt8.toNat_inj.mp (Nat.repr_inj.mp h)

theorem line_inj {index index' : Nat} {i i' : Instruction} (h : i.line index = i'.line index') :
    index = index' ∧ i.opcode = i'.opcode ∧ i.truePointer = i'.truePointer
      ∧ i.falsePointer = i'.falsePointer ∧ i.operand.shown = i'.operand.shown := by
  have hthen : ∀ p : UInt8, ' ' ∉ ("T->" ++ toString p.toNat).toList :=
    notMem_pointer (by decide) (by decide)
  have helse : ∀ p : UInt8, ' ' ∉ ("F->" ++ toString p.toNat).toList :=
    notMem_pointer (by decide) (by decide)
  rw [line_eq, line_eq] at h
  obtain ⟨h, hfalse⟩ := Text.word_at_end (helse _) (helse _) h
  obtain ⟨h, htrue⟩ := Text.word_at_end (hthen _) (hthen _) h
  obtain ⟨hindex, hopcode, hoperand⟩ := lineFront_inj (String.ofList_inj.mp h)
  exact ⟨hindex, hopcode, pointer_inj htrue, pointer_inj hfalse, hoperand⟩

theorem line_congr {i i' : Instruction} (hopcode : i.opcode = i'.opcode)
    (htrue : i.truePointer = i'.truePointer) (hfalse : i.falsePointer = i'.falsePointer)
    (hshown : i.operand.shown = i'.operand.shown) (index : Nat) : i.line index = i'.line index := by
  have hmnemonic : i.mnemonic = i'.mnemonic := by
    unfold mnemonic isCall primitive?
    rw [hopcode]
  have hlabel : i.operand.label = i'.operand.label := by
    rw [← Operand.label_shown, hshown, Operand.label_shown]
  unfold line
  rw [hmnemonic, hlabel, htrue, hfalse]

end Instruction

/-! ## One line each -/

theorem Hex.newline_notMem_word (w : UInt16) : '\n' ∉ (word w).toList :=
  notMem_word (by decide) (by decide) w

theorem Hex.newline_notMem_byteDigits (b : UInt8) : '\n' ∉ byteDigits b := by
  have hb := b.toNat_lt
  simp only [byteDigits, List.mem_cons, List.not_mem_nil, or_false, not_or]
  exact ⟨digit_ne (by decide) (by omega), digit_ne (by decide) (by omega)⟩

theorem Variable.newline_notMem_label (v : Variable) : '\n' ∉ v.label.toList := by
  cases hparts : v.parts? with
  | none =>
      obtain ⟨value, rfl⟩ := eq_literal_of_parts? hparts
      rw [toList_label_literal, List.mem_append, not_or]
      exact ⟨by decide, Text.notMem_toString_int (by decide) (by decide) _⟩
  | some place =>
      obtain ⟨hfront, hinside⟩ := notMem_parts? (c := '\n') (by simp) hparts
      rw [label_of_parts? hparts]
      simp [hfront, hinside]

theorem Operator.newline_notMem_symbol (op : Operator) : '\n' ∉ op.symbol.toList := by
  have htable : ∀ op ∈ all ++ [.unknown 0], '\n' ∉ op.symbol.toList := by decide +kernel
  rw [← symbol_shown]
  exact htable _ (shown_mem op)

theorem CallParams.newline_notMem_label (p : CallParams) : '\n' ∉ p.label.toList := by
  have hnumber : ∀ n : Nat, '\n' ∉ (toString n).toList := Text.notMem_toString (by decide)
  simp only [toList_label, List.mem_cons, List.mem_append, hnumber, false_or]
  decide

theorem Operand.newline_notMem_text (o : Operand) : '\n' ∉ o.text := by
  cases o with
  | expression e =>
      simp [text, Variable.newline_notMem_label, Operator.newline_notMem_symbol]
  | call c =>
      have hword := Hex.newline_notMem_word c.target
      have hparams := CallParams.newline_notMem_label c.params
      cases himplicit : c.implicit with
      | true => simp [text, himplicit, hparams]
      | false => simp [text, himplicit, hword, hparams]
  | raw bytes =>
      intro h
      unfold text at h
      obtain ⟨b, -, hb⟩ := List.mem_flatMap.mp (List.mem_of_mem_tail h)
      rcases List.mem_cons.mp hb with hblank | hdigit
      · exact absurd hblank (by decide)
      · exact Hex.newline_notMem_byteDigits b hdigit

namespace Instruction

theorem newline_notMem_mnemonic (i : Instruction) : '\n' ∉ i.mnemonic.toList := by
  have hnames : ∀ p ∈ Primitive.catalog, '\n' ∉ p.name.toList := by decide +kernel
  have hkinds : ∀ kind ∈ ["call ", "prim "], '\n' ∉ kind.toList := by decide
  rcases mnemonic_cases i with ⟨p, hp, -, hname⟩ | ⟨kind, hkind, hname⟩
  · rw [hname]
    exact hnames p hp
  · rw [hname, String.toList_append, List.mem_append, not_or]
    exact ⟨hkinds kind hkind, Hex.newline_notMem_word _⟩

theorem newline_notMem_line (index : Nat) (i : Instruction) : '\n' ∉ (i.line index).toList := by
  have hindex := notMem_indexLabel (c := '\n') (by decide) index
  have htrue : '\n' ∉ ("T->" ++ toString i.truePointer.toNat).toList :=
    notMem_pointer (by decide) (by decide) _
  have hfalse : '\n' ∉ ("F->" ++ toString i.falsePointer.toNat).toList :=
    notMem_pointer (by decide) (by decide) _
  rw [line_eq]
  simpa [lineFront, hindex, newline_notMem_mnemonic, Operand.newline_notMem_text]
    using And.intro htrue hfalse

/-- Two lines are equal exactly if they are of one index and show one
instruction, and no line is broken. -/
theorem line_unambiguous :
    (∀ index index' i i', line index i = line index' i' ↔ index = index' ∧ i.opcode = i'.opcode
        ∧ i.truePointer = i'.truePointer ∧ i.falsePointer = i'.falsePointer
        ∧ i.operand.shown = i'.operand.shown)
      ∧ ∀ index i, '\n' ∉ (line index i).toList := by
  refine ⟨fun index index' i i' => ⟨line_inj, ?_⟩, newline_notMem_line⟩
  rintro ⟨rfl, hopcode, htrue, hfalse, hshown⟩
  exact line_congr hopcode htrue hfalse hshown index

end Instruction

end BehaviorScript
