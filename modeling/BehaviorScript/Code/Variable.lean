/-!
# Variables

An expression names its operands by a scope code and a data word. Two
scopes hold constants: a literal is the data word itself, a tuning entry
splits it into table and key. In every other known scope the data word
is an index. No bit is lost: `Variable.code` and `Variable.data` give back
what `Variable.decode` was given (`code_decode`, `data_decode`).
-/

namespace BehaviorScript

inductive VariableScope where
  | myAttribute
  | stackObjectAttribute
  | targetObjectAttribute
  | myObjectData
  | stackObjectData
  | targetObjectData
  | global
  | literal
  | temporary
  | parameter
  | stackObjectId
  | temporaryByTemporary
  | treeAdRange
  | stackObjectTemporary
  | myMotive
  | stackObjectMotive
  | stackObjectSlot
  | stackObjectMotiveByTemporary
  | myPersonData
  | stackObjectPersonData
  | mySlot
  | stackObjectDefinition
  | stackObjectAttributeByParameter
  | roomByTemporary
  | neighborInStackObject
  | local
  | tuning
deriving DecidableEq, Repr

namespace VariableScope

/-- The known scopes; the place of a scope is its code. -/
def all : List VariableScope :=
  [ .myAttribute, .stackObjectAttribute, .targetObjectAttribute, .myObjectData,
    .stackObjectData, .targetObjectData, .global, .literal, .temporary, .parameter,
    .stackObjectId, .temporaryByTemporary, .treeAdRange, .stackObjectTemporary,
    .myMotive, .stackObjectMotive, .stackObjectSlot, .stackObjectMotiveByTemporary,
    .myPersonData, .stackObjectPersonData, .mySlot, .stackObjectDefinition,
    .stackObjectAttributeByParameter, .roomByTemporary, .neighborInStackObject,
    .local, .tuning ]

def ofCode? (code : UInt8) : Option VariableScope := all[code.toNat]?

def code (scope : VariableScope) : Nat := all.idxOf scope

def name : VariableScope → String
  | .myAttribute => "my attribute"
  | .stackObjectAttribute => "stack object attribute"
  | .targetObjectAttribute => "target object attribute"
  | .myObjectData => "my data"
  | .stackObjectData => "stack object data"
  | .targetObjectData => "target object data"
  | .global => "global"
  | .literal => "literal"
  | .temporary => "temp"
  | .parameter => "param"
  | .stackObjectId => "stack object id"
  | .temporaryByTemporary => "temp by temp"
  | .treeAdRange => "tree ad range"
  | .stackObjectTemporary => "stack object temp"
  | .myMotive => "my motive"
  | .stackObjectMotive => "stack object motive"
  | .stackObjectSlot => "stack object slot"
  | .stackObjectMotiveByTemporary => "stack object motive by temp"
  | .myPersonData => "my person data"
  | .stackObjectPersonData => "stack object person data"
  | .mySlot => "my slot"
  | .stackObjectDefinition => "stack object definition"
  | .stackObjectAttributeByParameter => "stack object attribute by param"
  | .roomByTemporary => "room by temp"
  | .neighborInStackObject => "neighbor in stack object"
  | .local => "local"
  | .tuning => "tuning"

/-- Holds values that cannot be written. -/
def isConstant (scope : VariableScope) : Bool :=
  scope = .literal || scope = .tuning

theorem code_of_ofCode? {code : UInt8} {scope : VariableScope}
    (h : ofCode? code = some scope) : UInt8.ofNat scope.code = code := by
  have table : ∀ i : Fin 27, ∀ s, all[i.val]? = some s →
      s.code = i.val := by decide
  have bound : code.toNat < 27 := by
    rw [ofCode?, List.getElem?_eq_some_iff] at h
    exact h.1
  rw [table ⟨code.toNat, bound⟩ scope h, UInt8.ofNat_toNat]

end VariableScope

/-- A storage place: a scope that is indexed, and the index. -/
structure Slot where
  scope : VariableScope
  index : UInt16
deriving DecidableEq, Repr

inductive Variable where
  | literal (value : Int16)
  | tuning (table key : UInt16)
  | stored (slot : Slot)
  | unknown (code : UInt8) (data : UInt16)
deriving DecidableEq, Repr

namespace Slot

def label (slot : Slot) : String := s!"{slot.scope.name}[{slot.index.toNat}]"

end Slot

namespace Variable

/-- The variable of a scope code and a data word. -/
def decode (code : UInt8) (data : UInt16) : Variable :=
  match VariableScope.ofCode? code with
  | some .literal => .literal data.toInt16
  | some .tuning => .tuning (data / 128) (data % 128)
  | some scope => .stored ⟨scope, data⟩
  | none => .unknown code data

def scope? : Variable → Option VariableScope
  | .literal _ => some .literal
  | .tuning _ _ => some .tuning
  | .stored slot => some slot.scope
  | .unknown _ _ => none

def slot? : Variable → Option Slot
  | .stored slot => some slot
  | _ => none

def label : Variable → String
  | .literal value => s!"literal {value.toInt}"
  | .tuning table key => s!"tuning[{table.toNat}:{key.toNat}]"
  | .stored slot => slot.label
  | .unknown code data => s!"scope#{code.toNat}[{data.toNat}]"

/-- Is read only. -/
def isConstant (v : Variable) : Bool :=
  match v.scope? with
  | some scope => scope.isConstant
  | none => false

/-! ## Recovering the encoding -/

/-- The scope code that a variable is encoded with. -/
def code : Variable → UInt8
  | .literal _ => UInt8.ofNat VariableScope.literal.code
  | .tuning _ _ => UInt8.ofNat VariableScope.tuning.code
  | .stored slot => UInt8.ofNat slot.scope.code
  | .unknown code _ => code

/-- The data word that a variable is encoded with. -/
def data : Variable → UInt16
  | .literal value => value.toUInt16
  | .tuning table key => table * 128 + key
  | .stored slot => slot.index
  | .unknown _ data => data

theorem data_decode (code : UInt8) (data : UInt16) : (decode code data).data = data := by
  unfold decode
  split
  · simp [Variable.data]
  · apply UInt16.toNat_inj.mp
    have := data.toNat_lt
    simp only [Variable.data, UInt16.toNat_add, UInt16.toNat_mul, UInt16.toNat_div,
      UInt16.toNat_mod, UInt16.reduceToNat]
    omega
  · rfl
  · rfl

theorem code_decode (code : UInt8) (data : UInt16) : (decode code data).code = code := by
  unfold decode
  split
  · next h => exact VariableScope.code_of_ofCode? h
  · next h => exact VariableScope.code_of_ofCode? h
  · next h => exact VariableScope.code_of_ofCode? h
  · rfl

end Variable

end BehaviorScript
