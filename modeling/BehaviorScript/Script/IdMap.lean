/-!
# Maps keyed by script id

A finite map whose entries stand in ascending order of their ids, each id
once. Writing to an id again replaces its value.
-/

namespace BehaviorScript

structure IdMap (β : Type) where
  entries : List (UInt16 × β)
  ascending : entries.Pairwise fun a b => a.1 < b.1

namespace IdMap

variable {β : Type}

def insertEntry (id : UInt16) (value : β) : List (UInt16 × β) → List (UInt16 × β)
  | [] => [(id, value)]
  | (k, v) :: rest =>
    if id < k then (id, value) :: (k, v) :: rest
    else if id = k then (id, value) :: rest
    else (k, v) :: insertEntry id value rest

theorem mem_insertEntry {id : UInt16} {value : β} {entries : List (UInt16 × β)}
    {e : UInt16 × β} (h : e ∈ insertEntry id value entries) : e = (id, value) ∨ e ∈ entries := by
  induction entries with
  | nil => simpa [insertEntry] using h
  | cons head rest ih =>
    obtain ⟨k, v⟩ := head
    simp only [insertEntry] at h
    split at h
    · simpa using h
    · split at h
      · rcases List.mem_cons.mp h with h | h
        · exact .inl h
        · exact .inr (List.mem_cons_of_mem _ h)
      · rcases List.mem_cons.mp h with h | h
        · exact .inr (h ▸ List.mem_cons_self)
        · rcases ih h with h | h
          · exact .inl h
          · exact .inr (List.mem_cons_of_mem _ h)

theorem pairwise_insertEntry (id : UInt16) (value : β) {entries : List (UInt16 × β)}
    (h : entries.Pairwise fun a b => a.1 < b.1) :
    (insertEntry id value entries).Pairwise fun a b => a.1 < b.1 := by
  induction entries with
  | nil => simp [insertEntry]
  | cons head rest ih =>
    obtain ⟨k, v⟩ := head
    obtain ⟨above, tail⟩ := List.pairwise_cons.mp h
    simp only [insertEntry]
    split
    · next lt =>
      refine List.pairwise_cons.mpr ⟨fun e he => ?_, h⟩
      rcases List.mem_cons.mp he with rfl | he
      · exact lt
      · exact UInt16.lt_trans lt (above e he)
    · split
      · next eq => exact List.pairwise_cons.mpr ⟨fun e he => eq ▸ above e he, tail⟩
      · next notLt notEq =>
        have gt : k < id := UInt16.lt_of_le_of_ne (UInt16.not_lt.mp notLt) fun h => notEq h.symm
        refine List.pairwise_cons.mpr ⟨fun e he => ?_, ih tail⟩
        rcases mem_insertEntry he with rfl | he
        · exact gt
        · exact above e he

theorem lookup_cons_eq (k key : UInt16) (value : β) (rest : List (UInt16 × β)) :
    List.lookup k ((key, value) :: rest) = if k = key then some value else rest.lookup k := by
  by_cases h : k = key
  · simp [h]
  · have ne : (k == key) = false := by simpa using h
    simp [List.lookup_cons, h, ne]

/-- An entry shadows what stood at its id and nothing else. -/
theorem lookup_insertEntry (id k : UInt16) (value : β) (entries : List (UInt16 × β)) :
    (insertEntry id value entries).lookup k = if k = id then some value else entries.lookup k := by
  induction entries with
  | nil => simp [insertEntry, lookup_cons_eq]
  | cons head rest ih =>
    obtain ⟨key, old⟩ := head
    simp only [insertEntry]
    split
    · simp only [lookup_cons_eq]
    · split
      · next eq =>
        subst eq
        by_cases h : k = id <;> simp [lookup_cons_eq, h]
      · next ne =>
        by_cases h : k = key
        · simp [h, Ne.symm ne]
        · simp [lookup_cons_eq, h, ih]

def empty : IdMap β := ⟨[], .nil⟩

def insert (m : IdMap β) (id : UInt16) (value : β) : IdMap β :=
  ⟨insertEntry id value m.entries, pairwise_insertEntry id value m.ascending⟩

def get? (m : IdMap β) (id : UInt16) : Option β := m.entries.lookup id

def keys (m : IdMap β) : List UInt16 := m.entries.map fun e => e.1

def size (m : IdMap β) : Nat := m.entries.length

@[simp]
theorem get?_empty (id : UInt16) : (empty : IdMap β).get? id = none := rfl

@[simp]
theorem get?_insert (m : IdMap β) (id k : UInt16) (value : β) :
    (m.insert id value).get? k = if k = id then some value else m.get? k :=
  lookup_insertEntry id k value m.entries

theorem nodup_keys (m : IdMap β) : m.keys.Nodup :=
  List.pairwise_map.mpr (m.ascending.imp fun h => UInt16.ne_of_lt h)

/-- The map with these entries; the last one of equal ids wins. -/
def ofList (entries : List (UInt16 × β)) : IdMap β :=
  entries.foldl (fun m e => m.insert e.1 e.2) empty

/-- How often each id occurs in a list. -/
def tally (ids : List UInt16) : IdMap Nat :=
  ids.foldl (fun m id => m.insert id ((m.get? id).getD 0 + 1)) empty

end IdMap

end BehaviorScript
