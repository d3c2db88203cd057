/-! # Dictionaries

    Finite maps from names to values whose entries stand in the order of their names, each
    name once. Names are ordered by code points.

    - `Dictionary`: the entries together with the proof of their order;
    - `get?_insert`: reading after writing;
    - `get?_eq_some_iff`: reading finds exactly the entries. -/

namespace VaultQuery

/-- Entries in increasing order of name, no name twice. -/
structure Dictionary (α : Type) where
  entries : List (String × α)
  increasing : entries.Pairwise (fun a b => a.1 < b.1)

namespace Dictionary

variable {α : Type}

/-- Writes one entry into ordered entries, over an older one of the same name. -/
def insertEntry (name : String) (value : α) : List (String × α) → List (String × α)
  | [] => [(name, value)]
  | (n, v) :: rest =>
      if name < n then (name, value) :: (n, v) :: rest
      else if name = n then (name, value) :: rest
      else (n, v) :: insertEntry name value rest

/-- The first entry of that name. -/
def findEntry (name : String) : List (String × α) → Option α
  | [] => none
  | (n, v) :: rest => if n = name then some v else findEntry name rest

theorem mem_insertEntry {name : String} {value : α} {e : String × α}
    {entries : List (String × α)} (h : e ∈ insertEntry name value entries) :
    e = (name, value) ∨ e ∈ entries := by
  induction entries with
  | nil => exact Or.inl (by simpa [insertEntry] using h)
  | cons a rest ih =>
      obtain ⟨n, v⟩ := a
      rw [insertEntry] at h
      split at h
      · rcases List.mem_cons.mp h with h | h
        · exact Or.inl h
        · exact Or.inr h
      · split at h
        · rcases List.mem_cons.mp h with h | h
          · exact Or.inl h
          · exact Or.inr (List.mem_cons_of_mem _ h)
        · rcases List.mem_cons.mp h with h | h
          · exact Or.inr (h ▸ List.mem_cons_self ..)
          · exact (ih h).imp id (List.mem_cons_of_mem _)

theorem lt_of_not_lt_of_ne {a b : String} (h : ¬ a < b) (hne : a ≠ b) : b < a := by
  rcases Classical.em (b < a) with hba | hba
  · exact hba
  · exact absurd (String.le_antisymm (String.not_lt.mp hba) (String.not_lt.mp h)) hne

theorem insertEntry_increasing (name : String) (value : α) {entries : List (String × α)}
    (h : entries.Pairwise (fun a b => a.1 < b.1)) :
    (insertEntry name value entries).Pairwise (fun a b => a.1 < b.1) := by
  induction entries with
  | nil => exact List.pairwise_singleton ..
  | cons a rest ih =>
      obtain ⟨n, v⟩ := a
      have hrest := List.pairwise_cons.mp h
      rw [insertEntry]
      split
      · rename_i hlt
        refine List.pairwise_cons.mpr ⟨fun e he => ?_, h⟩
        rcases List.mem_cons.mp he with he | he
        · exact he ▸ hlt
        · exact String.lt_trans hlt (hrest.1 e he)
      · split
        · rename_i heq
          refine List.pairwise_cons.mpr ⟨fun e he => ?_, hrest.2⟩
          exact heq ▸ hrest.1 e he
        · rename_i hlt hne
          refine List.pairwise_cons.mpr ⟨fun e he => ?_, ih hrest.2⟩
          rcases mem_insertEntry he with he | he
          · exact he ▸ lt_of_not_lt_of_ne hlt hne
          · exact hrest.1 e he

/-- No entries. -/
def empty : Dictionary α := ⟨[], List.Pairwise.nil⟩

instance : EmptyCollection (Dictionary α) := ⟨empty⟩

/-- Writes an entry, over an older one of the same name. -/
def insert (d : Dictionary α) (name : String) (value : α) : Dictionary α :=
  ⟨insertEntry name value d.entries, insertEntry_increasing name value d.increasing⟩

/-- The value under a name. -/
def get? (d : Dictionary α) (name : String) : Option α := findEntry name d.entries

/-- The name has a value. -/
def contains (d : Dictionary α) (name : String) : Bool := (d.get? name).isSome

/-- The values in the order of their names. -/
def values (d : Dictionary α) : List α := d.entries.map (·.2)

/-- Writes entries one after the other: of two with one name the later stays. -/
def insertAll (d : Dictionary α) (entries : List (String × α)) : Dictionary α :=
  entries.foldl (fun d e => d.insert e.1 e.2) d

/-- The dictionary of some entries; of two with one name the later stays. -/
def ofList (entries : List (String × α)) : Dictionary α := empty.insertAll entries

/-- The number of entries. -/
def size (d : Dictionary α) : Nat := d.entries.length

theorem findEntry_insertEntry (name : String) (value : α) (entries : List (String × α))
    (n : String) :
    findEntry n (insertEntry name value entries) =
      if name = n then some value else findEntry n entries := by
  induction entries with
  | nil => rfl
  | cons a rest ih =>
      obtain ⟨m, v⟩ := a
      rw [insertEntry]
      split
      · rfl
      · split
        · rename_i heq
          subst heq
          by_cases h : name = n
          · simp [findEntry, h]
          · simp [findEntry, h]
        · rename_i hne
          by_cases h : m = n
          · subst h
            simp [findEntry, hne]
          · simp [findEntry, h, ih]

/-- Reading after writing. -/
theorem get?_insert (d : Dictionary α) (name : String) (value : α) (n : String) :
    (d.insert name value).get? n = if name = n then some value else d.get? n :=
  findEntry_insertEntry name value d.entries n

@[simp] theorem get?_insert_self (d : Dictionary α) (name : String) (value : α) :
    (d.insert name value).get? name = some value := by
  rw [get?_insert, if_pos rfl]

theorem get?_insert_of_ne (d : Dictionary α) {name n : String} (value : α) (h : name ≠ n) :
    (d.insert name value).get? n = d.get? n := by
  rw [get?_insert, if_neg h]

@[simp] theorem get?_empty (name : String) : (empty : Dictionary α).get? name = none := rfl

/-- Reading finds exactly the entries. -/
theorem get?_eq_some_iff {d : Dictionary α} {name : String} {value : α} :
    d.get? name = some value ↔ (name, value) ∈ d.entries := by
  obtain ⟨entries, h⟩ := d
  show findEntry name entries = some value ↔ (name, value) ∈ entries
  induction entries with
  | nil => simp [findEntry]
  | cons a rest ih =>
      obtain ⟨n, v⟩ := a
      have hrest := List.pairwise_cons.mp h
      rw [findEntry]
      split
      · rename_i heq
        subst heq
        constructor
        · intro hv
          cases hv
          exact List.mem_cons_self ..
        · intro hmem
          rcases List.mem_cons.mp hmem with he | he
          · cases he; rfl
          · exact absurd (hrest.1 _ he) (String.lt_irrefl _)
      · rename_i hne
        rw [ih hrest.2]
        constructor
        · exact List.mem_cons_of_mem _
        · intro hmem
          rcases List.mem_cons.mp hmem with he | he
          · cases he; exact absurd rfl hne
          · exact he

end Dictionary
end VaultQuery
