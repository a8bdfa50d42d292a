/-!
# Dictionaries

Finite maps from texts, kept as association lists in increasing order of keys. The order is that of
code points, which is also the order of the keys' UTF-8 bytes, and it is the order in which a
dictionary is shown.

The main statements are `find?_insert`, that the last write to a key wins and touches no other key,
and `pairwise_insertInto`, that writes keep the order.
-/

namespace Qualifier

/-- A finite map from texts to `α`. -/
structure Dict (α : Type u) where
  /-- The bindings, in increasing order of keys. -/
  entries : List (String × α)

namespace Dict

variable {α : Type u}

/-- The dictionary without bindings. -/
def empty : Dict α := ⟨[]⟩

instance : EmptyCollection (Dict α) := ⟨empty⟩
instance : Inhabited (Dict α) := ⟨empty⟩

/-- The value of a key in a list of bindings: that of its first binding. -/
def lookup (key : String) : List (String × α) → Option α
  | [] => none
  | (k, v) :: rest => if k = key then some v else lookup key rest

/-- The value of a key. -/
def find? (d : Dict α) (key : String) : Option α :=
  lookup key d.entries

/-- A list of bindings with one key bound anew: in place of its binding, or before the first
greater key. -/
def insertInto (key : String) (value : α) : List (String × α) → List (String × α)
  | [] => [(key, value)]
  | (k, v) :: rest =>
    if k = key then (key, value) :: rest
    else if key < k then (key, value) :: (k, v) :: rest
    else (k, v) :: insertInto key value rest

/-- The dictionary with one key bound anew. -/
def insert (d : Dict α) (key : String) (value : α) : Dict α :=
  ⟨insertInto key value d.entries⟩

/-- The dictionary that a list of bindings leaves when they are written in order. -/
def ofList (bindings : List (String × α)) : Dict α :=
  bindings.foldl (fun d binding ↦ d.insert binding.1 binding.2) ∅

/-- The keys, in increasing order. -/
def keys (d : Dict α) : List String :=
  d.entries.map Prod.fst

@[simp] theorem find?_empty (key : String) : (∅ : Dict α).find? key = none := rfl

theorem lookup_insertInto (key : String) (value : α) (entries : List (String × α)) (k : String) :
    lookup k (insertInto key value entries) = if key = k then some value else lookup k entries := by
  induction entries with
  | nil => simp [insertInto, lookup]
  | cons binding rest ih => grind [insertInto, lookup]

theorem mem_insertInto {key : String} {value : α} {entries : List (String × α)}
    {binding : String × α} (h : binding ∈ insertInto key value entries) :
    binding = (key, value) ∨ binding ∈ entries := by
  induction entries with
  | nil => simpa [insertInto] using h
  | cons head rest ih => grind [insertInto]

/-- A write keeps the keys in increasing order. -/
theorem pairwise_insertInto (key : String) (value : α) {entries : List (String × α)}
    (h : entries.Pairwise fun a b ↦ a.1 < b.1) :
    (insertInto key value entries).Pairwise fun a b ↦ a.1 < b.1 := by
  induction entries with
  | nil => simp [insertInto]
  | cons binding rest ih =>
    obtain ⟨k, v⟩ := binding
    rw [List.pairwise_cons] at h
    simp only [insertInto]
    split
    · next hk => exact List.pairwise_cons.2 ⟨fun b hb ↦ hk ▸ h.1 b hb, h.2⟩
    split
    · next _ hlt =>
      refine List.pairwise_cons.2 ⟨fun b hb ↦ ?_, List.pairwise_cons.2 h⟩
      rcases List.mem_cons.1 hb with rfl | hb
      · exact hlt
      · exact String.lt_trans hlt (h.1 b hb)
    · next hne hge =>
      have hlt : k < key := Decidable.byContradiction fun hle ↦
        hne (String.le_antisymm (String.not_lt.1 hge) (String.not_lt.1 hle))
      refine List.pairwise_cons.2 ⟨fun b hb ↦ ?_, ih h.2⟩
      rcases mem_insertInto hb with rfl | hb
      · exact hlt
      · exact h.1 b hb

/-- A write is read back at its key and leaves every other key as it was. -/
theorem find?_insert (d : Dict α) (key : String) (value : α) (k : String) :
    (d.insert key value).find? k = if key = k then some value else d.find? k :=
  lookup_insertInto key value d.entries k

end Dict

end Qualifier
