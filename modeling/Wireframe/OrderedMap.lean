/-!
# Maps in insertion order

A map whose entries keep the order in which their keys first appeared. Writing a key again keeps
its place and replaces its value.

## Main definitions

* `OrderedMap` — the entries, with pairwise distinct keys.
* `OrderedMap.insert`, `OrderedMap.get?`, `OrderedMap.contains`.
* `OrderedMap.ofList` — the map of a list of writes.

## Main results

* `OrderedMap.keys_insert` — what a write does to the keys.
-/

namespace Wireframe

/-- Entries in the order in which their keys first appeared. -/
structure OrderedMap (α : Type) where
  entries : List (String × α)
  nodup : (entries.map Prod.fst).Nodup
  deriving Repr

namespace OrderedMap

variable {α β : Type}

/-- The map with no entry. -/
def empty : OrderedMap α :=
  ⟨[], List.nodup_nil⟩

instance : Inhabited (OrderedMap α) :=
  ⟨empty⟩

/-- The keys, in order. -/
def keys (m : OrderedMap α) : List String :=
  m.entries.map Prod.fst

/-- The value written last under a key. -/
def get? (m : OrderedMap α) (key : String) : Option α :=
  (m.entries.find? (·.1 == key)).map Prod.snd

/-- Whether the key was written. -/
def contains (m : OrderedMap α) (key : String) : Bool :=
  m.keys.contains key

/-- The entries with the value under `key` replaced. -/
def replaceIn (key : String) (value : α) (entries : List (String × α)) : List (String × α) :=
  entries.map fun entry => if entry.1 = key then (key, value) else entry

theorem fst_replaceIn (key : String) (value : α) (entries : List (String × α)) :
    (replaceIn key value entries).map Prod.fst = entries.map Prod.fst := by
  simp only [replaceIn, List.map_map]
  refine List.map_congr_left fun entry _ => ?_
  by_cases h : entry.1 = key <;> simp [h]

/-- Write a key: in place when it is present, at the end when it is new. -/
def insert (m : OrderedMap α) (key : String) (value : α) : OrderedMap α :=
  if present : key ∈ m.entries.map Prod.fst then
    ⟨replaceIn key value m.entries, by rw [fst_replaceIn]; exact m.nodup⟩
  else
    ⟨m.entries ++ [(key, value)], by
      rw [List.map_append, List.nodup_append]
      refine ⟨m.nodup, by simp, ?_⟩
      intro a ha b hb
      simp only [List.map_cons, List.map_nil, List.mem_singleton] at hb
      rintro rfl
      exact present (hb ▸ ha)⟩

/-- A write keeps the order of the keys that are there and puts a new key last. -/
theorem keys_insert (m : OrderedMap α) (key : String) (value : α) :
    (m.insert key value).keys = if key ∈ m.keys then m.keys else m.keys ++ [key] := by
  unfold insert keys
  by_cases h : key ∈ m.entries.map Prod.fst
  · simp only [h, dif_pos, if_pos]
    exact fst_replaceIn key value m.entries
  · simp [h]

/-- The map left by a list of writes, made from first to last. -/
def ofList (writes : List (String × α)) : OrderedMap α :=
  writes.foldl (fun m write => m.insert write.1 write.2) empty

/-- The map with every value changed and every key kept. -/
def mapValues (f : α → β) (m : OrderedMap α) : OrderedMap β where
  entries := m.entries.map fun entry => (entry.1, f entry.2)
  nodup := by
    have h : (Prod.fst ∘ fun entry : String × α => (entry.1, f entry.2)) = Prod.fst := rfl
    rw [List.map_map, h]
    exact m.nodup

end OrderedMap

end Wireframe
