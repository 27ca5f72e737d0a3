import Mathlib.Data.List.Nodup
import Mathlib.Data.List.Perm.Basic

/-!
# Maps in which the first write of a key wins

`FirstWrite K V` is a finite map that is only written where it has no value yet.  Its look-ups by
key and by value are inverse to each other (`mem_keysOf`), whatever has been written in whatever
order (`lookup_writes`).
-/

namespace Store

/-- A map with one entry for each of its keys. -/
structure FirstWrite (K V : Type) where
  entries : List (K × V)
  nodup : (entries.map Prod.fst).Nodup

namespace FirstWrite

variable {K V : Type}

/-- Nothing is written. -/
def empty : FirstWrite K V := ⟨[], List.nodup_nil⟩

/-- The keys with a value. -/
def keysOf [DecidableEq V] (m : FirstWrite K V) (v : V) : List K :=
  (m.entries.filter (·.2 == v)).map (·.1)

theorem nodup_keysOf [DecidableEq V] (m : FirstWrite K V) (v : V) : (m.keysOf v).Nodup :=
  m.nodup.sublist (List.filter_sublist.map Prod.fst)

variable [DecidableEq K]

/-- The value of a key. -/
def lookup (m : FirstWrite K V) (k : K) : Option V := (m.entries.find? (·.1 == k)).map (·.2)

/-- The entries after a write of `k`. -/
def writeEntry (k : K) (v : V) (l : List (K × V)) : List (K × V) :=
  if l.any (·.1 == k) then l else l ++ [(k, v)]

theorem nodup_writeEntry {k : K} {v : V} {l : List (K × V)} (h : (l.map Prod.fst).Nodup) :
    ((writeEntry k v l).map Prod.fst).Nodup := by
  unfold writeEntry
  split_ifs with hany
  · exact h
  · rw [List.map_append, List.nodup_append]
    refine ⟨h, List.nodup_singleton k, ?_⟩
    intro k' hk' k'' hk'' heq
    obtain ⟨e, he, rfl⟩ := List.mem_map.1 hk'
    obtain rfl : k'' = k := by simpa using hk''
    exact hany (List.any_eq_true.2 ⟨e, he, by simp [heq]⟩)

/-- Write `v` for `k`, unless `k` has a value. -/
def write (m : FirstWrite K V) (k : K) (v : V) : FirstWrite K V :=
  ⟨writeEntry k v m.entries, nodup_writeEntry m.nodup⟩

/-- The map after some writes. -/
def writes (m : FirstWrite K V) (l : List (K × V)) : FirstWrite K V :=
  l.foldl (fun m e => m.write e.1 e.2) m

variable {m : FirstWrite K V} {k k' : K} {v v' : V}

@[simp] theorem lookup_empty : (empty : FirstWrite K V).lookup k = none := rfl

@[simp] theorem entries_write : (m.write k v).entries = writeEntry k v m.entries := rfl

/-- A write gives a value to its key, if that has none. -/
theorem lookup_write :
    (m.write k v).lookup k' = (m.lookup k').or (if k = k' then some v else none) := by
  simp only [lookup, entries_write, writeEntry]
  by_cases hany : m.entries.any (·.1 == k) = true
  · rw [if_pos hany]
    by_cases hk : k = k'
    · subst hk
      obtain ⟨e, he⟩ := Option.isSome_iff_exists.1 (List.find?_isSome.2 (List.any_eq_true.1 hany))
      rw [he]
      rfl
    · rw [if_neg hk, Option.or_none]
  · rw [if_neg hany, List.find?_append]
    have hnone : m.entries.find? (·.1 == k) = none :=
      List.find?_eq_none.2 fun e he hk => hany (List.any_eq_true.2 ⟨e, he, hk⟩)
    by_cases hk : k = k'
    · subst hk
      simp [hnone]
    · simp [hk]

/-- **The first write wins**: a key has the value of its first write. -/
theorem lookup_writes (l : List (K × V)) :
    (m.writes l).lookup k = (m.lookup k).or ((l.find? (·.1 == k)).map (·.2)) := by
  induction l generalizing m with
  | nil => simp [writes]
  | cons e l ih =>
    have hstep : m.writes (e :: l) = (m.write e.1 e.2).writes l := rfl
    rw [hstep, ih, lookup_write, Option.or_assoc, List.find?_cons]
    by_cases hk : e.1 = k
    · simp [hk]
    · rw [if_neg hk, beq_false_of_ne hk]
      rfl

variable [DecidableEq V]

/-- The keys with a value are those whose value it is. -/
theorem mem_keysOf : k ∈ m.keysOf v ↔ m.lookup k = some v := by
  simp only [keysOf, lookup, List.mem_map, List.mem_filter, Option.map_eq_some_iff]
  constructor
  · rintro ⟨e, ⟨he, hv⟩, rfl⟩
    have hsome : (m.entries.find? (·.1 == e.1)).isSome = true :=
      List.find?_isSome.2 ⟨e, he, beq_self_eq_true e.1⟩
    obtain ⟨e', he'⟩ := Option.isSome_iff_exists.1 hsome
    -- the entry that is found is `e` itself, since the key has one entry
    have hkey : e'.1 = e.1 := by simpa using List.find?_some he'
    obtain rfl := List.inj_on_of_nodup_map m.nodup (List.mem_of_find?_eq_some he') he hkey
    exact ⟨e', he', eq_of_beq hv⟩
  · rintro ⟨e, he, rfl⟩
    exact ⟨e, ⟨List.mem_of_find?_eq_some he, beq_self_eq_true _⟩, by simpa using List.find?_some he⟩

end FirstWrite

end Store
