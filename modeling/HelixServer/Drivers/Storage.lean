import Mathlib.Data.List.Basic
import Mathlib.Data.List.Forall2

/-!
# What the storage drivers are built on

The in-memory drivers keep a JavaScript `Map`, the SQL drivers send statements to an engine that
chooses the row a `SELECT … LIMIT 1` answers when several match.

* `JsMap.set`, `JsMap.get` : a `Map` with string keys, its entries in insertion order.
* `SharedMap` : a `Map` whose values are objects that its readers share with it.
* `Engine` : the choice of a SQL engine, and `Engine.select`.
* `DateText` : the text that SQLite stores for a date.
-/

namespace HelixServer

namespace Drivers

/-! ### Maps -/

namespace JsMap

variable {β : Type} {m : List (String × β)} {k k' : String} {v : β}

/-- `Map.set`: a used key keeps its place. -/
def set (k : String) (v : β) (m : List (String × β)) : List (String × β) :=
  if m.any (·.1 == k) then m.map fun e => if e.1 == k then (k, v) else e else m ++ [(k, v)]

/-- `Map.get`. -/
def get (k : String) (m : List (String × β)) : Option β := (m.find? (·.1 == k)).map (·.2)

/-- `Map.values`. -/
def values (m : List (String × β)) : List β := m.map (·.2)

/-- The entries are keyed by `key`. -/
def KeyedBy (key : β → String) (m : List (String × β)) : Prop := ∀ e ∈ m, e.1 = key e.2

variable {key : β → String}

theorem any_values (h : KeyedBy key m) :
    (m.any fun e => e.1 == k) = (values m).any fun v => key v == k := by
  rw [values, List.any_map, Bool.eq_iff_iff]
  simp only [List.any_eq_true, Function.comp_apply]
  exact exists_congr fun e => and_congr_right fun he => by rw [h e he]

theorem get_eq_find? (h : KeyedBy key m) : get k m = (values m).find? (key · == k) := by
  induction m with
  | nil => rfl
  | cons e m ih =>
    have he : e.1 = key e.2 := h e List.mem_cons_self
    have ih := ih fun e he => h e (List.mem_cons_of_mem _ he)
    simp only [get, values, List.map_cons, List.find?_cons, he] at ih ⊢
    split
    · rfl
    · exact ih

theorem values_set (h : KeyedBy key m) :
    values (set k v m) =
      if (values m).any fun v => key v == k then
        (values m).map fun v' => if key v' == k then v else v'
      else values m ++ [v] := by
  rw [← any_values h, set]
  split_ifs
  · simp only [values, List.map_map]
    refine List.map_congr_left fun e he => ?_
    simp only [Function.comp_apply, h e he]
    split_ifs <;> rfl
  · simp [values]

theorem keyedBy_set (h : KeyedBy key m) (hv : key v = k) : KeyedBy key (set k v m) := by
  intro e he
  unfold set at he
  split_ifs at he
  · obtain ⟨e', he', rfl⟩ := List.mem_map.1 he
    split_ifs
    · exact hv.symm
    · exact h e' he'
  · rcases List.mem_append.1 he with he | he
    · exact h e he
    · obtain rfl := List.mem_singleton.1 he
      exact hv.symm

/-- Values that are changed in place. -/
def mapValues (f : β → β) (m : List (String × β)) : List (String × β) :=
  m.map fun e => (e.1, f e.2)

theorem values_mapValues (f : β → β) : values (mapValues f m) = (values m).map f := by
  simp [values, mapValues]

theorem keyedBy_mapValues (h : KeyedBy key m) {f : β → β} (hf : ∀ v, key (f v) = key v) :
    KeyedBy key (mapValues f m) := by
  intro e he
  obtain ⟨e', he', rfl⟩ := List.mem_map.1 he
  exact (h e' he').trans (hf _).symm

theorem get_set_of_ne (hk : k' ≠ k) : get k' (set k v m) = get k' m := by
  have hne : (k == k') = false := beq_eq_false_iff_ne.2 hk.symm
  have hmap : get k' (m.map fun e => if e.1 == k then (k, v) else e) = get k' m := by
    induction m with
    | nil => rfl
    | cons e m ih =>
      simp only [get, List.map_cons, List.find?_cons] at ih ⊢
      by_cases he : e.1 = k
      · simp only [he, beq_self_eq_true, if_true, hne]
        exact ih
      · simp only [beq_eq_false_iff_ne.2 he, Bool.false_eq_true, if_false]
        split
        · rfl
        · exact ih
  rw [set]
  split_ifs
  · exact hmap
  · simp [get, List.find?_append, hne]

end JsMap

/-! ### Maps of shared objects -/

/-- A `Map` to objects.  Who is given an object holds a reference to it, and sees what becomes of
it. -/
structure SharedMap (β : Type) where
  /-- The objects that have been made; a reference is the place of one. -/
  objects : List β
  entries : List (String × ℕ)

namespace SharedMap

variable {β : Type} {m : SharedMap β} {l : List (String × β)} {k k' : String} {v : β} {f : β → β}

/-- The map without entries. -/
def empty : SharedMap β := ⟨[], []⟩

/-- The reference under a key. -/
def get (k : String) (m : SharedMap β) : Option ℕ := JsMap.get k m.entries

/-- What the object is when it is read. -/
def read (m : SharedMap β) (ref : ℕ) : Option β := m.objects[ref]?

/-- A new object under the key. -/
def set (k : String) (v : β) (m : SharedMap β) : SharedMap β :=
  ⟨m.objects ++ [v], JsMap.set k m.objects.length m.entries⟩

/-- The objects of the map are changed in place. -/
def update (f : β → β) (m : SharedMap β) : SharedMap β :=
  { m with objects := m.objects.mapIdx fun ref v =>
      if m.entries.any (·.2 == ref) then f v else v }

/-- The objects of the map are the values of `l`, as long as nothing changes. -/
def Shows (m : SharedMap β) (l : List (String × β)) : Prop :=
  List.Forall₂ (fun e e' => e.1 = e'.1 ∧ m.read e.2 = some e'.2) m.entries l

theorem shows_empty : (empty : SharedMap β).Shows [] := .nil

theorem read_set_length : (m.set k v).read m.objects.length = some v :=
  List.getElem?_concat_length

theorem Shows.get (h : m.Shows l) : (m.get k).bind m.read = JsMap.get k l := by
  unfold SharedMap.get JsMap.get
  unfold Shows at h
  generalize m.entries = entries at h
  induction h with
  | nil => rfl
  | @cons e e' entries l he _ ih =>
    rw [List.find?_cons, List.find?_cons, he.1]
    split
    · exact he.2
    · exact ih

theorem read_set {ref : ℕ} {v' : β} (h : m.read ref = some v') : (m.set k v).read ref = some v' :=
  (List.getElem?_append_left (List.getElem?_eq_some_iff.1 h).1).trans h

theorem Shows.set (h : m.Shows l) : (m.set k v).Shows (JsMap.set k v l) := by
  have hany : (m.entries.any fun e => e.1 == k) = l.any fun e => e.1 == k := by
    unfold Shows at h
    generalize m.entries = entries at h
    induction h with
    | nil => rfl
    | cons he _ ih => rw [List.any_cons, List.any_cons, he.1, ih]
  have hold : List.Forall₂ (fun e e' => e.1 = e'.1 ∧ (m.set k v).read e.2 = some e'.2)
      m.entries l := h.imp fun _ _ he => ⟨he.1, read_set he.2⟩
  have hnew : (m.set k v).read m.objects.length = some v := read_set_length
  unfold Shows
  rw [SharedMap.set, JsMap.set, JsMap.set, hany]
  split_ifs
  · rw [List.forall₂_map_left_iff, List.forall₂_map_right_iff]
    refine hold.imp fun e e' he => ?_
    rw [he.1]
    split_ifs
    · exact ⟨rfl, hnew⟩
    · exact he
  · exact List.rel_append hold (.cons ⟨rfl, hnew⟩ .nil)

theorem read_update {e : String × ℕ} (he : e ∈ m.entries) (h : m.read e.2 = some v) :
    (m.update f).read e.2 = some (f v) := by
  have hany : m.entries.any (·.2 == e.2) = true :=
    List.any_eq_true.2 ⟨e, he, beq_self_eq_true e.2⟩
  have hread : m.objects[e.2]? = some v := h
  simp [read, update, List.getElem?_mapIdx, hread, hany]

theorem Shows.update (h : m.Shows l) : (m.update f).Shows (JsMap.mapValues f l) := by
  -- the entries that are left are entries of the map
  have hsub : ∀ {entries l}, (∀ e ∈ entries, e ∈ m.entries) →
      List.Forall₂ (fun e e' => e.1 = e'.1 ∧ m.read e.2 = some e'.2) entries l →
      List.Forall₂ (fun e e' => e.1 = e'.1 ∧ (m.update f).read e.2 = some e'.2) entries
        (JsMap.mapValues f l) := by
    intro entries l hmem h
    induction h with
    | nil => exact .nil
    | @cons e e' entries l he _ ih =>
      exact .cons ⟨he.1, read_update (hmem e List.mem_cons_self) he.2⟩
        (ih fun e he => hmem e (List.mem_cons_of_mem _ he))
  exact hsub (fun _ he => he) h

theorem get_set_of_ne (hk : k' ≠ k) : (m.set k v).get k' = m.get k' := JsMap.get_set_of_ne hk

end SharedMap

/-! ### SQL engines -/

/-- Which of the matching rows a `SELECT … LIMIT 1` answers. -/
structure Engine (ρ : Type) where
  first : List ρ → Option ρ
  first_mem : ∀ l r, first l = some r → r ∈ l
  first_isSome : ∀ l, l ≠ [] → (first l).isSome = true

namespace Engine

variable {ρ : Type} (e : Engine ρ) {p : ρ → Bool} {rows : List ρ}

/-- `SELECT * FROM rows WHERE p LIMIT 1`. -/
def select (p : ρ → Bool) (rows : List ρ) : Option ρ := e.first (rows.filter p)

/-- The engine that answers the row inserted first. -/
def oldest : Engine ρ where
  first l := l.head?
  first_mem _ _ h := List.mem_of_head? h
  first_isSome l h := by cases l <;> simp_all

/-- The engine that answers the row inserted last. -/
def newest : Engine ρ where
  first l := l.getLast?
  first_mem _ _ h := List.mem_of_getLast? h
  first_isSome l h := by cases l <;> simp_all

theorem select_oldest : (oldest : Engine ρ).select p rows = rows.find? p := by
  simp [select, oldest, List.head?_filter]

theorem mem_of_select {r : ρ} (h : e.select p rows = some r) : r ∈ rows ∧ p r = true :=
  List.mem_filter.1 (e.first_mem _ r h)

theorem select_of_unique (h : ∀ r ∈ rows, ∀ r' ∈ rows, p r = true → p r' = true → r = r') :
    e.select p rows = rows.find? p := by
  rw [← select_oldest, select, select]
  cases hl : rows.filter p with
  | nil => exact Option.eq_none_iff_forall_ne_some.2 fun r hr => by simpa using e.first_mem _ _ hr
  | cons r l =>
    obtain ⟨r', hr'⟩ := Option.isSome_iff_exists.1 (e.first_isSome (r :: l) (List.cons_ne_nil r l))
    have hmem : ∀ x ∈ r :: l, x ∈ rows ∧ p x = true := fun x hx => List.mem_filter.1 (hl ▸ hx)
    obtain ⟨hr₁, hp₁⟩ := hmem r' (e.first_mem _ _ hr')
    obtain ⟨hr₂, hp₂⟩ := hmem r List.mem_cons_self
    rw [hr', h r' hr₁ r hr₂ hp₁ hp₂]
    rfl

theorem select_map_of_unique {σ : Type} {f : σ → ρ} {g : ρ → σ} {l : List σ} (hg : ∀ x, g (f x) = x)
    (h : ∀ x ∈ l, ∀ x' ∈ l, p (f x) = true → p (f x') = true → x = x') :
    (e.select p (l.map f)).map g = l.find? fun x => p (f x) := by
  have hunique : e.select p (l.map f) = (l.map f).find? p := by
    refine e.select_of_unique fun r hr r' hr' hp hp' => ?_
    obtain ⟨x, hx, rfl⟩ := List.mem_map.1 hr
    obtain ⟨x', hx', rfl⟩ := List.mem_map.1 hr'
    rw [h x hx x' hx' hp hp']
  rw [hunique, List.find?_map, Option.map_map]
  simp only [Function.comp_def, hg, Option.map_id']

/-- The engine that answers `r` whenever it can. -/
def preferring [DecidableEq ρ] (r : ρ) : Engine ρ where
  first l := if r ∈ l then some r else l.head?
  first_mem l r' h := by
    split_ifs at h with hr
    · exact Option.some.inj h ▸ hr
    · exact List.mem_of_head? h
  first_isSome l h := by
    split_ifs
    · rfl
    · cases l <;> simp_all

theorem select_preferring [DecidableEq ρ] {r : ρ} (hr : r ∈ rows) (hp : p r = true) :
    (preferring r).select p rows = some r :=
  if_pos (List.mem_filter.2 ⟨hr, hp⟩)

end Engine

/-! ### Dates in SQLite -/

/-- The text that `sqliteLiteral` writes for a date and `new Date` reads back. -/
structure DateText where
  write : ℕ → String
  read : String → ℕ
  read_write : ∀ date, read (write date) = date
  write_ne : ∀ date, write date ≠ ""

namespace DateText

variable (D : DateText)

/-- `column ? new Date(column) : null`. -/
def readNullable (column : Option String) : Option ℕ := (column.filter (· != "")).map D.read

theorem readNullable_map (date : Option ℕ) : D.readNullable (date.map D.write) = date := by
  cases date with
  | none => rfl
  | some d => simp [readNullable, Option.filter, D.write_ne, D.read_write]

/-- Dates as texts of their length. -/
def unary : DateText where
  write date := String.ofList (List.replicate (date + 1) '.')
  read text := text.toList.length - 1
  read_write := by simp
  write_ne date h := by simpa using congrArg String.toList h

end DateText

end Drivers

end HelixServer
