-- SUMMARY: The memtable's ordered map: bindings kept in strictly ascending key order, with insertion that replaces and lookup.
import Kave.Std.Str
import Mathlib.Order.Lattice

/-!
# Sorted maps

`LSMStore`'s memtable is an `rb_tree::RBMap`. What the store relies on is its map behaviour —
`insert` replaces the value of a key already present, `get` finds the last value inserted — and
the ordering invariant of a red-black tree, that iteration yields ascending keys. A map here is its
bindings in iteration order, and the ordering is a field, so no map out of order can be built.
-/

namespace Kave

/-- `rb_tree::RBMap`: its bindings in iteration order, keys strictly ascending. -/
structure SortedMap (κ ν : Type) [LinearOrder κ] where
  entries : List (κ × ν)
  ascending : (entries.map Prod.fst).Pairwise (· < ·)

namespace SortedMap

variable {κ ν : Type} [LinearOrder κ]

/-- `RBMap::new()`. -/
def empty : SortedMap κ ν := ⟨[], List.Pairwise.nil⟩

/-- Insertion into ordered bindings: before the first larger key, or over an equal one. -/
def insertList (k : κ) (v : ν) : List (κ × ν) → List (κ × ν)
  | [] => [(k, v)]
  | (k', v') :: rest =>
    if k < k' then (k, v) :: (k', v') :: rest
    else if k = k' then (k, v) :: rest
    else (k', v') :: insertList k v rest

/-- Lookup in bindings. -/
def findList (k : κ) : List (κ × ν) → Option ν
  | [] => none
  | (k', v) :: rest => if k = k' then some v else findList k rest

theorem mem_keys_insertList {k : κ} {v : ν} {l : List (κ × ν)} {x : κ}
    (hx : x ∈ (insertList k v l).map Prod.fst) : x = k ∨ x ∈ l.map Prod.fst := by
  induction l with
  | nil => simp_all [insertList]
  | cons e rest ih =>
    simp only [insertList] at hx
    split at hx
    · simpa using hx
    · split at hx
      · simp_all
      · simp only [List.map_cons, List.mem_cons] at hx ⊢
        rcases hx with hx | hx
        · exact .inr (.inl hx)
        · rcases ih hx with h | h
          · exact .inl h
          · exact .inr (.inr h)

theorem ascending_insertList {k : κ} {v : ν} {l : List (κ × ν)}
    (h : (l.map Prod.fst).Pairwise (· < ·)) : ((insertList k v l).map Prod.fst).Pairwise (· < ·) := by
  induction l with
  | nil => simp [insertList]
  | cons e rest ih =>
    simp only [List.map_cons, List.pairwise_cons] at h
    simp only [insertList]
    split
    · simp only [List.map_cons, List.pairwise_cons, List.mem_cons, forall_eq_or_imp]
      exact ⟨⟨‹_›, fun x hx => lt_trans ‹_› (h.1 x hx)⟩, h⟩
    · split
      · subst k
        simp only [List.map_cons, List.pairwise_cons]
        exact h
      · have hlt : e.1 < k := lt_of_le_of_ne (not_lt.mp ‹_›) (Ne.symm ‹_›)
        simp only [List.map_cons, List.pairwise_cons]
        refine ⟨fun x hx => ?_, ih h.2⟩
        rcases mem_keys_insertList hx with rfl | hx
        · exact hlt
        · exact h.1 x hx

/-- `RBMap::insert`: the key now maps to `v`, whether or not it was present. -/
def insert (m : SortedMap κ ν) (k : κ) (v : ν) : SortedMap κ ν :=
  ⟨insertList k v m.entries, ascending_insertList m.ascending⟩

/-- `RBMap::get`. -/
def get (m : SortedMap κ ν) (k : κ) : Option ν := findList k m.entries

theorem findList_insertList (k k' : κ) (v : ν) (l : List (κ × ν)) :
    findList k' (insertList k v l) = if k' = k then some v else findList k' l := by
  induction l with
  | nil => simp [insertList, findList]
  | cons e rest ih =>
    simp only [insertList]
    split
    · simp only [findList]
    · split
      · subst k; by_cases h : k' = e.1 <;> simp [findList, h]
      · rename_i hne
        by_cases h : k' = e.1
        · subst h; simp [findList, Ne.symm hne]
        · simp [findList, h, ih]

/-- A key below every key of the bindings is not bound. -/
theorem findList_eq_none {k : κ} {l : List (κ × ν)} (h : ∀ x ∈ l.map Prod.fst, k < x) :
    findList k l = none := by
  induction l with
  | nil => rfl
  | cons e rest ih =>
    simp only [List.map_cons, List.mem_cons, forall_eq_or_imp] at h
    simp [findList, ne_of_lt h.1, ih h.2]

/-- A key below the first key of ascending bindings finds nothing in them. -/
theorem findList_cons_of_lt {k : κ} {e : κ × ν} {l : List (κ × ν)}
    (h : ((e :: l).map Prod.fst).Pairwise (· < ·)) (hk : k < e.1) : findList k (e :: l) = none :=
  findList_eq_none fun x hx => by
    simp only [List.map_cons, List.mem_cons] at hx
    rcases hx with rfl | hx
    · exact hk
    · exact lt_trans hk ((List.pairwise_cons.mp h).1 x hx)

/-- Ascending bindings are determined by their lookups. -/
theorem eq_of_findList {l l' : List (κ × ν)} (hl : (l.map Prod.fst).Pairwise (· < ·))
    (hl' : (l'.map Prod.fst).Pairwise (· < ·)) (h : ∀ k, findList k l = findList k l') : l = l' := by
  induction l generalizing l' with
  | nil =>
    cases l' with
    | nil => rfl
    | cons e rest => simpa [findList] using h e.1
  | cons e rest ih =>
    cases l' with
    | nil => simpa [findList] using h e.1
    | cons e' rest' =>
      rcases lt_trichotomy e.1 e'.1 with hlt | heq | hgt
      · have he := h e.1
        rw [findList_cons_of_lt hl' hlt] at he
        simp [findList] at he
      · obtain ⟨k, v⟩ := e
        obtain ⟨k', v'⟩ := e'
        obtain rfl : k = k' := heq
        obtain rfl : v = v' := by simpa [findList] using h k
        simp only [List.map_cons, List.pairwise_cons] at hl hl'
        refine congrArg _ (ih hl.2 hl'.2 fun x => ?_)
        by_cases hx : x = k
        · subst hx; rw [findList_eq_none hl.1, findList_eq_none hl'.1]
        · simpa [findList, hx] using h x
      · have he := h e'.1
        rw [findList_cons_of_lt hl hgt] at he
        simp [findList] at he

/-- Two maps with the same lookups are the same map. -/
theorem ext {m m' : SortedMap κ ν} (h : ∀ k, m.get k = m'.get k) : m = m' := by
  obtain ⟨l, hl⟩ := m
  obtain ⟨l', hl'⟩ := m'
  obtain rfl := eq_of_findList hl hl' h
  rfl

@[simp] theorem get_empty (k : κ) : (empty : SortedMap κ ν).get k = none := rfl

@[simp] theorem get_insert (m : SortedMap κ ν) (k k' : κ) (v : ν) :
    (m.insert k v).get k' = if k' = k then some v else m.get k' :=
  findList_insertList k k' v m.entries

end SortedMap

end Kave
