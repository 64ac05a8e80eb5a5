-- SUMMARY: Byte strings and the `Vec<u8>` operations the reader performs, with capacities as the Rust standard library computes them.
import Mathlib.Data.List.Basic

/-!
# Bytes and `Vec<u8>`

The reader keeps its input in a `Vec<u8>` whose capacity matters: `Proto::read` asserts a
bound on it after swapping buffers, and the number of bytes one socket read can deliver is the
spare capacity. A `Vec` here is its contents and its capacity, with the length bound as a field,
and each operation computes the capacity the way `alloc::vec` and `RawVec` do for one-byte
elements.
-/

namespace Kave

/-- Byte strings: the contents of a `Vec<u8>` or a `&[u8]`. -/
abbrev Bytes := List UInt8

/-- The bytes of an ASCII literal, as `b"..."` writes them. -/
def ascii (s : String) : Bytes := s.toList.map Char.toUInt8

/-- `b':'` -/
def colon : UInt8 := 58

/-- `b'\n'` -/
def newline : UInt8 := 10

/-- A `Vec<u8>`: its contents and its capacity, which never falls below the length. -/
structure Vec where
  data : Bytes
  capacity : Nat
  len_le_capacity : data.length ≤ capacity
  deriving DecidableEq

namespace Vec

/-- `Vec::with_capacity(n)`: empty, with room for exactly `n` bytes. -/
def withCapacity (n : Nat) : Vec := ⟨[], n, Nat.zero_le _⟩

/-- `slice.to_vec()`: a copy allocated at exactly the slice's length. -/
def ofSlice (bs : Bytes) : Vec := ⟨bs, bs.length, le_rfl⟩

/-- `Vec::clear`: drops the contents and keeps the allocation. -/
def clear (v : Vec) : Vec := ⟨[], v.capacity, Nat.zero_le _⟩

/-- `Vec::shrink_to(min)`: when the capacity exceeds `min`, reallocate to `max(len, min)`. -/
def shrinkTo (v : Vec) (min : Nat) : Vec :=
  if min < v.capacity then ⟨v.data, max v.data.length min, Nat.le_max_left _ _⟩ else v

/-- `RawVec::MIN_NON_ZERO_CAP` for one-byte elements. -/
def minNonZeroCap : Nat := 8

/-- `Vec::reserve(additional)`: when the spare room is short, grow to
`max(cap * 2, len + additional, 8)`, as `RawVec::grow_amortized` does. -/
def reserve (v : Vec) (additional : Nat) : Vec :=
  if v.capacity - v.data.length < additional then
    ⟨v.data, max minNonZeroCap (max (v.capacity * 2) (v.data.length + additional)),
      by have := v.len_le_capacity; omega⟩
  else v

@[simp] theorem reserve_data (v : Vec) (n : Nat) : (v.reserve n).data = v.data := by
  unfold reserve; split <;> rfl

theorem capacity_le_reserve (v : Vec) (n : Nat) : v.capacity ≤ (v.reserve n).capacity := by
  unfold reserve; split <;> (try dsimp only) <;> omega

theorem room_le_reserve (v : Vec) (n : Nat) :
    v.data.length + n ≤ (v.reserve n).capacity := by
  have := v.len_le_capacity
  unfold reserve; split <;> (try dsimp only) <;> omega

/-- `self.append(&mut other)`: reserve room for `other`'s bytes and move them to the end of
`self`, leaving `other` empty with its allocation. Returns the new `self` and `other`. -/
def append (v other : Vec) : Vec × Vec :=
  (⟨v.data ++ other.data, (v.reserve other.data.length).capacity,
    by simpa using room_le_reserve v other.data.length⟩, other.clear)

/-- One `AsyncReadExt::read_buf(&mut vec)`: the source writes into the spare capacity (tokio's
`BufMut` reserves 64 bytes first when there is none); bytes that do not fit stay in the source
and come back at the next read. Returns the new vector and those bytes. -/
def fill (v : Vec) (bs : Bytes) : Vec × Bytes :=
  let w := if v.capacity = v.data.length then v.reserve 64 else v
  let room := w.capacity - w.data.length
  (⟨w.data ++ bs.take room, w.capacity,
    by have := w.len_le_capacity; simp only [List.length_append, List.length_take]; omega⟩,
   bs.drop room)

@[simp] theorem withCapacity_data (n : Nat) : (withCapacity n).data = [] := rfl
@[simp] theorem withCapacity_capacity (n : Nat) : (withCapacity n).capacity = n := rfl
@[simp] theorem ofSlice_data (bs : Bytes) : (ofSlice bs).data = bs := rfl
@[simp] theorem clear_data (v : Vec) : v.clear.data = [] := rfl
@[simp] theorem clear_capacity (v : Vec) : v.clear.capacity = v.capacity := rfl
@[simp] theorem append_fst_data (v o : Vec) : (v.append o).1.data = v.data ++ o.data := rfl
@[simp] theorem append_snd (v o : Vec) : (v.append o).2 = o.clear := rfl

@[simp] theorem shrinkTo_data (v : Vec) (n : Nat) : (v.shrinkTo n).data = v.data := by
  unfold shrinkTo; split <;> rfl

/-- Shrinking an emptied vector whose capacity is at least `n` leaves exactly `n`. -/
theorem clear_shrinkTo_capacity {v : Vec} {n : Nat} (h : n ≤ v.capacity) :
    (v.clear.shrinkTo n).capacity = n := by
  unfold shrinkTo; split <;> simp_all; omega

theorem capacity_le_append (v o : Vec) : v.capacity ≤ (v.append o).1.capacity :=
  capacity_le_reserve v _

theorem capacity_le_fill (v : Vec) (bs : Bytes) : v.capacity ≤ (v.fill bs).1.capacity := by
  simp only [fill]
  split
  · exact capacity_le_reserve v 64
  · exact le_rfl

/-- Reading into an empty vector with spare room: the vector holds what fitted, the rest is
returned. -/
theorem fill_of_empty {v : Vec} (h0 : v.data = []) (hc : 0 < v.capacity) (bs : Bytes) :
    v.fill bs = (⟨bs.take v.capacity, v.capacity, List.length_take_le _ _⟩, bs.drop v.capacity) := by
  have hne : v.capacity ≠ 0 := by omega
  simp [fill, hne, h0]

end Vec

end Kave
