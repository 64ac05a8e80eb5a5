-- SUMMARY: `LSMStore`: the membership filter, the memtable, `get` with its `unwrap`, and `transact`; the store refines a last-writer-wins map on every key it was asked to write, a write reads back, a transaction applied twice is applied once, and a filter false positive makes `get` panic.
import Kave.Store.SortedMap
import Mathlib.Data.Fintype.Pi
import Mathlib.Data.Fintype.Card

/-!
# The LSM store

`src/store/lsm.rs`. A `Set` writes the memtable and marks the filter; a `Delete` writes a
tombstone and leaves the filter alone. `get` asks the filter first and, on a hit, unwraps the
memtable's entry.

The filter is `bloom_filter_rs::BloomFilter`, a crate outside the repository, built by
`BloomFilter::optimal(Murmur3, 512, 0.01)`. It is modelled as what it is, a bit array set by a
fixed family of hash functions; the number of bits and the functions are parameters, so every
result below holds for Murmur3 and for any other choice.

Two things follow. A key some instruction wrote reads back as the last write to it: the filter
has the bits of every key whose last write was a `Set`, which is all a hit needs. A key nothing
wrote may still hit the filter, because finitely many bits cannot tell infinitely many keys
apart, and then the `unwrap` of its missing entry panics.

A transaction applied twice leaves the store as applying it once: each key it writes ends with
its last write either way, and the filter's bits are only ever set.
-/

namespace Kave

-- ---------------------------------------------------------------------------
-- The membership filter
-- ---------------------------------------------------------------------------

/-- The hashing of a `BloomFilter`: `numHashes` functions from a key's bytes to one of
`numBits` bits. -/
structure Hasher where
  numBits : Nat
  numHashes : Nat
  index : Fin numHashes → Bytes → Fin numBits

/-- `BloomFilter`: its bit array. -/
structure BloomFilter (h : Hasher) where
  bits : Fin h.numBits → Bool

namespace BloomFilter

variable {h : Hasher}

/-- The filter `BloomFilter::optimal` builds: no bit set. -/
def empty : BloomFilter h := ⟨fun _ => false⟩

/-- `insert(bytes)`: set the bit of every hash function. -/
def insert (f : BloomFilter h) (bs : Bytes) : BloomFilter h :=
  ⟨fun j => f.bits j || decide (∃ i, h.index i bs = j)⟩

/-- `contains(bytes)`: the bit of every hash function is set. -/
def contains (f : BloomFilter h) (bs : Bytes) : Bool :=
  decide (∀ i, f.bits (h.index i bs) = true)

theorem contains_insert_self (f : BloomFilter h) (bs : Bytes) :
    (f.insert bs).contains bs = true := by
  simp only [contains, insert, decide_eq_true_eq, Bool.or_eq_true]
  exact fun i => .inr ⟨i, rfl⟩

/-- No false negatives: inserting never clears a bit. -/
theorem contains_insert_of_contains {f : BloomFilter h} {bs : Bytes} (bs' : Bytes)
    (hc : f.contains bs = true) : (f.insert bs').contains bs = true := by
  simp only [contains, insert, decide_eq_true_eq, Bool.or_eq_true] at hc ⊢
  exact fun i => .inl (hc i)

/-- Keys with the same bits are the same to the filter. -/
theorem contains_congr (f : BloomFilter h) {bs bs' : Bytes}
    (he : ∀ i, h.index i bs = h.index i bs') : f.contains bs = f.contains bs' := by
  simp only [contains, he]

end BloomFilter

-- ---------------------------------------------------------------------------
-- The store
-- ---------------------------------------------------------------------------

/-- `TransactInstruction` (of `store/mod.rs`, outside the sources given): a write of one key. -/
inductive TransactInstruction
  | set (key : RString) (value : Bytes)
  | delete (key : RString)

/-- `Transaction`: its instructions, applied in order. -/
structure Transaction where
  instructions : List TransactInstruction

/-- How a call ends. -/
inductive Completion (α : Type)
  | returned (a : α)
  | panicked
  deriving DecidableEq

/-- `LSMStoreData`: the memtable and the filter, which `LSMStore` guards with one mutex. -/
structure LSMStoreData (h : Hasher) where
  memtable : SortedMap RString (Option Bytes)
  bloomFilter : BloomFilter h

namespace LSMStoreData

variable {h : Hasher}

/-- The data of `LSMStore::new()`: an empty memtable and filter. -/
def new : LSMStoreData h := ⟨.empty, .empty⟩

/-- One instruction of `transact`. -/
def apply (s : LSMStoreData h) : TransactInstruction → LSMStoreData h
  | .set key value => ⟨s.memtable.insert key (some value), s.bloomFilter.insert key.bytes⟩
  | .delete key => { s with memtable := s.memtable.insert key none }

/-- `transact`: the instructions in order, all under the lock; it always returns `Ok(())`. -/
def transact (s : LSMStoreData h) (t : Transaction) : LSMStoreData h :=
  t.instructions.foldl apply s

/-- `get`: on a filter miss `None`; on a hit the memtable's entry, whose `unwrap()` panics when
there is none. -/
def get (s : LSMStoreData h) (k : RString) : Completion (Option Bytes) :=
  if !s.bloomFilter.contains k.bytes then .returned none
  else
    match s.memtable.get k with
    | some v => .returned v
    | none => .panicked

/-- The store after the transactions `ts`, in order, from `LSMStore::new()`. -/
def ofTransactions (ts : List Transaction) : LSMStoreData h := ts.foldl transact new

theorem ofTransactions_eq (ts : List Transaction) :
    ofTransactions (h := h) ts = (ts.flatMap (·.instructions)).foldl apply new := by
  suffices ∀ s : LSMStoreData h,
      ts.foldl transact s = (ts.flatMap (·.instructions)).foldl apply s from this _
  induction ts with
  | nil => exact fun _ => rfl
  | cons t ts ih => intro s; simp [transact, ih, List.foldl_append]

end LSMStoreData

-- ---------------------------------------------------------------------------
-- The store refines a last-writer-wins map
-- ---------------------------------------------------------------------------

/-- One instruction on the reference map: `Set(k, v)` makes `M[k] = Some(v)`,
`Delete(k)` makes `M[k] = None`. Unnamed keys are unmapped. -/
def lwwStep (M : RString → Option (Option Bytes)) : TransactInstruction → RString → Option (Option Bytes)
  | .set k v => Function.update M k (some (some v))
  | .delete k => Function.update M k (some none)

/-- The last-writer-wins map: every instruction of the transactions, in transaction
order and in list order within each, folded into an empty map. -/
def lastWriterWins (ts : List Transaction) : RString → Option (Option Bytes) :=
  (ts.flatMap (·.instructions)).foldl lwwStep (fun _ => none)

namespace LSMStoreData

variable {h : Hasher}

/-- The invariant `get` needs: a key whose entry is a value has its bits set. Deletes leave the
filter alone, and need not: a tombstone reads as absent on a hit and on a miss. -/
def Inv (s : LSMStoreData h) : Prop :=
  ∀ k v, s.memtable.get k = some (some v) → s.bloomFilter.contains k.bytes = true

theorem inv_new : Inv (new : LSMStoreData h) := by
  intro k v hk; simp [new] at hk

theorem inv_apply {s : LSMStoreData h} (hs : s.Inv) (i : TransactInstruction) : (s.apply i).Inv := by
  intro k v hk
  cases i with
  | set k' v' =>
    simp only [apply, SortedMap.get_insert] at hk ⊢
    split at hk
    · subst k; exact BloomFilter.contains_insert_self _ _
    · exact BloomFilter.contains_insert_of_contains _ (hs k v hk)
  | delete k' =>
    simp only [apply, SortedMap.get_insert] at hk ⊢
    split at hk
    · cases hk
    · exact hs k v hk

theorem memtable_get_apply (s : LSMStoreData h) (i : TransactInstruction) :
    (s.apply i).memtable.get = lwwStep s.memtable.get i := by
  funext k
  cases i <;> simp [apply, lwwStep, Function.update_apply]

theorem memtable_get_foldl (is : List TransactInstruction) (s : LSMStoreData h) :
    (is.foldl apply s).memtable.get = is.foldl lwwStep s.memtable.get := by
  induction is generalizing s with
  | nil => rfl
  | cons i is ih => rw [List.foldl_cons, ih, memtable_get_apply, List.foldl_cons]

theorem inv_foldl (is : List TransactInstruction) {s : LSMStoreData h} (hs : s.Inv) :
    (is.foldl apply s).Inv := by
  induction is generalizing s with
  | nil => exact hs
  | cons i is ih => exact ih (inv_apply hs i)

/-- Every store some transactions make keeps the invariant. -/
theorem inv_ofTransactions (ts : List Transaction) : (ofTransactions (h := h) ts).Inv := by
  rw [ofTransactions_eq]
  exact inv_foldl _ inv_new

/-- On the invariant, `get` of a key with an entry returns the entry. -/
theorem get_of_inv {s : LSMStoreData h} (hs : s.Inv) {k : RString} {v : Option Bytes}
    (hk : s.memtable.get k = some v) : s.get k = .returned v := by
  unfold get
  split
  · rename_i hc
    cases v with
    | none => rfl
    | some w => simp [hs k w hk] at hc
  · simp [hk]

end LSMStoreData

open LSMStoreData in
/-- `LSMStore` refines the last-writer-wins map: after any transactions, the memtable has an
entry exactly for the keys some instruction named, holding the last value set or a tombstone,
and `get` of such a key returns that value, or `None` for a tombstone, without panicking. -/
theorem lsm_refines_lastWriterWins (h : Hasher) (ts : List Transaction) :
    (ofTransactions (h := h) ts).memtable.get = lastWriterWins ts ∧
      ∀ k v, lastWriterWins ts k = some v → (ofTransactions (h := h) ts).get k = .returned v := by
  have hlww : (ofTransactions (h := h) ts).memtable.get = lastWriterWins ts := by
    rw [ofTransactions_eq, memtable_get_foldl]
    rfl
  exact ⟨hlww, fun k v hk => get_of_inv (inv_ofTransactions ts) (hlww ▸ hk)⟩

-- ---------------------------------------------------------------------------
-- Writes read back; a transaction applied twice
-- ---------------------------------------------------------------------------

namespace LSMStoreData

variable {h : Hasher}

/-- Instructions folded into a map: a key they write takes its last write, any other keeps its
value. -/
theorem foldl_lwwStep (is : List TransactInstruction) (M : RString → Option (Option Bytes))
    (k : RString) : is.foldl lwwStep M k = (is.foldl lwwStep (fun _ => none) k).or (M k) := by
  induction is generalizing M with
  | nil => rfl
  | cons i is ih =>
    rw [List.foldl_cons, List.foldl_cons, ih, ih (lwwStep _ i)]
    cases is.foldl lwwStep (fun _ => none) k with
    | some w => rfl
    | none => cases i <;> simp only [lwwStep, Function.update_apply] <;> split <;> rfl

/-- The bits set after some instructions: those set before, and those of each key set. -/
theorem bits_foldl (is : List TransactInstruction) (s : LSMStoreData h) (j : Fin h.numBits) :
    (is.foldl apply s).bloomFilter.bits j = true ↔
      s.bloomFilter.bits j = true ∨ ∃ k v, .set k v ∈ is ∧ ∃ i, h.index i k.bytes = j := by
  induction is generalizing s with
  | nil => simp
  | cons ins is ih =>
    rw [List.foldl_cons, ih]
    cases ins with
    | set k v =>
      simp only [apply, BloomFilter.insert, Bool.or_eq_true, decide_eq_true_eq, List.mem_cons,
        TransactInstruction.set.injEq]
      constructor
      · rintro ((hb | ⟨i, hi⟩) | ⟨k', v', hm, hi⟩)
        exacts [.inl hb, .inr ⟨k, v, .inl ⟨rfl, rfl⟩, i, hi⟩, .inr ⟨k', v', .inr hm, hi⟩]
      · rintro (hb | ⟨k', v', ⟨rfl, rfl⟩ | hm, hi⟩)
        exacts [.inl (.inl hb), .inl (.inr hi), .inr ⟨k', v', hm, hi⟩]
    | delete k => simp [apply]

end LSMStoreData

open LSMStoreData in
/-- A `Set` reads back, and a `Delete` after it reads as absent, whatever came before: `get k`
after `Set(k, v)` returns `v`, and after `Set(k, v)` then `Delete(k)` returns `None`. -/
theorem get_after_set_delete (h : Hasher) (ts : List Transaction) (k : RString) (v : Bytes) :
    (ofTransactions (h := h) (ts ++ [⟨[.set k v]⟩])).get k = .returned (some v) ∧
      (ofTransactions (h := h) (ts ++ [⟨[.set k v]⟩, ⟨[.delete k]⟩])).get k = .returned none := by
  have hfold (rest : List Transaction) :
      ofTransactions (h := h) (ts ++ rest) = rest.foldl transact (ofTransactions ts) :=
    List.foldl_append _ _ _ _
  refine ⟨get_of_inv (inv_ofTransactions _) ?_, get_of_inv (inv_ofTransactions _) ?_⟩ <;>
    simp [hfold, transact, apply]

open LSMStoreData in
/-- `transact` is idempotent: a transaction applied twice leaves the store as applying it once
does, its memtable and its filter. -/
theorem transact_idempotent (h : Hasher) (s : LSMStoreData h) (t : Transaction) :
    (s.transact t).transact t = s.transact t := by
  have hmem : ((s.transact t).transact t).memtable = (s.transact t).memtable :=
    SortedMap.ext fun k => by
      simp only [transact, memtable_get_foldl]
      rw [foldl_lwwStep _ (List.foldl _ _ _), foldl_lwwStep _ s.memtable.get]
      cases t.instructions.foldl lwwStep (fun _ => none) k <;> rfl
  have hbits : ((s.transact t).transact t).bloomFilter = (s.transact t).bloomFilter :=
    congrArg BloomFilter.mk <| funext fun j => Bool.eq_iff_iff.mpr <| by
      simp only [transact, bits_foldl]
      tauto
  calc (s.transact t).transact t
      = ⟨((s.transact t).transact t).memtable, ((s.transact t).transact t).bloomFilter⟩ := rfl
    _ = s.transact t := by rw [hmem, hbits]

-- ---------------------------------------------------------------------------
-- A false positive panics
-- ---------------------------------------------------------------------------

/-- `n` letters `a`: valid UTF-8. -/
def RString.replicateA (n : Nat) : RString :=
  ⟨List.replicate n 97, by
    induction n with
    | zero => decide
    | succ n ih => exact (Utf8.valid_ascii_cons (by decide)).mpr ih⟩

instance : Infinite RString :=
  Infinite.of_injective RString.replicateA fun m n h => by
    simpa [RString.replicateA] using congrArg (fun s : RString => s.bytes.length) h

open LSMStoreData in
/-- `get` can panic, whatever the filter's size and hash functions: there are two keys with
the same bits, and after `Set` of one, `get` of the other hits the filter and unwraps a missing
memtable entry. -/
theorem get_panics_on_false_positive (h : Hasher) :
    ∃ k₁ k₂ : RString, k₁ ≠ k₂ ∧
      (ofTransactions (h := h) [⟨[.set k₁ []]⟩]).get k₂ = .panicked := by
  obtain ⟨k₁, k₂, hne, hbits⟩ :=
    Finite.exists_ne_map_eq_of_infinite fun k : RString => fun i => h.index i k.bytes
  refine ⟨k₁, k₂, hne, ?_⟩
  have hc : ((BloomFilter.empty (h := h)).insert k₁.bytes).contains k₂.bytes = true := by
    rw [← BloomFilter.contains_insert_self BloomFilter.empty k₁.bytes]
    exact BloomFilter.contains_congr _ fun i => (congrFun hbits i).symm
  simp [ofTransactions, transact, apply, LSMStoreData.get, new, hc, Ne.symm hne]

end Kave
