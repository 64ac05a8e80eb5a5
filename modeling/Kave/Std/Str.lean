-- SUMMARY: `core::str` as the reader uses it: UTF-8 validation (`from_utf8`), owned strings as validated bytes, and `str::parse::<usize>`.
import Kave.Std.Vec
import Mathlib.Data.List.Lex

/-!
# UTF-8 and decimal parsing

`Proto::read` calls two functions of `core::str`: `from_utf8` on the digits of a length field
and on a key, and `parse::<usize>` on the digits. Both are translated here from the standard
library's algorithms (`run_utf8_validation` and `from_str_radix`), since the set of streams the
reader accepts depends on exactly what they accept.

An owned `String` is a byte string together with the proof that it is valid UTF-8, so a key
that reached the store cannot be malformed.
-/

namespace Kave

-- ---------------------------------------------------------------------------
-- UTF-8 validation
-- ---------------------------------------------------------------------------

/-- `core::str::Utf8Error`: where the valid prefix ends, and the length of the invalid sequence
(`None` when the input ended inside a character). -/
structure Utf8Error where
  validUpTo : Nat
  errorLen : Option Nat
  deriving DecidableEq, Repr

namespace Utf8

/-- `core::str::utf8_char_width`: the length of the character a first byte opens, `0` when the
byte cannot open one. -/
def charWidth (b : UInt8) : Nat :=
  if b.toNat < 0x80 then 1
  else if 0xC2 ≤ b.toNat ∧ b.toNat ≤ 0xDF then 2
  else if 0xE0 ≤ b.toNat ∧ b.toNat ≤ 0xEF then 3
  else if 0xF0 ≤ b.toNat ∧ b.toNat ≤ 0xF4 then 4
  else 0

/-- A continuation byte, `%x80-BF` (`next as i8 < -64`). -/
def cont (b : UInt8) : Bool := 0x80 ≤ b.toNat ∧ b.toNat ≤ 0xBF

/-- The second byte of a three-byte character, by the first (no overlong form, no surrogate). -/
def second3 (a b : UInt8) : Bool :=
  (a.toNat = 0xE0 ∧ 0xA0 ≤ b.toNat ∧ b.toNat ≤ 0xBF) ∨
  (0xE1 ≤ a.toNat ∧ a.toNat ≤ 0xEC ∧ cont b) ∨
  (a.toNat = 0xED ∧ 0x80 ≤ b.toNat ∧ b.toNat ≤ 0x9F) ∨
  (0xEE ≤ a.toNat ∧ a.toNat ≤ 0xEF ∧ cont b)

/-- The second byte of a four-byte character, by the first (no overlong form, nothing past
U+10FFFF). -/
def second4 (a b : UInt8) : Bool :=
  (a.toNat = 0xF0 ∧ 0x90 ≤ b.toNat ∧ b.toNat ≤ 0xBF) ∨
  (0xF1 ≤ a.toNat ∧ a.toNat ≤ 0xF3 ∧ cont b) ∨
  (a.toNat = 0xF4 ∧ 0x80 ≤ b.toNat ∧ b.toNat ≤ 0x8F)

/-- `core::str::run_utf8_validation` from byte `offset` on, with `none` for `Ok(())`: each
character is checked byte by byte, an invalid byte reports how far the sequence got
(`err!(Some(n))`), and running out of input inside a character reports `None`. The ASCII fast
path of the source reads words at once and agrees with this byte loop. -/
def check (offset : Nat) : Bytes → Option Utf8Error
  | [] => none
  | a :: rest =>
    match charWidth a, rest with
    | 1, rest => check (offset + 1) rest
    | 2, [] => some ⟨offset, none⟩
    | 2, b :: rest => if cont b then check (offset + 2) rest else some ⟨offset, some 1⟩
    | 3, [] => some ⟨offset, none⟩
    | 3, [b] => some ⟨offset, if second3 a b then none else some 1⟩
    | 3, b :: c :: rest =>
      if !second3 a b then some ⟨offset, some 1⟩
      else if cont c then check (offset + 3) rest else some ⟨offset, some 2⟩
    | 4, [] => some ⟨offset, none⟩
    | 4, [b] => some ⟨offset, if second4 a b then none else some 1⟩
    | 4, [b, c] =>
      some ⟨offset, if !second4 a b then some 1 else if cont c then none else some 2⟩
    | 4, b :: c :: d :: rest =>
      if !second4 a b then some ⟨offset, some 1⟩
      else if !cont c then some ⟨offset, some 2⟩
      else if cont d then check (offset + 4) rest else some ⟨offset, some 3⟩
    | _, _ => some ⟨offset, some 1⟩

/-- Valid UTF-8. -/
def Valid (bs : Bytes) : Prop := check 0 bs = none

instance (bs : Bytes) : Decidable (Valid bs) := inferInstanceAs (Decidable (_ = _))

/-- Where a run starts does not change whether it succeeds. -/
theorem check_eq_none_iff (i j : Nat) (bs : Bytes) : check i bs = none ↔ check j bs = none := by
  obtain ⟨n, hn⟩ : ∃ n, bs.length ≤ n := ⟨_, le_rfl⟩
  induction n generalizing bs i j with
  | zero => simp [List.length_eq_zero.mp (Nat.le_zero.mp hn), check]
  | succ n ih =>
    match bs with
    | [] => simp [check]
    | a :: rest =>
      unfold check
      split <;> (repeat' split) <;>
        first | exact ih _ _ _ (by simp only [List.length_cons] at hn; omega) | simp

/-- ASCII bytes are valid UTF-8 on their own. -/
theorem valid_ascii_cons {a : UInt8} (ha : a.toNat < 0x80) {bs : Bytes} :
    Valid (a :: bs) ↔ Valid bs := by
  have : charWidth a = 1 := by simp [charWidth, ha]
  simp only [Valid, check, this]
  exact check_eq_none_iff 1 0 bs

end Utf8

-- ---------------------------------------------------------------------------
-- Owned strings
-- ---------------------------------------------------------------------------

/-- A Rust `String`: UTF-8 bytes, valid by construction. -/
structure RString where
  bytes : Bytes
  valid : Utf8.Valid bytes
  deriving DecidableEq

namespace RString

@[ext] theorem ext {s t : RString} (h : s.bytes = t.bytes) : s = t := by
  cases s; cases t; cases h; rfl

/-- An ASCII literal as a `String`. -/
def ofAscii (s : String) (h : Utf8.Valid (ascii s) := by decide) : RString := ⟨ascii s, h⟩

/-- `String`s are ordered as their bytes, as `Ord for str` compares them. -/
instance : LinearOrder RString :=
  LinearOrder.lift' (fun s => s.bytes.map UInt8.toNat) fun _ _ h =>
    RString.ext (List.map_injective_iff.mpr (fun _ _ => UInt8.toNat.inj) h)

end RString

/-- `String::from_utf8(bytes)`: the bytes as a `String`, or where validation failed. -/
def fromUtf8 (bs : Bytes) : Except Utf8Error RString :=
  match h : Utf8.check 0 bs with
  | none => .ok ⟨bs, h⟩
  | some e => .error e

theorem fromUtf8_eq_ok {bs : Bytes} {s : RString} : fromUtf8 bs = .ok s ↔ s.bytes = bs := by
  unfold fromUtf8
  split
  · exact ⟨fun h => by cases h; rfl, fun h => by cases s; subst h; rfl⟩
  · rename_i e h
    refine ⟨fun h => (nomatch h), fun hs => ?_⟩
    have := s.valid
    simp_all [Utf8.Valid]

/-- Validation fails exactly on invalid bytes. -/
theorem fromUtf8_isOk_iff (bs : Bytes) : (∃ s, fromUtf8 bs = .ok s) ↔ Utf8.Valid bs :=
  ⟨fun ⟨s, h⟩ => fromUtf8_eq_ok.mp h ▸ s.valid, fun h => ⟨⟨bs, h⟩, fromUtf8_eq_ok.mpr rfl⟩⟩

-- ---------------------------------------------------------------------------
-- `str::parse::<usize>`
-- ---------------------------------------------------------------------------

/-- `core::num::IntErrorKind`, the cases `usize::from_str` reports. -/
inductive IntErrorKind
  | empty
  | invalidDigit
  | posOverflow
  deriving DecidableEq, Repr

/-- `usize::MAX` on the 64-bit targets the server is built for. -/
def usizeMax : Nat := 18446744073709551615

/-- `b'+'` -/
def plus : UInt8 := 43

/-- `b'-'` -/
def minus : UInt8 := 45

/-- An ASCII decimal digit. -/
def IsDigit (c : UInt8) : Prop := 48 ≤ c.toNat ∧ c.toNat ≤ 57

instance (c : UInt8) : Decidable (IsDigit c) := inferInstanceAs (Decidable (_ ∧ _))

/-- `(c as char).to_digit(10)`. -/
def toDigit (c : UInt8) : Option Nat := if IsDigit c then some (c.toNat - 48) else none

/-- The digit loop of `from_str_radix`: `checked_mul(10)`, the digit (`InvalidDigit` first),
then `checked_add`, either overflow being `PosOverflow`. For at most 16 digits the source runs
an unchecked loop, which cannot overflow and so agrees with this one. -/
def accumulate (acc : Nat) : Bytes → Except IntErrorKind Nat
  | [] => .ok acc
  | c :: cs =>
    match toDigit c with
    | none => .error .invalidDigit
    | some x => if usizeMax < acc * 10 + x then .error .posOverflow else accumulate (acc * 10 + x) cs

/-- `usize::from_str`, that is `from_str_radix(src, 10)`: an empty string is `Empty`, a lone
sign is `InvalidDigit`, and a leading `+` is skipped (a `-` is not, `usize` being unsigned). -/
def parseUsize (src : Bytes) : Except IntErrorKind Nat :=
  match src with
  | [] => .error .empty
  | c :: rest =>
    if (c = plus ∨ c = minus) ∧ rest = [] then .error .invalidDigit
    else if c = plus then accumulate 0 rest
    else accumulate 0 src

/-- The value of a digit string read after `acc`. -/
def decimalValue (acc : Nat) (ds : Bytes) : Nat := ds.foldl (fun a c => a * 10 + (c.toNat - 48)) acc

@[simp] theorem decimalValue_nil (acc : Nat) : decimalValue acc [] = acc := rfl

@[simp] theorem decimalValue_cons (acc : Nat) (c : UInt8) (cs : Bytes) :
    decimalValue acc (c :: cs) = decimalValue (acc * 10 + (c.toNat - 48)) cs := rfl

theorem le_decimalValue (acc : Nat) (ds : Bytes) : acc ≤ decimalValue acc ds := by
  induction ds generalizing acc with
  | nil => exact le_rfl
  | cons c cs ih => rw [decimalValue_cons]; exact le_trans (by omega) (ih _)

/-- The digit loop succeeds exactly on digits whose value fits in a `usize`. -/
theorem accumulate_eq_ok {acc n : Nat} {ds : Bytes} (hacc : acc ≤ usizeMax) :
    accumulate acc ds = .ok n ↔
      (∀ c ∈ ds, IsDigit c) ∧ decimalValue acc ds = n ∧ n ≤ usizeMax := by
  induction ds generalizing acc with
  | nil =>
    simp only [accumulate, Except.ok.injEq, decimalValue_nil, List.not_mem_nil, false_implies,
      implies_true, true_and]
    exact ⟨fun h => ⟨h, h ▸ hacc⟩, fun h => h.1⟩
  | cons c cs ih =>
    by_cases hc : IsDigit c
    · have hle := le_decimalValue (acc * 10 + (c.toNat - 48)) cs
      simp only [accumulate, toDigit, hc, if_true, decimalValue_cons, List.mem_cons,
        forall_eq_or_imp, true_and]
      split
      · simp only [reduceCtorEq, false_iff, not_and]; omega
      · exact ih (by omega)
    · simp [accumulate, toDigit, hc]

/-- What `str::parse::<usize>` accepts: an optional `+`, then a non-empty run of digits whose
value fits in a `usize`. -/
theorem parseUsize_eq_ok {src : Bytes} {n : Nat} :
    parseUsize src = .ok n ↔ ∃ ds, (src = ds ∨ src = plus :: ds) ∧ ds ≠ [] ∧
      (∀ c ∈ ds, IsDigit c) ∧ decimalValue 0 ds = n ∧ n ≤ usizeMax := by
  have h0 : 0 ≤ usizeMax := Nat.zero_le _
  have hplus : ¬IsDigit plus := by decide
  have hminus : ¬IsDigit minus := by decide
  match src with
  | [] => simp [parseUsize]
  | c :: rest =>
    simp only [parseUsize]
    split
    · rename_i h
      simp only [reduceCtorEq, false_iff, not_exists, not_and]
      rintro ds (rfl | ⟨rfl, rfl⟩) hne hd
      · rcases h with ⟨hc | hc, rfl⟩ <;> subst hc <;> simp_all
      · exact absurd h.2 hne
    · split
      · rename_i h hc
        subst hc
        rw [accumulate_eq_ok h0]
        constructor
        · rintro ⟨hd, hv, hn⟩
          exact ⟨rest, .inr rfl, by simp_all, hd, hv, hn⟩
        · rintro ⟨ds, (rfl | ⟨-, rfl⟩), -, hd, hv, hn⟩
          · exact absurd (hd _ (List.mem_cons_self _ _)) hplus
          · exact ⟨hd, hv, hn⟩
      · rename_i h hc
        rw [accumulate_eq_ok h0]
        constructor
        · rintro ⟨hd, hv, hn⟩
          exact ⟨c :: rest, .inl rfl, List.cons_ne_nil _ _, hd, hv, hn⟩
        · rintro ⟨ds, (rfl | ⟨rfl, -⟩), -, hd, hv, hn⟩
          · exact ⟨hd, hv, hn⟩
          · exact absurd rfl hc

end Kave
