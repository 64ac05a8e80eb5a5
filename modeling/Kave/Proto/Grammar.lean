-- SUMMARY: The request grammar: length fields as `str::parse::<usize>` reads them, the three requests as byte strings, and that the opcode and the states after it accept exactly them.
import Kave.Proto.Feed

/-!
# The request grammar

A request is an opcode, then colon-delimited length fields and the bytes they count:
`GET:<D>:<key>`, `SET:<D₁>:<key>:<D₂>:<value>` and `ECHO:<D>:<msg>`. A length field is what
`std::str::from_utf8(..)?.parse::<usize>()` accepts between the colons: an optional `+` and a
non-empty run of decimal digits whose value fits in a `usize`. What follows the last payload is
not read.

`accepts` is what a fresh reader does with a byte stream held in one buffer: the four opcode
bytes, then `Parse.feed`. `accepts_eq_ok_iff` says it returns a request exactly when the stream
begins with that request.
-/

namespace Kave

-- ---------------------------------------------------------------------------
-- Length fields
-- ---------------------------------------------------------------------------

/-- A length field as `str::parse::<usize>` reads it: an optional `+`, then decimal digits whose
value `n` fits in a `usize`. -/
def LenField (D : Bytes) (n : Nat) : Prop :=
  ∃ ds, (D = ds ∨ D = plus :: ds) ∧ ds ≠ [] ∧ (∀ c ∈ ds, IsDigit c) ∧ decimalValue 0 ds = n ∧
    n ≤ usizeMax

/-- The bytes of a length field are ASCII and none is a colon. -/
theorem LenField.ascii {D : Bytes} {n : Nat} (h : LenField D n) :
    ∀ c ∈ D, c.toNat < 0x80 ∧ c ≠ colon := by
  obtain ⟨ds, hD, -, hd, -⟩ := h
  have hdig : ∀ c ∈ ds, c.toNat < 0x80 ∧ c ≠ colon := fun c hc => by
    have := hd c hc
    refine ⟨by unfold IsDigit at this; omega, fun h => ?_⟩
    subst h
    exact absurd this (by decide)
  rcases hD with rfl | rfl
  · exact hdig
  · intro c hc
    rcases List.mem_cons.mp hc with rfl | hc
    · decide
    · exact hdig c hc

theorem Utf8.valid_of_ascii {bs : Bytes} (h : ∀ c ∈ bs, c.toNat < 0x80) : Utf8.Valid bs := by
  induction bs with
  | nil => rfl
  | cons a bs ih =>
    exact (Utf8.valid_ascii_cons (h a (List.mem_cons_self _ _))).mpr
      (ih fun c hc => h c (List.mem_cons_of_mem _ hc))

/-- The digits between the colons parse exactly when they form a length field. -/
theorem parseLen_eq_ok (ue : Utf8Error → ReadError) {D : Bytes} {n : Nat} :
    parseLen ue D = .ok n ↔ LenField D n := by
  unfold parseLen
  split <;> rename_i hs
  · refine ⟨(fun h => nomatch h), fun hD => ?_⟩
    obtain ⟨s, hs'⟩ := (fromUtf8_isOk_iff D).mpr
      (Utf8.valid_of_ascii fun c hc => (hD.ascii c hc).1)
    rw [hs'] at hs
    cases hs
  · rename_i s
    rw [fromUtf8_eq_ok.mp hs, LenField, ← parseUsize_eq_ok]
    split <;> simp_all

-- ---------------------------------------------------------------------------
-- Reading a length field
-- ---------------------------------------------------------------------------

/-- The scan from the opening colon finds the closing one. -/
theorem scanLen_field {D : Bytes} (hD : colon ∉ D) (u : Nat) (d r : Bytes) :
    scanLen u true d (D ++ colon :: r) = .closed (d ++ D) (u + D.length + 1) := by
  induction D generalizing u d with
  | nil => simp [scanLen]
  | cons b D ih =>
    have hb : b ≠ colon := fun h => hD (h ▸ List.mem_cons_self _ _)
    rw [List.cons_append]
    simp only [scanLen, hb, if_false]
    rw [ih (fun h => hD (List.mem_cons_of_mem _ h))]
    simp only [List.append_assoc, List.singleton_append, List.length_cons]
    congr 1
    omega

/-- What a scan that closed has read: the digits, then the closing colon. -/
theorem scanLen_eq_closed {u : Nat} {d bs D' : Bytes} {used : Nat}
    (h : scanLen u true d bs = .closed D' used) :
    ∃ D r, bs = D ++ colon :: r ∧ colon ∉ D ∧ D' = d ++ D ∧ used = u + D.length + 1 := by
  induction bs generalizing u d with
  | nil => simp at h
  | cons b bs ih =>
    simp only [scanLen] at h
    split at h <;> rename_i hb
    · cases h
      exact ⟨[], bs, by simp [hb], by simp, by simp, by simp⟩
    · obtain ⟨D, r, rfl, hD, rfl, rfl⟩ := ih h
      refine ⟨b :: D, r, rfl, ?_, by simp, by simp only [List.length_cons]; omega⟩
      simp only [List.mem_cons, not_or]
      exact ⟨Ne.symm hb, hD⟩

/-- A length field read from its opening colon: the bytes are `:D:` with `D` a length field. -/
theorem readLen_eq_parsed {ce : UInt8 → ReadError} {ue : Utf8Error → ReadError}
    {bs D : Bytes} {n used : Nat} :
    readLen ce ue false [] bs = .parsed D n used ↔
      ∃ r, bs = colon :: (D ++ colon :: r) ∧ LenField D n ∧ used = D.length + 2 := by
  constructor
  · intro h
    rcases bs with _ | ⟨b, bs⟩
    · simp [readLen] at h
    by_cases hb : b = colon
    · subst hb
      simp only [readLen, scanLen, if_true] at h
      split at h <;> rename_i hscan
      · cases h
      · cases h
      · split at h <;> rename_i hp
        · cases h
        · cases h
          obtain ⟨D, r, rfl, -, rfl, rfl⟩ := scanLen_eq_closed hscan
          exact ⟨r, by simp, (parseLen_eq_ok ue).mp hp, by omega⟩
    · simp [readLen, scanLen, hb] at h
  · rintro ⟨r, rfl, hD, rfl⟩
    have hc : colon ∉ D := fun h => (hD.ascii _ h).2 rfl
    simp [readLen, scanLen, scanLen_field hc, (parseLen_eq_ok ue).mpr hD]
    omega

-- ---------------------------------------------------------------------------
-- The states after the opcode, one field at a time
-- ---------------------------------------------------------------------------

/-- The copy loop from an empty field. -/
theorem fillPass_nil (t : Nat) (full : Bytes → Nat → Pass) (short : Bytes → Pass) (bs : Bytes) :
    fillPass t full short [] bs = if t ≤ bs.length then full (bs.take t) t else short bs := by
  unfold fillPass
  by_cases h : t ≤ bs.length <;> simp [h]

section Phases

variable {p : Parse} {bs : Bytes} {op : ProtoOp}

/-- Where the body does not return a request, the bytes lead where the next state takes them. -/
theorem Parse.feed_eq_ok_of_body (h : ∀ op', p.body bs ≠ .exit (.ok op')) :
    p.feed bs = .exit (.ok op) ↔
      ∃ q used, p.body bs = .next q used ∧ q.feed (bs.drop used) = .exit (.ok op) := by
  rw [Parse.feed_eq]
  cases hb : p.body bs with
  | next q u => exact ⟨fun hf => ⟨q, u, rfl, hf⟩, fun ⟨_, _, hq, hf⟩ => by cases hq; exact hf⟩
  | exit r => cases r with
    | error e => simp
    | ok op' => exact absurd hb (h op')
  | _ => simp

theorem Parse.feed_of_done (hs : p.state = .done) : p.feed bs = .exit (done p) := by
  rw [Parse.feed_eq, Parse.body, hs]

/-- `ReadKeyLen` from its start: `:D:` with `D` a length field, then the key or the echo. -/
theorem Parse.feed_keyLen (hs : p.state = .readKeyLen) (hb : p.betweenColons = false)
    (hk : p.keyLenBuf = []) :
    p.feed bs = .exit (.ok op) ↔ ∃ D n r, bs = colon :: (D ++ colon :: r) ∧ LenField D n ∧
      ({ p with betweenColons := false, keyLenBuf := D, keyLen := n,
                state := if p.op = .echo then .readEcho else .readKey } : Parse).feed r =
        .exit (.ok op) := by
  rw [Parse.feed_eq_ok_of_body fun op' h => by
    simp only [Parse.body, hs, readKeyLen] at h; split at h <;> cases h]
  simp only [Parse.body, hs, readKeyLen, hb, hk]
  constructor
  · rintro ⟨q, u, h, hf⟩
    split at h <;> cases h
    obtain ⟨r, rfl, hD, rfl⟩ := readLen_eq_parsed.mp ‹_›
    exact ⟨_, _, r, rfl, hD, by simpa using hf⟩
  · rintro ⟨D, n, r, rfl, hD, hf⟩
    refine ⟨_, D.length + 2, ?_, by simpa using hf⟩
    rw [readLen_eq_parsed.mpr ⟨r, rfl, hD, rfl⟩]

/-- `ReadValueLen` from its start: `:D:` with `D` a length field, then the value. -/
theorem Parse.feed_valueLen (hs : p.state = .readValueLen) (hb : p.betweenColons = false)
    (hk : p.valueLenBuf = []) :
    p.feed bs = .exit (.ok op) ↔ ∃ D n r, bs = colon :: (D ++ colon :: r) ∧ LenField D n ∧
      ({ p with betweenColons := false, valueLenBuf := D, valueLen := n,
                state := .readValue } : Parse).feed r = .exit (.ok op) := by
  rw [Parse.feed_eq_ok_of_body fun op' h => by
    simp only [Parse.body, hs, readValueLen] at h; split at h <;> cases h]
  simp only [Parse.body, hs, readValueLen, hb, hk]
  constructor
  · rintro ⟨q, u, h, hf⟩
    split at h <;> cases h
    obtain ⟨r, rfl, hD, rfl⟩ := readLen_eq_parsed.mp ‹_›
    exact ⟨_, _, r, rfl, hD, by simpa using hf⟩
  · rintro ⟨D, n, r, rfl, hD, hf⟩
    refine ⟨_, D.length + 2, ?_, by simpa using hf⟩
    rw [readLen_eq_parsed.mpr ⟨r, rfl, hD, rfl⟩]

/-- `ReadKey` from an empty key, for a get or a set: the next `key_len` bytes. -/
theorem Parse.feed_key (hs : p.state = .readKey) (hk : p.key = []) (hop : p.op ≠ .echo) :
    p.feed bs = .exit (.ok op) ↔ p.keyLen ≤ bs.length ∧
      ({ p with key := bs.take p.keyLen,
                state := if p.op = .get then .done else .readValueLen } : Parse).feed
        (bs.drop p.keyLen) = .exit (.ok op) := by
  rw [Parse.feed_eq]
  simp only [Parse.body, hs, readKey_eq, hk, fillPass_nil]
  by_cases hle : p.keyLen ≤ bs.length
  · cases h : p.op <;> simp_all
  · simp [hle]

/-- `ReadEcho` from an empty echo: the next `key_len` bytes. -/
theorem Parse.feed_echo (hs : p.state = .readEcho) (he : p.echo = []) :
    p.feed bs = .exit (.ok op) ↔ p.keyLen ≤ bs.length ∧
      ({ p with echo := bs.take p.keyLen, state := .done } : Parse).feed (bs.drop p.keyLen) =
        .exit (.ok op) := by
  rw [Parse.feed_eq]
  simp only [Parse.body, hs, readEcho_eq, he, fillPass_nil]
  by_cases hle : p.keyLen ≤ bs.length <;> simp [hle]

/-- `ReadValue` from an empty value: the next `value_len` bytes. -/
theorem Parse.feed_value (hs : p.state = .readValue) (hv : p.value = []) :
    p.feed bs = .exit (.ok op) ↔ p.valueLen ≤ bs.length ∧
      ({ p with value := bs.take p.valueLen, state := .done } : Parse).feed
        (bs.drop p.valueLen) = .exit (.ok op) := by
  rw [Parse.feed_eq]
  simp only [Parse.body, hs, readValue_eq, hv, fillPass_nil]
  by_cases hle : p.valueLen ≤ bs.length <;> simp [hle]

end Phases

-- ---------------------------------------------------------------------------
-- Each request after its opcode
-- ---------------------------------------------------------------------------

/-- What `ReadOp` leaves parsed: the opcode, and `ReadKeyLen` next. -/
def Parse.afterOp (o : Op) : Parse := { Parse.init with op := o, state := .readKeyLen }

@[simp] theorem Parse.afterOp_op (o : Op) : (Parse.afterOp o).op = o := rfl
@[simp] theorem Parse.afterOp_key (o : Op) : (Parse.afterOp o).key = [] := rfl
@[simp] theorem Parse.afterOp_echo (o : Op) : (Parse.afterOp o).echo = [] := rfl
@[simp] theorem Parse.afterOp_value (o : Op) : (Parse.afterOp o).value = [] := rfl

variable {bs : Bytes} {op : ProtoOp}

/-- After `GET`: `:D:` and the key, valid UTF-8, of the length `D` gives. -/
theorem feed_get_iff :
    (Parse.afterOp .get).feed bs = .exit (.ok op) ↔
      ∃ k D rest, op = .get k ∧ LenField D k.bytes.length ∧
        bs = colon :: (D ++ colon :: (k.bytes ++ rest)) := by
  rw [Parse.feed_keyLen rfl rfl rfl]
  constructor
  · rintro ⟨D, n, r, rfl, hD, hf⟩
    rw [Parse.feed_key rfl rfl (by simp)] at hf
    obtain ⟨hle, hf⟩ := hf
    rw [Parse.feed_of_done rfl] at hf
    simp only [done] at hf
    split at hf <;> cases hf
    rename_i k hk
    have hkb := fromUtf8_eq_ok.mp hk
    refine ⟨k, D, r.drop n, rfl, ?_, ?_⟩
    · rwa [hkb, List.length_take, min_eq_left hle]
    · rw [hkb, List.take_append_drop]
  · rintro ⟨k, D, rest, rfl, hD, rfl⟩
    refine ⟨D, _, _, rfl, hD, ?_⟩
    rw [Parse.feed_key rfl rfl (by simp)]
    refine ⟨by simp, ?_⟩
    rw [Parse.feed_of_done rfl]
    simp [done, fromUtf8_eq_ok.mpr (rfl : k.bytes = k.bytes)]

/-- After `SET`: `:D₁:`, the key, valid UTF-8, of the length `D₁` gives, then `:D₂:` and the
value of the length `D₂` gives. -/
theorem feed_set_iff :
    (Parse.afterOp .set).feed bs = .exit (.ok op) ↔
      ∃ k v D₁ D₂ rest, op = .set k v ∧ LenField D₁ k.bytes.length ∧ LenField D₂ v.length ∧
        bs = colon :: (D₁ ++ colon :: (k.bytes ++ colon :: (D₂ ++ colon :: (v ++ rest)))) := by
  rw [Parse.feed_keyLen rfl rfl rfl]
  constructor
  · rintro ⟨D₁, n, r, rfl, hD₁, hf⟩
    rw [Parse.feed_key rfl rfl (by simp)] at hf
    obtain ⟨hle, hf⟩ := hf
    rw [Parse.feed_valueLen rfl rfl rfl] at hf
    obtain ⟨D₂, m, r', hr, hD₂, hf⟩ := hf
    rw [Parse.feed_value rfl rfl] at hf
    obtain ⟨hle', hf⟩ := hf
    rw [Parse.feed_of_done rfl] at hf
    simp only [done] at hf
    split at hf <;> cases hf
    rename_i k hk
    have hkb := fromUtf8_eq_ok.mp hk
    refine ⟨k, r'.take m, D₁, D₂, r'.drop m, rfl, ?_, ?_, ?_⟩
    · rwa [hkb, List.length_take, min_eq_left hle]
    · rwa [List.length_take, min_eq_left hle']
    · rw [hkb, List.take_append_drop, ← hr, List.take_append_drop]
  · rintro ⟨k, v, D₁, D₂, rest, rfl, hD₁, hD₂, rfl⟩
    refine ⟨D₁, _, _, rfl, hD₁, ?_⟩
    rw [Parse.feed_key rfl rfl (by simp)]
    refine ⟨by simp, ?_⟩
    rw [Parse.feed_valueLen rfl rfl rfl]
    refine ⟨D₂, _, v ++ rest, by simp, hD₂, ?_⟩
    rw [Parse.feed_value rfl rfl]
    refine ⟨by simp, ?_⟩
    rw [Parse.feed_of_done rfl]
    simp [done, fromUtf8_eq_ok.mpr (rfl : k.bytes = k.bytes)]

/-- After `ECHO`: `:D:` and the message of the length `D` gives. -/
theorem feed_echo_iff :
    (Parse.afterOp .echo).feed bs = .exit (.ok op) ↔
      ∃ m D rest, op = .echo m ∧ LenField D m.length ∧ bs = colon :: (D ++ colon :: (m ++ rest)) := by
  rw [Parse.feed_keyLen rfl rfl rfl]
  constructor
  · rintro ⟨D, n, r, rfl, hD, hf⟩
    rw [Parse.feed_echo rfl rfl] at hf
    obtain ⟨hle, hf⟩ := hf
    rw [Parse.feed_of_done rfl] at hf
    simp only [done] at hf
    split at hf <;> cases hf
    refine ⟨r.take n, D, r.drop n, rfl, ?_, by rw [List.take_append_drop]⟩
    rwa [List.length_take, min_eq_left hle]
  · rintro ⟨m, D, rest, rfl, hD, rfl⟩
    refine ⟨D, _, _, rfl, hD, ?_⟩
    rw [Parse.feed_echo rfl rfl]
    refine ⟨by simp, ?_⟩
    rw [Parse.feed_of_done rfl]
    simp only [done, Parse.afterOp_key, Parse.afterOp_op, List.take_left']
    rfl

-- ---------------------------------------------------------------------------
-- The stream
-- ---------------------------------------------------------------------------

/-- The stream `s` begins with the request `op`; what follows it is not read. -/
def Begins (s : Bytes) : ProtoOp → Prop
  | .get k => ∃ D rest, LenField D k.bytes.length ∧
      s = ascii "GET:" ++ D ++ [colon] ++ k.bytes ++ rest
  | .set k v => ∃ D₁ D₂ rest, LenField D₁ k.bytes.length ∧ LenField D₂ v.length ∧
      s = ascii "SET:" ++ D₁ ++ [colon] ++ k.bytes ++ [colon] ++ D₂ ++ [colon] ++ v ++ rest
  | .echo m => ∃ D rest, LenField D m.length ∧ s = ascii "ECHO:" ++ D ++ [colon] ++ m ++ rest
  | .sysClose | .cancelled => False

/-- What a fresh reader does with a stream of at least four bytes in one buffer: `ReadOp` on the
first four, then the states after the opcode from where `ReadOp` leaves `ptr`. -/
def accepts (s : Bytes) : Fed :=
  if s.take minBufSize = ascii "GET:" then (Parse.afterOp .get).feed (s.drop 3)
  else if s.take minBufSize = ascii "SET:" then (Parse.afterOp .set).feed (s.drop 3)
  else if s.take minBufSize = ascii "ECHO" then (Parse.afterOp .echo).feed (s.drop 4)
  else .exit (.error (.unknownOp (s.take minBufSize)))

theorem ascii_GET : ascii "GET:" = [71, 69, 84, colon] := rfl
theorem ascii_SET : ascii "SET:" = [83, 69, 84, colon] := rfl
theorem ascii_ECHO : ascii "ECHO" = [69, 67, 72, 79] := rfl
theorem ascii_ECHO_colon : ascii "ECHO:" = [69, 67, 72, 79, colon] := rfl

/-- A fresh reader's stream gives a request exactly when it begins with it. -/
theorem accepts_eq_ok_iff (s : Bytes) (op : ProtoOp) :
    accepts s = .exit (.ok op) ↔ Begins s op := by
  have hsplit (o : Bytes) (h : s.take 4 = o) : s = o ++ s.drop 4 := by
    rw [← h, List.take_append_drop]
  unfold accepts minBufSize
  split_ifs with hg hs he
  · rw [hsplit _ hg, ascii_GET]
    simp only [List.cons_append, List.drop_succ_cons, List.drop_zero, feed_get_iff]
    cases op <;> simp [Begins, ascii_GET, ascii_SET, ascii_ECHO_colon]
  · rw [hsplit _ hs, ascii_SET]
    simp only [List.cons_append, List.drop_succ_cons, List.drop_zero, feed_set_iff]
    cases op <;> simp [Begins, ascii_GET, ascii_SET, ascii_ECHO_colon, and_assoc]
  · rw [hsplit _ he, ascii_ECHO]
    simp only [List.cons_append, List.drop_succ_cons, List.drop_zero, feed_echo_iff]
    cases op <;> simp [Begins, ascii_GET, ascii_SET, ascii_ECHO_colon]
  · cases op <;> simp only [Begins, Fed.exit.injEq, reduceCtorEq, false_iff, not_exists, not_and]
    · intro D rest _ h
      simp [h, ascii_GET] at hg
    · intro D₁ D₂ rest _ _ h
      simp [h, ascii_SET] at hs
    · intro D rest _ h
      simp [h, ascii_ECHO, ascii_ECHO_colon] at he

end Kave
