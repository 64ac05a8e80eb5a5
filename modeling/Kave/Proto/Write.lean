-- SUMMARY: The replies `Proto` writes: `null`, and frames `<len>:<bytes>\n` whose length `usize::to_string` prints; the reader's `parse::<usize>` reads back every length printed, and the reply to an echo is its request without the opcode.
import Kave.Proto.Accept
import Mathlib.Data.Nat.Digits

/-!
# Replies

`write_null`, `write_echo`, `write_get_result`, `write_set_result` and `flush` of `src/proto.rs`.
Each writer chains its bytes into one `Buf` and hands it to `write_stream_buf!`, which writes
them all or returns the socket's error; `flush` hands the stream to `flush_stream!`. A reply with a value is a frame: the value's length printed by
`usize::to_string`, a colon, the value and a newline; the set reply frames the value's length
itself.

The lengths are printed by `Display for usize` and read by `str::parse::<usize>`, and the two
agree on every length a `usize` holds. So every frame the writers make has a length field the
reader's own grammar reads as the payload's length, and an echo request is answered by its own
bytes after `ECHO:`, however the socket split them.
-/

namespace Kave

-- ---------------------------------------------------------------------------
-- `usize::to_string`
-- ---------------------------------------------------------------------------

/-- `usize::to_string`: the decimal digits of `n`, with no sign and no leading zero (`"0"` for
zero). `core::fmt` writes them from the end of a buffer, two at a time from a table;
`Nat.toDigits` writes the same digits one at a time. -/
def toDecimal (n : Nat) : Bytes := (Nat.toDigits 10 n).map Char.toUInt8

/-- The byte of a digit. -/
theorem digitChar_toNat {d : Nat} (hd : d < 10) : (Nat.digitChar d).toUInt8.toNat = 48 + d := by
  interval_cases d <;> rfl

/-- The digit loop of `Nat.toDigits`, with enough fuel, puts the digits of `n` in front of what
it has written. -/
theorem toDigitsCore_digits (fuel n : Nat) (acc : List Char) (hn : n < fuel) :
    ∃ ds, (Nat.toDigitsCore 10 fuel n acc).map Char.toUInt8 = ds ++ acc.map Char.toUInt8 ∧
      ds ≠ [] ∧ (∀ c ∈ ds, IsDigit c) ∧ decimalValue 0 ds = n := by
  induction fuel generalizing n acc with
  | zero => omega
  | succ fuel ih =>
    have hd := digitChar_toNat (Nat.mod_lt n (show 10 > 0 by decide))
    have hdig : IsDigit (Nat.digitChar (n % 10)).toUInt8 := by
      unfold IsDigit; omega
    unfold Nat.toDigitsCore
    dsimp only
    split_ifs with h0
    · refine ⟨[(Nat.digitChar (n % 10)).toUInt8], rfl, List.cons_ne_nil _ _, by simpa using hdig, ?_⟩
      simp only [decimalValue_cons, decimalValue_nil, hd]
      omega
    · obtain ⟨ds, hmap, hne, hds, hval⟩ := ih (n / 10) (Nat.digitChar (n % 10) :: acc) (by omega)
      refine ⟨ds ++ [(Nat.digitChar (n % 10)).toUInt8], by simp [hmap], by simp,
        by simpa [or_imp, forall_and] using ⟨hds, hdig⟩, ?_⟩
      simp only [decimalValue, List.foldl_append] at hval ⊢
      simp only [hval, List.foldl_cons, List.foldl_nil, hd]
      omega

/-- `to_string` prints a length field of the reader's grammar, with no sign. -/
theorem toDecimal_lenField {n : Nat} (hn : n ≤ usizeMax) : LenField (toDecimal n) n := by
  obtain ⟨ds, hmap, hne, hds, hval⟩ := toDigitsCore_digits (n + 1) n [] (Nat.lt_succ_self n)
  exact ⟨ds, .inl (by simpa using hmap), hne, hds, hval, hn⟩

/-- `str::parse::<usize>` reads back what `usize::to_string` printed, for exactly the numbers a
`usize` holds. -/
theorem parseUsize_toDecimal (n : Nat) : parseUsize (toDecimal n) = .ok n ↔ n ≤ usizeMax :=
  ⟨fun h => (parseUsize_eq_ok.mp h).choose_spec.2.2.2.2,
    fun hn => parseUsize_eq_ok.mpr (toDecimal_lenField hn)⟩

-- ---------------------------------------------------------------------------
-- The writers
-- ---------------------------------------------------------------------------

/-- `write_stream_buf!`: `write_all_buf` either writes every byte, which then reach the peer, or
fails with an error `e` (`some e`), which the macro returns as
`"session={id} error writing to socket: {e}"`. -/
def writeStreamBuf (id : String) (bytes : Bytes) : Option String → Except String Bytes
  | none => .ok bytes
  | some e => .error s!"session={id} error writing to socket: {e}"

/-- `flush_stream!`: `flush` either succeeds or fails with an error `e`, which the macro returns
as `"session={id} error flushing stream: {e}"`. -/
def flushStream (id : String) : Option String → Except String Unit
  | none => .ok ()
  | some e => .error s!"session={id} error flushing stream: {e}"

/-- `Proto::flush`. -/
def flush (id : String) : Option String → Except String Unit := flushStream id

/-- The bytes `write_echo` and `write_get_result` chain: the data's length, `:`, the data and
`\n`. -/
def frame (data : Bytes) : Bytes := toDecimal data.length ++ [colon] ++ data ++ [newline]

/-- `write_null`. -/
def writeNull (id : String) : Option String → Except String Bytes :=
  writeStreamBuf id (ascii "null\n")

/-- `write_echo`. -/
def writeEcho (id : String) (data : Bytes) : Option String → Except String Bytes :=
  writeStreamBuf id (frame data)

/-- `write_get_result`. -/
def writeGetResult (id : String) (data : Bytes) : Option String → Except String Bytes :=
  writeStreamBuf id (frame data)

/-- `write_set_result`: `len_v` is the value's length printed, and the frame is of `len_v`:
`len_v_len`, `:`, `len_v` and `\n`. -/
def writeSetResult (id : String) (data : Bytes) : Option String → Except String Bytes :=
  let lenV := toDecimal data.length
  let lenVLen := toDecimal lenV.length
  writeStreamBuf id (lenVLen ++ [colon] ++ lenV ++ [newline])

/-- Bytes that are a frame of `payload`: a length field the reader's grammar reads as the
payload's length, `:`, the payload and `\n`. -/
def Framed (bs payload : Bytes) : Prop :=
  ∃ D, LenField D payload.length ∧ bs = D ++ [colon] ++ payload ++ [newline]

theorem frame_framed {data : Bytes} (hd : data.length ≤ usizeMax) : Framed (frame data) data :=
  ⟨_, toDecimal_lenField hd, rfl⟩

/-- A `usize` has at most twenty digits. -/
theorem toDecimal_length_le {n : Nat} (hn : n ≤ usizeMax) : (toDecimal n).length ≤ 20 := by
  simpa [toDecimal, Nat.toDigits] using
    Nat.toDigitsCore_length 10 (by decide) (n + 1) n 20 (lt_of_le_of_lt hn (by decide)) (by decide)

/-- Every reply with a value is a frame whose length field the reader's own grammar reads as the
payload's length; the payload of the set reply is the value's length, which the reader's
`parse::<usize>` reads back. -/
theorem replies_framed (id : String) (data : Bytes) (hd : data.length ≤ usizeMax) :
    (∃ bs, writeEcho id data none = .ok bs ∧ Framed bs data) ∧
      (∃ bs, writeGetResult id data none = .ok bs ∧ Framed bs data) ∧
      ∃ bs payload, writeSetResult id data none = .ok bs ∧ Framed bs payload ∧
        parseUsize payload = .ok data.length := by
  have hlen : (toDecimal data.length).length ≤ usizeMax :=
    le_trans (toDecimal_length_le hd) (by decide)
  exact ⟨⟨_, rfl, frame_framed hd⟩, ⟨_, rfl, frame_framed hd⟩,
    ⟨_, _, rfl, ⟨_, toDecimal_lenField hlen, rfl⟩, parseUsize_eq_ok.mpr (toDecimal_lenField hd)⟩⟩

theorem replies_framed_hi :
    (ascii "hi").length ≤ usizeMax ∧
      ((∃ bs, writeEcho "s" (ascii "hi") none = .ok bs ∧ Framed bs (ascii "hi")) ∧
        (∃ bs, writeGetResult "s" (ascii "hi") none = .ok bs ∧ Framed bs (ascii "hi")) ∧
        ∃ bs payload, writeSetResult "s" (ascii "hi") none = .ok bs ∧ Framed bs payload ∧
          parseUsize payload = .ok (ascii "hi").length) :=
  ⟨by decide, replies_framed "s" (ascii "hi") (by decide)⟩

-- ---------------------------------------------------------------------------
-- Echo
-- ---------------------------------------------------------------------------

/-- The reply to an echo is its request without the opcode: a fresh reader given `ECHO:` and
the frame of `m`, split into socket reads in any way, returns `Echo m`, and `write_echo` of it
writes the bytes that followed `ECHO:`. -/
theorem echo_reply_is_request (id : String) (m : Bytes) (hm : m.length ≤ usizeMax)
    (first : Bytes) (chunks : List Bytes) (final : Event) (hfirst : minBufSize ≤ first.length)
    (hfinal : final.Silent) (hreq : first ++ chunks.flatten = ascii "ECHO:" ++ frame m) :
    ∃ fuel p src, (Proto.new id).read ⟨(first :: chunks).map .data, final⟩ fuel =
        some (.returned (.ok (.echo m)) p src) ∧
      writeEcho id m none = .ok ((first ++ chunks.flatten).drop 5) := by
  have hbegins : Begins (first ++ chunks.flatten) (.echo m) :=
    ⟨_, [newline], toDecimal_lenField hm, by rw [hreq]; simp [frame]⟩
  obtain ⟨fuel, p, src, hrun⟩ := read_fresh_of_accepts id hfirst hfinal
    ((accepts_eq_ok_iff _ _).mpr hbegins)
  exact ⟨fuel, p, src, hrun, by rw [hreq, ascii_ECHO_colon]; rfl⟩

theorem echo_reply_is_request_hi :
    (ascii "hi").length ≤ usizeMax ∧ minBufSize ≤ (ascii "ECHO:2:hi\n").length ∧
      Event.eof.Silent ∧ ascii "ECHO:2:hi\n" ++ [].flatten = ascii "ECHO:" ++ frame (ascii "hi") ∧
      ∃ fuel p src, (Proto.new "s").read ⟨[ascii "ECHO:2:hi\n"].map .data, .eof⟩ fuel =
          some (.returned (.ok (.echo (ascii "hi"))) p src) ∧
        writeEcho "s" (ascii "hi") none = .ok ((ascii "ECHO:2:hi\n" ++ [].flatten).drop 5) :=
  ⟨by decide, by decide, (fun _ h => nomatch h), by decide,
    echo_reply_is_request "s" (ascii "hi") (by decide) (ascii "ECHO:2:hi\n") [] .eof (by decide)
      (fun _ h => nomatch h) (by decide)⟩

end Kave
