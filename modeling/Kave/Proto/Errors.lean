-- SUMMARY: What a fresh reader reports on a malformed request: the error `from_utf8` or `parse::<usize>` gives for the first length field, `ECHO` not followed by `:`, and a key that is not UTF-8.
import Kave.Proto.Accept

/-!
# Malformed requests

`Proto::read` returns an error, neither a request nor a panic, when a request is malformed.
Three errors can be read off the stream a fresh reader is given, however the socket splits it,
when its first read holds the four bytes of an opcode (a shorter first read is an error of its
own, `Config.fresh_short`):

* digits of the first length field that `from_utf8` or `parse::<usize>` reject give that error,
  `key length is invalid utf8: {e}` or `parseint error: {e}`;
* `ECHO` followed by a byte other than `:` gives `reading key_len, expected ':' found {:?}` with
  that byte. After `GET:` and `SET:` this cannot happen, as `ReadOp` leaves the cursor on their
  colon;
* a get or a set whose key is not UTF-8 gives `key is invalid utf8: {e}`, with where validation
  failed. A set's key is checked only once its value has been read.
-/

namespace Kave

-- ---------------------------------------------------------------------------
-- Steps of the loop
-- ---------------------------------------------------------------------------

theorem Parse.feed_of_next {p q : Parse} {bs : Bytes} {used : Nat}
    (h : p.body bs = .next q used) : p.feed bs = q.feed (bs.drop used) := by
  rw [Parse.feed_eq, h]

theorem Parse.feed_of_exit {p : Parse} {bs : Bytes} {r : Except ReadError ProtoOp}
    (h : p.body bs = .exit r) : p.feed bs = .exit r := by
  rw [Parse.feed_eq, h]

/-- The name of the opcode, as a request spells it before its first colon. -/
def Op.name : Op → Bytes
  | .get => ascii "GET"
  | .set => ascii "SET"
  | .echo => ascii "ECHO"

/-- `ReadOp` on a request's name and a colon: the states after it start at the colon. -/
theorem accepts_name (o : Op) (X : Bytes) :
    accepts (o.name ++ colon :: X) = (Parse.afterOp o).feed (colon :: X) := by
  cases o <;> rfl

theorem fromUtf8_eq_error {bs : Bytes} {e : Utf8Error} (h : Utf8.check 0 bs = some e) :
    fromUtf8 bs = .error e := by
  unfold fromUtf8
  split <;> simp_all

-- ---------------------------------------------------------------------------
-- Length fields
-- ---------------------------------------------------------------------------

/-- A length field whose digits `parseLen` rejects fails with that error. -/
theorem readLen_eq_fail {ce : UInt8 → ReadError} {ue : Utf8Error → ReadError} {D r : Bytes}
    {e : ReadError} (hD : colon ∉ D) (hp : parseLen ue D = .error e) :
    readLen ce ue false [] (colon :: (D ++ colon :: r)) = .fail e := by
  simp [readLen, scanLen, scanLen_field hD, hp]

/-- Digits of the first length field that `from_utf8` or `parse::<usize>` reject: a fresh reader
returns that error, whichever the request. -/
theorem read_reports_bad_length (id : String) (first : Bytes) (chunks : List Bytes)
    (final : Event) (hfirst : minBufSize ≤ first.length) (hfinal : final.Silent) (o : Op)
    (D rest : Bytes) (hs : first ++ chunks.flatten = o.name ++ colon :: (D ++ colon :: rest))
    (hD : colon ∉ D) (e : ReadError) (he : parseLen .keyLenUtf8 D = .error e) :
    ∃ fuel p src, (Proto.new id).read ⟨(first :: chunks).map .data, final⟩ fuel =
      some (.returned (.error e) p src) := by
  refine read_fresh_of_accepts id hfirst hfinal ?_
  rw [hs, accepts_name]
  exact Parse.feed_of_exit (by simp [Parse.body, Parse.afterOp, Parse.init, readKeyLen,
    readLen_eq_fail hD he])

theorem read_reports_bad_length_x :
    minBufSize ≤ (ascii "GET:x:k").length ∧ Event.eof.Silent ∧
      ascii "GET:x:k" ++ [].flatten = Op.get.name ++ colon :: (ascii "x" ++ colon :: ascii "k") ∧
      colon ∉ ascii "x" ∧ parseLen .keyLenUtf8 (ascii "x") = .error (.parseInt .invalidDigit) ∧
      ∃ fuel p src, (Proto.new "s").read ⟨[ascii "GET:x:k"].map .data, .eof⟩ fuel =
        some (.returned (.error (.parseInt .invalidDigit)) p src) :=
  ⟨by decide, (fun _ h => nomatch h), by decide, by decide, rfl,
    read_reports_bad_length "s" (ascii "GET:x:k") [] .eof (by decide) (fun _ h => nomatch h) .get
      (ascii "x") (ascii "k") (by decide) (by decide) _ rfl⟩

/-- `ECHO` followed by a byte other than `:`: a fresh reader returns
`reading key_len, expected ':' found` that byte. -/
theorem read_reports_echo_colon (id : String) (first : Bytes) (chunks : List Bytes)
    (final : Event) (hfirst : minBufSize ≤ first.length) (hfinal : final.Silent) (b : UInt8)
    (rest : Bytes) (hb : b ≠ colon) (hs : first ++ chunks.flatten = ascii "ECHO" ++ b :: rest) :
    ∃ fuel p src, (Proto.new id).read ⟨(first :: chunks).map .data, final⟩ fuel =
      some (.returned (.error (.keyLenColon b)) p src) := by
  refine read_fresh_of_accepts id hfirst hfinal ?_
  have hacc : accepts (ascii "ECHO" ++ b :: rest) = (Parse.afterOp .echo).feed (b :: rest) := rfl
  rw [hs, hacc]
  exact Parse.feed_of_exit (by simp [Parse.body, Parse.afterOp, Parse.init, readKeyLen, readLen,
    scanLen, hb])

theorem read_reports_echo_colon_x :
    minBufSize ≤ (ascii "ECHOx").length ∧ Event.eof.Silent ∧ (120 : UInt8) ≠ colon ∧
      ascii "ECHOx" ++ [].flatten = ascii "ECHO" ++ [120] ∧
      ∃ fuel p src, (Proto.new "s").read ⟨[ascii "ECHOx"].map .data, .eof⟩ fuel =
        some (.returned (.error (.keyLenColon 120)) p src) :=
  ⟨by decide, (fun _ h => nomatch h), by decide, by decide,
    read_reports_echo_colon "s" (ascii "ECHOx") [] .eof (by decide) (fun _ h => nomatch h) 120 []
      (by decide) (by decide)⟩

-- ---------------------------------------------------------------------------
-- Keys
-- ---------------------------------------------------------------------------

section Keys

variable {p : Parse} {D k rest : Bytes} {n : Nat}

/-- `ReadKeyLen` from its start on `:D:`, for a get or a set: the length, and `ReadKey` next. -/
theorem Parse.feed_readKeyLen (hs : p.state = .readKeyLen) (hb : p.betweenColons = false)
    (hk : p.keyLenBuf = []) (ho : p.op ≠ .echo) (hD : LenField D n) :
    p.feed (colon :: (D ++ colon :: rest)) =
      ({ p with keyLenBuf := D, keyLen := n, state := .readKey } : Parse).feed rest := by
  have hbody : p.body (colon :: (D ++ colon :: rest)) =
      .next { p with keyLenBuf := D, keyLen := n, state := .readKey } (D.length + 2) := by
    simp [Parse.body, hs, readKeyLen, hb, hk, readLen_eq_parsed.mpr ⟨rest, rfl, hD, rfl⟩, ho]
  rw [Parse.feed_of_next hbody]
  simp

/-- `ReadValueLen` from its start on `:D:`: the length, and `ReadValue` next. -/
theorem Parse.feed_readValueLen (hs : p.state = .readValueLen) (hb : p.betweenColons = false)
    (hv : p.valueLenBuf = []) (hD : LenField D n) :
    p.feed (colon :: (D ++ colon :: rest)) =
      ({ p with valueLenBuf := D, valueLen := n, state := .readValue } : Parse).feed rest := by
  have hbody : p.body (colon :: (D ++ colon :: rest)) =
      .next { p with valueLenBuf := D, valueLen := n, state := .readValue } (D.length + 2) := by
    simp [Parse.body, hs, readValueLen, hb, hv, readLen_eq_parsed.mpr ⟨rest, rfl, hD, rfl⟩]
  rw [Parse.feed_of_next hbody]
  simp

/-- `ReadKey` from an empty key, for a get or a set: the key's bytes, then what follows. -/
theorem Parse.feed_readKey (hs : p.state = .readKey) (hk : p.key = []) (hlen : p.keyLen = k.length)
    (hop : p.op ≠ .echo) :
    p.feed (k ++ rest) =
      ({ p with key := k, state := if p.op = .get then .done else .readValueLen } : Parse).feed
        rest := by
  have hbody : p.body (k ++ rest) =
      .next { p with key := k, state := if p.op = .get then .done else .readValueLen } k.length := by
    simp only [Parse.body, hs, readKey_eq, hk, fillPass_nil, hlen, List.length_append,
      Nat.le_add_right, if_true, List.take_left']
    cases h : p.op <;> simp_all
  rw [Parse.feed_of_next hbody]
  simp

/-- `ReadValue` from an empty value: the value's bytes, then `Done`. -/
theorem Parse.feed_readValue (hs : p.state = .readValue) (hv : p.value = [])
    (hlen : p.valueLen = k.length) :
    p.feed (k ++ rest) = ({ p with value := k, state := .done } : Parse).feed rest := by
  have hbody : p.body (k ++ rest) = .next { p with value := k, state := .done } k.length := by
    simp [Parse.body, hs, readValue_eq, hv, fillPass_nil, hlen]
  rw [Parse.feed_of_next hbody]
  simp

/-- A key that is not UTF-8, once the request's fields are read, fails in `Done`. -/
theorem Parse.feed_done_bad_key {e : Utf8Error} (hs : p.state = .done)
    (hk : Utf8.check 0 p.key = some e) : p.feed rest = .exit (.error (.keyUtf8 e)) := by
  rw [Parse.feed_of_done hs, done, fromUtf8_eq_error hk]

end Keys

/-- A get or a set whose key is not UTF-8: a fresh reader returns `key is invalid utf8` with
where validation failed; for a set, once the value has been read. -/
theorem read_reports_bad_key (id : String) (first : Bytes) (chunks : List Bytes)
    (final : Event) (hfirst : minBufSize ≤ first.length) (hfinal : final.Silent)
    (k D rest : Bytes) (hD : LenField D k.length) (e : Utf8Error) (hk : Utf8.check 0 k = some e)
    (hs : first ++ chunks.flatten = ascii "GET:" ++ D ++ [colon] ++ k ++ rest ∨
      ∃ D₂ v, LenField D₂ v.length ∧
        first ++ chunks.flatten = ascii "SET:" ++ D ++ [colon] ++ k ++ [colon] ++ D₂ ++ [colon] ++ v ++ rest) :
    ∃ fuel p src, (Proto.new id).read ⟨(first :: chunks).map .data, final⟩ fuel =
      some (.returned (.error (.keyUtf8 e)) p src) := by
  refine read_fresh_of_accepts id hfirst hfinal ?_
  rcases hs with hs | ⟨D₂, v, hD₂, hs⟩
  · have hname : first ++ chunks.flatten = Op.get.name ++ colon :: (D ++ colon :: (k ++ rest)) := by
      rw [hs]; simp [Op.name]; rfl
    rw [hname, accepts_name, Parse.feed_readKeyLen rfl rfl rfl (by decide) hD,
      Parse.feed_readKey ?_ ?_ ?_ ?_]
    all_goals first | exact Parse.feed_done_bad_key rfl hk | rfl | simp [Parse.afterOp]
  · have hname : first ++ chunks.flatten = Op.set.name ++ colon :: (D ++ colon :: (k ++
        colon :: (D₂ ++ colon :: (v ++ rest)))) := by
      rw [hs]; simp [Op.name]; rfl
    rw [hname, accepts_name, Parse.feed_readKeyLen rfl rfl rfl (by decide) hD,
      Parse.feed_readKey ?_ ?_ ?_ ?_, Parse.feed_readValueLen ?_ ?_ ?_ hD₂,
      Parse.feed_readValue ?_ ?_ ?_]
    all_goals first | exact Parse.feed_done_bad_key rfl hk | rfl | simp [Parse.afterOp]

theorem read_reports_bad_key_ff :
    minBufSize ≤ (ascii "GET:1:" ++ [255]).length ∧ Event.eof.Silent ∧
      LenField (ascii "1") [255].length ∧ Utf8.check 0 [255] = some ⟨0, some 1⟩ ∧
      (ascii "GET:1:" ++ [255] ++ [].flatten = ascii "GET:" ++ ascii "1" ++ [colon] ++ [255] ++ [] ∨
        ∃ D₂ v, LenField D₂ v.length ∧ ascii "GET:1:" ++ [255] ++ [].flatten =
          ascii "SET:" ++ ascii "1" ++ [colon] ++ [255] ++ [colon] ++ D₂ ++ [colon] ++ v ++ []) ∧
      ∃ fuel p src, (Proto.new "s").read ⟨[ascii "GET:1:" ++ [255]].map .data, .eof⟩ fuel =
        some (.returned (.error (.keyUtf8 ⟨0, some 1⟩)) p src) :=
  have hD : LenField (ascii "1") [255].length := ⟨ascii "1", .inl rfl, by decide, by decide, rfl, by decide⟩
  ⟨by decide, (fun _ h => nomatch h), hD, rfl, .inl rfl,
    read_reports_bad_key "s" (ascii "GET:1:" ++ [255]) [] .eof (by decide) (fun _ h => nomatch h)
      [255] (ascii "1") [] hD _ rfl (.inl rfl)⟩

end Kave
