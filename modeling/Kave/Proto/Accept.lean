-- SUMMARY: What a fresh reader returns on a byte stream split into socket reads: exactly the request the stream begins with (length fields read by `str::parse::<usize>`, which takes a leading `+`), the same for every split.
import Kave.Proto.Stream
import Kave.Proto.Grammar

/-!
# The requests a fresh reader accepts

A reader built by `Proto::new` reads from the socket, checks the four opcode bytes at the start
of its buffer, and then runs the states after the opcode over the bytes of every read that
follows. By `Config.ends_feed` the reads' sizes do not matter, so the first call of `read` ends
as `accepts` says of the whole stream; by `accepts_eq_ok_iff` it returns a request exactly when
the stream begins with that request.

The length fields are parsed by `str::parse::<usize>`, which accepts a leading `+`: `GET:+1:k`
is a get of `k`, although its length field is not a string of digits.

So how the socket splits a stream does not change what `read` returns, when the first read
holds an opcode.
-/

namespace Kave

namespace Config

variable {first : Bytes} {cs : List Bytes} {final : Event}

/-- `ReadOp` with the four bytes of an opcode in the buffer from `ptr` on. -/
theorem readOp_opcode {c : Config} (hlen : c.loc.ptr + minBufSize ≤ c.proto.buf.data.length) :
    c.readOp =
      if (c.proto.buf.data.drop c.loc.ptr).take minBufSize = ascii "GET:" then .next (c.opened 3 .get)
      else if (c.proto.buf.data.drop c.loc.ptr).take minBufSize = ascii "SET:" then
        .next (c.opened 3 .set)
      else if (c.proto.buf.data.drop c.loc.ptr).take minBufSize = ascii "ECHO" then
        .next (c.opened 4 .echo)
      else c.ret (.error (.unknownOp ((c.proto.buf.data.drop c.loc.ptr).take minBufSize))) := by
  simp [readOp, rangeSlice, hlen, Nat.not_lt.mpr hlen]

/-- From `ReadOp` at the start of a buffer holding an opcode, with nothing parsed yet and no
residual: the run ends as `accepts` says of the buffer followed by the coming reads. -/
theorem ends_accepts {c : Config} (hn : c.loc.needsRead = false)
    (hinit : c.loc.parse = { Parse.init with state := .readOp }) (hptr : c.loc.ptr = 0)
    (hres : c.loc.residual.data = []) (hcap : bufSize ≤ c.proto.buf.capacity)
    (hlen : minBufSize ≤ c.proto.buf.data.length) (hsrc : c.src = ⟨cs.map .data, final⟩)
    (hfinal : final.Silent) :
    c.Ends final (accepts (c.proto.buf.data ++ cs.flatten)) := by
  have hstep : c.step = c.readOp := by
    rw [step_of_ready hn, dispatch, hinit]
  rw [readOp_opcode (by rw [hptr]; exact hlen), hptr, List.drop_zero] at hstep
  have hopened (k : Nat) (o : Op) (hk : k ≤ minBufSize) :
      (c.opened k o).Ends final ((Parse.afterOp o).feed ((c.proto.buf.data ++ cs.flatten).drop k)) := by
    have := ends_feed (c := c.opened k o) rfl (show 2 ≤ State.readKeyLen.rank by decide) hres hcap
      hsrc hfinal
    have hrest : (c.opened k o).rest ++ cs.flatten = (c.proto.buf.data ++ cs.flatten).drop k := by
      rw [List.drop_append_of_le_length (by omega)]
      rfl
    rwa [show (c.opened k o).loc.parse = Parse.afterOp o by simp [opened, hinit, Parse.afterOp],
      hrest] at this
  unfold accepts
  rw [List.take_append_of_le_length hlen]
  split_ifs at hstep ⊢
  · exact Ends.of_returns_iff (fun _ => returns_iff_of_next hstep) rfl (hopened 3 .get (by decide))
  · exact Ends.of_returns_iff (fun _ => returns_iff_of_next hstep) rfl (hopened 3 .set (by decide))
  · exact Ends.of_returns_iff (fun _ => returns_iff_of_next hstep) rfl (hopened 4 .echo le_rfl)
  · exact ⟨_, _, returns_of_exit hstep⟩

/-- A fresh reader ends as `accepts` says of all the bytes the socket delivers, when its first
read has at least the four bytes of an opcode and the socket then delivers no more bytes. -/
theorem fresh_ends (id : String) (cs : List Bytes) (hfirst : minBufSize ≤ first.length)
    (hfinal : final.Silent) :
    Config.Ends ⟨Proto.new id, Locals.init true, ⟨(first :: cs).map .data, final⟩⟩ final
      (accepts (first ++ cs.flatten)) := by
  obtain ⟨buf, hbuf, hbcap, hrefill⟩ :=
    refill_data (c := ⟨Proto.new id, Locals.init true, ⟨(first :: cs).map .data, final⟩⟩)
      rfl le_rfl rfl
  have hstep := step_of_refill rfl hrefill
  rw [Source.unread_data] at hstep
  refine Ends.of_returns_iff (fun _ => returns_iff_of_next hstep) rfl ?_
  have := ends_accepts (c := ⟨{ Proto.new id with buf, fresh := false },
      { Locals.init true with ptr := 0, needsRead := false,
                              parse := { Parse.init with state := .readOp } },
      ⟨(if first.drop bufSize = [] then cs else first.drop bufSize :: cs).map .data, final⟩⟩)
    rfl rfl rfl rfl hbcap.ge
    (by rw [hbuf, List.length_take]; exact le_min (by decide) hfirst) rfl hfinal
  rwa [flatten_unread, hbuf, ← List.append_assoc, List.take_append_drop] at this

end Config

/-- `read` returns `r` exactly when its loop does. -/
theorem Proto.read_returned_iff {p : Proto} {src : Source} {r : Except ReadError ProtoOp} :
    (∃ fuel q s, p.read src fuel = some (.returned r q s)) ↔
      ∃ q s, Config.Returns ⟨p, Locals.init p.fresh, src⟩ (.returned r q s) :=
  ⟨fun ⟨fuel, q, s, h⟩ => ⟨q, s, fuel, h⟩, fun ⟨q, s, fuel, h⟩ => ⟨fuel, q, s, h⟩⟩

/-- A fresh reader returns what `accepts` makes of the stream. -/
theorem read_fresh_of_accepts (id : String) {first : Bytes} {chunks : List Bytes} {final : Event}
    (hfirst : minBufSize ≤ first.length) (hfinal : final.Silent) {r : Except ReadError ProtoOp}
    (h : accepts (first ++ chunks.flatten) = .exit r) :
    ∃ fuel p src, (Proto.new id).read ⟨(first :: chunks).map .data, final⟩ fuel =
      some (.returned r p src) :=
  Proto.read_returned_iff.mpr
    (((Config.fresh_ends id chunks hfirst hfinal).returned_iff r).mpr (by rw [h]; rfl))

/-- The socket's reports are not requests: a request is returned only by a parse that ended
with it. -/
theorem Fed.returned_request_iff {f : Fed} {op : ProtoOp} (hop : op.IsRequest) (id : String)
    (final : Event) : f.returned id final = some (.ok op) ↔ f = .exit (.ok op) := by
  cases f with
  | exit r => simp [Fed.returned, eq_comm]
  | panic x => simp [Fed.returned]
  | wait q =>
    simp only [Fed.returned, reduceCtorEq, iff_false]
    intro hr
    cases final <;> simp only [Event.reply, reduceCtorEq, Option.some.injEq,
      Except.ok.injEq] at hr <;> subst hr <;> exact hop.elim

/-- A fresh reader accepts exactly the request grammar. Whatever the stream and however it is
split into socket reads, when the first read holds the four bytes of an opcode and after the
last one the socket delivers no more bytes, the first `read` returns a request exactly when the
stream begins with it. -/
theorem read_fresh_returns_request_iff (id : String) (first : Bytes) (chunks : List Bytes)
    (final : Event) (hfirst : minBufSize ≤ first.length) (hfinal : final.Silent) (op : ProtoOp)
    (hop : op.IsRequest) :
    (∃ fuel p src, (Proto.new id).read ⟨(first :: chunks).map .data, final⟩ fuel =
        some (.returned (.ok op) p src)) ↔ Begins (first ++ chunks.flatten) op := by
  rw [← accepts_eq_ok_iff, ← Fed.returned_request_iff hop id final]
  exact Proto.read_returned_iff.trans ((Config.fresh_ends id chunks hfirst hfinal).returned_iff _)

theorem read_fresh_returns_get :
    minBufSize ≤ (ascii "GET:1:k").length ∧ Event.eof.Silent ∧
      (ProtoOp.get (RString.ofAscii "k")).IsRequest ∧
      ((∃ fuel p src, (Proto.new "s").read ⟨[ascii "GET:1:k"].map .data, .eof⟩ fuel =
          some (.returned (.ok (.get (RString.ofAscii "k"))) p src)) ↔
        Begins (ascii "GET:1:k" ++ [].flatten) (.get (RString.ofAscii "k"))) :=
  ⟨by decide, (fun _ h => nomatch h), trivial,
    read_fresh_returns_request_iff "s" (ascii "GET:1:k") [] .eof (by decide) (fun _ h => nomatch h)
      (.get (RString.ofAscii "k")) trivial⟩

/-- A length field of ASCII digits only: non-empty, every byte a digit, and a decimal value that
fits in a `usize`. `parse::<usize>` accepts more: a leading `+`. -/
def DigitsField (D : Bytes) (n : Nat) : Prop :=
  D ≠ [] ∧ (∀ c ∈ D, IsDigit c) ∧ decimalValue 0 D = n ∧ n ≤ usizeMax

/-- `str::parse::<usize>` takes a leading `+`: a fresh reader returns a get of `k` for
`GET:+1:k`, whose length field is not a string of digits. -/
theorem read_accepts_plus_length :
    (∃ p src, (Proto.new "s").read ⟨[.data (ascii "GET:+1:k\n")], .eof⟩ 20 =
        some (.returned (.ok (.get (RString.ofAscii "k"))) p src)) ∧
      ¬∃ D rest, DigitsField D (RString.ofAscii "k").bytes.length ∧
        ascii "GET:+1:k\n" = ascii "GET:" ++ D ++ [colon] ++ (RString.ofAscii "k").bytes ++ rest := by
  refine ⟨⟨_, _, rfl⟩, ?_⟩
  rintro ⟨_ | ⟨d, D⟩, rest, ⟨hne, hd, -⟩, h⟩
  · exact hne rfl
  · have hs : ascii "GET:+1:k\n" = [71, 69, 84, colon, plus, 49, colon, 107, 10] := rfl
    rw [hs, ascii_GET] at h
    simp only [List.append_assoc, List.cons_append, List.nil_append, List.cons.injEq,
      true_and] at h
    obtain ⟨rfl, -⟩ := h
    exact absurd (hd _ (List.mem_cons_self _ _)) (by decide)

/-- However the socket splits a stream into reads, a fresh reader returns the same result, when
each split's first read holds the four bytes of an opcode and the socket then delivers no more
bytes. What it leaves in its buffer may differ. -/
theorem read_fresh_split_invariant (id : String) (first first' : Bytes)
    (chunks chunks' : List Bytes) (final : Event) (hfirst : minBufSize ≤ first.length)
    (hfirst' : minBufSize ≤ first'.length) (hfinal : final.Silent)
    (hsame : first ++ chunks.flatten = first' ++ chunks'.flatten) (r : Except ReadError ProtoOp) :
    (∃ fuel p src, (Proto.new id).read ⟨(first :: chunks).map .data, final⟩ fuel =
        some (.returned r p src)) ↔
      ∃ fuel p src, (Proto.new id).read ⟨(first' :: chunks').map .data, final⟩ fuel =
        some (.returned r p src) := by
  have h := (Config.fresh_ends id chunks hfirst hfinal).returned_iff r
  have h' := (Config.fresh_ends id chunks' hfirst' hfinal).returned_iff r
  rw [hsame] at h
  exact Proto.read_returned_iff.trans (h.trans (h'.symm.trans Proto.read_returned_iff.symm))

theorem read_fresh_split_invariant_get :
    minBufSize ≤ (ascii "GET:1:k").length ∧ minBufSize ≤ (ascii "GET:").length ∧
      Event.eof.Silent ∧ ascii "GET:1:k" ++ [].flatten = ascii "GET:" ++ [ascii "1:k"].flatten ∧
      ((∃ fuel p src, (Proto.new "s").read ⟨[ascii "GET:1:k"].map .data, .eof⟩ fuel =
          some (.returned (.ok (.get (RString.ofAscii "k"))) p src)) ↔
        ∃ fuel p src, (Proto.new "s").read ⟨[ascii "GET:", ascii "1:k"].map .data, .eof⟩ fuel =
          some (.returned (.ok (.get (RString.ofAscii "k"))) p src)) :=
  ⟨by decide, by decide, (fun _ h => nomatch h), by decide,
    read_fresh_split_invariant "s" (ascii "GET:1:k") (ascii "GET:") [] [ascii "1:k"] .eof
      (by decide) (by decide) (fun _ h => nomatch h) (by decide) _⟩

end Kave
