-- SUMMARY: A reader used for more than one request: what `Start` and `ReadOp` do with the bytes left in the buffer, for every buffer and every stream; fewer than four bytes after the buffer's first newline start the next request as for a fresh reader, more make the reader parse the old buffer again from byte 3 or 4, so a request followed in one read by another with the same opcode is returned twice.
import Kave.Proto.Accept
import Kave.Proto.Safety

/-!
# Reused readers

After a request, the buffer still holds the bytes of the last socket read. The next `read`
starts in `Start` with `ptr = 0`: it looks for the first newline from the start of the buffer,
not from where the last request ended, and keeps the bytes after it as the residual. `ReadOp`
then looks at the four bytes past the newline:

* when fewer are left, it asks for a read, and the refill puts the residual in front of the
  bytes read and the cursor back at 0: the leftover and the coming bytes are read exactly as a
  fresh reader reads them;
* otherwise, on finding an opcode it sets `ptr` to the absolute position 3 or 4, so the states
  after the opcode parse the old buffer from there, then, at the next refill, the residual
  again, then the coming bytes (`reusedAccepts`).

So whenever four bytes or more follow the buffer's first newline, the next call parses the old
buffer again: a second request in the same read, or the rest of a request whose payload holds a
newline, both do it, and a request followed in one read by another with the same opcode is
returned twice. When the buffer holds no newline at all, `Start` asks for a read and looks for
the newline in that, as if the old buffer had not been there.
-/

namespace Kave

/-- Two echoes in one socket read: the second `read` returns the first echo again, and never
the second one, however long it runs. -/
theorem read_reused_repeats_first_request :
    ∃ p src, (Proto.new "s").read ⟨[.data (ascii "ECHO:1:a\nECHO:1:b\n")], .eof⟩ 20 =
        some (.returned (.ok (.echo (ascii "a"))) p src) ∧
      (∃ q src', p.read src 20 = some (.returned (.ok (.echo (ascii "a"))) q src')) ∧
      ∀ fuel q src', p.read src fuel ≠ some (.returned (.ok (.echo (ascii "b"))) q src') := by
  obtain ⟨p, src, h1, q, src', h2⟩ : ∃ p src,
      (Proto.new "s").read ⟨[.data (ascii "ECHO:1:a\nECHO:1:b\n")], .eof⟩ 20 =
        some (.returned (.ok (.echo (ascii "a"))) p src) ∧
      ∃ q src', p.read src 20 = some (.returned (.ok (.echo (ascii "a"))) q src') :=
    ⟨_, _, rfl, _, _, rfl⟩
  refine ⟨p, src, h1, ⟨q, src', h2⟩, fun fuel q' s h => ?_⟩
  have := run_deterministic h h2
  simp only [Outcome.returned.injEq, Except.ok.injEq, ProtoOp.echo.injEq] at this
  exact absurd this.1 (by decide)

-- ---------------------------------------------------------------------------
-- What a reused reader reads
-- ---------------------------------------------------------------------------

/-- What a reused reader makes of the coming bytes `S`, when `n` bytes of its buffer `B` run up
to and including its first newline: the bytes after it, `R`, then `S`, as a fresh reader reads
them, when `R` is shorter than an opcode; otherwise the opcode `R` begins with, then the states
after it on `B` from byte 3 or 4 on, on `R` again, and on `S`. -/
def reusedAccepts (B : Bytes) (n : Nat) (S : Bytes) : Fed :=
  let R := B.drop n
  if R.length < minBufSize then accepts (R ++ S)
  else if R.take minBufSize = ascii "GET:" then (Parse.afterOp .get).feed (B.drop 3 ++ R ++ S)
  else if R.take minBufSize = ascii "SET:" then (Parse.afterOp .set).feed (B.drop 3 ++ R ++ S)
  else if R.take minBufSize = ascii "ECHO" then (Parse.afterOp .echo).feed (B.drop 4 ++ R ++ S)
  else .exit (.error (.unknownOp (R.take minBufSize)))

theorem skipLine_pos {bs : Bytes} {n : Nat} (h : skipLine bs = some n) : 0 < n := by
  cases bs with
  | nil => cases h
  | cons b rest =>
    simp only [skipLine] at h
    split at h
    · cases h; exact Nat.one_pos
    · obtain ⟨m, -, rfl⟩ := Option.map_eq_some'.mp h
      exact Nat.succ_pos m

namespace Config

variable {c : Config} {first : Bytes} {cs : List Bytes} {final : Event}

/-- A socket read into the emptied buffer, with the residual put in front of it: the buffer
holds the residual and then the first `BUF_SIZE` bytes read, the residual is left empty with
room for `BUF_SIZE` bytes, and the other bytes come back at the next read. -/
theorem refill_residual (hrcap : bufSize ≤ c.loc.residual.capacity)
    (hcap : bufSize ≤ c.proto.buf.capacity) {bs : Bytes} {src : Source}
    (hn : c.src.next = (.data bs, src)) :
    ∃ buf res : Vec, buf.data = c.loc.residual.data ++ bs.take bufSize ∧
      bufSize ≤ buf.capacity ∧ res.data = [] ∧ bufSize ≤ res.capacity ∧
      c.refill = .next ⟨{ c.proto with buf },
        { c.loc with ptr := 0, needsRead := false, residual := res },
        src.unread (bs.drop bufSize)⟩ := by
  have hv := Vec.clear_shrinkTo_capacity hcap
  have hfill := Vec.fill_of_empty (v := c.proto.buf.clear.shrinkTo bufSize) (by simp)
    (by rw [hv]; decide) bs
  let filled : Vec := ⟨bs.take bufSize, bufSize, List.length_take_le _ _⟩
  by_cases hres : c.loc.residual.data = []
  · refine ⟨filled, c.loc.residual, by simp [hres, filled], le_rfl, hres, hrcap, ?_⟩
    simp only [refill, hn, hfill, hres, hv, if_true]
  · refine ⟨(c.loc.residual.append filled).1, filled.clear, rfl,
      le_trans hrcap (Vec.capacity_le_append _ _), rfl, le_rfl, ?_⟩
    simp [refill, hn, hfill, hres, hv, filled]

/-- `ReadOp` with fewer than four bytes past a cursor inside the buffer asks for a read. -/
theorem readOp_more (hlen : c.proto.buf.data.length < c.loc.ptr + minBufSize)
    (hptr : 0 < c.loc.ptr) : c.readOp = .next { c with loc := { c.loc with needsRead := true } } := by
  simp [readOp, hlen, Nat.pos_iff_ne_zero.mp hptr]

/-- A reader at `ReadOp` with nothing parsed, waiting for a read with a residual to put in front
of it: the run ends as `accepts` says of the residual and the coming reads, when the two hold the
four bytes of an opcode. -/
theorem ends_refill_readOp (hw : c.loc.needsRead = true)
    (hinit : c.loc.parse = { Parse.init with state := .readOp })
    (hrcap : bufSize ≤ c.loc.residual.capacity) (hcap : bufSize ≤ c.proto.buf.capacity)
    (hsrc : c.src = ⟨(first :: cs).map .data, final⟩)
    (hfirst : minBufSize ≤ (c.loc.residual.data ++ first).length) (hfinal : final.Silent) :
    c.Ends final (accepts (c.loc.residual.data ++ first ++ cs.flatten)) := by
  obtain ⟨buf, res, hbuf, hbcap, hres, -, hrefill⟩ := refill_residual hrcap hcap (by rw [hsrc]; rfl)
  rw [Source.unread_data] at hrefill
  have hstep := step_of_refill hw hrefill
  rw [← step_of_ready rfl] at hstep
  refine Ends.of_returns_iff (fun _ => returns_iff_of_step hstep) rfl ?_
  have hlen : minBufSize ≤ buf.data.length := by
    have : minBufSize ≤ bufSize := by decide
    rw [List.length_append] at hfirst
    rw [hbuf, List.length_append, List.length_take]
    omega
  have := ends_accepts (c := ⟨{ c.proto with buf },
      { c.loc with ptr := 0, needsRead := false, residual := res },
      ⟨(if first.drop bufSize = [] then cs else first.drop bufSize :: cs).map .data, final⟩⟩)
    rfl hinit rfl hres hbcap hlen rfl hfinal
  rwa [flatten_unread, hbuf, List.append_assoc, ← List.append_assoc (first.take bufSize),
    List.take_append_drop, ← List.append_assoc] at this

/-- After the opcode, with a residual to put in front of the next read: the run ends as `feed`
says of the unread bytes of the buffer, then the residual, then all the bytes of the coming
socket reads, when there is one at least and after the last the socket delivers no more
bytes. -/
theorem ends_feed_residual (hn : c.loc.needsRead = false) (hpost : 2 ≤ c.loc.parse.state.rank)
    (hrcap : bufSize ≤ c.loc.residual.capacity) (hcap : bufSize ≤ c.proto.buf.capacity)
    (hsrc : c.src = ⟨(first :: cs).map .data, final⟩) (hfinal : final.Silent) :
    c.Ends final (c.loc.parse.feed (c.rest ++ c.loc.residual.data ++ (first ++ cs.flatten))) := by
  have hW := follows_feed hn hpost
  rw [List.append_assoc, Parse.feed_append]
  cases hf : c.loc.parse.feed c.rest with
  | exit r => rw [hf] at hW; exact ⟨_, _, hW⟩
  | panic x => rw [hf] at hW; exact hW
  | wait q =>
    rw [hf] at hW
    obtain ⟨ptr, hlead⟩ := hW
    obtain ⟨buf, res, hbuf, hbcap, hres, -, hrefill⟩ := refill_residual (c := c.waiting q ptr)
      hrcap hcap (show (c.waiting q ptr).src.next = (.data first, ⟨cs.map .data, final⟩) by
        rw [waiting, hsrc]; rfl)
    rw [Source.unread_data] at hrefill
    have hstep := step_of_refill rfl hrefill
    rw [← step_of_ready rfl] at hstep
    refine Ends.of_returns_iff
      (fun _ => (returns_iff_of_leads hlead).trans (returns_iff_of_step hstep)) rfl ?_
    have := ends_feed (c := ⟨{ c.proto with buf },
        { (c.waiting q ptr).loc with ptr := 0, needsRead := false, residual := res },
        ⟨(if first.drop bufSize = [] then cs else first.drop bufSize :: cs).map .data, final⟩⟩)
      rfl (Parse.rank_of_wait (Parse.body_nil_of_feed hf)) hres hbcap rfl hfinal
    simp only [rest, List.drop_zero, hbuf, flatten_unread, List.append_assoc] at this
    rwa [← List.append_assoc (first.take bufSize), List.take_append_drop] at this

/-- A used reader at `ReadOp` after `Start` skipped `ptr` bytes up to a newline and kept the
rest of the buffer as the residual: the run ends as `reusedAccepts` says of the coming reads. -/
theorem ends_readOp_leftover (hn : c.loc.needsRead = false)
    (hinit : c.loc.parse = { Parse.init with state := .readOp }) (hptr : 0 < c.loc.ptr)
    (hres : c.loc.residual.data = c.rest) (hrcap : bufSize ≤ c.loc.residual.capacity)
    (hcap : bufSize ≤ c.proto.buf.capacity) (hsrc : c.src = ⟨(first :: cs).map .data, final⟩)
    (hfirst : minBufSize ≤ (c.rest ++ first).length) (hfinal : final.Silent) :
    c.Ends final (reusedAccepts c.proto.buf.data c.loc.ptr (first ++ cs.flatten)) := by
  have hstep : c.step = c.readOp := by rw [step_of_ready hn, dispatch, hinit]
  unfold reusedAccepts
  dsimp only
  by_cases hshort : (c.proto.buf.data.drop c.loc.ptr).length < minBufSize
  · rw [if_pos hshort]
    have hmore := readOp_more (c := c) (by rw [List.length_drop] at hshort; omega) hptr
    refine Ends.of_returns_iff (fun _ => returns_iff_of_next (hstep.trans hmore)) rfl ?_
    have := ends_refill_readOp (c := { c with loc := { c.loc with needsRead := true } }) rfl hinit
      hrcap hcap hsrc (by simpa only [hres] using hfirst) hfinal
    simpa only [hres, List.append_assoc] using this
  · rw [if_neg hshort]
    rw [readOp_opcode (by rw [List.length_drop] at hshort; unfold minBufSize at *; omega)] at hstep
    have hopened (k : Nat) (o : Op) : (c.opened k o).Ends final ((Parse.afterOp o).feed
        (c.proto.buf.data.drop k ++ c.proto.buf.data.drop c.loc.ptr ++ (first ++ cs.flatten))) := by
      have := ends_feed_residual (c := c.opened k o) rfl (show 2 ≤ State.readKeyLen.rank by decide)
        hrcap hcap hsrc hfinal
      rwa [show (c.opened k o).loc.parse = Parse.afterOp o by simp [opened, hinit, Parse.afterOp],
        show (c.opened k o).loc.residual.data = c.rest from hres] at this
    split_ifs at hstep ⊢
    · exact Ends.of_returns_iff (fun _ => returns_iff_of_next hstep) rfl (hopened 3 .get)
    · exact Ends.of_returns_iff (fun _ => returns_iff_of_next hstep) rfl (hopened 3 .set)
    · exact Ends.of_returns_iff (fun _ => returns_iff_of_next hstep) rfl (hopened 4 .echo)
    · exact ⟨_, _, returns_of_exit hstep⟩

/-- `Start` for a used reader whose buffer holds a newline, `n` bytes in: `ReadOp` comes next,
with the cursor past the newline and the bytes after it as the residual. -/
theorem start_leftover {p : Proto} (src : Source) {n : Nat} (hfresh : p.fresh = false)
    (hline : skipLine p.buf.data = some n) :
    ∃ res : Vec, res.data = p.buf.data.drop n ∧ bufSize ≤ res.capacity ∧
      Config.step ⟨p, Locals.init p.fresh, src⟩ =
        .next ⟨p, { Locals.init false with ptr := n, parse := { Parse.init with state := .readOp },
                                           residual := res }, src⟩ := by
  by_cases hn : n < p.buf.data.length
  · refine ⟨((Vec.withCapacity bufSize).append (.ofSlice (p.buf.data.drop n))).1, by simp,
      Vec.capacity_le_append (.withCapacity bufSize) _, ?_⟩
    simp [step, dispatch, start, hfresh, hline, hn, suffixSlice, hn.le, Locals.init, Parse.init]
  · refine ⟨Vec.withCapacity bufSize, (List.drop_eq_nil_of_le (Nat.le_of_not_lt hn)).symm,
      le_rfl, ?_⟩
    simp [step, dispatch, start, hfresh, hline, hn, Locals.init, Parse.init]

/-- A used reader whose buffer holds a newline ends as `reusedAccepts` says of the coming reads,
when there is one at least and after the last the socket delivers no more bytes. -/
theorem ends_reused {p : Proto} {n : Nat} (hfresh : p.fresh = false)
    (hcap : bufSize ≤ p.buf.capacity) (hline : skipLine p.buf.data = some n)
    (hfirst : minBufSize ≤ (p.buf.data.drop n ++ first).length) (hfinal : final.Silent) :
    Config.Ends ⟨p, Locals.init p.fresh, ⟨(first :: cs).map .data, final⟩⟩ final
      (reusedAccepts p.buf.data n (first ++ cs.flatten)) := by
  obtain ⟨res, hres, hrcap, hstep⟩ :=
    start_leftover ⟨(first :: cs).map .data, final⟩ hfresh hline
  exact Ends.of_returns_iff (fun _ => returns_iff_of_next hstep) rfl
    (ends_readOp_leftover rfl rfl (skipLine_pos hline) hres hrcap hcap rfl hfirst hfinal)

end Config

/-- A reused reader whose buffer ends at its first newline reads the next request as a fresh
reader does: however the socket splits the stream, when the first read holds the four bytes of
an opcode and the socket then delivers no more bytes, `read` returns a request exactly when the
stream begins with it. -/
theorem read_reused_returns_request_iff (p : Proto) (hp : Reachable p) (hfresh : p.fresh = false)
    (hline : skipLine p.buf.data = some p.buf.data.length) (first : Bytes) (chunks : List Bytes)
    (final : Event) (hfirst : minBufSize ≤ first.length) (hfinal : final.Silent) (op : ProtoOp)
    (hop : op.IsRequest) :
    (∃ fuel q src, p.read ⟨(first :: chunks).map .data, final⟩ fuel =
        some (.returned (.ok op) q src)) ↔ Begins (first ++ chunks.flatten) op := by
  rw [← accepts_eq_ok_iff, ← Fed.returned_request_iff hop p.id final]
  refine Proto.read_returned_iff.trans (((Config.ends_reused hfresh hp.buf_capacity hline
    (by simpa using hfirst) hfinal).returned_iff _).trans ?_)
  simp [reusedAccepts, minBufSize]

/-- The reader a get of `a` in a read of its own leaves, then a get of `b`. -/
theorem read_reused_returns_request_iff_get :
    Reachable ⟨"s", ⟨ascii "GET:1:a\n", 256, by decide⟩, false⟩ ∧
      (⟨"s", ⟨ascii "GET:1:a\n", 256, by decide⟩, false⟩ : Proto).fresh = false ∧
      skipLine (ascii "GET:1:a\n") = some (ascii "GET:1:a\n").length ∧
      minBufSize ≤ (ascii "GET:1:b\n").length ∧ Event.eof.Silent ∧
      (ProtoOp.get (RString.ofAscii "b")).IsRequest ∧
      ((∃ fuel q src, (⟨"s", ⟨ascii "GET:1:a\n", 256, by decide⟩, false⟩ : Proto).read
          ⟨[ascii "GET:1:b\n"].map .data, .eof⟩ fuel =
            some (.returned (.ok (.get (RString.ofAscii "b"))) q src)) ↔
        Begins (ascii "GET:1:b\n" ++ [].flatten) (.get (RString.ofAscii "b"))) :=
  have hp : Reachable ⟨"s", ⟨ascii "GET:1:a\n", 256, by decide⟩, false⟩ :=
    @Reachable.read (Proto.new "s") _ ⟨[.data (ascii "GET:1:a\n")], .eof⟩ ⟨[], .eof⟩ 20
      (.ok (.get (RString.ofAscii "a"))) (.new "s") rfl
  ⟨hp, rfl, by decide, by decide, (fun _ h => nomatch h), trivial,
    read_reused_returns_request_iff _ hp rfl (by decide) (ascii "GET:1:b\n") [] .eof (by decide)
      (fun _ h => nomatch h) (.get (RString.ofAscii "b")) trivial⟩


-- ---------------------------------------------------------------------------
-- Every buffer
-- ---------------------------------------------------------------------------

/-- What a reused reader returns, for every buffer that holds a newline and every stream split
into socket reads in any way: exactly what `reusedAccepts` makes of the stream, when the bytes
after the buffer's first newline and the first read hold four bytes together and after the last
read the socket delivers no more bytes. -/
theorem read_reused_returns_iff (p : Proto) (hp : Reachable p) (hfresh : p.fresh = false)
    (n : Nat) (hline : skipLine p.buf.data = some n) (first : Bytes) (chunks : List Bytes)
    (final : Event) (hfirst : minBufSize ≤ (p.buf.data.drop n ++ first).length)
    (hfinal : final.Silent) (r : Except ReadError ProtoOp) :
    (∃ fuel q src, p.read ⟨(first :: chunks).map .data, final⟩ fuel = some (.returned r q src)) ↔
      (reusedAccepts p.buf.data n (first ++ chunks.flatten)).returned p.id final = some r :=
  Proto.read_returned_iff.trans
    ((Config.ends_reused hfresh hp.buf_capacity hline hfirst hfinal).returned_iff r)

/-- The reader two echoes in one read leave. -/
theorem reachable_two_echoes :
    Reachable ⟨"s", ⟨ascii "ECHO:1:a\nECHO:1:b\n", 256, by decide⟩, false⟩ :=
  @Reachable.read (Proto.new "s") _ ⟨[.data (ascii "ECHO:1:a\nECHO:1:b\n")], .eof⟩ ⟨[], .eof⟩ 20
    (.ok (.echo (ascii "a"))) (.new "s") rfl

/-- The reader two echoes in one read leave, then a get. -/
theorem read_reused_returns_iff_echoes :
    Reachable ⟨"s", ⟨ascii "ECHO:1:a\nECHO:1:b\n", 256, by decide⟩, false⟩ ∧
      skipLine (ascii "ECHO:1:a\nECHO:1:b\n") = some 9 ∧
      minBufSize ≤ ((ascii "ECHO:1:a\nECHO:1:b\n").drop 9 ++ ascii "GET:1:c\n").length ∧
      Event.eof.Silent ∧
      ((∃ fuel q src, (⟨"s", ⟨ascii "ECHO:1:a\nECHO:1:b\n", 256, by decide⟩, false⟩ : Proto).read
          ⟨[ascii "GET:1:c\n"].map .data, .eof⟩ fuel = some (.returned (.ok (.echo (ascii "a"))) q src)) ↔
        (reusedAccepts (ascii "ECHO:1:a\nECHO:1:b\n") 9 (ascii "GET:1:c\n" ++ [].flatten)).returned "s"
          .eof = some (.ok (.echo (ascii "a")))) :=
  ⟨reachable_two_echoes, by decide, by decide, (fun _ h => nomatch h),
    read_reused_returns_iff _ reachable_two_echoes rfl 9 (by decide) (ascii "GET:1:c\n") [] .eof
      (by decide) (fun _ h => nomatch h) _⟩

/-- A reused reader whose buffer holds no newline drops it: `Start` asks for a read, which
becomes the buffer, the rest of it going back to the socket, and the loop runs on from `Start`
exactly as the next `read` of a used reader with that buffer does. -/
theorem read_reused_drops_unended_buffer (p : Proto) (hp : Reachable p)
    (hfresh : p.fresh = false) (hnone : skipLine p.buf.data = none) (first : Bytes)
    (events : List Event) (final : Event) (o : Outcome) :
    (∃ fuel, p.read ⟨.data first :: events, final⟩ fuel = some o) ↔
      ∃ fuel, { p with buf := ⟨first.take bufSize, bufSize, List.length_take_le _ _⟩ }.read
        ((⟨events, final⟩ : Source).unread (first.drop bufSize)) fuel = some o := by
  obtain ⟨id, B, fresh⟩ := p
  cases hfresh
  let c₁ : Config := ⟨⟨id, B, false⟩,
    { Locals.init false with ptr := B.data.length, needsRead := true }, ⟨.data first :: events, final⟩⟩
  have h₁ : Config.step ⟨⟨id, B, false⟩, Locals.init false, ⟨.data first :: events, final⟩⟩ =
      .next c₁ := by
    simp [Config.step, Config.dispatch, Config.start, hnone, Locals.init, Parse.init, c₁]
  obtain ⟨⟨data, cap, hle⟩, hbuf, hbcap, hrefill⟩ :=
    Config.refill_data (c := c₁) rfl hp.buf_capacity rfl
  subst hbuf hbcap
  have h₂ := Config.step_of_refill rfl hrefill
  rw [← Config.step_of_ready rfl] at h₂
  exact (Config.returns_iff_of_next h₁).trans (Config.returns_iff_of_step h₂)

/-- The reader a get with no newline leaves, then a read that ends the line and holds a get. -/
theorem read_reused_drops_unended_buffer_get :
    Reachable ⟨"s", ⟨ascii "GET:1:a", 256, by decide⟩, false⟩ ∧
      skipLine (ascii "GET:1:a") = none ∧
      ((∃ fuel, (⟨"s", ⟨ascii "GET:1:a", 256, by decide⟩, false⟩ : Proto).read
          ⟨[.data (ascii "\nGET:1:b")], .eof⟩ fuel =
            some (.returned (.ok (.get (RString.ofAscii "b"))) ⟨"s", ⟨ascii "\nGET:1:b", 256, by decide⟩, false⟩ ⟨[], .eof⟩)) ↔
        ∃ fuel, (⟨"s", ⟨(ascii "\nGET:1:b").take bufSize, bufSize, List.length_take_le _ _⟩, false⟩ : Proto).read
          ((⟨[], .eof⟩ : Source).unread ((ascii "\nGET:1:b").drop bufSize)) fuel =
            some (.returned (.ok (.get (RString.ofAscii "b"))) ⟨"s", ⟨ascii "\nGET:1:b", 256, by decide⟩, false⟩ ⟨[], .eof⟩)) :=
  have hp : Reachable ⟨"s", ⟨ascii "GET:1:a", 256, by decide⟩, false⟩ :=
    @Reachable.read (Proto.new "s") _ ⟨[.data (ascii "GET:1:a")], .eof⟩ ⟨[], .eof⟩ 20
      (.ok (.get (RString.ofAscii "a"))) (.new "s") rfl
  ⟨hp, by decide, read_reused_drops_unended_buffer _ hp rfl (by decide) (ascii "\nGET:1:b") [] .eof _⟩

end Kave
