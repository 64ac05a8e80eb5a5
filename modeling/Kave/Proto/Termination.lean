-- SUMMARY: When `read` leaves its loop: from every reachable reader it returns, without panicking, once the socket reports the end of the stream, an error or the shutdown; a source that reports a closed stream as zero-byte reads keeps it looping forever.
import Kave.Proto.Safety
import Kave.Proto.Stream

/-!
# Termination of `read`

Each iteration of `'state_loop` either reads from the socket, consuming one of the coming
events (the bytes the buffer cannot take come back, fewer than were read), or runs a state's
body, which moves to a later state or asks for a read. So the loop leaves once the socket, after
any number of events, reports the end of the stream, an error or the shutdown: `Config.measure`,
the weight of the coming events and the states left before the next read, falls at every
iteration. With `Config.Inv` the loop leaves by returning, never by a panic.

`read_buf` maps only `ErrorKind::UnexpectedEof` to `ProtoRead::Eof`. A read of zero bytes,
which is how tokio reports a stream the peer closed cleanly, becomes `Read(0)`: the buffer is
refilled empty and the state that asked for bytes asks again. In any state waiting for more
bytes the loop then never leaves.
-/

namespace Kave

-- ---------------------------------------------------------------------------
-- A measure that every iteration lowers
-- ---------------------------------------------------------------------------

/-- What a socket event weighs: a read of bytes one more than its bytes, any other event one. -/
def Event.weight : Event → Nat
  | .data bs => bs.length + 1
  | _ => 1

/-- The weight of some events. -/
def Event.weights : List Event → Nat
  | [] => 0
  | e :: es => e.weight + weights es

/-- Putting back what the buffer could not take of a read leaves less weight to come. -/
theorem Source.weights_unread (bs : Bytes) (rest : List Event) (final : Event) :
    Event.weights ((⟨rest, final⟩ : Source).unread (bs.drop bufSize)).pending <
        Event.weights (.data bs :: rest) ∧
      ((⟨rest, final⟩ : Source).unread (bs.drop bufSize)).final = final := by
  unfold Source.unread
  split <;> rename_i hd
  · exact ⟨by simp [Event.weights, Event.weight], rfl⟩
  · have : bufSize < bs.length := by
      by_contra h
      exact hd (List.drop_eq_nil_of_le (by omega))
    have : 0 < bufSize := by decide
    refine ⟨?_, rfl⟩
    simp only [Event.weights, Event.weight, List.length_drop]
    omega

namespace Config

variable {c c' d : Config}

/-- How many states a body can still pass through before the next read. -/
def stage (c : Config) : Nat := if c.loc.needsRead then 0 else 7 - c.loc.parse.state.rank

/-- How far the loop is from leaving: the weight of the coming events, then the stage. -/
def measure (c : Config) : Nat := Event.weights c.src.pending * 8 + c.stage

theorem stage_le (c : Config) : c.stage ≤ 7 := by
  unfold stage; split <;> omega

/-- An iteration's body that stays in the loop keeps the source, and moves to a later state or
asks for a read. -/
theorem dispatch_next (hn : c.loc.needsRead = false) (h : c.dispatch = .next c') :
    c'.src = c.src ∧ (c'.loc.needsRead = true ∨
      c'.loc.needsRead = false ∧ c.loc.parse.state.rank < c'.loc.parse.state.rank) := by
  by_cases hpost : 2 ≤ c.loc.parse.state.rank
  · rw [dispatch_of_post hpost, pass_eq] at h
    split at h <;> rename_i hb <;> cases h
    · exact ⟨rfl, .inr ⟨hn, Parse.rank_lt_of_body hb⟩⟩
    · exact ⟨rfl, .inl rfl⟩
  -- `Start` and `ReadOp` move on to `ReadOp` and `ReadKeyLen`, ask for a read, or leave
  unfold dispatch at h
  cases hs : c.loc.parse.state <;> simp only [hs, State.rank] at h hpost <;> try omega
  all_goals
    simp only [start, readOp, opened] at h
    repeat' split at h
    all_goals cases h <;> simp [hn, hs, State.rank]

/-- A refill that stays in the loop consumed a read of bytes from the coming events, putting
back only what the buffer could not take. -/
theorem refill_next (hc : c.Inv) (hf : ∀ bs, c.src.final ≠ .data bs) (h : c.refill = .next d) :
    d.loc.needsRead = false ∧ Event.weights d.src.pending < Event.weights c.src.pending ∧
      d.src.final = c.src.final := by
  rcases hsrc : c.src with ⟨pending, final⟩
  rw [hsrc] at hf
  have hv := Vec.clear_shrinkTo_capacity hc.buf
  have hfill := Vec.fill_of_empty (v := c.proto.buf.clear.shrinkTo bufSize) (by simp)
    (by rw [hv]; decide)
  cases pending with
  | nil => cases final <;> first | exact absurd rfl (hf _) | simp [refill, hsrc, ret] at h
  | cons e rest =>
    cases e with
    | data bs =>
      obtain ⟨hw, hfin⟩ := Source.weights_unread bs rest final
      simp only [refill, hsrc, Source.next_cons, hfill, hv] at h
      repeat' split at h
      all_goals cases h <;> exact ⟨rfl, hw, hfin⟩
    | kill | eof | failure => simp [refill, hsrc, ret] at h

/-- Every iteration that stays in the loop lowers the measure, when the socket ends with a
report, and keeps that report. -/
theorem measure_step_lt (hc : c.Inv) (hf : ∀ bs, c.src.final ≠ .data bs)
    (h : c.step = .next c') : c'.measure < c.measure ∧ c'.src.final = c.src.final := by
  unfold step at h
  split at h <;> rename_i hn
  · split at h <;> rename_i d hr
    · obtain ⟨hdn, hw, hfin⟩ := refill_next hc hf hr
      obtain ⟨hsrc, -⟩ := dispatch_next hdn h
      have := c'.stage_le
      refine ⟨?_, hsrc ▸ hfin⟩
      unfold measure
      rw [hsrc]
      omega
    · cases h
  · obtain ⟨hsrc, hprog⟩ := dispatch_next (by simpa using hn) h
    have := c.loc.parse.state.rank_le
    have := c'.loc.parse.state.rank_le
    refine ⟨?_, by rw [hsrc]⟩
    unfold measure stage
    rw [hsrc]
    rcases hprog with hr | ⟨hr, hlt⟩ <;> simp [hn, hr] <;> omega

/-- From every iteration that keeps the invariant the loop returns, when the socket ends with a
report. -/
theorem returns_of_final (hc : c.Inv) (hf : ∀ bs, c.src.final ≠ .data bs) :
    ∃ r p src, c.Returns (.returned r p src) := by
  obtain ⟨m, hm⟩ : ∃ m, c.measure = m := ⟨_, rfl⟩
  induction m using Nat.strong_induction_on generalizing c with
  | _ m ih =>
    have hsafe := step_safe hc
    cases hs : c.step with
    | exit o =>
      rw [hs] at hsafe
      cases o with
      | returned r p src => exact ⟨r, p, src, returns_of_exit hs⟩
      | panicked x => exact hsafe.elim
    | next c' =>
      rw [hs] at hsafe
      obtain ⟨hlt, hfin⟩ := measure_step_lt hc hf hs
      obtain ⟨r, p, src, hr⟩ := ih _ (hm ▸ hlt) hsafe (hfin ▸ hf) rfl
      exact ⟨r, p, src, (returns_iff_of_next hs).2 hr⟩

end Config

/-- `read` terminates: every reader reachable from `Proto::new` returns, without panicking, after
finitely many iterations, on every sequence of socket results that ends with the end of the
stream (`UnexpectedEof`), an error or the shutdown signal, whatever reads of bytes, of any sizes,
and whatever reports come before it. -/
theorem read_terminates (p : Proto) (hp : Reachable p) (src : Source)
    (hfinal : ∀ bs, src.final ≠ .data bs) :
    ∃ fuel r q s, p.read src fuel = some (.returned r q s) :=
  let ⟨r, q, s, fuel, h⟩ := Config.returns_of_final (Locals.init_inv hp.buf_capacity src) hfinal
  ⟨fuel, r, q, s, h⟩

/-- The reader two echoes in one read leave, on a get cut short by the end of the stream. -/
theorem read_terminates_two_echoes :
    Reachable ⟨"s", ⟨ascii "ECHO:1:a\nECHO:1:b\n", 256, by decide⟩, false⟩ ∧
      (∀ bs, Event.eof ≠ .data bs) ∧
      ∃ fuel r q s, (⟨"s", ⟨ascii "ECHO:1:a\nECHO:1:b\n", 256, by decide⟩, false⟩ : Proto).read
        ⟨[.data (ascii "GET:1:")], .eof⟩ fuel = some (.returned r q s) :=
  have hp : Reachable ⟨"s", ⟨ascii "ECHO:1:a\nECHO:1:b\n", 256, by decide⟩, false⟩ :=
    @Reachable.read (Proto.new "s") _ ⟨[.data (ascii "ECHO:1:a\nECHO:1:b\n")], .eof⟩ ⟨[], .eof⟩
      20 (.ok (.echo (ascii "a"))) (.new "s") rfl
  ⟨hp, (fun _ h => nomatch h), read_terminates _ hp _ (fun _ h => nomatch h)⟩

-- ---------------------------------------------------------------------------
-- Reads of no bytes
-- ---------------------------------------------------------------------------

/-- `k` iterations in a row that stay in the loop, and where they lead. -/
def Config.after : Nat → Config → Option Config
  | 0, c => some c
  | k + 1, c =>
    match c.step with
    | .next c' => c'.after k
    | .exit _ => none

/-- An iteration that leads back to itself never leaves the loop. -/
theorem run_eq_none_of_fixed {d : Config} (hd : d.step = .next d) (fuel : Nat) :
    run fuel d = none := by
  induction fuel with
  | zero => rfl
  | succ n ih => rw [run_of_next hd, ih]

theorem Config.after_succ (k : Nat) (c : Config) :
    c.after (k + 1) = (c.after k).bind (·.after 1) := by
  induction k generalizing c with
  | zero => simp [Config.after]
  | succ k ih =>
    rw [Config.after]
    split <;> rename_i h
    · rw [ih, Config.after, h]
    · simp [Config.after, h]

theorem Config.step_of_after_one {d : Config} (h : d.after 1 = some d) : d.step = .next d := by
  simp only [Config.after] at h
  split at h <;> rename_i h'
  · cases h; exact h'
  · cases h

/-- A loop that reaches an iteration leading back to itself never leaves. -/
theorem run_eq_none_of_after {c d : Config} {k : Nat} (hk : c.after k = some d)
    (hd : d.step = .next d) (fuel : Nat) : run fuel c = none := by
  induction k generalizing c fuel with
  | zero => cases hk; exact run_eq_none_of_fixed hd fuel
  | succ k ih =>
    simp only [Config.after] at hk
    split at hk <;> rename_i h
    · cases fuel with
      | zero => rfl
      | succ n => rw [run_of_next h]; exact ih hk n
    · cases hk

/-- A loop that comes back, after `k` iterations, to an iteration that leads back to itself
never leaves. -/
theorem run_eq_none_of_cycle {c : Config} {k : Nat} (hk : (c.after k).isSome)
    (hcycle : c.after (k + 1) = c.after k) (fuel : Nat) : run fuel c = none := by
  obtain ⟨d, hd⟩ := Option.isSome_iff_exists.mp hk
  rw [Config.after_succ, hd, Option.some_bind] at hcycle
  exact run_eq_none_of_after hd (Config.step_of_after_one hcycle) fuel

/-- A stream closed cleanly in the middle of an echo: after `ECHO:5:ab` every read gives zero
bytes, and `read` never returns. -/
theorem read_loops_on_zero_byte_reads (fuel : Nat) :
    (Proto.new "s").read ⟨[.data (ascii "ECHO:5:ab")], .data []⟩ fuel = none := by
  unfold Proto.read
  refine run_eq_none_of_cycle (k := 5) ?_ ?_ fuel <;> rfl

end Kave
