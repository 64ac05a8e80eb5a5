-- SUMMARY: `read` returns `SysClose`, `Cancelled` or a socket error only when the socket reported it: from every reader, on every sequence of socket results, such a result answers the first result of `read_buf` that is not bytes; and what `read` returns depends only on the results up to that one, so a fresh reader returns what the bytes before the first report settle, or else the report.
import Kave.Proto.Accept

/-!
# What the socket reported

`read` leaves its loop with what it parsed, with an error in the bytes, or with what `read_buf`
reported instead of bytes: `Ok(SysClose)` for an end of stream, `Ok(Cancelled)` for the
shutdown signal, and `Err("session={id} error reading from socket: {e}")` for another failure.
The refill is the only place that returns these, and it returns at the first such report; the
bytes read before it are put back or parsed, never reported. So whatever the reader and the
socket, a result of the third kind answers the first thing other than bytes the socket
reported.

Nor does `read` look past that report: two sockets whose results agree up to and including it
give the same result. So a fresh reader whose first read holds an opcode returns, on any socket,
what the bytes before the first report settle, or else that report; a shutdown or a failure in
the middle of a stream is no different from one at its end.
-/

namespace Kave

/-- The first of some socket results, then `final` for ever, that is not bytes. -/
def Event.firstReport : List Event → Event → Event
  | [], final => final
  | .data _ :: es, final => firstReport es final
  | e :: _, _ => e

/-- The first result other than bytes a source gives. -/
def Source.report (s : Source) : Event := Event.firstReport s.pending s.final

/-- The socket result a result of `read` answers, when it answers one: `SysClose` the end of
stream, `Cancelled` the shutdown signal, and the socket error its failure. -/
def reportOf : Except ReadError ProtoOp → Option Event
  | .ok .sysClose => some .eof
  | .ok .cancelled => some .kill
  | .error (.socket _ e) => some (.failure e)
  | _ => none

namespace Source

@[simp] theorem report_unread (s : Source) (bs : Bytes) : (s.unread bs).report = s.report := by
  unfold unread
  split <;> rfl

/-- Reading bytes leaves the first report to come as it was. -/
theorem report_next_data {s s' : Source} {bs : Bytes} (h : s.next = (.data bs, s')) :
    s'.report = s.report := by
  obtain ⟨_ | ⟨e, es⟩, final⟩ := s <;> simp only [next, Prod.mk.injEq] at h <;>
    obtain ⟨rfl, rfl⟩ := h <;> rfl

/-- A result other than bytes is the first report. -/
theorem report_next {s s' : Source} {e : Event} (h : s.next = (e, s'))
    (he : ∀ bs, e ≠ .data bs) : s.report = e := by
  obtain ⟨_ | ⟨e', es⟩, final⟩ := s <;> simp only [next, Prod.mk.injEq] at h <;>
    obtain ⟨rfl, rfl⟩ := h
  · rfl
  · cases e' with
    | data bs => exact absurd rfl (he bs)
    | _ => rfl

end Source

-- ---------------------------------------------------------------------------
-- The states never report
-- ---------------------------------------------------------------------------

/-- A body that, when it returns, returns an error in the bytes. -/
def Pass.Parsed : Pass → Prop
  | .exit r => reportOf r = none
  | _ => True

/-- The digits of a length field fail with the errors `from_utf8` and `parse::<usize>` give. -/
theorem parseLen_error {ue : Utf8Error → ReadError} {digits : Bytes} {e : ReadError}
    (h : parseLen ue digits = .error e) : (∃ u, e = ue u) ∨ ∃ k, e = .parseInt k := by
  unfold parseLen at h
  split at h
  · cases h; exact .inl ⟨_, rfl⟩
  · split at h <;> cases h; exact .inr ⟨_, rfl⟩

/-- The length fields fail with the errors their bytes give. -/
theorem readLen_fail {ce : UInt8 → ReadError} {ue : Utf8Error → ReadError} {between : Bool}
    {digits rest : Bytes} {e : ReadError} (h : readLen ce ue between digits rest = .fail e) :
    (∃ b, e = ce b) ∨ (∃ u, e = ue u) ∨ ∃ k, e = .parseInt k := by
  unfold readLen at h
  split at h
  · cases h; exact .inl ⟨_, rfl⟩
  · cases h
  · split at h <;> cases h
    exact .inr (parseLen_error ‹_›)

section Bodies

variable (p : Parse) (rest : Bytes)

theorem readKeyLen_parsed : (readKeyLen p rest).Parsed := by
  unfold readKeyLen
  split <;> rename_i h
  · rcases readLen_fail h with ⟨_, rfl⟩ | ⟨_, rfl⟩ | ⟨_, rfl⟩ <;> rfl
  all_goals trivial

theorem readValueLen_parsed : (readValueLen p rest).Parsed := by
  unfold readValueLen
  split <;> rename_i h
  · rcases readLen_fail h with ⟨_, rfl⟩ | ⟨_, rfl⟩ | ⟨_, rfl⟩ <;> rfl
  all_goals trivial

theorem readEcho_parsed : (readEcho p rest).Parsed := by
  unfold readEcho; split; split <;> trivial

theorem readKey_parsed : (readKey p rest).Parsed := by
  unfold readKey; split; split <;> (try split) <;> trivial

theorem readValue_parsed : (readValue p rest).Parsed := by
  unfold readValue; split; split <;> trivial

theorem done_parsed : reportOf (done p) = none := by
  unfold done
  split
  · rfl
  · split <;> rfl

end Bodies

-- ---------------------------------------------------------------------------
-- One iteration, then the loop
-- ---------------------------------------------------------------------------

/-- What an iteration keeps of the first report `e` to come: it goes on with it still to come,
or leaves with a result that answers it or none. -/
def Iter.Keeps (e : Event) : Iter → Prop
  | .next c => c.src.report = e
  | .exit (.returned r _ _) => ∀ e', reportOf r = some e' → e' = e
  | .exit (.panicked _) => True

namespace Config

variable {c : Config}

theorem pass_keeps {body : Parse → Bytes → Pass}
    (hb : (body c.loc.parse (c.proto.buf.data.drop c.loc.ptr)).Parsed) :
    (c.pass body).Keeps c.src.report := by
  unfold pass
  dsimp only
  split <;> rename_i h <;> rw [h] at hb
  · rfl
  · rfl
  · intro e' he; rw [hb] at he; cases he
  · trivial

/-- The states read bytes only: an iteration leaves the socket as it was, or returns an error
in the bytes or a request. -/
theorem dispatch_keeps : c.dispatch.Keeps c.src.report := by
  unfold dispatch
  split
  -- `Start` and `ReadOp` go on with the socket as it was, panic, or return an opcode error
  · unfold start
    dsimp only
    repeat' split
    all_goals first | rfl | trivial
  · unfold readOp
    dsimp only
    repeat' split
    all_goals first | rfl | trivial | intro _ h; cases h
  · exact pass_keeps (readKeyLen_parsed _ _)
  · exact pass_keeps (readKey_parsed _ _)
  · exact pass_keeps (readEcho_parsed _ _)
  · exact pass_keeps (readValueLen_parsed _ _)
  · exact pass_keeps (readValue_parsed _ _)
  · intro e' he; rw [done_parsed] at he; cases he

/-- The refill reports what the socket reported, and on bytes leaves the first report to come
as it was. -/
theorem refill_keeps : c.refill.Keeps c.src.report := by
  rcases hn : c.src.next with ⟨ev, src⟩
  cases ev with
  | kill | eof | failure =>
    have := Source.report_next hn (fun _ h => nomatch h)
    simp only [refill, hn, ret, Iter.Keeps, reportOf]
    rintro e' ⟨⟩
    exact this.symm
  | data bs =>
    have hsrc := Source.report_next_data hn
    rcases hf : (c.proto.buf.clear.shrinkTo bufSize).fill bs with ⟨buf, left⟩
    simp only [refill, hn, hf]
    split
    · exact (Source.report_unread _ _).trans hsrc
    · split
      · trivial
      · split
        · trivial
        · exact (Source.report_unread _ _).trans hsrc

/-- One iteration keeps the first report to come. -/
theorem step_keeps : c.step.Keeps c.src.report := by
  unfold step
  split
  · have := refill_keeps (c := c)
    split <;> rename_i h <;> rw [h] at this
    · rw [← this]; exact dispatch_keeps
    · exact this
  · exact dispatch_keeps

end Config

/-- A run of the loop that returns a result answering a socket report answers the first report
to come when it started. -/
theorem run_keeps {fuel : Nat} {c : Config} {r : Except ReadError ProtoOp} {p : Proto}
    {src : Source} (h : run fuel c = some (.returned r p src)) :
    ∀ e, reportOf r = some e → e = c.src.report := by
  induction fuel generalizing c with
  | zero => cases h
  | succ n ih =>
    have hstep := Config.step_keeps (c := c)
    simp only [run] at h
    split at h <;> rename_i heq <;> rw [heq] at hstep
    · rw [← hstep]; exact ih h
    · cases h; exact hstep

/-- `read` never reports what the socket did not: whatever the reader and the socket's results,
`read` returns `Ok(SysClose)` only when the first result of `read_buf` other than bytes is an end
of stream, `Ok(Cancelled)` only when it is the shutdown signal, and a socket error only when it
is that failure. -/
theorem read_answers_first_report (p : Proto) (src : Source) (fuel : Nat)
    (r : Except ReadError ProtoOp) (q : Proto) (src' : Source)
    (h : p.read src fuel = some (.returned r q src')) (e : Event) (he : reportOf r = some e) :
    src.report = e :=
  (run_keeps h e he).symm

/-- A get cut short by the end of the stream, with a shutdown after it. -/
theorem read_answers_first_report_eof :
    ∃ q src', (Proto.new "s").read ⟨[.data (ascii "GET:1"), .eof], .kill⟩ 10 =
        some (.returned (.ok .sysClose) q src') ∧ reportOf (.ok .sysClose) = some .eof ∧
      Source.report ⟨[.data (ascii "GET:1"), .eof], .kill⟩ = .eof := by
  obtain ⟨q, src', h⟩ : ∃ q src', (Proto.new "s").read ⟨[.data (ascii "GET:1"), .eof], .kill⟩ 10 =
      some (.returned (.ok .sysClose) q src') := ⟨_, _, rfl⟩
  exact ⟨q, src', h, rfl, read_answers_first_report _ _ _ _ _ _ h .eof rfl⟩

-- ---------------------------------------------------------------------------
-- Only the results up to the first report matter
-- ---------------------------------------------------------------------------

namespace Source

/-- The `n`-th result of the coming `read_buf` calls. -/
def event (s : Source) (n : Nat) : Event := s.pending.getD n s.final

/-- Two sources whose results agree up to and including the first that is not bytes. -/
def Agree (s t : Source) : Prop :=
  ∀ n, (∀ m < n, ∃ bs, s.event m = .data bs) → s.event n = t.event n

theorem next_fst (s : Source) : s.next.1 = s.event 0 := by
  obtain ⟨_ | ⟨e, es⟩, final⟩ := s <;> rfl

theorem event_next_snd (s : Source) (n : Nat) : s.next.2.event n = s.event (n + 1) := by
  obtain ⟨_ | ⟨e, es⟩, final⟩ := s <;> rfl

variable {s t : Source}

theorem Agree.next_fst (h : s.Agree t) : s.next.1 = t.next.1 := by
  rw [Source.next_fst, Source.next_fst]
  exact h 0 fun _ hm => absurd hm (Nat.not_lt_zero _)

/-- After bytes, the rest of two agreeing sources agree. -/
theorem Agree.next_snd (h : s.Agree t) (bs : Bytes) (hd : s.next.1 = .data bs) :
    s.next.2.Agree t.next.2 := by
  intro n hn
  rw [event_next_snd, event_next_snd]
  refine h (n + 1) fun m hm => ?_
  cases m with
  | zero => exact ⟨bs, by rw [← Source.next_fst]; exact hd⟩
  | succ m =>
    obtain ⟨b, hb⟩ := hn m (by omega)
    exact ⟨b, by rw [← event_next_snd]; exact hb⟩

theorem Agree.unread (h : s.Agree t) (bs : Bytes) : (s.unread bs).Agree (t.unread bs) := by
  unfold Source.unread
  split
  · exact h
  · intro n hn
    cases n with
    | zero => rfl
    | succ n => exact h n fun m hm => hn (m + 1) (by omega)

/-- A first result that is bytes followed by agreeing results. -/
theorem agree_cons {x : Event} {A B : List Event} {f g : Event}
    (h : ∀ bs, x = .data bs → Source.Agree ⟨A, f⟩ ⟨B, g⟩) :
    Source.Agree ⟨x :: A, f⟩ ⟨x :: B, g⟩ := by
  intro n hn
  cases n with
  | zero => rfl
  | succ n =>
    obtain ⟨bs, hx⟩ := hn 0 (Nat.succ_pos n)
    exact h bs hx n fun m hm => hn (m + 1) (by omega)

/-- Results after a report do not matter: bytes, then a report `e` and anything, agree with the
same bytes and then `e` for ever, both ways. -/
theorem agree_report {e : Event} (he : ∀ bs, e ≠ .data bs) (L rest : List Event) (final : Event) :
    Source.Agree ⟨L ++ e :: rest, final⟩ ⟨L, e⟩ ∧ Source.Agree ⟨L, e⟩ ⟨L ++ e :: rest, final⟩ := by
  induction L with
  | nil =>
    have hfirst (s : Source) (h0 : s.event 0 = e) (n : Nat) (hn : ∀ m < n, ∃ bs, s.event m = .data bs) :
        n = 0 := by
      cases n with
      | zero => rfl
      | succ n => obtain ⟨bs, hb⟩ := hn 0 (Nat.succ_pos n); exact absurd (h0.symm.trans hb) (he bs)
    exact ⟨fun n hn => by cases hfirst ⟨e :: rest, final⟩ rfl n hn; rfl,
      fun n hn => by cases hfirst ⟨[], e⟩ rfl n hn; rfl⟩
  | cons x L ih => exact ⟨agree_cons fun _ _ => ih.1, agree_cons fun _ _ => ih.2⟩

end Source

/-- Two loop states that differ at most in the socket's results after its first report. -/
def Config.Agree (c d : Config) : Prop := c.proto = d.proto ∧ c.loc = d.loc ∧ c.src.Agree d.src

/-- Two iterations that go on in agreeing states, or leave the same way. -/
inductive Iter.Agree : Iter → Iter → Prop
  | next {c d : Config} : c.Agree d → Iter.Agree (.next c) (.next d)
  | returned {r : Except ReadError ProtoOp} {p : Proto} {s s' : Source} :
      Iter.Agree (.exit (.returned r p s)) (.exit (.returned r p s'))
  | panicked {x : Panic} : Iter.Agree (.exit (.panicked x)) (.exit (.panicked x))

namespace Config

variable {p : Proto} {l : Locals} {s t : Source}

/-- The states never look at the socket. -/
theorem dispatch_agree (h : s.Agree t) :
    Iter.Agree (Config.dispatch ⟨p, l, s⟩) (Config.dispatch ⟨p, l, t⟩) := by
  unfold dispatch start readOp pass ret
  dsimp only
  split <;> (repeat' split) <;> first | exact .next ⟨rfl, rfl, h⟩ | exact .returned | exact .panicked

theorem refill_agree (h : s.Agree t) :
    Iter.Agree (Config.refill ⟨p, l, s⟩) (Config.refill ⟨p, l, t⟩) := by
  have h0 := h.next_fst
  rcases hs : s.next with ⟨ev, s'⟩
  rcases ht : t.next with ⟨ev', t'⟩
  rw [hs, ht] at h0
  cases h0
  cases ev with
  | data bs =>
    have h1 := h.next_snd bs (by rw [hs])
    rw [hs, ht] at h1
    rcases hf : (p.buf.clear.shrinkTo bufSize).fill bs with ⟨buf, left⟩
    simp only [refill, hs, ht, hf]
    split
    · exact .next ⟨rfl, rfl, h1.unread left⟩
    · split
      · exact .panicked
      · split
        · exact .panicked
        · exact .next ⟨rfl, rfl, h1.unread left⟩
  | kill | eof | failure e =>
    simp only [refill, hs, ht, ret]
    exact .returned

theorem step_agree {c d : Config} (h : c.Agree d) : Iter.Agree c.step d.step := by
  obtain ⟨p, l, s⟩ := c
  obtain ⟨p', l', t⟩ := d
  obtain ⟨rfl, rfl, h⟩ := h
  unfold step
  split
  · have := refill_agree (p := p) (l := l) h
    generalize Config.refill ⟨p, l, s⟩ = i₁ at this ⊢
    generalize Config.refill ⟨p, l, t⟩ = i₂ at this ⊢
    cases this with
    | @next c d h' =>
      obtain ⟨p₁, l₁, s₁⟩ := c
      obtain ⟨p₂, l₂, t₁⟩ := d
      obtain ⟨rfl, rfl, h'⟩ := h'
      exact dispatch_agree h'
    | returned => exact .returned
    | panicked => exact .panicked
  · exact dispatch_agree h

end Config

/-- Runs from agreeing states return the same result and reader. -/
theorem run_agree {fuel : Nat} {c d : Config} (h : c.Agree d) {r : Except ReadError ProtoOp}
    {p : Proto} {src : Source} (hrun : run fuel c = some (.returned r p src)) :
    ∃ src', run fuel d = some (.returned r p src') := by
  induction fuel generalizing c d with
  | zero => cases hrun
  | succ n ih =>
    have hs := Config.step_agree h
    simp only [run] at hrun ⊢
    revert hrun
    generalize c.step = i₁ at hs ⊢
    generalize d.step = i₂ at hs ⊢
    cases hs with
    | next h' => exact ih h'
    | returned => intro hrun; cases hrun; exact ⟨_, rfl⟩
    | panicked => intro hrun; cases hrun

/-- A fresh reader on any socket: when its first read holds an opcode's four bytes, `read`
returns what `accepts` makes of the bytes read before the socket's first report, or, when those
bytes settle nothing, that report; the results after the report do not matter. -/
theorem read_fresh_returns_before_report (id : String) (first : Bytes) (chunks : List Bytes)
    (e : Event) (he : ∀ bs, e ≠ .data bs) (rest : List Event) (final : Event)
    (hfirst : minBufSize ≤ first.length) (r : Except ReadError ProtoOp) :
    (∃ fuel q src, (Proto.new id).read ⟨(first :: chunks).map .data ++ e :: rest, final⟩ fuel =
        some (.returned r q src)) ↔
      (accepts (first ++ chunks.flatten)).returned id e = some r := by
  obtain ⟨h₁, h₂⟩ := Source.agree_report he ((first :: chunks).map .data) rest final
  refine Iff.trans ⟨fun ⟨fuel, q, src, h⟩ => ?_, fun ⟨fuel, q, src, h⟩ => ?_⟩
    (Proto.read_returned_iff.trans
      ((Config.fresh_ends id chunks hfirst fun bs h => absurd h (he bs)).returned_iff r))
  · obtain ⟨src', h'⟩ := run_agree (c := ⟨Proto.new id, Locals.init true, ⟨_ ++ e :: rest, final⟩⟩)
      (d := ⟨Proto.new id, Locals.init true, ⟨(first :: chunks).map .data, e⟩⟩) ⟨rfl, rfl, h₁⟩ h
    exact ⟨fuel, q, src', h'⟩
  · obtain ⟨src', h'⟩ := run_agree (c := ⟨Proto.new id, Locals.init true, ⟨_, e⟩⟩)
      (d := ⟨Proto.new id, Locals.init true, ⟨(first :: chunks).map .data ++ e :: rest, final⟩⟩)
      ⟨rfl, rfl, h₂⟩ h
    exact ⟨fuel, q, src', h'⟩

/-- A get cut short by the shutdown signal, with more bytes after it. -/
theorem read_fresh_returns_before_report_kill :
    (∀ bs, Event.kill ≠ .data bs) ∧ minBufSize ≤ (ascii "GET:1").length ∧
      ((∃ fuel q src, (Proto.new "s").read
          ⟨[ascii "GET:1"].map .data ++ .kill :: [.data (ascii ":a\n")], .eof⟩ fuel =
            some (.returned (.ok .cancelled) q src)) ↔
        (accepts (ascii "GET:1" ++ [].flatten)).returned "s" .kill = some (.ok .cancelled)) :=
  ⟨(fun _ h => nomatch h), by decide,
    read_fresh_returns_before_report "s" (ascii "GET:1") [] .kill (fun _ h => nomatch h)
      [.data (ascii ":a\n")] .eof (by decide) _⟩

end Kave
