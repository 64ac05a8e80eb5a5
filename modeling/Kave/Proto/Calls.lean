-- SUMMARY: Successive calls of `read` on one reader: a client that sends each request in a socket read of its own, ending at its only newline, gets every request back, in the order it sent them, from a reader built by `Proto::new`.
import Kave.Proto.Reuse

/-!
# Successive calls

A session calls `read` on its `Proto` once per request. The first call finds the reader fresh;
each later one starts in `Start` and skips the previous request's line. When every request
comes in a socket read of its own, of at most `BUF_SIZE` bytes and with a newline only at its
end, each call finds the previous request in the buffer, ending at that newline, and reads the
next request from the start of the next socket read. So the session reads the client's requests
in the order they were sent, each as soon as its own read arrives.
-/

namespace Kave

/-- Successive calls of `read` on one reader, each on the socket the call before left, return
`rs` in order. -/
inductive Reads : Proto → Source → List (Except ReadError ProtoOp) → Prop
  | nil (p : Proto) (src : Source) : Reads p src []
  | cons {p p' : Proto} {src src' : Source} {fuel : Nat} {r : Except ReadError ProtoOp}
      {rs : List (Except ReadError ProtoOp)} :
      p.read src fuel = some (.returned r p' src') → Reads p' src' rs → Reads p src (r :: rs)

/-- A request alone in a socket read: at least an opcode's four bytes and at most what the
buffer takes, beginning with the request, with its only newline at its end. -/
def Alone (e : Bytes) (op : ProtoOp) : Prop :=
  Begins e op ∧ minBufSize ≤ e.length ∧ e.length ≤ bufSize ∧ skipLine e = some e.length

/-- A reader ready for the next request: built by `Proto::new`, or used, with a buffer that ends
at its first newline. -/
def Ready (id : String) (p : Proto) : Prop :=
  p = Proto.new id ∨ p.id = id ∧ p.fresh = false ∧ bufSize ≤ p.buf.capacity ∧
    skipLine p.buf.data = some p.buf.data.length

namespace Config

variable {c : Config}

/-- At `ReadOp` at the start of a buffer whose bytes `accepts` settles: the loop returns that,
with no socket read, leaving the reader and the socket as they are. -/
theorem returns_accepts {r : Except ReadError ProtoOp} (hn : c.loc.needsRead = false)
    (hinit : c.loc.parse = { Parse.init with state := .readOp }) (hptr : c.loc.ptr = 0)
    (hlen : minBufSize ≤ c.proto.buf.data.length) (hacc : accepts c.proto.buf.data = .exit r) :
    c.Returns (.returned r c.proto c.src) := by
  have hstep : c.step = c.readOp := by rw [step_of_ready hn, dispatch, hinit]
  rw [readOp_opcode (by rw [hptr]; exact hlen), hptr, List.drop_zero] at hstep
  have hopened (k : Nat) (o : Op) (hf : (Parse.afterOp o).feed (c.proto.buf.data.drop k) = .exit r) :
      (c.opened k o).Returns (.returned r c.proto c.src) := by
    have := follows_feed (c := c.opened k o) rfl (show 2 ≤ State.readKeyLen.rank by decide)
    rwa [show (c.opened k o).loc.parse = Parse.afterOp o by simp [opened, hinit, Parse.afterOp],
      show (c.opened k o).rest = c.proto.buf.data.drop k from rfl, hf] at this
  unfold accepts at hacc
  split_ifs at hstep hacc
  · exact (returns_iff_of_next hstep).2 (hopened 3 .get hacc)
  · exact (returns_iff_of_next hstep).2 (hopened 3 .set hacc)
  · exact (returns_iff_of_next hstep).2 (hopened 4 .echo hacc)
  · cases hacc
    exact returns_of_exit hstep

end Config

/-- A ready reader given a request alone in the next socket read returns it, leaving the socket
after that read and a reader ready for the next request. -/
theorem Ready.read {id : String} {p : Proto} (hp : Ready id p) {e : Bytes} {op : ProtoOp}
    (he : Alone e op) (more : List Event) (final : Event) :
    ∃ fuel B, p.read ⟨.data e :: more, final⟩ fuel =
        some (.returned (.ok op) ⟨id, B, false⟩ ⟨more, final⟩) ∧ Ready id ⟨id, B, false⟩ := by
  obtain ⟨hbegins, hmin, hmax, hline⟩ := he
  have hacc := (accepts_eq_ok_iff e op).mpr hbegins
  have hdrop : e.drop bufSize = [] := List.drop_eq_nil_of_le hmax
  have hready (B : Vec) (hB : B.data = e) (hcap : bufSize ≤ B.capacity) :
      Ready id ⟨id, B, false⟩ := .inr ⟨rfl, rfl, hcap, by rw [hB]; exact hline⟩
  rcases hp with rfl | ⟨rfl, hfresh, hcap, hold⟩
  · -- fresh: the refill, then `Start` goes to `ReadOp`
    obtain ⟨B, hB, hBcap, hrefill⟩ :=
      Config.refill_data (c := ⟨Proto.new id, Locals.init true, ⟨.data e :: more, final⟩⟩) rfl le_rfl rfl
    rw [List.take_of_length_le hmax] at hB
    rw [hdrop, Source.unread_nil] at hrefill
    have hstep : Config.step ⟨Proto.new id, Locals.init true, ⟨.data e :: more, final⟩⟩ =
        .next ⟨⟨id, B, false⟩,
          { Locals.init true with
            ptr := 0, needsRead := false, parse := { Parse.init with state := .readOp } },
          ⟨more, final⟩⟩ := by
      rw [Config.step_of_refill rfl hrefill]
      rfl
    obtain ⟨fuel, hrun⟩ := (Config.returns_iff_of_next hstep).2
      (Config.returns_accepts rfl rfl rfl (by rw [hB]; exact hmin) (by rw [hB]; exact hacc))
    exact ⟨fuel, B, hrun, hready B hB hBcap.ge⟩
  · -- used: `Start` skips the old buffer, `ReadOp` asks for a read, and the refill starts over
    obtain ⟨pid, B₀, fresh⟩ := p
    cases hfresh
    obtain ⟨res, hres, hrcap, h₁⟩ := Config.start_leftover ⟨.data e :: more, final⟩ rfl hold
    rw [List.drop_length] at hres
    let c₁ : Config := ⟨⟨pid, B₀, false⟩,
      { Locals.init false with
        ptr := B₀.data.length, parse := { Parse.init with state := .readOp }, residual := res },
      ⟨.data e :: more, final⟩⟩
    have h₂ : c₁.step = .next { c₁ with loc := { c₁.loc with needsRead := true } } :=
      (Config.step_of_ready rfl).trans
        (Config.readOp_more (by simp [c₁, minBufSize]) (skipLine_pos hold))
    obtain ⟨B, res', hB, hBcap, -, -, hrefill⟩ :=
      Config.refill_residual (c := { c₁ with loc := { c₁.loc with needsRead := true } }) hrcap hcap rfl
    rw [hdrop, Source.unread_nil] at hrefill
    rw [show c₁.loc.residual.data = [] from hres, List.nil_append,
      List.take_of_length_le hmax] at hB
    have h₃ := Config.step_of_refill rfl hrefill
    rw [← Config.step_of_ready rfl] at h₃
    obtain ⟨fuel, hrun⟩ := ((Config.returns_iff_of_next h₁).trans
      ((Config.returns_iff_of_next h₂).trans (Config.returns_iff_of_step h₃))).2
      (Config.returns_accepts rfl rfl rfl (by rw [hB]; exact hmin) (by rw [hB]; exact hacc))
    exact ⟨fuel, B, hrun, hready B hB hBcap⟩

/-- Requests in reads of their own are read in order: a reader built by `Proto::new`, given
requests each alone in a socket read of its own, returns them from successive calls of `read`,
one per call, in the order they were sent, whatever the socket reports after them. -/
theorem read_requests_in_order (id : String) (reqs : List (Bytes × ProtoOp))
    (halone : ∀ x ∈ reqs, Alone x.1 x.2) (final : Event) :
    Reads (Proto.new id) ⟨reqs.map (fun x => .data x.1), final⟩ (reqs.map fun x => .ok x.2) := by
  suffices ∀ p, Ready id p →
      Reads p ⟨reqs.map (fun x => .data x.1), final⟩ (reqs.map fun x => .ok x.2) from
    this _ (.inl rfl)
  induction reqs with
  | nil => exact fun p _ => .nil p _
  | cons x xs ih =>
    intro p hp
    obtain ⟨fuel, B, hrun, hready⟩ :=
      hp.read (halone x (List.mem_cons_self _ _)) (xs.map fun x => .data x.1) final
    exact .cons hrun (ih (fun y hy => halone y (List.mem_cons_of_mem _ hy)) _ hready)

/-- A get, then an echo, each in a read of its own. -/
theorem read_requests_in_order_get_echo :
    (∀ x ∈ [(ascii "GET:1:a\n", ProtoOp.get (RString.ofAscii "a")),
        (ascii "ECHO:2:hi\n", ProtoOp.echo (ascii "hi"))], Alone x.1 x.2) ∧
      Reads (Proto.new "s") ⟨[.data (ascii "GET:1:a\n"), .data (ascii "ECHO:2:hi\n")], .eof⟩
        [.ok (.get (RString.ofAscii "a")), .ok (.echo (ascii "hi"))] := by
  have halone : ∀ x ∈ [(ascii "GET:1:a\n", ProtoOp.get (RString.ofAscii "a")),
      (ascii "ECHO:2:hi\n", ProtoOp.echo (ascii "hi"))], Alone x.1 x.2 := by
    simp only [List.mem_cons, List.mem_singleton, List.not_mem_nil, or_false]
    rintro x (rfl | rfl)
    · exact ⟨⟨ascii "1", ascii "\n", ⟨ascii "1", .inl rfl, by decide, by decide, rfl, by decide⟩, rfl⟩,
        by decide, by decide, by decide⟩
    · exact ⟨⟨ascii "2", ascii "\n", ⟨ascii "2", .inl rfl, by decide, by decide, rfl, by decide⟩, rfl⟩,
        by decide, by decide, by decide⟩
  exact ⟨halone, read_requests_in_order "s" _ halone .eof⟩

end Kave
