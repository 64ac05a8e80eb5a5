-- SUMMARY: The loop of `read` against `Parse.feed`: after the opcode, `read` returns what the states make of all the bytes the socket delivers, however its reads split them.
import Kave.Proto.Feed
import Mathlib.Logic.Relation

/-!
# The loop against `feed`

After the opcode the loop alternates socket reads and state bodies. Within one buffer it follows
`Parse.feed` (`Config.follows_feed`); a read puts the next bytes where the last ones ended, so by
`Parse.feed_append` the loop ends as `feed` says of the whole byte stream
(`Config.ends_feed`). This holds when, after its last bytes, the socket only reports the end of
the stream, a failure, the shutdown or reads of no bytes; and when no residual is put in front of
the buffer, as for a fresh reader.
-/

namespace Kave

namespace Config

variable {c c' d : Config} {o o' : Outcome}

-- ---------------------------------------------------------------------------
-- Runs that return
-- ---------------------------------------------------------------------------

/-- The loop leaves `c` with `o`, at some number of iterations. -/
def Returns (c : Config) (o : Outcome) : Prop := ∃ fuel, run fuel c = some o

theorem Returns.unique (h : c.Returns o) (h' : c.Returns o') : o = o' :=
  let ⟨_, hf⟩ := h
  let ⟨_, hf'⟩ := h'
  run_deterministic hf hf'

theorem returns_of_exit (h : c.step = .exit o) : c.Returns o := ⟨1, run_of_exit h 0⟩

theorem returns_iff_of_next (h : c.step = .next c') : c.Returns o ↔ c'.Returns o := by
  constructor
  · rintro ⟨_ | fuel, hf⟩
    · cases hf
    · exact ⟨fuel, by rwa [run_of_next h] at hf⟩
  · rintro ⟨fuel, hf⟩
    exact ⟨fuel + 1, by rwa [run_of_next h]⟩

theorem returns_iff_of_step (h : c.step = d.step) : c.Returns o ↔ d.Returns o := by
  have hrun (fuel : Nat) : run fuel c = run fuel d := by cases fuel <;> simp only [run, h]
  simp only [Returns, hrun]

/-- `c` comes to `c'` by iterations that stay in the loop. -/
def Leads : Config → Config → Prop := Relation.ReflTransGen fun c c' => c.step = .next c'

theorem returns_iff_of_leads (h : c.Leads c') : c.Returns o ↔ c'.Returns o := by
  induction h with
  | refl => rfl
  | tail _ hs ih => exact ih.trans (returns_iff_of_next hs)

-- ---------------------------------------------------------------------------
-- One iteration after the opcode
-- ---------------------------------------------------------------------------

/-- The unread bytes of the buffer, `self.buf[ptr..]`. -/
def rest (c : Config) : Bytes := c.proto.buf.data.drop c.loc.ptr

/-- The iteration after a body used the last bytes of the buffer: it reads from the socket. -/
def waiting (c : Config) (q : Parse) (ptr : Nat) : Config :=
  { c with loc := { c.loc with parse := q, ptr, needsRead := true } }

theorem step_of_ready (h : c.loc.needsRead = false) : c.step = c.dispatch := by
  simp [step, h]

/-- After the opcode an iteration runs the state's body on the unread bytes. -/
theorem dispatch_of_post (h : 2 ≤ c.loc.parse.state.rank) : c.dispatch = c.pass Parse.body := by
  unfold dispatch
  split <;> rename_i hs <;> simp only [hs, State.rank] at h <;>
    first | omega | simp only [pass, Parse.body, hs]

/-- A socket read into the emptied buffer, with no residual to put in front of it: the buffer
holds the first `BUF_SIZE` bytes, and the others come back at the next read. -/
theorem refill_data (hres : c.loc.residual.data = []) (hcap : bufSize ≤ c.proto.buf.capacity)
    {bs : Bytes} {src : Source} (hn : c.src.next = (.data bs, src)) :
    ∃ buf : Vec, buf.data = bs.take bufSize ∧ buf.capacity = bufSize ∧
      c.refill = .next ⟨{ c.proto with buf }, { c.loc with ptr := 0, needsRead := false },
        src.unread (bs.drop bufSize)⟩ := by
  have hv := Vec.clear_shrinkTo_capacity hcap
  have hfill := Vec.fill_of_empty (v := c.proto.buf.clear.shrinkTo bufSize) (by simp)
    (by rw [hv]; decide) bs
  refine ⟨⟨bs.take bufSize, bufSize, List.length_take_le _ _⟩, rfl, rfl, ?_⟩
  simp only [refill, hn, hfill, hres, hv, if_true]

theorem pass_eq {body : Parse → Bytes → Pass} :
    c.pass body =
      match body c.loc.parse c.rest with
      | .next q used => .next { c with loc := { c.loc with parse := q, ptr := c.loc.ptr + used } }
      | .wait q => .next (c.waiting q (c.loc.ptr + c.rest.length))
      | .exit r => c.ret r
      | .panic x => .exit (.panicked x) := rfl

-- ---------------------------------------------------------------------------
-- Within one buffer
-- ---------------------------------------------------------------------------

/-- Where the run from `c` goes once the bytes of its buffer led the parse to `f`: on to the
next socket read with what `f` waits with, or out of the loop. -/
def Follows (c : Config) : Fed → Prop
  | .wait q => ∃ ptr, c.Leads (c.waiting q ptr)
  | .exit r => c.Returns (.returned r c.proto c.src)
  | .panic x => c.Returns (.panicked x)

/-- A body that went round again leaves the rest of the run as it was. -/
theorem Follows.of_next {q : Parse} {used : Nat} {f : Fed}
    (h : c.step = .next { c with loc := { c.loc with parse := q, ptr := c.loc.ptr + used } })
    (hf : Follows { c with loc := { c.loc with parse := q, ptr := c.loc.ptr + used } } f) :
    c.Follows f := by
  cases f with
  | wait q' => obtain ⟨ptr, hl⟩ := hf; exact ⟨ptr, Relation.ReflTransGen.head h hl⟩
  | exit r | panic x => exact (returns_iff_of_next h).2 hf

/-- After the opcode, with the bytes in the buffer, an iteration is the state's body. -/
theorem step_post (hn : c.loc.needsRead = false) (hpost : 2 ≤ c.loc.parse.state.rank) :
    c.step =
      match c.loc.parse.body c.rest with
      | .next q used => .next { c with loc := { c.loc with parse := q, ptr := c.loc.ptr + used } }
      | .wait q => .next (c.waiting q (c.loc.ptr + c.rest.length))
      | .exit r => c.ret r
      | .panic x => .exit (.panicked x) := by
  rw [step_of_ready hn, dispatch_of_post hpost, pass_eq]

/-- Within one buffer the loop follows `feed`. -/
theorem follows_feed (hn : c.loc.needsRead = false) (hpost : 2 ≤ c.loc.parse.state.rank) :
    c.Follows (c.loc.parse.feed c.rest) := by
  obtain ⟨p, bs, hp, hbs⟩ : ∃ p bs, c.loc.parse = p ∧ c.rest = bs := ⟨_, _, rfl, rfl⟩
  have hstep := step_post hn hpost
  rw [hp, hbs] at hstep ⊢
  induction p, bs using Parse.feed.induct generalizing c with
  | case1 p bs q used h ih =>
    rw [h] at hstep
    rw [Parse.feed_eq, h]
    have hq : 2 ≤ q.state.rank := by
      have := Parse.rank_lt_of_body h
      rw [hp] at hpost
      omega
    let c' : Config := { c with loc := { c.loc with parse := q, ptr := c.loc.ptr + used } }
    have hrest : c'.rest = bs.drop used := by
      rw [← hbs, rest, rest, List.drop_drop]
    have hstep' := step_post (c := c') hn hq
    rw [hrest] at hstep'
    exact Follows.of_next hstep (ih hn hq rfl hrest hstep')
  | case2 p bs q h => rw [h] at hstep; rw [Parse.feed_eq, h]; exact ⟨_, .single hstep⟩
  | case3 p bs r h => rw [h] at hstep; rw [Parse.feed_eq, h]; exact returns_of_exit hstep
  | case4 p bs x h => rw [h] at hstep; rw [Parse.feed_eq, h]; exact returns_of_exit hstep

end Config

-- ---------------------------------------------------------------------------
-- Across socket reads
-- ---------------------------------------------------------------------------

/-- What `read` returns when the socket reports `e` to a state waiting for bytes; `none` for
bytes, after which it goes on. -/
def Event.reply (id : String) : Event → Option (Except ReadError ProtoOp)
  | .kill => some (.ok .cancelled)
  | .eof => some (.ok .sysClose)
  | .failure e => some (.error (.socket id e))
  | .data _ => none

/-- An event that delivers no bytes: the end of the stream, a failure, the shutdown, or a read
of no bytes. -/
def Event.Silent (e : Event) : Prop := ∀ bs, e = .data bs → bs = []

/-- What `read` returns once the bytes led the parse to `f` and the socket then reports `final`:
`f`'s result, or what `final` reports when `f` waits for more; a panic returns nothing. -/
def Fed.returned (id : String) (final : Event) : Fed → Option (Except ReadError ProtoOp)
  | .wait _ => final.reply id
  | .exit r => some r
  | .panic _ => none

namespace Config

variable {c d : Config} {final : Event}

theorem step_of_refill (h : c.loc.needsRead = true) {c' : Config} (hr : c.refill = .next c') :
    c.step = c'.dispatch := by
  simp [step, h, hr]

theorem step_of_refill_exit (h : c.loc.needsRead = true) {o : Outcome} (hr : c.refill = .exit o) :
    c.step = .exit o := by
  simp [step, h, hr]

/-- How the run from `c` ends once all the bytes the socket delivers before `final` led the
parse to `f`: with what `final` reports when `f` waits for more (it returns only so, and does
return when `final` reports something), or with `f`'s outcome. -/
def Ends (c : Config) (final : Event) : Fed → Prop
  | .wait _ => (∀ o, c.Returns o → ∃ r p src, final.reply c.proto.id = some r ∧ o = .returned r p src) ∧
      ∀ r, final.reply c.proto.id = some r → ∃ p src, c.Returns (.returned r p src)
  | .exit r => ∃ p src, c.Returns (.returned r p src)
  | .panic x => c.Returns (.panicked x)

theorem Ends.returned_iff {f : Fed} (hc : c.Ends final f) (r : Except ReadError ProtoOp) :
    (∃ p src, c.Returns (.returned r p src)) ↔ f.returned c.proto.id final = some r := by
  cases f with
  | wait q =>
    refine ⟨fun ⟨p, src, h⟩ => ?_, hc.2 r⟩
    obtain ⟨r', _, _, hr', ho⟩ := hc.1 _ h
    cases ho
    exact hr'
  | exit r' =>
    obtain ⟨p, src, h⟩ := hc
    refine ⟨fun ⟨p', src', h'⟩ => ?_, fun hr => ?_⟩
    · cases Returns.unique h h'; rfl
    · cases hr; exact ⟨p, src, h⟩
  | panic x => exact ⟨(fun ⟨_, _, h⟩ => nomatch Returns.unique hc h), (fun hr => nomatch hr)⟩

theorem Ends.of_returns_iff (h : ∀ o, c.Returns o ↔ d.Returns o) (hid : d.proto.id = c.proto.id)
    {f : Fed} (hd : d.Ends final f) : c.Ends final f := by
  cases f <;> simpa only [Ends, h, hid] using hd

/-- A parse waiting for bytes when the socket has no more: `read` returns what the socket
reports, and on reads of no bytes it never returns. -/
theorem ends_idle (hw : c.loc.needsRead = true) (hq : c.loc.parse.body [] = .wait c.loc.parse)
    (hres : c.loc.residual.data = []) (hcap : bufSize ≤ c.proto.buf.capacity)
    (hsrc : c.src = ⟨[], final⟩) (hfinal : final.Silent) : c.Ends final (.wait c.loc.parse) := by
  cases final with
  | data bs =>
    obtain rfl := hfinal bs rfl
    refine ⟨fun o ⟨fuel, hrun⟩ => ?_, fun r hr => nomatch hr⟩
    suffices ∀ fuel (c : Config), c.loc.needsRead = true → c.loc.parse.body [] = .wait c.loc.parse →
        c.loc.residual.data = [] → bufSize ≤ c.proto.buf.capacity → c.src = ⟨[], .data []⟩ →
        run fuel c = none by
      rw [this fuel c hw hq hres hcap hsrc] at hrun
      cases hrun
    intro fuel
    induction fuel with
    | zero => intros; rfl
    | succ n ih =>
      intro c hw hq hres hcap hsrc
      obtain ⟨buf, hbuf, hbcap, hrefill⟩ := refill_data hres hcap (by rw [hsrc]; rfl)
      have hstep : c.step = .next ({ c with proto := { c.proto with buf } }.waiting c.loc.parse 0) := by
        rw [step_of_refill hw hrefill, dispatch_of_post, pass_eq]
        · simp [rest, hbuf, hq, waiting, hsrc]
        · exact Parse.rank_of_wait hq
      rw [run_of_next hstep]
      exact ih _ rfl hq hres hbcap.ge hsrc
  | kill | eof | failure e =>
    have hret := returns_of_exit (step_of_refill_exit hw (by simp [refill, hsrc, ret]; rfl))
    exact ⟨fun o ho => ⟨_, _, _, rfl, Returns.unique ho hret⟩,
      fun r hr => ⟨_, _, by cases hr; exact hret⟩⟩

/-- The reads of a source after bytes were put back in front of it. -/
theorem flatten_unread (bs : Bytes) (cs : List Bytes) :
    (if bs = [] then cs else bs :: cs).flatten = bs ++ cs.flatten := by
  split <;> simp_all

/-- Putting back what the buffer could not take leaves less to read: fewer bytes, or fewer
reads. -/
theorem unread_measure (x : Bytes) (xs : List Bytes) :
    (if x.drop bufSize = [] then xs else x.drop bufSize :: xs).flatten.length +
        (if x.drop bufSize = [] then xs else x.drop bufSize :: xs).length <
      (x :: xs).flatten.length + (x :: xs).length := by
  simp only [List.flatten_cons, List.length_append, List.length_cons]
  split <;> rename_i hd
  · omega
  · have : bufSize < x.length := by
      by_contra h
      exact hd (List.drop_eq_nil_of_le (by omega))
    have : 0 < bufSize := by decide
    simp only [List.flatten_cons, List.length_append, List.length_cons, List.length_drop]
    omega

/-- After the opcode, with no residual in front of the buffer, the run ends as `feed` says of
the unread bytes of the buffer followed by all the bytes of the coming socket reads, whatever
their sizes, when after them the socket delivers no more bytes. -/
theorem ends_feed (hn : c.loc.needsRead = false) (hpost : 2 ≤ c.loc.parse.state.rank)
    (hres : c.loc.residual.data = []) (hcap : bufSize ≤ c.proto.buf.capacity)
    {cs : List Bytes} (hsrc : c.src = ⟨cs.map .data, final⟩) (hfinal : final.Silent) :
    c.Ends final (c.loc.parse.feed (c.rest ++ cs.flatten)) := by
  obtain ⟨n, hlt⟩ : ∃ n, cs.flatten.length + cs.length < n := ⟨_, Nat.lt_succ_self _⟩
  induction n generalizing c cs with
  | zero => omega
  | succ n ih =>
    have hW := follows_feed hn hpost
    rw [Parse.feed_append]
    cases hf : c.loc.parse.feed c.rest with
    | exit r => rw [hf] at hW; exact ⟨_, _, hW⟩
    | panic x => rw [hf] at hW; exact hW
    | wait q =>
      rw [hf] at hW
      obtain ⟨ptr, hlead⟩ := hW
      have hq := Parse.body_nil_of_feed hf
      refine Ends.of_returns_iff (fun _ => returns_iff_of_leads hlead) rfl ?_
      cases cs with
      | nil =>
        simp only [List.flatten_nil, Parse.feed_eq, hq]
        exact ends_idle rfl hq hres hcap hsrc hfinal
      | cons x xs =>
        obtain ⟨buf, hbuf, hbcap, hrefill⟩ := refill_data (c := c.waiting q ptr) hres hcap
          (show (c.waiting q ptr).src.next = (.data x, ⟨xs.map .data, final⟩) by
            rw [waiting, hsrc]; rfl)
        let cs' := if x.drop bufSize = [] then xs else x.drop bufSize :: xs
        have hflat : cs'.flatten = x.drop bufSize ++ xs.flatten := flatten_unread _ _
        let e : Config :=
          ⟨{ c.proto with buf }, { (c.waiting q ptr).loc with ptr := 0, needsRead := false },
            ⟨cs'.map .data, final⟩⟩
        have hstep : (c.waiting q ptr).step = e.step := by
          rw [step_of_refill rfl hrefill, step_of_ready rfl, Source.unread_data]
          rfl
        refine Ends.of_returns_iff (fun _ => returns_iff_of_step hstep) rfl ?_
        have := ih (c := e) rfl (Parse.rank_of_wait hq) hres hbcap.ge rfl
          (lt_of_lt_of_le (unread_measure x xs) (Nat.le_of_lt_succ hlt))
        simpa only [rest, hbuf, List.drop_zero, hflat, ← List.append_assoc, List.take_append_drop]
          using this

end Config

end Kave
