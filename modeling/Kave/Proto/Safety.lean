-- SUMMARY: `read` never panics: both buffers keep `BUF_SIZE` of capacity and `ReadKey` is reached only for a get or a set, at every iteration of every reachable reader.
import Kave.Proto.Read

/-!
# Panic freedom

`read` could panic in four places: the two range indexes of `Start` and `ReadOp`, the
`unreachable!()` of `ReadKey`, and the two assertions after the residual swap. Each is excluded
by a local guard or by `Config.Inv`, which every iteration keeps. The single-byte reads
`self.buf[ptr]` sit under the guard `ptr < self.buf.len()` of their loops, which the model's
byte loops express by matching on `self.buf[ptr..]`.

The invariant starts from `Proto::new` and is carried across calls by the capacity of the
reader's buffer, the only part of a reader that outlives a call.
-/

namespace Kave

/-- `ReadKey` is reached only with an opcode that has a key. -/
def Parse.KeyOp (p : Parse) : Prop := p.state = .readKey → p.op ≠ .echo

/-- What a state's body may do: go on keeping `KeyOp`, or return. -/
def Pass.Safe : Pass → Prop
  | .next p _ | .wait p => p.KeyOp
  | .exit _ => True
  | .panic _ => False

/-- What holds at every iteration of `'state_loop`. -/
structure Config.Inv (c : Config) : Prop where
  buf : bufSize ≤ c.proto.buf.capacity
  residual : bufSize ≤ c.loc.residual.capacity
  keyOp : c.loc.parse.KeyOp

/-- An iteration that keeps the invariant, or returns a reader whose buffer keeps it. -/
def Iter.Safe : Iter → Prop
  | .next c => c.Inv
  | .exit (.returned _ p _) => bufSize ≤ p.buf.capacity
  | .exit (.panicked _) => False

-- ---------------------------------------------------------------------------
-- The states' bodies
-- ---------------------------------------------------------------------------

section Bodies

variable (p : Parse) (rest : Bytes)

theorem readKeyLen_safe (h : p.KeyOp) : (readKeyLen p rest).Safe := by
  unfold readKeyLen
  split <;> simp_all [Pass.Safe, Parse.KeyOp]

theorem readValueLen_safe (h : p.KeyOp) : (readValueLen p rest).Safe := by
  unfold readValueLen
  split <;> simp_all [Pass.Safe, Parse.KeyOp]

theorem readEcho_safe (h : p.KeyOp) : (readEcho p rest).Safe := by
  unfold readEcho
  split; split <;> simp_all [Pass.Safe, Parse.KeyOp]

theorem readValue_safe (h : p.KeyOp) : (readValue p rest).Safe := by
  unfold readValue
  split; split <;> simp_all [Pass.Safe, Parse.KeyOp]

/-- `unreachable!()` is not reached: the opcode of a `ReadKey` is a get or a set. -/
theorem readKey_safe (h : p.KeyOp) (hs : p.state = .readKey) : (readKey p rest).Safe := by
  have hop := h hs
  unfold readKey
  split; split
  · cases hop' : p.op <;> simp_all [Pass.Safe, Parse.KeyOp]
  · simp_all [Pass.Safe, Parse.KeyOp]

end Bodies

-- ---------------------------------------------------------------------------
-- One iteration
-- ---------------------------------------------------------------------------

namespace Config

variable {c : Config}

theorem pass_safe (hc : c.Inv) {body : Parse → Bytes → Pass}
    (hb : (body c.loc.parse (c.proto.buf.data.drop c.loc.ptr)).Safe) : (c.pass body).Safe := by
  unfold pass
  dsimp only
  split <;> rename_i h <;> rw [h] at hb
  · exact ⟨hc.buf, hc.residual, hb⟩
  · exact ⟨hc.buf, hc.residual, hb⟩
  · exact hc.buf
  · exact hb.elim

theorem start_safe (hc : c.Inv) : c.start.Safe := by
  unfold start
  dsimp only
  split
  · exact ⟨hc.buf, hc.residual, by simp [Parse.KeyOp]⟩
  · split
    · exact ⟨hc.buf, hc.residual, hc.keyOp⟩
    · split
      · split
        · rename_i h; simp [suffixSlice] at h; omega
        · exact ⟨hc.buf, le_trans hc.residual (Vec.capacity_le_append _ _), by simp [Parse.KeyOp]⟩
      · exact ⟨hc.buf, hc.residual, by simp [Parse.KeyOp]⟩

theorem readOp_safe (hc : c.Inv) : c.readOp.Safe := by
  unfold readOp
  dsimp only
  split
  · split
    · exact hc.buf
    · exact ⟨hc.buf, hc.residual, hc.keyOp⟩
  · split
    · rename_i h; simp [rangeSlice] at h; omega
    · split; · exact ⟨hc.buf, hc.residual, by simp [Parse.KeyOp, opened]⟩
      split; · exact ⟨hc.buf, hc.residual, by simp [Parse.KeyOp, opened]⟩
      split; · exact ⟨hc.buf, hc.residual, by simp [Parse.KeyOp, opened]⟩
      exact hc.buf

theorem dispatch_safe (hc : c.Inv) : c.dispatch.Safe := by
  unfold dispatch
  split <;> rename_i hs
  · exact start_safe hc
  · exact readOp_safe hc
  · exact pass_safe hc (readKeyLen_safe _ _ hc.keyOp)
  · exact pass_safe hc (readKey_safe _ _ hc.keyOp hs)
  · exact pass_safe hc (readEcho_safe _ _ hc.keyOp)
  · exact pass_safe hc (readValueLen_safe _ _ hc.keyOp)
  · exact pass_safe hc (readValue_safe _ _ hc.keyOp)
  · exact hc.buf

/-- The refill: the cleared buffer shrinks to exactly `BUF_SIZE`, so the vector the swap hands
to the residual is empty and large enough, and both assertions hold. -/
theorem refill_safe (hc : c.Inv) : c.refill.Safe := by
  have hcap := Vec.clear_shrinkTo_capacity hc.buf
  rcases hn : c.src.next with ⟨ev, src⟩
  cases ev with
  | kill | eof | failure => simpa [refill, hn, ret, Iter.Safe] using hcap.ge
  | data bs =>
    rcases hf : (c.proto.buf.clear.shrinkTo bufSize).fill bs with ⟨buf, left⟩
    have hfill := (c.proto.buf.clear.shrinkTo bufSize).capacity_le_fill bs
    rw [hf] at hfill
    simp only [refill, hn, hf]
    split
    · exact ⟨by simp only at hfill ⊢; omega, hc.residual, hc.keyOp⟩
    · simp only [Vec.append_snd, Vec.clear_data, ne_eq, not_true_eq_false, if_false,
        Vec.clear_capacity]
      split
      · simp only at hfill; omega
      · exact ⟨le_trans hc.residual (Vec.capacity_le_append _ _),
          by simp only [Vec.clear_capacity] at hfill ⊢; omega, hc.keyOp⟩

theorem step_safe (hc : c.Inv) : c.step.Safe := by
  unfold step
  split
  · have := refill_safe hc
    split <;> rename_i h <;> rw [h] at this
    · exact dispatch_safe this
    · exact this
  · exact dispatch_safe hc

end Config

/-- Every run from an iteration that keeps the invariant returns without panicking, leaving a
buffer of at least `BUF_SIZE`. -/
theorem run_safe {fuel : Nat} {c : Config} {o : Outcome} (hc : c.Inv)
    (h : run fuel c = some o) : Iter.Safe (.exit o) := by
  induction fuel generalizing c with
  | zero => simp [run] at h
  | succ n ih =>
    have hs := Config.step_safe hc
    simp only [run] at h
    split at h <;> rename_i h'
    · rw [h'] at hs; exact ih hs h
    · rw [h'] at hs; cases h; exact hs

-- ---------------------------------------------------------------------------
-- Reachable readers
-- ---------------------------------------------------------------------------

/-- Readers built by `Proto::new` and then used by earlier calls of `read`. -/
inductive Reachable : Proto → Prop
  | new (id : String) : Reachable (Proto.new id)
  | read {p p' : Proto} {src src' : Source} {fuel : Nat} {r : Except ReadError ProtoOp} :
      Reachable p → p.read src fuel = some (.returned r p' src') → Reachable p'

theorem Locals.init_inv {p : Proto} (hp : bufSize ≤ p.buf.capacity) (src : Source) :
    Config.Inv ⟨p, Locals.init p.fresh, src⟩ :=
  ⟨hp, le_rfl, by simp [Parse.KeyOp, Locals.init, Parse.init]⟩

theorem Reachable.buf_capacity {p : Proto} (hp : Reachable p) : bufSize ≤ p.buf.capacity := by
  induction hp with
  | new => exact le_rfl
  | read _ hread ih => exact run_safe (Locals.init_inv ih _) hread

/-- `read` never panics: from every reader reachable from `Proto::new`, on every sequence of
socket results and at any number of iterations, no range index leaves the buffer, the
`unreachable!()` of `ReadKey` is not reached and the residual assertions hold. -/
theorem read_never_panics {p : Proto} (hp : Reachable p) (src : Source) (fuel : Nat)
    (x : Panic) : p.read src fuel ≠ some (.panicked x) := fun h =>
  run_safe (Locals.init_inv hp.buf_capacity src) h

theorem read_never_panics_new :
    Reachable (Proto.new "s") ∧
      (Proto.new "s").read ⟨[.data (ascii "ECHO")], .eof⟩ 5 ≠ some (.panicked .unreachable) :=
  ⟨.new "s", read_never_panics (.new "s") _ _ _⟩

end Kave
