-- SUMMARY: The states after the opcode as a function of the bytes they are given, and that how those bytes are split into buffers does not change what they parse.
import Kave.Proto.Read

/-!
# The states after the opcode, on a byte string

After the opcode, what `read` does depends only on what it has parsed and on the bytes still to
come. Each state's body takes the unread bytes of the buffer and either moves on to a later
state, uses them all and asks for more, or returns. `Parse.feed` runs the bodies over one byte
string, as one buffer holding it would.

The bodies read one byte at a time, so a string split in two parses as the whole
(`Parse.feed_append`): the sizes of the socket reads are invisible to the protocol.
-/

namespace Kave

-- ---------------------------------------------------------------------------
-- The byte loops on split input
-- ---------------------------------------------------------------------------

/-- The copy loop takes what is missing, or all there is. -/
theorem fillTo_eq (t u : Nat) (out r : Bytes) :
    fillTo t u out r = (out ++ r.take (t - out.length), u + min (t - out.length) r.length) := by
  induction r generalizing u out with
  | nil => simp [fillTo]
  | cons b rest ih =>
    rw [fillTo]
    split <;> rename_i h
    · obtain ⟨k, hk⟩ : ∃ k, t - out.length = k + 1 := ⟨t - out.length - 1, by omega⟩
      have hk' : t - (out.length + 1) = k := by omega
      simp [ih, hk, hk']
      omega
    · simp [show t - out.length = 0 by omega]

/-- A scan that started `k` bytes later. -/
def LenScan.shift (k : Nat) : LenScan → LenScan
  | .closed digits used => .closed digits (k + used)
  | r => r

theorem scanLen_add (k u : Nat) (between : Bool) (digits r : Bytes) :
    scanLen (k + u) between digits r = (scanLen u between digits r).shift k := by
  induction r generalizing u between digits with
  | nil => cases between <;> rfl
  | cons b r ih =>
    cases between <;> simp only [scanLen] <;> split <;>
      simp only [Nat.add_assoc, ih, LenScan.shift]

/-- The scan goes on into the next bytes where the first ones ran out. -/
theorem scanLen_append (u : Nat) (between : Bool) (digits x y : Bytes) :
    scanLen u between digits (x ++ y) =
      match scanLen u between digits x with
      | .more between' digits' => scanLen (u + x.length) between' digits' y
      | r => r := by
  induction x generalizing u between digits with
  | nil => cases between <;> rfl
  | cons b x ih =>
    rw [List.cons_append]
    cases between <;> simp only [scanLen] <;> split <;>
      simp only [ih, List.length_cons, Nat.add_assoc, Nat.add_comm 1]

/-- The closing colon comes within the bytes scanned. -/
theorem scanLen_used_le {u : Nat} {between : Bool} {digits r d : Bytes} {used : Nat}
    (h : scanLen u between digits r = .closed d used) : used ≤ u + r.length := by
  induction r generalizing u between digits with
  | nil => cases between <;> cases h
  | cons b r ih =>
    cases between <;> simp only [scanLen] at h <;> split at h <;>
      first | (have hle := ih h; simp only [List.length_cons]; omega) | (cases h <;> simp)

-- ---------------------------------------------------------------------------
-- The length fields on split input
-- ---------------------------------------------------------------------------

/-- A length field that started `k` bytes later. -/
def LenStep.shift (k : Nat) : LenStep → LenStep
  | .parsed digits n used => .parsed digits n (k + used)
  | r => r

theorem readLen_append (ce : UInt8 → ReadError) (ue : Utf8Error → ReadError) (between : Bool)
    (digits x y : Bytes) :
    readLen ce ue between digits (x ++ y) =
      match readLen ce ue between digits x with
      | .more between' digits' => (readLen ce ue between' digits' y).shift x.length
      | r => r := by
  unfold readLen
  rw [scanLen_append]
  cases scanLen 0 between digits x with
  | badColon b => rfl
  | closed d used => dsimp only; cases parseLen ue d <;> rfl
  | more between' digits' =>
    dsimp only
    rw [Nat.zero_add, ← Nat.add_zero x.length, scanLen_add]
    cases scanLen 0 between' digits' y with
    | closed d used => dsimp only [LenScan.shift]; cases parseLen ue d <;> rfl
    | _ => rfl


-- ---------------------------------------------------------------------------
-- The states' bodies on split input
-- ---------------------------------------------------------------------------

/-- A body's result when the first `k` bytes were already used. -/
def Pass.shift (k : Nat) : Pass → Pass
  | .next p used => .next p (k + used)
  | r => r

/-- The copy bodies once their loop is in closed form: the field `out` takes what is missing of
its target `t`; `full` is what a whole field leads to, `short` what waits for more. -/
def fillPass (t : Nat) (full : Bytes → Nat → Pass) (short : Bytes → Pass) (out r : Bytes) : Pass :=
  if t ≤ out.length + r.length then
    full (out ++ r.take (t - out.length)) (min (t - out.length) r.length)
  else short (out ++ r)

/-- The copy loop completes the field exactly when the bytes reach the target. -/
theorem fill_whole_iff (t : Nat) (out r : Bytes) :
    t ≤ (out ++ r.take (t - out.length)).length ↔ t ≤ out.length + r.length := by
  simp only [List.length_append, List.length_take]
  omega

theorem fill_short {t : Nat} {out r : Bytes} (h : ¬t ≤ out.length + r.length) :
    out ++ r.take (t - out.length) = out ++ r := by
  rw [List.take_of_length_le (by omega)]

/-- A copy body on split input: the first part fills the field, or the second goes on where it
stopped. -/
theorem fillPass_append {t : Nat} {full : Bytes → Nat → Pass} {short : Bytes → Pass}
    (hfull : ∀ e u k, (full e u).shift k = full e (k + u)) (hshort : ∀ e k, (short e).shift k = short e)
    (out x y : Bytes) :
    fillPass t full short out (x ++ y) =
      if t ≤ out.length + x.length then fillPass t full short out x
      else (fillPass t full short (out ++ x) y).shift x.length := by
  by_cases hx : t ≤ out.length + x.length
  · rw [if_pos hx]
    unfold fillPass
    rw [if_pos hx, List.length_append, if_pos (show t ≤ out.length + (x.length + y.length) by omega),
      List.take_append_of_le_length (by omega)]
    congr 1
    omega
  · rw [if_neg hx]
    unfold fillPass
    simp only [List.length_append]
    by_cases hy : t ≤ out.length + (x.length + y.length)
    · rw [if_pos hy, if_pos (show t ≤ out.length + x.length + y.length by omega), hfull,
        List.take_append_eq_append_take,
        List.take_of_length_le (show x.length ≤ t - out.length by omega), List.append_assoc,
        Nat.sub_sub]
      congr 1
      omega
    · rw [if_neg hy, if_neg (show ¬t ≤ out.length + x.length + y.length by omega), hshort,
        List.append_assoc]

theorem readEcho_eq (p : Parse) (r : Bytes) :
    readEcho p r = fillPass p.keyLen (fun echo used => .next { p with echo, state := .done } used)
      (fun echo => .wait { p with echo }) p.echo r := by
  simp only [readEcho, fillTo_eq, fill_whole_iff, Nat.zero_add, fillPass]
  split <;> simp_all [fill_short]

theorem readValue_eq (p : Parse) (r : Bytes) :
    readValue p r = fillPass p.valueLen (fun value used => .next { p with value, state := .done } used)
      (fun value => .wait { p with value }) p.value r := by
  simp only [readValue, fillTo_eq, fill_whole_iff, Nat.zero_add, fillPass]
  split <;> simp_all [fill_short]

theorem readKey_eq (p : Parse) (r : Bytes) :
    readKey p r = fillPass p.keyLen
      (fun key used =>
        match p.op with
        | .get => .next { p with key, state := .done } used
        | .set => .next { p with key, state := .readValueLen } used
        | .echo => .panic .unreachable)
      (fun key => .wait { p with key }) p.key r := by
  simp only [readKey, fillTo_eq, fill_whole_iff, Nat.zero_add, fillPass]
  split
  · rfl
  · simp_all [fill_short]

theorem readLen_used_le {ce : UInt8 → ReadError} {ue : Utf8Error → ReadError} {between : Bool}
    {digits r d : Bytes} {n used : Nat} (h : readLen ce ue between digits r = .parsed d n used) :
    used ≤ r.length := by
  unfold readLen at h
  split at h <;> try (split at h)
  all_goals first | (cases h; have := scanLen_used_le ‹_›; omega) | cases h

-- ---------------------------------------------------------------------------
-- The bodies of the states after the opcode
-- ---------------------------------------------------------------------------

/-- The body of each state after the opcode; `Done` uses no bytes. `Start` and `ReadOp` come
before the opcode and are never run from here: they are given `Done`'s body. -/
def Parse.body (p : Parse) : Bytes → Pass :=
  match p.state with
  | .readKeyLen => readKeyLen p
  | .readKey => readKey p
  | .readEcho => readEcho p
  | .readValueLen => readValueLen p
  | .readValue => readValue p
  | .done | .start | .readOp => fun _ => .exit (done p)

/-- The states in the order a request passes through them. -/
def State.rank : State → Nat
  | .start => 0
  | .readOp => 1
  | .readKeyLen => 2
  | .readKey | .readEcho => 3
  | .readValueLen => 4
  | .readValue => 5
  | .done => 6

theorem State.rank_le (s : State) : s.rank ≤ 6 := by
  cases s <;> decide

section Bodies

variable {p q : Parse} {bs : Bytes} {used : Nat}

/-- A body that goes round again has moved to a later state. -/
theorem Parse.rank_lt_of_body (h : p.body bs = .next q used) : p.state.rank < q.state.rank := by
  rw [Parse.body] at h
  cases hs : p.state <;> simp only [hs] at h
  all_goals first
    | cases h
    | (simp only [readKeyLen, readValueLen, readEcho_eq, readKey_eq, readValue_eq, fillPass] at h
       split at h <;> (try split at h) <;> cases h <;> simp only [hs, State.rank] <;> decide)

/-- A body uses no more bytes than it has. -/
theorem Parse.used_le_of_body (h : p.body bs = .next q used) : used ≤ bs.length := by
  rw [Parse.body] at h
  cases hs : p.state <;> simp only [hs] at h
  all_goals first
    | cases h
    | (simp only [readEcho_eq, readKey_eq, readValue_eq, fillPass] at h
       split at h <;> (try split at h) <;> cases h <;> omega)
    | (simp only [readKeyLen, readValueLen] at h
       split at h <;> cases h
       exact readLen_used_le ‹_›)

theorem readKeyLen_append (hs : p.state = .readKeyLen) (x y : Bytes) :
    readKeyLen p (x ++ y) =
      match readKeyLen p x with
      | .wait q => (q.body y).shift x.length
      | r => r := by
  unfold readKeyLen
  rw [readLen_append]
  cases readLen .keyLenColon .keyLenUtf8 p.betweenColons p.keyLenBuf x with
  | more between digits =>
    simp only [Parse.body, hs, readKeyLen]
    cases readLen .keyLenColon .keyLenUtf8 between digits y <;> rfl
  | _ => rfl

theorem readValueLen_append (hs : p.state = .readValueLen) (x y : Bytes) :
    readValueLen p (x ++ y) =
      match readValueLen p x with
      | .wait q => (q.body y).shift x.length
      | r => r := by
  unfold readValueLen
  rw [readLen_append]
  cases readLen .valueLenColon .valueLenUtf8 p.betweenColons p.valueLenBuf x with
  | more between digits =>
    simp only [Parse.body, hs, readValueLen]
    cases readLen .valueLenColon .valueLenUtf8 between digits y <;> rfl
  | _ => rfl

theorem readEcho_append (hs : p.state = .readEcho) (x y : Bytes) :
    readEcho p (x ++ y) =
      match readEcho p x with
      | .wait q => (q.body y).shift x.length
      | r => r := by
  rw [readEcho_eq, readEcho_eq, fillPass_append (fun _ _ _ => rfl) (fun _ _ => rfl)]
  by_cases hx : p.keyLen ≤ p.echo.length + x.length
  · simp only [hx, if_true, fillPass]
  · simp only [hx, if_false, fillPass, Parse.body, hs, readEcho_eq]

theorem readValue_append (hs : p.state = .readValue) (x y : Bytes) :
    readValue p (x ++ y) =
      match readValue p x with
      | .wait q => (q.body y).shift x.length
      | r => r := by
  rw [readValue_eq, readValue_eq, fillPass_append (fun _ _ _ => rfl) (fun _ _ => rfl)]
  by_cases hx : p.valueLen ≤ p.value.length + x.length
  · simp only [hx, if_true, fillPass]
  · simp only [hx, if_false, fillPass, Parse.body, hs, readValue_eq]

theorem readKey_append (hs : p.state = .readKey) (x y : Bytes) :
    readKey p (x ++ y) =
      match readKey p x with
      | .wait q => (q.body y).shift x.length
      | r => r := by
  rw [readKey_eq, readKey_eq, fillPass_append (fun _ _ _ => by cases p.op <;> rfl) (fun _ _ => rfl)]
  by_cases hx : p.keyLen ≤ p.key.length + x.length
  · simp only [hx, if_true, fillPass]
    cases p.op <;> rfl
  · simp only [hx, if_false, fillPass, Parse.body, hs, readKey_eq]

/-- A body on split input: what it does with the first part, or, when that was used up, what
the second part does from there. -/
theorem Parse.body_append (p : Parse) (x y : Bytes) :
    p.body (x ++ y) =
      match p.body x with
      | .wait q => (q.body y).shift x.length
      | r => r := by
  rw [Parse.body]
  cases hs : p.state <;> dsimp only
  · exact readKeyLen_append hs x y
  · exact readKey_append hs x y
  · exact readEcho_append hs x y
  · exact readValueLen_append hs x y
  · exact readValue_append hs x y

@[simp] theorem scanLen_nil (u : Nat) (between : Bool) (digits : Bytes) :
    scanLen u between digits [] = .more between digits := by
  cases between <;> rfl

/-- A body waiting for more bytes waits again, unchanged, when none come. -/
theorem Parse.body_nil_of_wait (h : p.body bs = .wait q) : q.body [] = .wait q := by
  rw [Parse.body] at h
  cases hs : p.state <;> simp only [hs] at h
  all_goals first
    | cases h
    | (simp only [readKeyLen, readValueLen] at h
       split at h <;> cases h
       simp [Parse.body, hs, readKeyLen, readValueLen, readLen])
    | (simp only [readEcho_eq, readKey_eq, readValue_eq, fillPass] at h
       split at h <;> (try split at h) <;> cases h
       simp_all [Parse.body, readEcho_eq, readKey_eq, readValue_eq, fillPass])

/-- Only the states after the opcode wait for bytes. -/
theorem Parse.rank_of_wait (h : p.body bs = .wait q) : 2 ≤ p.state.rank := by
  rw [Parse.body] at h
  cases hs : p.state <;> simp only [hs] at h <;> first | cases h | decide

end Bodies

-- ---------------------------------------------------------------------------
-- One buffer's bytes through the states after the opcode
-- ---------------------------------------------------------------------------

/-- What the bytes of one buffer lead to: what has been parsed when they ran out, or the
outcome. -/
inductive Fed
  | wait (p : Parse)
  | exit (r : Except ReadError ProtoOp)
  | panic (x : Panic)

/-- Run the bodies over `bs`, each from where the last one stopped. -/
def Parse.feed (p : Parse) (bs : Bytes) : Fed :=
  match h : p.body bs with
  | .next q used => q.feed (bs.drop used)
  | .wait q => .wait q
  | .exit r => .exit r
  | .panic x => .panic x
termination_by 6 - p.state.rank
decreasing_by
  have := Parse.rank_lt_of_body h
  have := q.state.rank_le
  omega

theorem Parse.feed_eq (p : Parse) (bs : Bytes) :
    p.feed bs =
      match p.body bs with
      | .next q used => q.feed (bs.drop used)
      | .wait q => .wait q
      | .exit r => .exit r
      | .panic x => .panic x := by
  rw [Parse.feed]
  split <;> simp_all

/-- How the bytes are split into buffers changes nothing: the second part goes on where the
first one left the parse. -/
theorem Parse.feed_append (p : Parse) (x y : Bytes) :
    p.feed (x ++ y) =
      match p.feed x with
      | .wait q => q.feed y
      | r => r := by
  induction p, x using Parse.feed.induct with
  | case1 p x q used h ih =>
    rw [feed_eq p (x ++ y), body_append, h, feed_eq p x, h]
    dsimp only
    rw [List.drop_append_of_le_length (Parse.used_le_of_body h), ih]
  | case2 p x q h =>
    rw [feed_eq p (x ++ y), body_append, h, feed_eq p x, h]
    dsimp only
    rw [feed_eq q y]
    cases q.body y <;> simp only [Pass.shift, List.drop_append]
  | case3 p x r h => rw [feed_eq p (x ++ y), body_append, h, feed_eq p x, h]
  | case4 p x e h => rw [feed_eq p (x ++ y), body_append, h, feed_eq p x, h]

/-- What the bytes of a buffer leave waiting waits again, unchanged, when no bytes come. -/
theorem Parse.body_nil_of_feed {p q : Parse} {bs : Bytes} (h : p.feed bs = .wait q) :
    q.body [] = .wait q := by
  induction p, bs using Parse.feed.induct with
  | case1 p bs q' used hb ih => rw [feed_eq, hb] at h; exact ih h
  | case2 p bs q' hb => rw [feed_eq, hb] at h; cases h; exact Parse.body_nil_of_wait hb
  | case3 p bs r hb => rw [feed_eq, hb] at h; cases h
  | case4 p bs e hb => rw [feed_eq, hb] at h; cases h

end Kave
