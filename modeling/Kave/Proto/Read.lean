-- SUMMARY: `Proto::read` as an explicit loop: the byte loops of each state, the refill with the residual swap, one iteration of `'state_loop`, and runs with fuel.
import Kave.Proto.Types

/-!
# `Proto::read`

One iteration of `'state_loop` is `step`: the refill when `needs_read` is set, then the body
of the current state. `run` iterates it with fuel, since on some sources the loop never ends.

The states after the opcode read the buffer only through `self.buf[ptr]` under the guard
`ptr < self.buf.len()`, moving `ptr` forward by one each time. Their bodies are written here as
functions of the unread bytes `self.buf[ptr..]` that report how many they used; `ptr` then
advances by that count. `Start` and `ReadOp` use `ptr` as an absolute index, and keep it.
-/

namespace Kave

-- ---------------------------------------------------------------------------
-- The byte loops
-- ---------------------------------------------------------------------------

/-- The newline search of `State::Start`: how many bytes up to and including the first
`b'\n'`, or `none` when the bytes run out first. -/
def skipLine : Bytes → Option Nat
  | [] => none
  | b :: rest => if b = newline then some 1 else (skipLine rest).map (· + 1)

/-- What the `read between ':' and ':'` loop found. -/
inductive LenScan
  /-- A byte other than `:` where the opening colon belongs. -/
  | badColon (found : UInt8)
  /-- The closing `:`, with the digits before it, after `used` bytes. -/
  | closed (digits : Bytes) (used : Nat)
  /-- The bytes ran out first. -/
  | more (between : Bool) (digits : Bytes)
  deriving DecidableEq

/-- The loop of `ReadKeyLen` and `ReadValueLen`, from `used` bytes already consumed. -/
def scanLen (used : Nat) : Bool → Bytes → Bytes → LenScan
  | between, digits, [] => .more between digits
  | false, digits, b :: rest =>
    if b = colon then scanLen (used + 1) true digits rest else .badColon b
  | true, digits, b :: rest =>
    if b = colon then .closed digits (used + 1)
    else scanLen (used + 1) true (digits ++ [b]) rest

/-- The copy loop of `ReadEcho`, `ReadKey` and `ReadValue`:
`while ptr < len && out.len() < target { out.push(self.buf[ptr]); ptr += 1 }`. -/
def fillTo (target used : Nat) : Bytes → Bytes → Bytes × Nat
  | out, [] => (out, used)
  | out, b :: rest =>
    if out.length < target then fillTo target (used + 1) (out ++ [b]) rest else (out, used)

-- ---------------------------------------------------------------------------
-- The states after the opcode
-- ---------------------------------------------------------------------------

/-- What a length field gave. -/
inductive LenStep
  | fail (e : ReadError)
  | parsed (digits : Bytes) (n used : Nat)
  | more (between : Bool) (digits : Bytes)

/-- `std::str::from_utf8(&digits)?.parse::<usize>()?`. -/
def parseLen (utf8Error : Utf8Error → ReadError) (digits : Bytes) : Except ReadError Nat :=
  match fromUtf8 digits with
  | .error e => .error (utf8Error e)
  | .ok s =>
    match parseUsize s.bytes with
    | .error k => .error (.parseInt k)
    | .ok n => .ok n

/-- The body `ReadKeyLen` and `ReadValueLen` share: scan to the closing colon, then parse the
digits. The two differ in their messages. -/
def readLen (colonError : UInt8 → ReadError) (utf8Error : Utf8Error → ReadError)
    (between : Bool) (digits rest : Bytes) : LenStep :=
  match scanLen 0 between digits rest with
  | .badColon b => .fail (colonError b)
  | .more between digits => .more between digits
  | .closed digits used =>
    match parseLen utf8Error digits with
    | .error e => .fail e
    | .ok n => .parsed digits n used

/-- `State::ReadKeyLen`: on the length, `ReadEcho` for an echo and `ReadKey` otherwise. -/
def readKeyLen (p : Parse) (rest : Bytes) : Pass :=
  match readLen .keyLenColon .keyLenUtf8 p.betweenColons p.keyLenBuf rest with
  | .fail e => .exit (.error e)
  | .more between digits => .wait { p with betweenColons := between, keyLenBuf := digits }
  | .parsed digits n used =>
    .next { p with betweenColons := false, keyLenBuf := digits, keyLen := n,
                   state := if p.op = .echo then .readEcho else .readKey } used

/-- `State::ReadValueLen`: on the length, `ReadValue`. -/
def readValueLen (p : Parse) (rest : Bytes) : Pass :=
  match readLen .valueLenColon .valueLenUtf8 p.betweenColons p.valueLenBuf rest with
  | .fail e => .exit (.error e)
  | .more between digits => .wait { p with betweenColons := between, valueLenBuf := digits }
  | .parsed digits n used =>
    .next { p with betweenColons := false, valueLenBuf := digits, valueLen := n,
                   state := .readValue } used

/-- `State::ReadEcho`. -/
def readEcho (p : Parse) (rest : Bytes) : Pass :=
  let (echo, used) := fillTo p.keyLen 0 p.echo rest
  if p.keyLen ≤ echo.length then .next { p with echo, state := .done } used
  else .wait { p with echo }

/-- `State::ReadKey`: once the key is whole, `Done` for a get, `ReadValueLen` for a set, and
`unreachable!()` for an echo. -/
def readKey (p : Parse) (rest : Bytes) : Pass :=
  let (key, used) := fillTo p.keyLen 0 p.key rest
  if p.keyLen ≤ key.length then
    match p.op with
    | .get => .next { p with key, state := .done } used
    | .set => .next { p with key, state := .readValueLen } used
    | .echo => .panic .unreachable
  else .wait { p with key }

/-- `State::ReadValue`. -/
def readValue (p : Parse) (rest : Bytes) : Pass :=
  let (value, used) := fillTo p.valueLen 0 p.value rest
  if p.valueLen ≤ value.length then .next { p with value, state := .done } used
  else .wait { p with value }

/-- `State::Done`: the key must be UTF-8 (an echo's is empty), then the request. -/
def done (p : Parse) : Except ReadError ProtoOp :=
  match fromUtf8 p.key with
  | .error e => .error (.keyUtf8 e)
  | .ok key =>
    match p.op with
    | .echo => .ok (.echo p.echo)
    | .get => .ok (.get key)
    | .set => .ok (.set key p.value)

-- ---------------------------------------------------------------------------
-- One iteration of `'state_loop`
-- ---------------------------------------------------------------------------

namespace Config

/-- Leave `read` with `r`. -/
def ret (c : Config) (r : Except ReadError ProtoOp) : Iter := .exit (.returned r c.proto c.src)

/-- Run the body of a state after the opcode on `self.buf[ptr..]`. -/
def pass (c : Config) (body : Parse → Bytes → Pass) : Iter :=
  let rest := c.proto.buf.data.drop c.loc.ptr
  match body c.loc.parse rest with
  | .next p used => .next { c with loc := { c.loc with parse := p, ptr := c.loc.ptr + used } }
  | .wait p =>
    .next { c with
      loc := { c.loc with parse := p, ptr := c.loc.ptr + rest.length, needsRead := true } }
  | .exit r => c.ret r
  | .panic p => .exit (.panicked p)

/-- The refill: clear the buffer and shrink it to `BUF_SIZE`, read, then prepend the residual
through `residual.append(&mut self.buf); swap(&mut residual, &mut self.buf)` and check the
two assertions; the cursor goes back to 0. -/
def refill (c : Config) : Iter :=
  let buf := c.proto.buf.clear.shrinkTo bufSize
  let (ev, src) := c.src.next
  let c := { c with proto := { c.proto with buf }, src }
  match ev with
  | .kill => c.ret (.ok .cancelled)
  | .eof => c.ret (.ok .sysClose)
  | .failure e => c.ret (.error (.socket c.proto.id e))
  | .data bs =>
    let (buf, left) := buf.fill bs
    let src := src.unread left
    let loc := { c.loc with ptr := 0, needsRead := false }
    if c.loc.residual.data = [] then .next ⟨{ c.proto with buf }, loc, src⟩
    else
      let (joined, emptied) := c.loc.residual.append buf
      if emptied.data ≠ [] then .exit (.panicked .residualNotEmpty)
      else if emptied.capacity < bufSize then .exit (.panicked .residualCapacity)
      else .next ⟨{ c.proto with buf := joined }, { loc with residual := emptied }, src⟩

/-- `State::Start`: a fresh reader goes to `ReadOp`; a used one skips past the first newline
of the buffer, keeping what follows as the residual, or asks for more bytes. -/
def start (c : Config) : Iter :=
  if c.proto.fresh then
    .next { c with loc := { c.loc with parse := { c.loc.parse with state := .readOp } },
                   proto := { c.proto with fresh := false } }
  else
    let rest := c.proto.buf.data.drop c.loc.ptr
    match skipLine rest with
    | none => .next { c with loc := { c.loc with ptr := c.loc.ptr + rest.length, needsRead := true } }
    | some n =>
      let ptr := c.loc.ptr + n
      let loc := { c.loc with ptr, parse := { c.loc.parse with state := .readOp } }
      if ptr < c.proto.buf.data.length then
        match suffixSlice c.proto.buf.data ptr with
        | none => .exit (.panicked .sliceOutOfRange)
        | some tail => .next { c with loc := { loc with residual := (loc.residual.append (.ofSlice tail)).1 } }
      else .next { c with loc }

/-- The iteration after a known opcode: `ptr` set, `op` named, and `ReadKeyLen` next. -/
def opened (c : Config) (ptr : Nat) (op : Op) : Config :=
  { c with loc := { c.loc with ptr, needsRead := false,
                               parse := { c.loc.parse with op, state := .readKeyLen } } }

/-- `State::ReadOp`: the four bytes at `ptr` name the request; `ptr` is then set to 3 (before
the colon of `GET:`/`SET:`) or 4 (after `ECHO`). Too few bytes at the start of the buffer are an
error; too few mid-buffer ask for more. -/
def readOp (c : Config) : Iter :=
  let buf := c.proto.buf.data
  let e := c.loc.ptr + minBufSize
  if buf.length < e then
    if c.loc.ptr = 0 then c.ret (.error (.shortOp buf.length buf))
    else .next { c with loc := { c.loc with needsRead := true } }
  else
    match rangeSlice buf c.loc.ptr e with
    | none => .exit (.panicked .sliceOutOfRange)
    | some s =>
      if s = ascii "GET:" then .next (c.opened 3 .get)
      else if s = ascii "SET:" then .next (c.opened 3 .set)
      else if s = ascii "ECHO" then .next (c.opened 4 .echo)
      else c.ret (.error (.unknownOp s))

/-- The `match state` of one iteration. -/
def dispatch (c : Config) : Iter :=
  match c.loc.parse.state with
  | .start => c.start
  | .readOp => c.readOp
  | .readKeyLen => c.pass readKeyLen
  | .readKey => c.pass readKey
  | .readEcho => c.pass readEcho
  | .readValueLen => c.pass readValueLen
  | .readValue => c.pass readValue
  | .done => c.ret (done c.loc.parse)

/-- One iteration of `'state_loop`. -/
def step (c : Config) : Iter :=
  if c.loc.needsRead then
    match c.refill with
    | .next c => c.dispatch
    | .exit o => .exit o
  else c.dispatch

end Config

/-- At most `fuel` iterations of `'state_loop`; `none` if the loop has not left by then. -/
def run : Nat → Config → Option Outcome
  | 0, _ => none
  | fuel + 1, c =>
    match c.step with
    | .next c => run fuel c
    | .exit o => some o

/-- `Proto::read` with at most `fuel` iterations, on the coming socket events `src`. -/
def Proto.read (p : Proto) (src : Source) (fuel : Nat) : Option Outcome :=
  run fuel ⟨p, Locals.init p.fresh, src⟩

-- ---------------------------------------------------------------------------
-- Runs
-- ---------------------------------------------------------------------------

theorem run_of_next {c c' : Config} (h : c.step = .next c') (fuel : Nat) :
    run (fuel + 1) c = run fuel c' := by
  simp [run, h]

theorem run_of_exit {c : Config} {o : Outcome} (h : c.step = .exit o) (fuel : Nat) :
    run (fuel + 1) c = some o := by
  simp [run, h]

/-- A run that left the loop leaves it the same way with more fuel. -/
theorem run_mono {fuel fuel' : Nat} {c : Config} {o : Outcome} (h : run fuel c = some o)
    (hle : fuel ≤ fuel') : run fuel' c = some o := by
  induction fuel generalizing c fuel' with
  | zero => simp [run] at h
  | succ n ih =>
    obtain ⟨m, rfl⟩ : ∃ m, fuel' = m + 1 := ⟨fuel' - 1, by omega⟩
    simp only [run] at h ⊢
    split at h <;> simp_all

/-- Two runs of one loop that both leave it agree. -/
theorem run_deterministic {fuel fuel' : Nat} {c : Config} {o o' : Outcome}
    (h : run fuel c = some o) (h' : run fuel' c = some o') : o = o' := by
  rcases le_total fuel fuel' with hle | hle
  · exact Option.some.inj ((run_mono h hle).symm.trans h')
  · exact Option.some.inj (h.symm.trans (run_mono h' hle))

end Kave
