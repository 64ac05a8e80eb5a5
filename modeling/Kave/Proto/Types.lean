-- SUMMARY: The reader's data: requests, what a socket read can give, the `Op` and `State` enums, errors, the `Proto` record and the locals of one `read` call.
import Kave.Std.Str

/-!
# Reader data

The types of `src/proto.rs` that `Proto::read` works on. The socket and the shutdown channel are
not modelled as values: `read` only ever sees them through `read_buf`, so a `Source` lists what
each coming `read_buf` gives. The session id is kept because the socket error names it; the
peer address and the two stream halves carry nothing the loop reads.
-/

namespace Kave

/-- `ProtoOp`: what one `read` produces. -/
inductive ProtoOp
  | get (key : RString)
  | set (key : RString) (value : Bytes)
  | echo (msg : Bytes)
  | sysClose
  | cancelled
  deriving DecidableEq

/-- A request: `Get`, `Set` or `Echo`, as opposed to the two ways a session ends. -/
def ProtoOp.IsRequest : ProtoOp → Prop
  | .get _ | .set _ _ | .echo _ => True
  | .sysClose | .cancelled => False

/-- `Op`: the request the opcode named. -/
inductive Op
  | get
  | set
  | echo
  deriving DecidableEq, Repr

/-- `State`: where `read`'s loop stands. -/
inductive State
  | start
  | readOp
  | readKeyLen
  | readKey
  | readEcho
  | readValueLen
  | readValue
  | done
  deriving DecidableEq, Repr

/-- `MIN_BUF_SIZE`: enough for an opcode. -/
def minBufSize : Nat := 4

/-- `BUF_SIZE`: the buffer's default capacity. -/
def bufSize : Nat := 256

-- ---------------------------------------------------------------------------
-- The socket, as `read_buf` sees it
-- ---------------------------------------------------------------------------

/-- One outcome of the `tokio::select!` in `read_buf`. -/
inductive Event
  /-- `reader.read_buf` returned `Ok(n)` having written these bytes; `Ok(0)` is how tokio
  reports a cleanly closed stream. -/
  | data (bytes : Bytes)
  /-- `reader.read_buf` failed with `ErrorKind::UnexpectedEof`. -/
  | eof
  /-- `reader.read_buf` failed with another kind; the text is the error's `Display`. -/
  | failure (text : String)
  /-- The shutdown broadcast won the race. -/
  | kill
  deriving DecidableEq

/-- The events of the coming `read_buf` calls, then `final` for every call after them. -/
structure Source where
  pending : List Event
  final : Event
  deriving DecidableEq

namespace Source

/-- The next `read_buf` outcome, and the source after it. -/
def next (s : Source) : Event × Source :=
  match s.pending with
  | [] => (s.final, s)
  | e :: rest => (e, ⟨rest, s.final⟩)

/-- Bytes the socket had but the buffer could not take come first at the next read. -/
def unread (s : Source) (bs : Bytes) : Source :=
  if bs = [] then s else ⟨.data bs :: s.pending, s.final⟩

@[simp] theorem next_cons (e : Event) (es : List Event) (f : Event) :
    next ⟨e :: es, f⟩ = (e, ⟨es, f⟩) := rfl

@[simp] theorem next_nil (f : Event) : next ⟨[], f⟩ = (f, ⟨[], f⟩) := rfl

@[simp] theorem unread_nil (s : Source) : s.unread [] = s := rfl

/-- Bytes put back in front of a source of byte reads. -/
theorem unread_data (cs : List Bytes) (f : Event) (bs : Bytes) :
    (⟨cs.map .data, f⟩ : Source).unread bs =
      ⟨(if bs = [] then cs else bs :: cs).map .data, f⟩ := by
  unfold unread
  split <;> rfl

end Source

-- ---------------------------------------------------------------------------
-- Errors and panics
-- ---------------------------------------------------------------------------

/-- The errors `read` returns (`crate::error::Error`), each carrying what its message
interpolates; the docstrings give the format strings. -/
inductive ReadError
  /-- `"session={id} error reading from socket: {e}"` -/
  | socket (id : String) (e : String)
  /-- `"error reading start of operation, buffer-len {:?} shorter than expected {:?}"`: the
  buffer's length and its contents. -/
  | shortOp (len : Nat) (buf : Bytes)
  /-- `"error reading start of operation, unknown operation {:?}"`: the four bytes read. -/
  | unknownOp (op : Bytes)
  /-- `"reading key_len, expected ':' found {:?}"`, the byte printed as a `char`. -/
  | keyLenColon (found : UInt8)
  /-- `"key length is invalid utf8: {e}"` -/
  | keyLenUtf8 (e : Utf8Error)
  /-- `"reading value_len, expected ':' found {:?}"`, the byte printed as a number. -/
  | valueLenColon (found : UInt8)
  /-- `"value length is invalid utf8: {e}"` -/
  | valueLenUtf8 (e : Utf8Error)
  /-- `Error::ParseIntError`, `"parseint error: {e}"`. -/
  | parseInt (e : IntErrorKind)
  /-- `"key is invalid utf8: {e}"` -/
  | keyUtf8 (e : Utf8Error)
  deriving DecidableEq

/-- The panics `read` could reach. -/
inductive Panic
  /-- `unreachable!()` in `State::ReadKey`. -/
  | unreachable
  /-- `assert!(residual.is_empty())` after the buffer swap. -/
  | residualNotEmpty
  /-- `assert!(residual.capacity() >= BUF_SIZE)` after the buffer swap. -/
  | residualCapacity
  /-- A range index `self.buf[a..b]` or `self.buf[a..]` outside the buffer. -/
  | sliceOutOfRange
  deriving DecidableEq, Repr

/-- `&bs[a..b]`, which panics unless `a ≤ b ≤ len`. -/
def rangeSlice (bs : Bytes) (a b : Nat) : Option Bytes :=
  if a ≤ b ∧ b ≤ bs.length then some ((bs.drop a).take (b - a)) else none

/-- `&bs[a..]`, which panics unless `a ≤ len`. -/
def suffixSlice (bs : Bytes) (a : Nat) : Option Bytes :=
  if a ≤ bs.length then some (bs.drop a) else none

-- ---------------------------------------------------------------------------
-- The reader and one `read` call
-- ---------------------------------------------------------------------------

/-- `Proto`'s fields that `read` uses. -/
structure Proto where
  id : String
  buf : Vec
  fresh : Bool
  deriving DecidableEq

/-- `Proto::new`: an empty buffer of `BUF_SIZE` bytes and `fresh` set. -/
def Proto.new (id : String) : Proto := ⟨id, Vec.withCapacity bufSize, true⟩

/-- The check `Proto::new` asserts holds for every session id. -/
theorem Proto.new_capacity (id : String) : minBufSize ≤ (Proto.new id).buf.capacity :=
  show 4 ≤ 256 by omega

/-- The locals of one `read` call that hold what has been parsed. `key_len_buf`, `key`, `echo`,
`value_len_buf` and `value` are only pushed to and read whole, so their capacities are left
out. -/
structure Parse where
  state : State
  op : Op
  betweenColons : Bool
  keyLenBuf : Bytes
  keyLen : Nat
  key : Bytes
  echo : Bytes
  valueLenBuf : Bytes
  valueLen : Nat
  value : Bytes
  deriving DecidableEq

/-- The "starting defaults" of what `read` has parsed. -/
def Parse.init : Parse where
  state := .start
  op := .get
  betweenColons := false
  keyLenBuf := []
  keyLen := 0
  key := []
  echo := []
  valueLenBuf := []
  valueLen := 0
  value := []

/-- The local variables of one `read` call: what has been parsed, and the loop's control over
the buffer. The residual's capacity is asserted on, so it is a `Vec`. -/
structure Locals where
  parse : Parse
  needsRead : Bool
  ptr : Nat
  residual : Vec
  deriving DecidableEq

/-- The starting defaults of `read`: a fresh reader starts by reading from the socket. -/
def Locals.init (fresh : Bool) : Locals := ⟨Parse.init, fresh, 0, Vec.withCapacity bufSize⟩

/-- Everything one iteration of `'state_loop` reads and writes. -/
structure Config where
  proto : Proto
  loc : Locals
  src : Source

/-- How a `read` call ends. -/
inductive Outcome
  /-- `read` returned, leaving the reader and the socket in these states. -/
  | returned (r : Except ReadError ProtoOp) (p : Proto) (src : Source)
  | panicked (p : Panic)

/-- One iteration of `'state_loop`: go round again, or leave `read`. -/
inductive Iter
  | next (c : Config)
  | exit (o : Outcome)

/-- What the body of a state after the opcode did with the unread bytes: it went round again
having used `used` of them, used them all and set `needs_read`, returned, or panicked. -/
inductive Pass
  | next (p : Parse) (used : Nat)
  | wait (p : Parse)
  | exit (r : Except ReadError ProtoOp)
  | panic (p : Panic)

end Kave
