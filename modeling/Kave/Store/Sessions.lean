-- SUMMARY: Sessions sharing one `LSMStore` through its mutex, under every interleaving of their steps: at most one session holds the mutex, each `get` sees exactly the transactions that released the lock before it took it, applied whole and in order, a panicking `get` ends only its own session, no interleaving deadlocks, and every one ends, after exactly the calls' work when no `get` panicked.
import Kave.Store.Lsm
import Mathlib.Algebra.BigOperators.Group.Finset

/-!
# Sessions sharing a store

`LSMStore` is `Arc<Mutex<LSMStoreData>>`; every clone a session holds shares the one mutex.
`transact` takes the guard, applies its instructions one at a time, and drops it; `get` takes
it, probes the filter and the memtable, and drops it. Each of these is one step here, and the
sessions' steps interleave in any order, for any set `S` of sessions.

A probe can panic: `mem_result.unwrap()` on a key the filter passes and the memtable lacks. The
panic ends the session's task; unwinding drops the guard, which frees the tokio mutex without
poisoning it, so the other sessions go on, and the session makes none of its remaining calls.

Two ghost logs record the order of the transactions, as they took the mutex and as they released
it, and for each `get` the store it probed and how many transactions had released the mutex when
it took it.

The mutex is never held across a wait: the holder can always take its next step, and with the
mutex free any session with a call left can take it. So no interleaving deadlocks, and since
every step does one step of some call's work, every interleaving ends, with every call made
unless a `get` panicked.
-/

namespace Kave

/-- A call a session makes on its clone of the store. -/
inductive StoreCall
  | get (k : RString)
  | transact (t : Transaction)

/-- Where a session stands. -/
inductive Pc
  /-- Between calls, not holding the mutex. -/
  | idle
  /-- In `get`, holding the mutex, taken when `seen` transactions had released it. -/
  | getting (k : RString) (seen : Nat)
  /-- In `get`, the probe done, the guard not yet dropped. -/
  | probed
  /-- In `transact`, holding the mutex, `n` instructions applied. -/
  | applying (t : Transaction) (n : Nat)
  /-- The task ended by a panic in `get`'s probe, the guard dropped while unwinding. -/
  | crashed

/-- Whether a session holds the mutex. -/
def Pc.Holds : Pc → Prop
  | .idle | .crashed => False
  | _ => True

/-- One session: where it stands, the calls it has still to make, and (ghost) the transactions
its completed `transact` calls applied. -/
structure Session where
  pc : Pc
  calls : List StoreCall
  finished : List Transaction

/-- What one `get` probed: the key, the store it read (its result, a panic included, is
`store.get key`), and how many transactions had released the mutex when it took it. -/
structure Observation (h : Hasher) where
  key : RString
  store : LSMStoreData h
  seen : Nat

/-- The transactions among some calls, in order. -/
def StoreCall.transactions : List StoreCall → List Transaction
  | [] => []
  | .get _ :: calls => transactions calls
  | .transact t :: calls => t :: transactions calls

/-- The transaction a session is inside, if any. -/
def Pc.inFlight : Pc → List Transaction
  | .applying t _ => [t]
  | _ => []

/-- The steps a call takes: taking the mutex, the probe and the release for a `get`; taking the
mutex, one step per instruction and the release for a `transact`. -/
def StoreCall.work : StoreCall → Nat
  | .get _ => 3
  | .transact t => t.instructions.length + 2

/-- The steps left of the call a session is inside. -/
def Pc.work : Pc → Nat
  | .idle | .crashed => 0
  | .getting _ _ => 2
  | .probed => 1
  | .applying t n => t.instructions.length - n + 1

/-- The steps some calls take. -/
def StoreCall.totalWork : List StoreCall → Nat
  | [] => 0
  | c :: calls => c.work + totalWork calls

/-- The steps left to a session: none once it crashed, whatever calls it had left. -/
def Session.work (ses : Session) : Nat :=
  match ses.pc with
  | .crashed => 0
  | pc => pc.work + StoreCall.totalWork ses.calls

/-- The shared store, the mutex, the sessions, and the ghost logs. -/
structure Shared (h : Hasher) (S : Type) where
  data : LSMStoreData h
  locked : Bool
  sessions : S → Session
  acquired : List (S × Transaction)
  committed : List (S × Transaction)
  observed : List (Observation h)

namespace Shared

variable {h : Hasher} {S : Type} [DecidableEq S]

/-- Every session idle with its calls ahead, the store as `LSMStore::new()` builds it. -/
def init (calls : S → List StoreCall) : Shared h S :=
  ⟨.new, false, fun s => ⟨.idle, calls s, []⟩, [], [], []⟩

/-- Session `s` moves to `ses`. -/
def set (σ : Shared h S) (s : S) (ses : Session) : Shared h S :=
  { σ with sessions := Function.update σ.sessions s ses }

/-- The store the released transactions make, applied whole and in order. -/
def view (σ : Shared h S) : LSMStoreData h := .ofTransactions (σ.committed.map (·.2))

/-- One step of session `s`. Taking the mutex needs it free. -/
inductive Step : S → Shared h S → Shared h S → Prop
  | acquireGet {σ : Shared h S} {s : S} {k : RString} {rest : List StoreCall} :
      (σ.sessions s).pc = .idle → (σ.sessions s).calls = .get k :: rest → σ.locked = false →
      Step s σ { σ.set s { σ.sessions s with pc := .getting k σ.committed.length, calls := rest }
                 with locked := true }
  | probe {σ : Shared h S} {s : S} {k : RString} {n : Nat} {v : Option Bytes} :
      (σ.sessions s).pc = .getting k n → σ.data.get k = .returned v →
      Step s σ { σ.set s { σ.sessions s with pc := .probed }
                 with observed := σ.observed ++ [⟨k, σ.data, n⟩] }
  /-- The probe panics: the session's task ends, and unwinding drops the guard. -/
  | crash {σ : Shared h S} {s : S} {k : RString} {n : Nat} :
      (σ.sessions s).pc = .getting k n → σ.data.get k = .panicked →
      Step s σ { σ.set s { σ.sessions s with pc := .crashed }
                 with locked := false, observed := σ.observed ++ [⟨k, σ.data, n⟩] }
  | releaseGet {σ : Shared h S} {s : S} :
      (σ.sessions s).pc = .probed →
      Step s σ { σ.set s { σ.sessions s with pc := .idle } with locked := false }
  | acquireTransact {σ : Shared h S} {s : S} {t : Transaction} {rest : List StoreCall} :
      (σ.sessions s).pc = .idle → (σ.sessions s).calls = .transact t :: rest → σ.locked = false →
      Step s σ { σ.set s { σ.sessions s with pc := .applying t 0, calls := rest }
                 with locked := true, acquired := σ.acquired ++ [(s, t)] }
  | applyOne {σ : Shared h S} {s : S} {t : Transaction} {n : Nat} {i : TransactInstruction} :
      (σ.sessions s).pc = .applying t n → t.instructions[n]? = some i →
      Step s σ { σ.set s { σ.sessions s with pc := .applying t (n + 1) }
                 with data := σ.data.apply i }
  | releaseTransact {σ : Shared h S} {s : S} {t : Transaction} {n : Nat} :
      (σ.sessions s).pc = .applying t n → n = t.instructions.length →
      Step s σ { σ.set s { σ.sessions s with pc := .idle,
                                             finished := (σ.sessions s).finished ++ [t] }
                 with locked := false, committed := σ.committed ++ [(s, t)] }

/-- The states some interleaving reaches from `init calls`. -/
inductive Reachable (calls : S → List StoreCall) : Shared h S → Prop
  | init : Reachable calls (init calls)
  | step {σ σ' : Shared h S} {s : S} : Reachable calls σ → Step s σ σ' → Reachable calls σ'

/-- A schedule: the sessions that step, in order, from one state to another. -/
inductive Steps : List S → Shared h S → Shared h S → Prop
  | nil {σ : Shared h S} : Steps [] σ σ
  | cons {s : S} {ss : List S} {σ σ' σ'' : Shared h S} :
      Step s σ σ' → Steps ss σ' σ'' → Steps (s :: ss) σ σ''

theorem Steps.reachable {calls : S → List StoreCall} {σ σ' : Shared h S} {ss : List S}
    (hr : Reachable calls σ) (hss : Steps ss σ σ') : Reachable calls σ' := by
  induction hss with
  | nil => exact hr
  | cons hst _ ih => exact ih (hr.step hst)

@[simp] theorem set_sessions_self (σ : Shared h S) (s : S) (ses : Session) :
    (σ.set s ses).sessions s = ses := Function.update_same _ _ _

@[simp] theorem set_sessions_ne (σ : Shared h S) {s s' : S} (ses : Session) (hne : s' ≠ s) :
    (σ.set s ses).sessions s' = σ.sessions s' := Function.update_noteq hne _ _

@[simp] theorem set_data (σ : Shared h S) (s : S) (ses : Session) : (σ.set s ses).data = σ.data := rfl
@[simp] theorem set_locked (σ : Shared h S) (s : S) (ses : Session) :
    (σ.set s ses).locked = σ.locked := rfl
@[simp] theorem set_acquired (σ : Shared h S) (s : S) (ses : Session) :
    (σ.set s ses).acquired = σ.acquired := rfl
@[simp] theorem set_committed (σ : Shared h S) (s : S) (ses : Session) :
    (σ.set s ses).committed = σ.committed := rfl
@[simp] theorem set_observed (σ : Shared h S) (s : S) (ses : Session) :
    (σ.set s ses).observed = σ.observed := rfl

-- ---------------------------------------------------------------------------
-- A run in which a `get` panics
-- ---------------------------------------------------------------------------

/-- Two sessions over a one-bit filter: `true` sets `k`; `false` gets `k`, then `j`, which the
filter passes once `k` is in and the memtable lacks. -/
def setThenGets : Bool → List StoreCall
  | true => [.transact ⟨[.set (RString.ofAscii "k") []]⟩]
  | false => [.get (RString.ofAscii "k"), .get (RString.ofAscii "j")]

/-- `true`'s transaction, then `false`'s two gets: the first returns the value set, the second
panics. -/
theorem steps_setThenGets :
    ∃ σ : Shared ⟨1, 1, fun _ _ => 0⟩ Bool,
      Steps [true, true, true, false, false, false, false, false] (init setThenGets) σ ∧
        σ.committed.length = 1 ∧
        σ.observed.map (fun o => o.store.get o.key) = [.returned (some []), .panicked] ∧
        (σ.sessions false).pc = .crashed := by
  have hss : Steps (h := ⟨1, 1, fun _ _ => 0⟩)
      [true, true, true, false, false, false, false, false] (init setThenGets) _ :=
    .cons (.acquireTransact (s := true) rfl rfl rfl)
      (.cons (.applyOne (s := true) (t := ⟨[.set (RString.ofAscii "k") []]⟩) (n := 0) rfl rfl)
      (.cons (.releaseTransact (s := true) (t := ⟨[.set (RString.ofAscii "k") []]⟩) (n := 1) rfl
        rfl)
      (.cons (.acquireGet (s := false) rfl rfl rfl) (.cons (.probe (s := false) rfl rfl)
      (.cons (.releaseGet (s := false) rfl) (.cons (.acquireGet (s := false) rfl rfl rfl)
      (.cons (.crash (s := false) rfl rfl) .nil)))))))
  exact ⟨_, hss, rfl, rfl, rfl⟩

-- ---------------------------------------------------------------------------
-- The invariant
-- ---------------------------------------------------------------------------

/-- No session is inside `transact`. -/
def NoneApplying (σ : Shared h S) : Prop := ∀ s t n, (σ.sessions s).pc ≠ .applying t n

/-- What every interleaving keeps. The mutex is held by exactly the session inside a call;
outside `transact` the store is the released transactions' `view`; inside, it is that view
with a prefix of the transaction applied, and the transaction is the last one to take the
mutex; each observation read the view it took the mutex in; and each transaction of a
session's calls is released once, in the order the session made them. -/
structure Inv (calls : S → List StoreCall) (σ : Shared h S) : Prop where
  locked_iff : σ.locked = true ↔ ∃ s, (σ.sessions s).pc.Holds
  exclusive : ∀ s s', (σ.sessions s).pc.Holds → (σ.sessions s').pc.Holds → s = s'
  idle : σ.NoneApplying → σ.data = σ.view ∧ σ.acquired = σ.committed
  applying : ∀ s t n, (σ.sessions s).pc = .applying t n →
    n ≤ t.instructions.length ∧ σ.data = (t.instructions.take n).foldl LSMStoreData.apply σ.view ∧
      σ.acquired = σ.committed ++ [(s, t)]
  getting : ∀ s k n, (σ.sessions s).pc = .getting k n → n = σ.committed.length
  observed : ∀ o ∈ σ.observed, o.seen ≤ σ.committed.length ∧
    o.store = .ofTransactions ((σ.committed.take o.seen).map (·.2))
  finished : ∀ s, (σ.committed.filter (fun e => e.1 = s)).map (·.2) = (σ.sessions s).finished
  program : ∀ s, StoreCall.transactions (calls s) =
    (σ.sessions s).finished ++ (σ.sessions s).pc.inFlight ++ StoreCall.transactions (σ.sessions s).calls

variable {σ : Shared h S} {calls : S → List StoreCall}

theorem Inv.not_holds (hσ : σ.Inv calls) (hl : σ.locked = false) (s : S) : ¬(σ.sessions s).pc.Holds :=
  fun hs => by simp [hσ.locked_iff.mpr ⟨s, hs⟩] at hl

theorem Inv.noneApplying_of_holds (hσ : σ.Inv calls) {s : S} (hs : (σ.sessions s).pc.Holds)
    (hna : ∀ t n, (σ.sessions s).pc ≠ .applying t n) : σ.NoneApplying := by
  intro s' t n h'
  have : s' = s := hσ.exclusive s' s (by rw [h']; trivial) hs
  subst this; exact hna t n h'

/-- With the mutex free and no session holding it, the invariant is what it says of the store
and of the logs. -/
theorem Inv.of_free (hnone : ∀ s, ¬(σ.sessions s).pc.Holds) (hl : σ.locked = false)
    (hidle : σ.data = σ.view ∧ σ.acquired = σ.committed)
    (hobs : ∀ o ∈ σ.observed, o.seen ≤ σ.committed.length ∧
      o.store = .ofTransactions ((σ.committed.take o.seen).map (·.2)))
    (hfin : ∀ s, (σ.committed.filter (fun e => e.1 = s)).map (·.2) = (σ.sessions s).finished)
    (hprog : ∀ s, StoreCall.transactions (calls s) = (σ.sessions s).finished ++
      (σ.sessions s).pc.inFlight ++ StoreCall.transactions (σ.sessions s).calls) :
    σ.Inv calls :=
  ⟨⟨fun h => by simp [hl] at h, fun ⟨s, hs⟩ => (hnone s hs).elim⟩,
    fun s _ hs _ => (hnone s hs).elim, fun _ => hidle,
    fun s _ _ h' => (hnone s (by rw [h']; trivial)).elim,
    fun s _ _ h' => (hnone s (by rw [h']; trivial)).elim, hobs, hfin, hprog⟩

theorem inv_init : (init (h := h) calls).Inv calls :=
  .of_free (fun _ h => h) rfl ⟨rfl, rfl⟩ (by simp [init]) (by simp [init])
    (by simp [init, Pc.inFlight])

-- ---------------------------------------------------------------------------
-- One step keeps it
-- ---------------------------------------------------------------------------

/-- A step of `s` leaves the other sessions where they were. -/
theorem Step.other {s s' : S} {σ' : Shared h S} (hst : Step s σ σ') (hne : s' ≠ s) :
    σ'.sessions s' = σ.sessions s' := by
  cases hst <;> exact set_sessions_ne _ _ hne

/-- After a step of `s`, a session other than `s` holding the mutex held it before. -/
theorem Step.holds_other {s s' : S} {σ' : Shared h S} (hst : Step s σ σ') (hne : s' ≠ s)
    (h' : (σ'.sessions s').pc.Holds) : (σ.sessions s').pc.Holds := by
  rwa [hst.other hne] at h'

/-- Taking the free mutex: `s` is the only holder afterwards. -/
theorem Inv.holds_after_acquire (hσ : σ.Inv calls) (hl : σ.locked = false) {s x : S} {σ' : Shared h S}
    (hst : Step s σ σ') (hx : (σ'.sessions x).pc.Holds) : x = s := by
  by_contra hne
  exact hσ.not_holds hl x (hst.holds_other hne hx)

omit [DecidableEq S] in
theorem view_append (σ : Shared h S) (e : S × Transaction) :
    LSMStoreData.ofTransactions ((σ.committed ++ [e]).map (·.2)) = σ.view.transact e.2 := by
  simp [view, LSMStoreData.ofTransactions, List.foldl_append]

section Transitions

variable {s : S} {σ' : Shared h S}

/-- After a step of a holder `s`, only `s` can hold the mutex. -/
theorem Inv.holder_after (hσ : σ.Inv calls) (hst : Step s σ σ') (hs : (σ.sessions s).pc.Holds)
    {x : S} (hx : (σ'.sessions x).pc.Holds) : x = s := by
  by_contra hne
  exact hne (hσ.exclusive x s (hst.holds_other hne hx) hs)

/-- A step of the holder `s` that leaves `s` without the mutex leaves nobody holding it. -/
theorem Inv.none_after (hσ : σ.Inv calls) (hst : Step s σ σ') (hs : (σ.sessions s).pc.Holds)
    (hfree : ¬(σ'.sessions s).pc.Holds) (x : S) : ¬(σ'.sessions x).pc.Holds := fun hx => by
  cases hσ.holder_after hst hs hx
  exact hfree hx

/-- A step that leaves the released transactions and those `s` finished as they were keeps
`finished`. -/
theorem Inv.finished_of_step (hσ : σ.Inv calls) (hst : Step s σ σ')
    (hs : (σ'.sessions s).finished = (σ.sessions s).finished) (hc : σ'.committed = σ.committed)
    (x : S) : (σ'.committed.filter (fun e => e.1 = x)).map (·.2) = (σ'.sessions x).finished := by
  rw [hc]
  by_cases hx : x = s
  · subst hx; rw [hs]; exact hσ.finished x
  · rw [hst.other hx]; exact hσ.finished x

/-- A step that keeps the transactions of `s`, finished, in flight and to come, keeps
`program`. -/
theorem Inv.program_of_step (hσ : σ.Inv calls) (hst : Step s σ σ')
    (hs : (σ'.sessions s).finished ++ (σ'.sessions s).pc.inFlight ++
        StoreCall.transactions (σ'.sessions s).calls =
      (σ.sessions s).finished ++ (σ.sessions s).pc.inFlight ++
        StoreCall.transactions (σ.sessions s).calls) (x : S) :
    StoreCall.transactions (calls x) = (σ'.sessions x).finished ++
      (σ'.sessions x).pc.inFlight ++ StoreCall.transactions (σ'.sessions x).calls := by
  by_cases hx : x = s
  · subst hx; rw [hs]; exact hσ.program x
  · rw [hst.other hx]; exact hσ.program x

/-- A session other than a holder `s` is not waiting for a `get`'s probe. -/
theorem Inv.getting_other (hσ : σ.Inv calls) (hst : Step s σ σ') {x : S} {k : RString} {n : Nat}
    (hx : x ≠ s) (h' : (σ'.sessions x).pc = .getting k n) : n = σ.committed.length := by
  rw [hst.other hx] at h'
  exact hσ.getting x k n h'

/-- A probe, whether it returns or panics, reads the view its `get` took the mutex in. -/
theorem Inv.observed_probe (hσ : σ.Inv calls) {k : RString} {n : Nat}
    (hpc : (σ.sessions s).pc = .getting k n) :
    ∀ o ∈ σ.observed ++ [⟨k, σ.data, n⟩], o.seen ≤ σ.committed.length ∧
      o.store = .ofTransactions ((σ.committed.take o.seen).map (·.2)) := by
  have hs : (σ.sessions s).pc.Holds := by rw [hpc]; trivial
  obtain ⟨hdata, -⟩ := hσ.idle (hσ.noneApplying_of_holds hs (by simp [hpc]))
  have hn := hσ.getting s k n hpc
  intro o ho
  simp only [List.mem_append, List.mem_singleton] at ho
  rcases ho with ho | rfl
  · exact hσ.observed o ho
  · exact ⟨hn.le, by simp [hn, hdata, view]⟩

theorem inv_acquireGet (hσ : σ.Inv calls) {k : RString} {rest : List StoreCall}
    (hpc : (σ.sessions s).pc = .idle) (hcalls : (σ.sessions s).calls = .get k :: rest)
    (hl : σ.locked = false) :
    ({ σ.set s { σ.sessions s with pc := .getting k σ.committed.length, calls := rest }
        with locked := true } : Shared h S).Inv calls := by
  have hst := Step.acquireGet hpc hcalls hl
  have hfree := fun x (hx : _) => hσ.holds_after_acquire hl hst (x := x) hx
  obtain ⟨hdata, hacq⟩ := hσ.idle fun s' t n h' => hσ.not_holds hl s' (by rw [h']; trivial)
  refine ⟨⟨fun _ => ⟨s, by simp [Pc.Holds]⟩, fun _ => rfl⟩,
    fun a b ha hb => by rw [hfree a ha, hfree b hb], fun _ => ⟨hdata, hacq⟩,
    fun s' t n h' => ?_, fun s' k' n h' => ?_, hσ.observed, hσ.finished_of_step hst (by simp) rfl,
    hσ.program_of_step hst (by simp [hpc, Pc.inFlight, StoreCall.transactions, *])⟩
  · cases hfree s' (by rw [h']; trivial); simp at h'
  · by_cases hs : s' = s
    · subst hs; simp at h'; exact h'.2.symm
    · exact hσ.getting_other hst hs h'

theorem inv_probe (hσ : σ.Inv calls) {k : RString} {n : Nat} {v : Option Bytes}
    (hpc : (σ.sessions s).pc = .getting k n) (hv : σ.data.get k = .returned v) :
    ({ σ.set s { σ.sessions s with pc := .probed }
        with observed := σ.observed ++ [⟨k, σ.data, n⟩] } : Shared h S).Inv calls := by
  have hst := Step.probe hpc hv
  have hs : (σ.sessions s).pc.Holds := by rw [hpc]; trivial
  refine ⟨hσ.locked_iff.trans ⟨fun _ => ⟨s, by simp [Pc.Holds]⟩, fun _ => ⟨s, hs⟩⟩,
    fun a b ha hb => by rw [hσ.holder_after hst hs ha, hσ.holder_after hst hs hb],
    fun _ => hσ.idle (hσ.noneApplying_of_holds hs (by simp [hpc])), fun s' t m h' => ?_,
    fun s' k' m h' => ?_, hσ.observed_probe hpc, hσ.finished_of_step hst (by simp) rfl,
    hσ.program_of_step hst (by simp [hpc, Pc.inFlight])⟩
  · by_cases hs' : s' = s
    · subst hs'; simp at h'
    · rw [hst.other hs'] at h'; exact hσ.applying s' t m h'
  · by_cases hs' : s' = s
    · subst hs'; simp at h'
    · exact hσ.getting_other hst hs' h'

theorem inv_crash (hσ : σ.Inv calls) {k : RString} {n : Nat}
    (hpc : (σ.sessions s).pc = .getting k n) (hp : σ.data.get k = .panicked) :
    ({ σ.set s { σ.sessions s with pc := .crashed }
        with locked := false, observed := σ.observed ++ [⟨k, σ.data, n⟩] } : Shared h S).Inv
      calls := by
  have hst := Step.crash hpc hp
  have hs : (σ.sessions s).pc.Holds := by rw [hpc]; trivial
  exact .of_free (hσ.none_after hst hs (by simp [Pc.Holds])) rfl
    (hσ.idle (hσ.noneApplying_of_holds hs (by simp [hpc]))) (hσ.observed_probe hpc)
    (hσ.finished_of_step hst (by simp) rfl) (hσ.program_of_step hst (by simp [hpc, Pc.inFlight]))

theorem inv_releaseGet (hσ : σ.Inv calls) (hpc : (σ.sessions s).pc = .probed) :
    ({ σ.set s { σ.sessions s with pc := .idle } with locked := false } : Shared h S).Inv calls := by
  have hst := Step.releaseGet hpc
  have hs : (σ.sessions s).pc.Holds := by rw [hpc]; trivial
  exact .of_free (hσ.none_after hst hs (by simp [Pc.Holds])) rfl
    (hσ.idle (hσ.noneApplying_of_holds hs (by simp [hpc]))) hσ.observed
    (hσ.finished_of_step hst (by simp) rfl) (hσ.program_of_step hst (by simp [hpc, Pc.inFlight]))

theorem inv_acquireTransact (hσ : σ.Inv calls) {t : Transaction} {rest : List StoreCall}
    (hpc : (σ.sessions s).pc = .idle) (hcalls : (σ.sessions s).calls = .transact t :: rest)
    (hl : σ.locked = false) :
    ({ σ.set s { σ.sessions s with pc := .applying t 0, calls := rest }
        with locked := true, acquired := σ.acquired ++ [(s, t)] } : Shared h S).Inv calls := by
  have hst := Step.acquireTransact hpc hcalls hl
  have hfree := fun x (hx : _) => hσ.holds_after_acquire hl hst (x := x) hx
  obtain ⟨hdata, hacq⟩ := hσ.idle fun s' t n h' => hσ.not_holds hl s' (by rw [h']; trivial)
  refine ⟨⟨fun _ => ⟨s, by simp [Pc.Holds]⟩, fun _ => rfl⟩,
    fun a b ha hb => by rw [hfree a ha, hfree b hb],
    fun hna' => absurd (by simp) (hna' s t 0), fun s' t' n h' => ?_,
    fun s' k' n h' => ?_, hσ.observed, hσ.finished_of_step hst (by simp) rfl,
    hσ.program_of_step hst (by simp [hpc, Pc.inFlight, StoreCall.transactions, *])⟩
  · cases hfree s' (by rw [h']; trivial)
    simp only [set_sessions_self, Pc.applying.injEq] at h'
    obtain ⟨rfl, rfl⟩ := h'
    exact ⟨Nat.zero_le _, hdata, by simp [hacq]⟩
  · cases hfree s' (by rw [h']; trivial); simp at h'

theorem inv_applyOne (hσ : σ.Inv calls) {t : Transaction} {n : Nat} {i : TransactInstruction}
    (hpc : (σ.sessions s).pc = .applying t n) (hi : t.instructions[n]? = some i) :
    ({ σ.set s { σ.sessions s with pc := .applying t (n + 1) }
        with data := σ.data.apply i } : Shared h S).Inv calls := by
  have hst := Step.applyOne hpc hi
  have hs : (σ.sessions s).pc.Holds := by rw [hpc]; trivial
  obtain ⟨_, hdata, hacq⟩ := hσ.applying s t n hpc
  obtain ⟨hlt, -⟩ := List.getElem?_eq_some_iff.mp hi
  refine ⟨hσ.locked_iff.trans ⟨fun _ => ⟨s, by simp [Pc.Holds]⟩, fun _ => ⟨s, hs⟩⟩,
    fun a b ha hb => by rw [hσ.holder_after hst hs ha, hσ.holder_after hst hs hb],
    fun hna' => absurd (by simp) (hna' s t (n + 1)), fun s' t' m h' => ?_,
    fun s' k' m h' => ?_, hσ.observed, hσ.finished_of_step hst (by simp) rfl,
    hσ.program_of_step hst (by simp [hpc, Pc.inFlight, StoreCall.transactions, *])⟩
  · cases hσ.holder_after hst hs (x := s') (by rw [h']; trivial)
    simp only [set_sessions_self, Pc.applying.injEq] at h'
    obtain ⟨rfl, rfl⟩ := h'
    refine ⟨hlt, ?_, hacq⟩
    show σ.data.apply i = (t.instructions.take (n + 1)).foldl LSMStoreData.apply σ.view
    rw [List.take_succ, hi, Option.toList_some, List.foldl_append, ← hdata]
    rfl
  · by_cases hs' : s' = s
    · subst hs'; simp at h'
    · exact hσ.getting_other hst hs' h'

theorem inv_releaseTransact (hσ : σ.Inv calls) {t : Transaction} {n : Nat}
    (hpc : (σ.sessions s).pc = .applying t n) (hn : n = t.instructions.length) :
    ({ σ.set s { σ.sessions s with pc := .idle, finished := (σ.sessions s).finished ++ [t] }
        with locked := false, committed := σ.committed ++ [(s, t)] } : Shared h S).Inv calls := by
  have hst := Step.releaseTransact hpc hn
  have hs : (σ.sessions s).pc.Holds := by rw [hpc]; trivial
  obtain ⟨_, hdata, hacq⟩ := hσ.applying s t n hpc
  refine .of_free (hσ.none_after hst hs (by simp [Pc.Holds])) rfl ⟨?_, hacq⟩ (fun o ho => ?_)
    (fun x => ?_) (hσ.program_of_step hst (by simp [hpc, Pc.inFlight]))
  · simp only [view, view_append, set_data]
    rw [hdata, hn, List.take_length]
    rfl
  · obtain ⟨hle, hres⟩ := hσ.observed o ho
    exact ⟨by simp; omega, by simp only [List.take_append_of_le_length hle, hres]⟩
  · by_cases hx : x = s
    · subst hx; simp [List.filter_append, hσ.finished x]
    · rw [hst.other hx, ← hσ.finished x]
      simp [List.filter_append, Ne.symm hx]

end Transitions

/-- Every step keeps the invariant. -/
theorem inv_step {s : S} {σ' : Shared h S} (hσ : σ.Inv calls) (hst : Step s σ σ') : σ'.Inv calls := by
  cases hst with
  | acquireGet hpc hcalls hl => exact inv_acquireGet hσ hpc hcalls hl
  | probe hpc hv => exact inv_probe hσ hpc hv
  | crash hpc hp => exact inv_crash hσ hpc hp
  | releaseGet hpc => exact inv_releaseGet hσ hpc
  | acquireTransact hpc hcalls hl => exact inv_acquireTransact hσ hpc hcalls hl
  | applyOne hpc hi => exact inv_applyOne hσ hpc hi
  | releaseTransact hpc hn => exact inv_releaseTransact hσ hpc hn

theorem Reachable.inv (hr : Reachable calls σ) : σ.Inv calls := by
  induction hr with
  | init => exact inv_init
  | step _ hst ih => exact inv_step ih hst

theorem Inv.acquired_eq (hσ : σ.Inv calls) :
    σ.acquired = σ.committed ∨ ∃ e, σ.acquired = σ.committed ++ [e] := by
  by_cases hna : σ.NoneApplying
  · exact .inl (hσ.idle hna).2
  · simp only [NoneApplying, not_forall, not_not] at hna
    obtain ⟨s, t, n, h'⟩ := hna
    exact .inr ⟨_, (hσ.applying s t n h').2.2⟩

/-- Transaction atomicity, for one state of the shared store. -/
structure Atomic (calls : S → List StoreCall) (σ : Shared h S) : Prop where
  /-- Every `get` probed exactly the store made by the transactions that released the mutex
  before it took it, applied whole and in order. -/
  observed : ∀ o ∈ σ.observed, o.seen ≤ σ.committed.length ∧
    o.store = .ofTransactions ((σ.committed.take o.seen).map (·.2))
  /-- Transactions release the mutex in the order they took it. -/
  release_order : σ.committed <+: σ.acquired ∧ σ.acquired.length ≤ σ.committed.length + 1
  /-- Each transaction of a session's calls is released once, in the session's order, or is in
  flight, or has not been started (a session that crashed never starts it). -/
  program : ∀ s, StoreCall.transactions (calls s) =
    (σ.committed.filter (fun e => e.1 = s)).map (·.2) ++ (σ.sessions s).pc.inFlight ++
      StoreCall.transactions (σ.sessions s).calls
  /-- With the mutex free, the store is the released transactions applied whole. -/
  idle_store : σ.locked = false → σ.data = .ofTransactions (σ.committed.map (·.2))

/-- Transactions are atomic, whatever the number of sessions and the interleaving of their
steps. -/
theorem transactions_atomic (hr : Reachable calls σ) : σ.Atomic calls := by
  have hσ := hr.inv
  refine ⟨hσ.observed, ?_, fun s => by rw [hσ.finished]; exact hσ.program s,
    fun hl => (hσ.idle fun s t n h' => hσ.not_holds hl s (by rw [h']; trivial)).1⟩
  rcases hσ.acquired_eq with h' | ⟨e, h'⟩ <;> rw [h']
  · exact ⟨List.prefix_refl _, by omega⟩
  · exact ⟨List.prefix_append _ _, by simp⟩

/-- The sessions of `setThenGets`, after the transaction was released and both probes ran. -/
theorem transactions_atomic_setThenGets :
    ∃ σ : Shared ⟨1, 1, fun _ _ => 0⟩ Bool, Reachable setThenGets σ ∧ σ.Atomic setThenGets ∧
      σ.committed.length = 1 ∧
      σ.observed.map (fun o => o.store.get o.key) = [.returned (some []), .panicked] :=
  let ⟨σ, hss, hc, hobs, _⟩ := steps_setThenGets
  ⟨σ, hss.reachable .init, transactions_atomic (hss.reachable .init), hc, hobs⟩

/-- Mutual exclusion, for one state of the shared store. -/
structure Exclusive (σ : Shared h S) : Prop where
  /-- At most one session holds the mutex. -/
  unique : ∀ s s', (σ.sessions s).pc.Holds → (σ.sessions s').pc.Holds → s = s'
  /-- The mutex is taken exactly when a session holds it. -/
  locked_iff : σ.locked = true ↔ ∃ s, (σ.sessions s).pc.Holds

/-- Mutual exclusion holds in every state some interleaving reaches. -/
theorem mutex_exclusive (hr : Reachable calls σ) : σ.Exclusive :=
  ⟨hr.inv.exclusive, hr.inv.locked_iff⟩

/-- Two sessions that each `get` one key, after one took the mutex. -/
theorem mutex_exclusive_acquired :
    Reachable (h := ⟨1, 1, fun _ _ => 0⟩) (fun _ : Bool => [.get (RString.ofAscii "k")])
        { (init fun _ : Bool => [.get (RString.ofAscii "k")]).set true
            ⟨.getting (RString.ofAscii "k") 0, [], []⟩ with locked := true } ∧
      Exclusive { (init (h := ⟨1, 1, fun _ _ => 0⟩) fun _ : Bool =>
          [.get (RString.ofAscii "k")]).set true ⟨.getting (RString.ofAscii "k") 0, [], []⟩ with
        locked := true } :=
  ⟨.step .init (.acquireGet rfl rfl rfl), mutex_exclusive (.step .init (.acquireGet rfl rfl rfl))⟩

/-- What each `get` read, against the last-writer-wins map: for a key some transaction released
before it took the mutex wrote, the last value those transactions wrote to it. -/
def ReadsLastWrites (σ : Shared h S) : Prop :=
  ∀ o ∈ σ.observed, ∀ v, lastWriterWins ((σ.committed.take o.seen).map (·.2)) o.key = some v →
    o.store.get o.key = .returned v

/-- Reads see a last-writer-wins map: in every state some interleaving reaches, each `get`
returned, for a key the transactions released before it wrote, the last value they wrote to it,
and did not panic. -/
theorem gets_read_last_writes (hr : Reachable calls σ) : σ.ReadsLastWrites := by
  intro o ho v hv
  rw [(hr.inv.observed o ho).2]
  refine LSMStoreData.get_of_inv (LSMStoreData.inv_ofTransactions _) ?_
  rw [LSMStoreData.ofTransactions_eq, LSMStoreData.memtable_get_foldl]
  exact hv

/-- One session that sets `k` and then gets it: after the five steps of the two calls, its `get`
read the value set. -/
theorem gets_read_last_writes_after_set :
    ∃ σ : Shared ⟨1, 1, fun _ _ => 0⟩ Unit,
      Reachable (fun _ => [.transact ⟨[.set (RString.ofAscii "k") []]⟩, .get (RString.ofAscii "k")])
        σ ∧ σ.ReadsLastWrites ∧ ∃ o ∈ σ.observed, o.store.get o.key = .returned (some []) := by
  have h₀ : Reachable (h := ⟨1, 1, fun _ _ => 0⟩)
      (fun _ : Unit => [.transact ⟨[.set (RString.ofAscii "k") []]⟩, .get (RString.ofAscii "k")])
      (init _) := .init
  have hr := Reachable.step (Reachable.step (Reachable.step (Reachable.step (Reachable.step h₀
    (Step.acquireTransact (s := ()) rfl rfl rfl))
    (Step.applyOne (s := ()) (t := ⟨[.set (RString.ofAscii "k") []]⟩) (n := 0) rfl rfl))
    (Step.releaseTransact (s := ()) (t := ⟨[.set (RString.ofAscii "k") []]⟩) (n := 1) rfl rfl))
    (Step.acquireGet (s := ()) rfl rfl rfl)) (Step.probe (s := ()) rfl rfl)
  exact ⟨_, hr, gets_read_last_writes hr, _, List.mem_append_right _ (List.mem_singleton_self _),
    gets_read_last_writes hr _ (List.mem_append_right _ (List.mem_singleton_self _)) (some []) rfl⟩

-- ---------------------------------------------------------------------------
-- Progress and termination
-- ---------------------------------------------------------------------------

/-- Every session is done: idle with all its calls made, or ended by a panicking `get`. -/
def Finished (σ : Shared h S) : Prop :=
  ∀ s, (σ.sessions s).pc = .crashed ∨ (σ.sessions s).pc = .idle ∧ (σ.sessions s).calls = []

/-- The holder of the mutex can always take its next step. -/
theorem Inv.step_of_holds (hσ : σ.Inv calls) {s : S} (hs : (σ.sessions s).pc.Holds) :
    ∃ σ', Step s σ σ' := by
  cases hpc : (σ.sessions s).pc with
  | idle | crashed => rw [hpc] at hs; exact hs.elim
  | getting k n =>
    cases hv : σ.data.get k with
    | returned v => exact ⟨_, .probe hpc hv⟩
    | panicked => exact ⟨_, .crash hpc hv⟩
  | probed => exact ⟨_, .releaseGet hpc⟩
  | applying t n =>
    rcases Nat.lt_or_eq_of_le (hσ.applying s t n hpc).1 with hlt | heq
    · exact ⟨_, .applyOne hpc (List.getElem?_eq_getElem hlt)⟩
    · exact ⟨_, .releaseTransact hpc heq⟩

/-- With the mutex free, a session with a call left takes it. -/
theorem step_of_call {s : S} (hpc : (σ.sessions s).pc = .idle) (hl : σ.locked = false)
    {c : StoreCall} {rest : List StoreCall} (hcalls : (σ.sessions s).calls = c :: rest) :
    ∃ σ', Step s σ σ' := by
  cases c with
  | get k => exact ⟨_, .acquireGet hpc hcalls hl⟩
  | transact t => exact ⟨_, .acquireTransact hpc hcalls hl⟩

/-- Under the invariant every session is done, or some session can step. -/
theorem Inv.finished_or_step (hσ : σ.Inv calls) : σ.Finished ∨ ∃ s σ', Step s σ σ' := by
  cases hl : σ.locked
  · by_cases hdone : σ.Finished
    · exact .inl hdone
    · obtain ⟨s, hs⟩ := not_forall.mp hdone
      cases hpc : (σ.sessions s).pc with
      | idle =>
        cases hc : (σ.sessions s).calls with
        | nil => exact absurd (.inr ⟨hpc, hc⟩) hs
        | cons c rest => exact .inr ⟨s, step_of_call hpc hl hc⟩
      | crashed => exact absurd (.inl hpc) hs
      | getting | probed | applying => exact (hσ.not_holds hl s (by rw [hpc]; trivial)).elim
  · obtain ⟨s, hs⟩ := hσ.locked_iff.mp hl
    exact .inr ⟨s, hσ.step_of_holds hs⟩

/-- No interleaving deadlocks: in every state some interleaving reaches, every session has made
all its calls or ended in a panicking `get`, or some session can take a step. -/
theorem sessions_progress (hr : Reachable calls σ) : σ.Finished ∨ ∃ s σ', Step s σ σ' :=
  hr.inv.finished_or_step

/-- The sessions of `setThenGets`, once the second get of `false` panicked. -/
theorem sessions_progress_setThenGets :
    ∃ σ : Shared ⟨1, 1, fun _ _ => 0⟩ Bool, Reachable setThenGets σ ∧
      (σ.sessions false).pc = .crashed ∧ (σ.Finished ∨ ∃ s σ', Step s σ σ') :=
  let ⟨σ, hss, _, _, hc⟩ := steps_setThenGets
  ⟨σ, hss.reachable .init, hc, sessions_progress (hss.reachable .init)⟩

/-- No step leaves a crash. -/
theorem Step.crashed {s x : S} {σ' : Shared h S} (hst : Step s σ σ')
    (hx : (σ.sessions x).pc = .crashed) : (σ'.sessions x).pc = .crashed := by
  by_cases hxs : x = s
  · subst hxs; cases hst <;> simp_all
  · rwa [hst.other hxs]

theorem Steps.crashed {ss : List S} {σ' : Shared h S} (hss : Steps ss σ σ') {x : S}
    (hx : (σ.sessions x).pc = .crashed) : (σ'.sessions x).pc = .crashed := by
  induction hss with
  | nil => exact hx
  | cons hst _ ih => exact ih (hst.crashed hx)

/-- The steps left to all sessions. -/
def work [Fintype S] (σ : Shared h S) : Nat := ∑ s, (σ.sessions s).work

/-- A step does one step of the work of the session that takes it; a crash also drops the work
of the calls the session had left. -/
theorem Step.work_self {s : S} {σ' : Shared h S} (hst : Step s σ σ') :
    (σ'.sessions s).pc = .crashed ∧ (σ'.sessions s).work + 1 < (σ.sessions s).work ∨
      (σ'.sessions s).work + 1 = (σ.sessions s).work := by
  cases hst with
  | crash hpc => exact .inl ⟨by simp, by simp [Session.work, Pc.work, hpc]; omega⟩
  | acquireGet hpc hcalls | acquireTransact hpc hcalls =>
    refine .inr ?_
    simp [Session.work, Pc.work, StoreCall.totalWork, StoreCall.work, hpc, hcalls]
    omega
  | applyOne hpc hi =>
    have := (List.getElem?_eq_some_iff.mp hi).1
    refine .inr ?_
    simp [Session.work, Pc.work, hpc]
    omega
  | probe hpc | releaseGet hpc => exact .inr (by simp [Session.work, Pc.work, hpc]; omega)
  | releaseTransact hpc hn => exact .inr (by simp [Session.work, Pc.work, hpc, hn]; omega)

/-- Every step does one step of the work left, or more when it is a crash. -/
theorem Step.work [Fintype S] {s : S} {σ' : Shared h S} (hst : Step s σ σ') :
    (σ'.sessions s).pc = .crashed ∧ σ'.work + 1 < σ.work ∨ σ'.work + 1 = σ.work := by
  have hsplit (τ : Shared h S) :
      τ.work = (τ.sessions s).work + ∑ x ∈ Finset.univ.erase s, (τ.sessions x).work :=
    (Finset.add_sum_erase _ _ (Finset.mem_univ s)).symm
  have hrest : ∑ x ∈ Finset.univ.erase s, (σ'.sessions x).work =
      ∑ x ∈ Finset.univ.erase s, (σ.sessions x).work :=
    Finset.sum_congr rfl fun x hx => by rw [hst.other (Finset.ne_of_mem_erase hx)]
  rw [hsplit σ, hsplit σ', hrest]
  rcases hst.work_self with ⟨hc, hlt⟩ | heq
  · exact .inl ⟨hc, by omega⟩
  · exact .inr (by omega)

/-- A schedule does at least one step of work per step, and exactly one when no session it
ends with has crashed. -/
theorem Steps.work [Fintype S] {ss : List S} {σ' : Shared h S} (hss : Steps ss σ σ') :
    σ'.work + ss.length ≤ σ.work ∧
      ((∀ x, (σ'.sessions x).pc ≠ .crashed) → σ'.work + ss.length = σ.work) := by
  induction hss with
  | nil => exact ⟨le_rfl, fun _ => rfl⟩
  | cons hst hss ih =>
    rw [List.length_cons]
    rcases hst.work with ⟨hc, hlt⟩ | heq
    · exact ⟨by omega, fun hno => absurd (hss.crashed hc) (hno _)⟩
    · exact ⟨by omega, fun hno => by have := ih.2 hno; omega⟩

omit [DecidableEq S] in
theorem Finished.work [Fintype S] (hf : σ.Finished) : σ.work = 0 :=
  Finset.sum_eq_zero fun s _ => by
    rcases hf s with hc | ⟨hi, hc⟩
    · simp [Session.work, hc]
    · simp [Session.work, Pc.work, StoreCall.totalWork, hc, hi]

omit [DecidableEq S] in
theorem work_init [Fintype S] :
    (init (h := h) calls).work = ∑ s, StoreCall.totalWork (calls s) := by
  simp [work, init, Session.work, Pc.work]

/-- Every interleaving ends: no schedule from the start takes more steps than the calls' work,
three per `get` and two more than its instructions per `transact`; one after which no session
can step leaves every session done, and when none of them crashed it took exactly that many
steps. -/
theorem sessions_terminate [Fintype S] {ss : List S} (hss : Steps ss (init calls) σ) :
    ss.length ≤ ∑ s, StoreCall.totalWork (calls s) ∧
      ((∀ s σ', ¬Step s σ σ') → σ.Finished ∧
        ((∀ s, (σ.sessions s).pc ≠ .crashed) → ss.length = ∑ s, StoreCall.totalWork (calls s))) := by
  obtain ⟨hle, heq⟩ := hss.work
  rw [work_init] at hle heq
  refine ⟨by omega, fun hstuck => ?_⟩
  have hfin := (hss.reachable .init).inv.finished_or_step.resolve_right
    fun ⟨s, σ', hst⟩ => hstuck s σ' hst
  rw [hfin.work] at heq
  exact ⟨hfin, fun hno => by have := heq hno; omega⟩

/-- The eight steps of `setThenGets`, one fewer than its calls' work: the panic leaves the
second get without its release. -/
theorem sessions_terminate_setThenGets :
    ∃ σ : Shared ⟨1, 1, fun _ _ => 0⟩ Bool,
      Steps [true, true, true, false, false, false, false, false] (init setThenGets) σ ∧
      (σ.sessions false).pc = .crashed ∧
      [true, true, true, false, false, false, false, false].length ≤
        ∑ s, StoreCall.totalWork (setThenGets s) ∧
      ((∀ s σ', ¬Step s σ σ') → σ.Finished ∧
        ((∀ s, (σ.sessions s).pc ≠ .crashed) →
          [true, true, true, false, false, false, false, false].length =
            ∑ s, StoreCall.totalWork (setThenGets s))) :=
  let ⟨σ, hss, _, _, hc⟩ := steps_setThenGets
  ⟨σ, hss, hc, sessions_terminate hss⟩

end Shared

end Kave
