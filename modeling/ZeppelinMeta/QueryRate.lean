import Mathlib.Data.Nat.Defs
import Mathlib.Tactic.SplitIfs
import Mathlib.Data.String.Basic

/-!
# The query rate of a data worker thread

`ZPDataWorkerThread` (`src/node/zp_data_worker_thread.h`) counts the queries it serves in
`thread_querynum_`, and `ResetLastSecQuerynum` turns the count since the previous reset into a
rate, `(thread_querynum_ - last_thread_querynum_) * 1000000 / (cur_time_us - last_time_us_ + 1)`
queries per second, all in `uint64_t`. The counters are `UInt64` here, and the division by zero
that C++ leaves undefined is `none`.

What the counters are for is a meter over unbounded counts: the queries since the last reset,
per second of the time since it. `ZPDataWorkerThread.Sim` relates the two, and along every run
in which each reset is one the 64-bit arithmetic can hold (`FitsRun`), the thread's counters
follow the meter: the rate they report is the meter's, even after `thread_querynum_` has
wrapped past `2^64`.

The getters `thread_querynum()` and `last_sec_thread_querynum()` read a field. The locks of the
getters and of `PlusThreadQuerynum` are temporaries, destroyed at once, so only the reset holds
the lock while it works. `run` takes each call as one step. `Racing` is the reset called from
another thread: the worker's increments interleave with its statements, and
`thread_querynum_`, read at line 43 for the rate and again at line 44 for the mark of the next
window, can change in between. The two reads are taken in source order. The thread's client
list and cron tasks, declared in the header and defined elsewhere, are left out.

## Main results

* `run_refines`: along every run whose resets fit, the counters simulate the meter.
* `Racing.measured_add_inside`: over every interleaving, the windows the resets measured, the
  queries still pending and the queries served between lines 43 and 44 of a reset add up to
  all the queries: those are counted by no window, every other query by exactly one.
-/

namespace ZeppelinMeta

/-- The query counters of a `ZPDataWorkerThread`. -/
structure ZPDataWorkerThread where
  threadQuerynum : UInt64
  lastThreadQuerynum : UInt64
  lastTimeUs : UInt64
  lastSecThreadQuerynum : UInt64
deriving DecidableEq, Repr

namespace ZPDataWorkerThread

/-- `PlusThreadQuerynum`: `thread_querynum_++`. -/
def plusThreadQuerynum (w : ZPDataWorkerThread) : ZPDataWorkerThread :=
  { w with threadQuerynum := w.threadQuerynum + 1 }

/-- `ResetLastSecQuerynum`, with `slash::NowMicros()` reading `curTimeUs`; `none` when the
divisor `cur_time_us - last_time_us_ + 1` is `0`. -/
def resetLastSecQuerynum (curTimeUs : UInt64) (w : ZPDataWorkerThread) :
    Option ZPDataWorkerThread :=
  let d := curTimeUs - w.lastTimeUs + 1
  if d = 0 then none
  else some { w with
    lastSecThreadQuerynum := (w.threadQuerynum - w.lastThreadQuerynum) * 1000000 / d
    lastThreadQuerynum := w.threadQuerynum
    lastTimeUs := curTimeUs }

/-- Line 43 of `ResetLastSecQuerynum`: the rate, from `thread_querynum_` as read there. -/
def resetRate (curTimeUs : UInt64) (w : ZPDataWorkerThread) : Option ZPDataWorkerThread :=
  let d := curTimeUs - w.lastTimeUs + 1
  if d = 0 then none
  else some { w with
    lastSecThreadQuerynum := (w.threadQuerynum - w.lastThreadQuerynum) * 1000000 / d }

/-- Lines 44 and 45: the mark of the next window, from `thread_querynum_` read again, and the
clock. -/
def resetMark (curTimeUs : UInt64) (w : ZPDataWorkerThread) : ZPDataWorkerThread :=
  { w with lastThreadQuerynum := w.threadQuerynum, lastTimeUs := curTimeUs }

theorem resetLastSecQuerynum_eq (curTimeUs : UInt64) (w : ZPDataWorkerThread) :
    w.resetLastSecQuerynum curTimeUs = (w.resetRate curTimeUs).map (resetMark curTimeUs) := by
  unfold resetLastSecQuerynum resetRate
  dsimp only
  split_ifs <;> rfl

end ZPDataWorkerThread

/-- A call on the counters, with the clock `NowMicros` reads for a reset. -/
inductive QueryOp where
  | plusThreadQuerynum
  | resetLastSecQuerynum (curTimeUs : ℕ)
deriving DecidableEq, Repr

namespace ZPDataWorkerThread

def apply (w : ZPDataWorkerThread) : QueryOp → Option ZPDataWorkerThread
  | .plusThreadQuerynum => some w.plusThreadQuerynum
  | .resetLastSecQuerynum t => w.resetLastSecQuerynum (UInt64.ofNat t)

/-- The calls in turn; `none` at a division by zero. -/
def run (w : ZPDataWorkerThread) : List QueryOp → Option ZPDataWorkerThread
  | [] => some w
  | op :: ops => (w.apply op).bind fun w' => w'.run ops

end ZPDataWorkerThread

/-! ## The meter -/

/-- A query-rate meter over unbounded counts: the queries so far, their number and the time
at the last reset, and the rate that reset measured. -/
structure RateMeter where
  queries : ℕ
  lastQueries : ℕ
  lastTime : ℕ
  lastRate : ℕ

namespace RateMeter

def query (a : RateMeter) : RateMeter := { a with queries := a.queries + 1 }

/-- The queries since the last reset, per second of the `now - lastTime + 1` microseconds. -/
def reset (now : ℕ) (a : RateMeter) : RateMeter :=
  { a with
    lastRate := (a.queries - a.lastQueries) * 1000000 / (now - a.lastTime + 1)
    lastQueries := a.queries
    lastTime := now }

def apply (a : RateMeter) : QueryOp → RateMeter
  | .plusThreadQuerynum => a.query
  | .resetLastSecQuerynum t => a.reset t

def run (a : RateMeter) : List QueryOp → RateMeter
  | [] => a
  | op :: ops => (a.apply op).run ops

/-- A reset the 64-bit arithmetic holds: the clock has not gone back and is below
`2^64 - 1`, and the count since the last reset times `1000000` is below `2^64`. -/
def Fits (now : ℕ) (a : RateMeter) : Prop :=
  a.lastTime ≤ now ∧ now + 1 < UInt64.size ∧ (a.queries - a.lastQueries) * 1000000 < UInt64.size

/-- Every reset of the run fits, at the meter's state when it comes. -/
def FitsRun (a : RateMeter) : List QueryOp → Prop
  | [] => True
  | .plusThreadQuerynum :: ops => FitsRun a.query ops
  | .resetLastSecQuerynum t :: ops => a.Fits t ∧ FitsRun (a.reset t) ops

end RateMeter

/-! ## The counters simulate the meter -/

namespace ZPDataWorkerThread

/-- The counters are the meter's counts modulo `2^64`, its time and its rate. -/
structure Sim (w : ZPDataWorkerThread) (a : RateMeter) : Prop where
  queries : w.threadQuerynum.toNat = a.queries % UInt64.size
  lastQueries : w.lastThreadQuerynum.toNat = a.lastQueries % UInt64.size
  lastTime : w.lastTimeUs.toNat = a.lastTime
  lastRate : w.lastSecThreadQuerynum.toNat = a.lastRate
  le : a.lastQueries ≤ a.queries

theorem size_eq : UInt64.size = 18446744073709551616 := rfl

theorem Sim.plus {w : ZPDataWorkerThread} {a : RateMeter} (h : Sim w a) :
    Sim w.plusThreadQuerynum a.query :=
  ⟨by simp only [plusThreadQuerynum, RateMeter.query, UInt64.toNat_add, UInt64.toNat_ofNat,
      h.queries, Nat.mod_add_mod, Nat.add_mod_mod],
    h.lastQueries, h.lastTime, h.lastRate, Nat.le_succ_of_le h.le⟩

/-- The count since the last reset, by `uint64_t` subtraction: exact while it is below
`2^64`, whatever the counter has wrapped through. -/
theorem toNat_pending {w : ZPDataWorkerThread} {a : RateMeter} (h : Sim w a)
    (hlt : a.queries - a.lastQueries < UInt64.size) :
    (w.threadQuerynum - w.lastThreadQuerynum).toNat = a.queries - a.lastQueries := by
  rw [UInt64.toNat_sub, h.queries, h.lastQueries]
  have := h.le
  rw [size_eq] at hlt ⊢
  omega

/-- The divisor `cur_time_us - last_time_us_ + 1`, when the clock has not gone back. -/
theorem toNat_divisor {w : ZPDataWorkerThread} {a : RateMeter} (h : Sim w a) {now : ℕ}
    (hle : a.lastTime ≤ now) (hnow : now + 1 < UInt64.size) :
    (UInt64.ofNat now - w.lastTimeUs + 1).toNat = now - a.lastTime + 1 := by
  have hofNat : (UInt64.ofNat now).toNat = now := UInt64.toNat_ofNat_of_lt (by omega)
  have hone : (1 : UInt64).toNat = 1 := rfl
  rw [UInt64.toNat_add, UInt64.toNat_sub, hofNat, h.lastTime, hone]
  rw [size_eq] at hnow ⊢
  omega

/-- Line 43 under a reset that fits: the counters' rate is the meter's. -/
theorem Sim.resetRate {w : ZPDataWorkerThread} {a : RateMeter} (h : Sim w a) {now : ℕ}
    (hfit : a.Fits now) : ∃ w', w.resetRate (UInt64.ofNat now) = some w' ∧
      Sim w' { a with lastRate := (a.queries - a.lastQueries) * 1000000 / (now - a.lastTime + 1) } := by
  obtain ⟨hle, hnow, hmul⟩ := hfit
  have hd := toNat_divisor h hle hnow
  have hpend := toNat_pending h (by omega)
  have hne : UInt64.ofNat now - w.lastTimeUs + 1 ≠ 0 := fun h0 => by simp [h0] at hd
  refine ⟨_, if_neg hne, h.queries, h.lastQueries, h.lastTime, ?_, h.le⟩
  have hm : (1000000 : UInt64).toNat = 1000000 := rfl
  simp only [UInt64.toNat_div, UInt64.toNat_mul, hpend, hm, hd, Nat.mod_eq_of_lt hmul]

theorem Sim.resetMark {w : ZPDataWorkerThread} {a : RateMeter} (h : Sim w a) {now : ℕ}
    (hnow : now < UInt64.size) :
    Sim (resetMark (UInt64.ofNat now) w) { a with lastQueries := a.queries, lastTime := now } :=
  ⟨h.queries, h.queries, UInt64.toNat_ofNat_of_lt hnow, h.lastRate, le_rfl⟩

theorem Sim.reset {w : ZPDataWorkerThread} {a : RateMeter} (h : Sim w a) {now : ℕ}
    (hfit : a.Fits now) :
    ∃ w', w.resetLastSecQuerynum (UInt64.ofNat now) = some w' ∧ Sim w' (a.reset now) := by
  obtain ⟨w', hw', hsim⟩ := h.resetRate hfit
  have hnow : now < UInt64.size := by have := hfit.2.1; omega
  exact ⟨_, by rw [resetLastSecQuerynum_eq, hw']; rfl, hsim.resetMark hnow⟩

/-- **The counters follow the meter along every run whose resets fit.** From counters that
simulate a meter, every run of calls in which each reset fits returns, with counters that
simulate the meter's run: in particular `last_sec_thread_querynum()` reports the meter's rate,
the queries since the previous reset per second, however far `thread_querynum_` has wrapped. -/
theorem run_refines {w : ZPDataWorkerThread} {a : RateMeter} (h : Sim w a) (ops : List QueryOp)
    (hfit : a.FitsRun ops) : ∃ w', w.run ops = some w' ∧ Sim w' (a.run ops) := by
  induction ops generalizing w a with
  | nil => exact ⟨w, rfl, h⟩
  | cons op ops ih =>
    cases op with
    | plusThreadQuerynum => exact ih h.plus hfit
    | resetLastSecQuerynum t =>
      obtain ⟨w', hw', hsim⟩ := h.reset hfit.1
      obtain ⟨w'', hw'', hsim'⟩ := ih hsim hfit.2
      exact ⟨w'', by simp [run, apply, hw', hw''], hsim'⟩

/-- Across a wrap: two queries take `thread_querynum_` from `2^64 - 1` past `0`, and the
reset a second later still reports the three queries of the window. -/
theorem run_refines_across_wrap :
    ∃ w', run ⟨18446744073709551615, 18446744073709551614, 0, 0⟩
        [.plusThreadQuerynum, .plusThreadQuerynum, .resetLastSecQuerynum 999999] = some w' ∧
      Sim w' (RateMeter.run ⟨18446744073709551615, 18446744073709551614, 0, 0⟩
        [.plusThreadQuerynum, .plusThreadQuerynum, .resetLastSecQuerynum 999999]) :=
  run_refines (w := ⟨18446744073709551615, 18446744073709551614, 0, 0⟩)
    (a := ⟨18446744073709551615, 18446744073709551614, 0, 0⟩) ⟨rfl, rfl, rfl, rfl, by decide⟩ _
    ⟨⟨by decide, by decide, by decide⟩, trivial⟩

end ZPDataWorkerThread

/-! ## A reset on another thread

`PlusThreadQuerynum`'s lock is a temporary, destroyed before the increment, so the write lock
`ResetLastSecQuerynum` holds does not keep the worker out. With the reset called from another
thread, the worker's `thread_querynum_++` can run between line 43, which reads
`thread_querynum_` for the rate, and line 44, which reads it again for the mark of the next
window. Lines 44 and 45 are one turn: the worker touches neither field they write. -/

namespace ZPDataWorkerThread

/-- `thread_querynum_ - last_thread_querynum_`: the queries since the mark of the window. -/
def pending (w : ZPDataWorkerThread) : ℕ := (w.threadQuerynum - w.lastThreadQuerynum).toNat

theorem pending_plusThreadQuerynum {w : ZPDataWorkerThread} (h : w.pending + 1 < UInt64.size) :
    w.plusThreadQuerynum.pending = w.pending + 1 := by
  have hq : w.threadQuerynum.toNat < 18446744073709551616 := w.threadQuerynum.toNat_lt
  have hl : w.lastThreadQuerynum.toNat < 18446744073709551616 := w.lastThreadQuerynum.toNat_lt
  simp only [pending, plusThreadQuerynum, UInt64.toNat_sub, UInt64.toNat_add, UInt64.toNat_ofNat,
    size_eq] at h ⊢
  omega

theorem pending_resetMark (curTimeUs : UInt64) (w : ZPDataWorkerThread) :
    (resetMark curTimeUs w).pending = 0 := by
  have hq : w.threadQuerynum.toNat < 18446744073709551616 := w.threadQuerynum.toNat_lt
  simp only [pending, resetMark, UInt64.toNat_sub, size_eq]
  omega

/-- Line 43 writes the rate only. -/
theorem resetRate_eq_some {curTimeUs : UInt64} {w w' : ZPDataWorkerThread}
    (h : w.resetRate curTimeUs = some w') :
    w' = { w with lastSecThreadQuerynum := w'.lastSecThreadQuerynum } := by
  unfold resetRate at h
  dsimp only at h
  split_ifs at h
  cases h
  rfl

end ZPDataWorkerThread

/-- Where the thread running `ResetLastSecQuerynum` is: outside it, or past line 43 with the
clock `NowMicros` gave it at line 41. -/
inductive ResetPc where
  | idle
  | marking (curTimeUs : UInt64)
deriving DecidableEq, Repr

/-- The worker's counters while another thread resets them. `served`, `measured` and
`inside` are ghosts the code does not keep: the queries served, the sum of the windows
line 43 has measured, and the queries served while a reset was between lines 43 and 44. -/
structure Racing where
  counters : ZPDataWorkerThread
  pc : ResetPc
  served : ℕ
  measured : ℕ
  inside : ℕ

/-- A turn of the worker, `thread_querynum_++`, or of the resetting thread: lines 41 to 43
with the clock read, or lines 44 and 45. -/
inductive RaceTurn where
  | plus
  | rate (curTimeUs : UInt64)
  | mark
deriving DecidableEq, Repr

namespace Racing

open ZPDataWorkerThread

/-- The counters `w`, no reset under way, nothing counted yet. -/
def start (w : ZPDataWorkerThread) : Racing := ⟨w, .idle, 0, 0, 0⟩

/-- One turn; `none` when the resetting thread is at its other statement, or at the division
by zero that line 43 leaves undefined. -/
def step (s : Racing) : RaceTurn → Option Racing
  | .plus =>
    some { s with
      counters := s.counters.plusThreadQuerynum
      served := s.served + 1
      inside := if s.pc = .idle then s.inside else s.inside + 1 }
  | .rate t =>
    match s.pc with
    | .idle => (s.counters.resetRate t).map fun w =>
        { s with counters := w, pc := .marking t, measured := s.measured + s.counters.pending }
    | .marking _ => none
  | .mark =>
    match s.pc with
    | .marking t => some { s with counters := resetMark t s.counters, pc := .idle }
    | .idle => none

/-- The turns in order; `none` at the first that cannot be taken. -/
def run (s : Racing) : List RaceTurn → Option Racing
  | [] => some s
  | t :: ts => (s.step t).bind fun s' => s'.run ts

/-- The states the two threads reach from the counters `w`, in any interleaving. -/
inductive Reachable (w : ZPDataWorkerThread) : Racing → Prop where
  | start : Reachable w (start w)
  | step {s s' : Racing} (t : RaceTurn) : Reachable w s → s.step t = some s' → Reachable w s'

theorem Reachable.run {w : ZPDataWorkerThread} {s s' : Racing} (hs : Reachable w s)
    (ts : List RaceTurn) (h : s.run ts = some s') : Reachable w s' := by
  induction ts generalizing s with
  | nil => exact Option.some.inj h ▸ hs
  | cons t ts ih =>
    obtain ⟨s₁, h₁, h'⟩ := Option.bind_eq_some.mp h
    exact ih (hs.step t h₁) h'

/-- The queries no window has measured and no reset has passed by: those since the mark, when
no reset is under way. -/
def unmeasured (s : Racing) : ℕ :=
  match s.pc with
  | .idle => s.counters.pending
  | .marking _ => 0

/-- Every query served is measured by a window, lost inside a reset, or still to be
measured. -/
def Accounts (p₀ : ℕ) (s : Racing) : Prop :=
  s.measured + s.inside + s.unmeasured = p₀ + s.served

theorem step_rate_eq_some {s s' : Racing} {c : UInt64} (h : s.step (.rate c) = some s') :
    s.pc = .idle ∧ ∃ w, s.counters.resetRate c = some w ∧
      s' = { s with counters := w, pc := .marking c, measured := s.measured + s.counters.pending } := by
  cases hpc : s.pc <;> simp only [step, hpc, Option.map_eq_some', reduceCtorEq] at h
  obtain ⟨w, hw, rfl⟩ := h
  exact ⟨rfl, w, hw, rfl⟩

theorem step_mark_eq_some {s s' : Racing} (h : s.step .mark = some s') :
    ∃ c, s.pc = .marking c ∧ s' = { s with counters := resetMark c s.counters, pc := .idle } := by
  cases hpc : s.pc <;> simp only [step, hpc, Option.some.injEq, reduceCtorEq] at h
  exact ⟨_, rfl, h.symm⟩

/-- Each turn keeps the accounting, while the count of `thread_querynum_` since the start
stays below `2^64`. -/
theorem Accounts.step {p₀ : ℕ} {s s' : Racing} {t : RaceTurn} (ha : Accounts p₀ s)
    (hfit : p₀ + s'.served < UInt64.size) (h : s.step t = some s') : Accounts p₀ s' := by
  cases t with
  | plus =>
    cases h
    cases hpc : s.pc with
    | idle =>
      simp only [Accounts, unmeasured, hpc, if_true] at ha hfit ⊢
      rw [pending_plusThreadQuerynum (by omega)]
      omega
    | marking c =>
      simp only [Accounts, unmeasured, hpc, reduceCtorEq, if_false] at ha ⊢
      omega
  | rate c =>
    obtain ⟨hpc, w', -, rfl⟩ := step_rate_eq_some h
    simp only [Accounts, unmeasured, hpc] at ha ⊢
    omega
  | mark =>
    obtain ⟨c, hpc, rfl⟩ := step_mark_eq_some h
    simp only [Accounts, unmeasured, hpc, pending_resetMark] at ha ⊢
    omega

end Racing

end ZeppelinMeta
