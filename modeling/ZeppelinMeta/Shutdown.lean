import Mathlib.Logic.Basic

/-!
# `Start` and `Stop`

`ZPMetaServer::Start` waits for a leader, initialises the epoch, starts the dispatcher,
and then parks on `server_mutex_`: it locks the mutex, sets `started_`, and locks it a second
time, which blocks until `ZPMetaServer::Stop`, called from another thread, unlocks it. `Stop`
unlocks only when it reads `started_` set, and then sets `should_exit_`, which also ends the
wait for a leader. After the second lock `Start` unlocks and runs `CleanUp`, which deletes the
server.

The two threads are modelled as program counters over the shared `should_exit_`, `started_`
and `server_mutex_`, each statement one atomic step over sequentially consistent memory. A
schedule is a list of turns; a turn of a thread that cannot move (blocked on the mutex, or
returned) is skipped. `GetLeader` answers anew at each test of the wait loop. `Stop` unlocks a
mutex that `Start` holds, which POSIX leaves undefined for a default mutex; it is modelled as
glibc runs it, as a release. `floyd_->Start()`, the log lines and the threads `Start` launches
are left out, `InitVersion` is one step that returns, and `Stop` is called once.

## Main results

* `stop_ends_start`: once `Stop` has returned, `Start` returns within three of its own
  turns, unless `Stop` read `started_` unset and `Start`, when `Stop` returns, is past its
  last test of `should_exit_` and short of its second `Lock`; then `Start` never returns,
  whatever the schedule. `Stop` may have read `started_` before that test: `Start` still
  passes it if it runs before `Stop` sets `should_exit_`.
* `start_returns_after_stop`: `Start` only gets past its second `Lock` once `Stop` has
  released the mutex, so it only runs `CleanUp` after `Stop`; but it may delete the server
  before `Stop` writes `should_exit_`.
-/

namespace ZeppelinMeta

/-- The statement `Start` is about to run. -/
inductive StartPc where
  /-- `while (!GetLeader(leader_ip, leader_port) && !should_exit_)`. -/
  | waitLeader
  /-- `if (!should_exit_)`. -/
  | checkExit
  /-- `InitVersion(); zp_meta_dispatch_thread_->StartThread();` -/
  | initVersion
  /-- The first `server_mutex_.Lock()`. -/
  | lock
  /-- `started_ = true`. -/
  | setStarted
  /-- The second `server_mutex_.Lock()`, which waits for `Stop`. -/
  | relock
  /-- `server_mutex_.Unlock()`. -/
  | unlock
  /-- `CleanUp()`, which ends in `delete this`. -/
  | cleanUp
  | returned
deriving DecidableEq, Repr

/-- `Start` is past `started_ = true`, or has returned. -/
def StartPc.pastSet : StartPc → Bool
  | .relock | .unlock | .cleanUp | .returned => true
  | .waitLeader | .checkExit | .initVersion | .lock | .setStarted => false

/-- `Start` holds the mutex from its first `Lock` on, until `Stop` releases it. -/
def StartPc.holding : StartPc → Bool
  | .setStarted | .relock => true
  | .waitLeader | .checkExit | .initVersion | .lock | .unlock | .cleanUp | .returned => false

/-- `Start` is past its second `Lock`, or has returned. -/
def StartPc.pastRelock : StartPc → Bool
  | .unlock | .cleanUp | .returned => true
  | .waitLeader | .checkExit | .initVersion | .lock | .setStarted | .relock => false

/-- `Start` has passed its last test of `should_exit_` and not yet its second `Lock`. -/
def StartPc.parked : StartPc → Bool
  | .initVersion | .lock | .setStarted | .relock => true
  | .waitLeader | .checkExit | .unlock | .cleanUp | .returned => false

/-- The statements `Start` still runs before it returns, `should_exit_` set and the mutex
free. -/
def StartPc.stepsLeft : StartPc → ℕ
  | .waitLeader => 3
  | .checkExit => 2
  | .initVersion => 6
  | .lock => 5
  | .setStarted => 4
  | .relock => 3
  | .unlock => 2
  | .cleanUp => 1
  | .returned => 0

/-- The statement `Stop` is about to run. -/
inductive StopPc where
  /-- `if (started_)`. -/
  | checkStarted
  /-- `server_mutex_.Unlock()`. -/
  | unlock
  /-- `should_exit_ = true`. -/
  | setExit
  | returned
deriving DecidableEq, Repr

/-- The two threads and the server fields they share. `stopSaw` is a ghost: the value of
`started_` that `Stop` read, once it has. -/
structure Threads where
  start : StartPc
  stop : StopPc
  shouldExit : Bool
  started : Bool
  /-- Whether `server_mutex_` is held. -/
  serverMutex : Bool
  stopSaw : Option Bool
deriving DecidableEq, Repr

namespace Threads

/-- As the constructor leaves them: `should_exit_(false), started_(false)`, the mutex free,
`Start` called and `Stop` not yet. -/
def init : Threads := ⟨.waitLeader, .checkStarted, false, false, false, none⟩

/-- One statement of `Start`, `leader` being what `GetLeader` answers if it is asked;
`none` when `Start` is blocked on the mutex or has returned. -/
def startStep (leader : Bool) (s : Threads) : Option Threads :=
  match s.start with
  | .waitLeader =>
    some { s with start := if leader || s.shouldExit then .checkExit else .waitLeader }
  | .checkExit => some { s with start := if s.shouldExit then .cleanUp else .initVersion }
  | .initVersion => some { s with start := .lock }
  | .lock => if s.serverMutex then none else some { s with start := .setStarted, serverMutex := true }
  | .setStarted => some { s with start := .relock, started := true }
  | .relock => if s.serverMutex then none else some { s with start := .unlock, serverMutex := true }
  | .unlock => some { s with start := .cleanUp, serverMutex := false }
  | .cleanUp => some { s with start := .returned }
  | .returned => none

/-- One statement of `Stop`; `none` once it has returned. -/
def stopStep (s : Threads) : Option Threads :=
  match s.stop with
  | .checkStarted =>
    some { s with stop := if s.started then .unlock else .setExit, stopSaw := some s.started }
  | .unlock => some { s with stop := .setExit, serverMutex := false }
  | .setExit => some { s with stop := .returned, shouldExit := true }
  | .returned => none

end Threads

/-- A turn of a schedule: `Start`, with `GetLeader`'s answer, or `Stop`. -/
inductive Turn where
  | start (leader : Bool)
  | stop
deriving DecidableEq, Repr

/-- Whether a turn is one of `Start`'s. -/
def Turn.isStart : Turn → Bool
  | .start _ => true
  | .stop => false

namespace Threads

def step (s : Threads) : Turn → Option Threads
  | .start leader => s.startStep leader
  | .stop => s.stopStep

/-- A schedule run: each turn moves its thread if it can, and is skipped otherwise. -/
def run (s : Threads) : List Turn → Threads
  | [] => s
  | t :: ts => ((s.step t).getD s).run ts

@[simp] theorem run_nil (s : Threads) : s.run [] = s := rfl

@[simp] theorem run_cons (s : Threads) (t : Turn) (ts : List Turn) :
    s.run (t :: ts) = ((s.step t).getD s).run ts := rfl

/-- The states some schedule reaches from `init`. -/
inductive Reachable : Threads → Prop where
  | init : Reachable init
  | step {s s' : Threads} (t : Turn) : Reachable s → s.step t = some s' → Reachable s'

theorem Reachable.getD {s : Threads} (hs : Reachable s) (t : Turn) :
    Reachable ((s.step t).getD s) := by
  cases h : s.step t with
  | none => exact hs
  | some s' => exact .step t hs h

theorem Reachable.run {s : Threads} (hs : Reachable s) (σ : List Turn) : Reachable (s.run σ) := by
  induction σ generalizing s with
  | nil => exact hs
  | cons t σ ih => exact ih (hs.getD t)

/-- A property that every turn keeps holds after every schedule. -/
theorem run_invariant (P : Threads → Prop) (hP : ∀ s t s', P s → s.step t = some s' → P s')
    {s : Threads} (hs : P s) (σ : List Turn) : P (s.run σ) := by
  induction σ generalizing s with
  | nil => exact hs
  | cons t σ ih =>
    apply ih
    cases h : s.step t with
    | none => exact hs
    | some s' => exact hP s t s' hs h

/-! ## What a step can do -/

/-- The statements of `Start`, each with its guard. -/
inductive StartMoves : Threads → Threads → Prop where
  /-- The wait for a leader ends: `GetLeader` found one, or `should_exit_` is set. -/
  | waitLeader {s : Threads} : s.start = .waitLeader → StartMoves s { s with start := .checkExit }
  /-- No leader yet and `should_exit_` unset: `sleep(1)` and test again. -/
  | sleep {s : Threads} : s.start = .waitLeader → s.shouldExit = false →
      StartMoves s { s with start := .waitLeader }
  | exit {s : Threads} : s.start = .checkExit → s.shouldExit = true →
      StartMoves s { s with start := .cleanUp }
  | proceed {s : Threads} : s.start = .checkExit → s.shouldExit = false →
      StartMoves s { s with start := .initVersion }
  | initVersion {s : Threads} : s.start = .initVersion → StartMoves s { s with start := .lock }
  | lock {s : Threads} : s.start = .lock → s.serverMutex = false →
      StartMoves s { s with start := .setStarted, serverMutex := true }
  | setStarted {s : Threads} : s.start = .setStarted →
      StartMoves s { s with start := .relock, started := true }
  | relock {s : Threads} : s.start = .relock → s.serverMutex = false →
      StartMoves s { s with start := .unlock, serverMutex := true }
  | unlock {s : Threads} : s.start = .unlock →
      StartMoves s { s with start := .cleanUp, serverMutex := false }
  | cleanUp {s : Threads} : s.start = .cleanUp → StartMoves s { s with start := .returned }

/-- The statements of `Stop`. -/
inductive StopMoves : Threads → Threads → Prop where
  | sawStarted {s : Threads} : s.stop = .checkStarted → s.started = true →
      StopMoves s { s with stop := .unlock, stopSaw := some true }
  | sawUnset {s : Threads} : s.stop = .checkStarted → s.started = false →
      StopMoves s { s with stop := .setExit, stopSaw := some false }
  | unlock {s : Threads} : s.stop = .unlock →
      StopMoves s { s with stop := .setExit, serverMutex := false }
  | setExit {s : Threads} : s.stop = .setExit →
      StopMoves s { s with stop := .returned, shouldExit := true }

theorem startMoves_of_startStep {s s' : Threads} {leader : Bool}
    (h : s.startStep leader = some s') : StartMoves s s' := by
  unfold startStep at h
  split at h <;> rename_i hpc
  · cases h
    split
    · exact .waitLeader hpc
    · exact .sleep hpc (by simp_all)
  · cases h
    split
    · exact .exit hpc ‹_›
    · exact .proceed hpc (by simp_all)
  · cases h
    exact .initVersion hpc
  · split at h
    · cases h
    · cases h
      exact .lock hpc (by simp_all)
  · cases h
    exact .setStarted hpc
  · split at h
    · cases h
    · cases h
      exact .relock hpc (by simp_all)
  · cases h
    exact .unlock hpc
  · cases h
    exact .cleanUp hpc
  · cases h

theorem stopMoves_of_stopStep {s s' : Threads} (h : s.stopStep = some s') : StopMoves s s' := by
  unfold stopStep at h
  split at h <;> rename_i hpc
  · cases h
    obtain ⟨start, stop, ex, st, mu, saw⟩ := s
    cases st
    · exact .sawUnset hpc rfl
    · exact .sawStarted hpc rfl
  · cases h
    exact .unlock hpc
  · cases h
    exact .setExit hpc
  · cases h

/-! ## The invariant -/

/-- `Stop` has released the mutex: it read `started_` set and has run its `Unlock`. -/
def Released (s : Threads) : Prop := s.stopSaw = some true ∧ s.stop ≠ .unlock

/-- What every reachable state satisfies. -/
structure Inv (s : Threads) : Prop where
  exit_iff : s.shouldExit = true ↔ s.stop = .returned
  saw_none : s.stopSaw = none ↔ s.stop = .checkStarted
  unlock_saw : s.stop = .unlock → s.stopSaw = some true
  saw_true : s.stopSaw = some true → s.start.pastSet = true
  started : s.started = true → s.start.pastSet = true
  mutex_iff : s.serverMutex = true ↔ (s.start = .unlock ∨ (s.start.holding = true ∧ ¬ s.Released))
  stop_first : s.start.pastRelock = true → s.Released ∨ s.stop = .returned

theorem inv_init : Inv init := by
  constructor <;> simp [init, Released, StartPc.pastSet, StartPc.holding, StartPc.pastRelock]

theorem Inv.startMoves {s s' : Threads} (h : Inv s) (hm : StartMoves s s') : Inv s' := by
  obtain ⟨h1, h2, h3, h4, h5, h6, h7⟩ := h
  cases hm <;> refine ⟨h1, h2, h3, ?_, ?_, ?_, ?_⟩ <;> clear h3 <;>
    simp_all [Released, StartPc.pastSet, StartPc.holding, StartPc.pastRelock]

theorem Inv.stopMoves {s s' : Threads} (h : Inv s) (hm : StopMoves s s') : Inv s' := by
  obtain ⟨h1, h2, h3, h4, h5, h6, h7⟩ := h
  cases hm with
  | sawStarted hpc hst =>
    refine ⟨?_, ?_, ?_, ?_, h5, ?_, ?_⟩ <;> simp_all [Released, StartPc.pastRelock]
  | sawUnset hpc hst =>
    refine ⟨?_, ?_, ?_, ?_, h5, ?_, ?_⟩ <;> simp_all [Released, StartPc.pastRelock]
  | unlock hpc =>
    -- `Stop` releases the mutex while `Start` waits for it or has not yet taken it
    have hnot : s.start ≠ .unlock := fun hs => by simp [hs, StartPc.pastRelock, hpc, Released] at h7
    refine ⟨?_, ?_, ?_, h4, h5, ?_, ?_⟩ <;> simp_all [Released]
  | setExit hpc =>
    refine ⟨?_, ?_, ?_, h4, h5, ?_, ?_⟩ <;> simp_all [Released]

theorem Inv.step {s s' : Threads} (h : Inv s) {t : Turn} (hs : s.step t = some s') : Inv s' := by
  cases t with
  | start leader => exact h.startMoves (startMoves_of_startStep hs)
  | stop => exact h.stopMoves (stopMoves_of_stopStep hs)

theorem Reachable.inv {s : Threads} (hs : Reachable s) : Inv s := by
  induction hs with
  | init => exact inv_init
  | step t _ h ih => exact ih.step h

/-! ## `Start` after `Stop` -/

theorem stopStep_of_returned {s : Threads} (h : s.stop = .returned) : s.stopStep = none := by
  unfold stopStep
  rw [h]

/-- `Stop` read `started_` unset, and `Start` is parked: past its last test of
`should_exit_`, short of its second `Lock`. Where `Start` was when `Stop` read the flag does
not matter. -/
def Hung (s : Threads) : Prop := s.stopSaw = some false ∧ s.start.parked = true

/-- A hung `Start` keeps the mutex taken once it holds it, and never gets past it. -/
structure HungInv (s : Threads) : Prop where
  stop : s.stop = .returned
  hung : Hung s
  held : s.start.holding = true → s.serverMutex = true

theorem HungInv.step {s s' : Threads} (h : HungInv s) {t : Turn} (hs : s.step t = some s') :
    HungInv s' := by
  obtain ⟨h1, ⟨h2, h3⟩, h4⟩ := h
  cases t with
  | stop => simp [Threads.step, stopStep_of_returned h1] at hs
  | start leader =>
    cases startMoves_of_startStep hs with
    | initVersion _ => exact ⟨h1, ⟨h2, rfl⟩, fun h => by simp [StartPc.holding] at h⟩
    | lock _ _ => exact ⟨h1, ⟨h2, rfl⟩, fun _ => rfl⟩
    | setStarted hpc => exact ⟨h1, ⟨h2, rfl⟩, fun _ => h4 (by simp [hpc, StartPc.holding])⟩
    | relock hpc hfree => simp [hpc, StartPc.holding, hfree] at h4
    | _ => simp_all [StartPc.parked]

/-- Once `Stop` has returned without leaving `Start` hung, `Start` runs to its end. -/
structure Ending (s : Threads) : Prop where
  stop : s.stop = .returned
  exit : s.shouldExit = true
  free : s.start.parked = true → s.start = .relock ∧ s.serverMutex = false

/-- Each statement `Start` runs brings it one closer to returning. -/
theorem Ending.startMoves {s s' : Threads} (h : Ending s) (hm : StartMoves s s') :
    Ending s' ∧ s'.start.stepsLeft + 1 = s.start.stepsLeft := by
  obtain ⟨h1, h2, h3⟩ := h
  cases hm <;> refine ⟨⟨h1, h2, ?_⟩, ?_⟩ <;> simp_all [StartPc.parked, StartPc.stepsLeft]

/-- `Start` is never blocked once `Stop` has returned without leaving it hung. -/
theorem Ending.startStep_isSome {s : Threads} (h : Ending s) (hret : s.start ≠ .returned)
    (leader : Bool) : (s.startStep leader).isSome := by
  obtain ⟨-, -, h3⟩ := h
  unfold Threads.startStep
  split <;> simp_all [StartPc.parked]

theorem Ending.run {s : Threads} (h : Ending s) (σ : List Turn) :
    (s.run σ).start.stepsLeft ≤ s.start.stepsLeft - σ.countP Turn.isStart := by
  induction σ generalizing s with
  | nil => simp
  | cons t σ ih =>
    cases t with
    | stop => simpa [step, stopStep_of_returned h.stop, Turn.isStart] using ih h
    | start leader =>
      by_cases hret : s.start = .returned
      · have hnone : s.startStep leader = none := by simp [Threads.startStep, hret]
        simpa [step, hnone, hret, StartPc.stepsLeft] using ih h
      · obtain ⟨s', hs'⟩ := Option.isSome_iff_exists.mp (h.startStep_isSome hret leader)
        obtain ⟨h', hleft⟩ := h.startMoves (startMoves_of_startStep hs')
        have := ih h'
        simp only [run_cons, step, hs', Option.getD_some, List.countP_cons, Turn.isStart,
          if_true] at this ⊢
        omega

theorem stepsLeft_eq_zero {p : StartPc} (h : p.stepsLeft = 0) : p = .returned := by
  cases p <;> simp_all [StartPc.stepsLeft]

theorem Ending.stepsLeft_le {s : Threads} (h : Ending s) : s.start.stepsLeft ≤ 3 := by
  have := h.free
  cases hp : s.start <;> simp_all [StartPc.parked, StartPc.stepsLeft]

/-- After `Stop` has returned, `Start` is hung or runs to its end. -/
theorem Inv.ending {s : Threads} (h : Inv s) (hstop : s.stop = .returned) (hh : ¬ Hung s) :
    Ending s := by
  obtain ⟨h1, h2, -, h4, -, h6, -⟩ := h
  refine ⟨hstop, h1.mpr hstop, fun hp => ?_⟩
  -- `Stop` has read `started_`, and not read it unset
  have hsaw : s.stopSaw = some true := by
    cases hv : s.stopSaw with
    | none => simp_all
    | some b => cases b <;> simp_all [Hung]
  have hrel : s.start = .relock := by
    have := h4 hsaw
    cases hpc : s.start <;> simp_all [StartPc.pastSet, StartPc.parked]
  exact ⟨hrel, by simpa [hrel, StartPc.holding, Released, hsaw, hstop] using h6⟩

/-- **`Stop` ends `Start`, except in one window.** Once `Stop` has returned, `Start`
returns within any three of its own turns, whatever `GetLeader` answers and however the
turns are scheduled; unless `Stop` read `started_` unset and `Start` is, at that point, past
its last test of `should_exit_` and short of its second `Lock` (`Hung`): then `Start` never
returns. -/
theorem stop_ends_start {s : Threads} (hs : Reachable s) (hstop : s.stop = .returned) :
    (Hung s → ∀ σ, (s.run σ).start ≠ .returned) ∧
    (¬ Hung s → ∀ σ, 3 ≤ σ.countP Turn.isStart → (s.run σ).start = .returned) := by
  refine ⟨fun hh σ hret => ?_, fun hh σ hσ => ?_⟩
  · have hheld : s.start.holding = true → s.serverMutex = true := fun hhold =>
      hs.inv.mutex_iff.mpr (.inr ⟨hhold, by simp [Released, hh.1]⟩)
    have := (run_invariant HungInv (fun _ _ _ h hs => h.step hs) ⟨hstop, hh, hheld⟩ σ).hung.2
    simp [hret, StartPc.parked] at this
  · have hend := hs.inv.ending hstop hh
    have := hend.run σ
    have := hend.stepsLeft_le
    exact stepsLeft_eq_zero (by omega)

/-- `Stop` reads `started_` while `Start` still waits for a leader; `Start` then finds one
and passes its test of `should_exit_` before `Stop` sets it: `Start` never returns. -/
theorem stop_ends_start_read_before_last_test :
    Reachable (init.run [.stop, .start true, .start true, .stop]) ∧
      ∀ σ, ((init.run [.stop, .start true, .start true, .stop]).run σ).start ≠ .returned :=
  ⟨Reachable.init.run _,
    (stop_ends_start (Reachable.init.run [.stop, .start true, .start true, .stop]) rfl).1
      ⟨rfl, rfl⟩⟩

/-- **`Start` returns only after `Stop`.** In every reachable state where `Start` is past its
second `Lock`, `Stop` has returned, or has released the mutex and still has
`should_exit_ = true` to run: `CleanUp`'s `delete this` can come before that write. -/
theorem start_returns_after_stop {s : Threads} (hs : Reachable s) (h : s.start.pastRelock = true) :
    s.stop = .returned ∨ (s.stop = .setExit ∧ s.stopSaw = some true) := by
  obtain ⟨-, h2, -, -, -, -, h7⟩ := hs.inv
  rcases h7 h with ⟨hsaw, hne⟩ | hret
  · cases hp : s.stop <;> simp_all
  · exact .inl hret

/-- `Start` has returned, and so deleted the server, while `Stop` has yet to write
`should_exit_`. -/
theorem start_returns_before_stop_sets_exit :
    ∃ s, Reachable s ∧ s.start = .returned ∧ s.stop = .setExit ∧
      (s.stop = .returned ∨ (s.stop = .setExit ∧ s.stopSaw = some true)) :=
  ⟨init.run [.start true, .start true, .start true, .start true, .start true, .stop, .stop,
      .start true, .start true, .start true], Reachable.init.run _, rfl, rfl,
    start_returns_after_stop (Reachable.init.run [.start true, .start true, .start true,
      .start true, .start true, .stop, .stop, .start true, .start true, .start true]) rfl⟩

end Threads

end ZeppelinMeta
