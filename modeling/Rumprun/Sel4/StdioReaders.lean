import Rumprun.Sel4.Stdio
import Rumprun.Rumpuser.CvReacquire

/-! # Readers of standard input on seL4

Whoever waits leaves the mutex of standard input, and enters it again when it is
signalled. While one reader waits the mutex is free, so a second one that finds no
bytes fails the assertion of `rumpuser_mutex_exit`. -/

namespace Rumprun.Sel4
open Core Rumpuser StepRuns Function StdioSys Scheduler.System List

/-! ## The mutex and the condition variable -/

/-- The places of a thread that reads standard input, or does something else. -/
def ReaderPlace (phase : MtxPhase) : Prop :=
  phase = .outside ∨ phase = .cvUnsched .wait ∨ phase = .cvWaiting .wait ∨
    ∃ result, phase = .cvRelocked .wait result

/-- The mutex is free while one reader waits, and is held if nobody does. -/
def PassedOn (mtx : Mtx) (phase : Scheduler.Tid → MtxPhase) : Prop :=
  mtx.v = 1 ∧ (∀ t, phase t ≠ .cvWaiting .wait) ∨
    mtx.v = 0 ∧ mtx.bmkO = none ∧ ∃ t, ∀ u, phase u = .cvWaiting .wait ↔ u = t

namespace PassedOn
variable {mtx : Mtx} {phase : Scheduler.Tid → MtxPhase} {t : Scheduler.Tid} {place : MtxPhase}

theorem held (passed : PassedOn mtx phase) (alone : ∀ t, phase t ≠ .cvWaiting .wait) : mtx.v = 1 := by
  rcases passed with ⟨held, -⟩ | ⟨-, -, u, only⟩
  · exact held
  · exact absurd ((only u).mpr rfl) (alone u)

theorem free (passed : PassedOn mtx phase) (waits : phase t = .cvWaiting .wait) :
    mtx.v = 0 ∧ mtx.bmkO = none ∧ ∀ u, phase u = .cvWaiting .wait ↔ u = t := by
  rcases passed with ⟨-, alone⟩ | ⟨free, nobody, u, only⟩
  · exact absurd waits (alone t)
  · rw [(only t).mp waits]
    exact ⟨free, nobody, only⟩

theorem move (passed : PassedOn mtx phase) (was : phase t ≠ .cvWaiting .wait)
    (is : place ≠ .cvWaiting .wait) : PassedOn mtx (update phase t place) := by
  have same : ∀ u, update phase t place u = .cvWaiting .wait ↔
      phase u = .cvWaiting .wait := by
    intro u
    by_cases here : u = t
    · simp [here, was, is]
    · simp [here]
  simpa only [PassedOn, ne_eq, same] using passed

theorem sleep (alone : ∀ t, phase t ≠ .cvWaiting .wait) (free : mtx.v = 0) (nobody : mtx.bmkO = none) :
    PassedOn mtx (update phase t (.cvWaiting .wait)) := by
  refine .inr ⟨free, nobody, t, ?_⟩
  intro u
  by_cases here : u = t
  · simp [here]
  · simp [here, alone u]

theorem relock (only : ∀ u, phase u = .cvWaiting .wait ↔ u = t) (held : mtx.v = 1)
    (result : Nat) : PassedOn mtx (update phase t (.cvRelocked .wait result)) := by
  refine .inl ⟨held, ?_⟩
  intro u
  by_cases here : u = t
  · simp [here]
  · simp [here, only u]

end PassedOn

structure ReadersInv (s : MtxSys) : Prop where
  wait : WaitInv s.queues
  waits : ∀ t, s.queues.waiting t = (s.phase t).head
  places : ∀ t, ReaderPlace (s.phase t)
  kmutex : s.mtx.kmutex = false

namespace ReadersInv
variable {s : MtxSys} (curlwp : Scheduler.Tid → Nat)

theorem init {sys : Scheduler.System} (inv : Scheduler.SysInv sys) (spin : Bool) :
    ReadersInv (MtxSys.init false spin sys) where
  wait := WaitInv.init inv
  waits := fun _ => rfl
  places := fun _ => .inl rfl
  kmutex := rfl

variable (inv : ReadersInv s)
include inv

theorem setPhase {place : MtxPhase} (reader : ReaderPlace place)
    (was : (s.phase s.current).head = none) (is : place.head = none) :
    ReadersInv (s.setPhase place) := by
  refine ⟨inv.wait, ?_, ?_, inv.kmutex⟩
  · intro t
    dsimp only [MtxSys.setPhase]
    by_cases here : t = s.current
    · rw [here, update_self, is, ← was]
      exact inv.waits s.current
    · rw [update_of_ne here]
      exact inv.waits t
  · intro t
    dsimp only [MtxSys.setPhase]
    by_cases here : t = s.current
    · rw [here, update_self]
      exact reader
    · rw [update_of_ne here]
      exact inv.places t

theorem cvSleep (runs : s.Runs) (place : s.phase s.current = .cvUnsched .wait) (held : s.mtx.v = 1)
    (monotonic : Int) :
    ∃ next, s.cvSleep .wait monotonic = .ok next ∧ ReadersInv next ∧
      next.mtx.v = 0 ∧ next.mtx.bmkO = none ∧ next.current = s.current ∧
      next.phase = update s.phase s.current (.cvWaiting .wait) := by
  obtain ⟨queues, woken, after, woke⟩ := inv.wait.wakeupOne .mtx
  have current : queues.current = s.current := woke.current
  have idle : queues.waiting queues.current = none := by
    rw [woke.waiting, current, inv.waits, place]
    rfl
  have there : queues.sys.pc queues.current = .active .caller := by
    rw [woke.pc, current]
    exact runs
  obtain ⟨sched, started, same, asleep⟩ := after.waitStart .cv CvCall.wait.wakeup monotonic there idle
  have slept : s.cvSleep .wait monotonic = .ok { s with
      mtx := { s.mtx with v := 0, o := 0, bmkO := none }
      owners := s.owners.erase s.current
      queues := queues.asleepOn .cv sched
      phase := update s.phase queues.current (.cvWaiting .wait) } := by
    rw [MtxSys.cvSleep, MtxSys.mutexExit_eq held woken, ok_bind, MtxSys.sleepOn, started]
    rfl
  refine ⟨_, slept, ⟨asleep, ?_, ?_, inv.kmutex⟩, rfl, rfl, same.trans current, ?_⟩
  · intro t
    dsimp only [WaitSys.asleepOn]
    by_cases here : t = queues.current
    · rw [here, update_self, update_self]
      rfl
    · rw [update_of_ne here, update_of_ne here, woke.waiting]
      exact inv.waits t
  · intro t
    dsimp only
    by_cases here : t = queues.current
    · rw [here, update_self]
      exact .inr (.inr (.inl rfl))
    · rw [update_of_ne here]
      exact inv.places t
  · dsimp only
    rw [current]

omit inv in
theorem cvSleep_stops (free : s.mtx.v ≠ 1) (monotonic : Int) :
    s.cvSleep .wait monotonic = .error (.halt "assert \"mtx->v == 1\" FAILED\n") := by
  rw [MtxSys.cvSleep, MtxSys.mutexExit, bmkAssert, if_neg (by simpa using free)]
  rfl

theorem relock (place : s.phase s.current = .cvWaiting .wait) (free : s.mtx.v = 0)
    (nobody : s.mtx.bmkO = none) (monotonic : Int) :
    ∃ next result, s.resume curlwp monotonic = .ok next ∧ ReadersInv next ∧
      next.mtx.v = 1 ∧ next.current = s.current ∧
      next.phase = update s.phase s.current (.cvRelocked .wait result) := by
  have waits : s.queues.waiting s.current = some .cv := by
    rw [inv.waits, place]
    rfl
  obtain ⟨head, result, returned, -, -, back⟩ := inv.wait.waitReturn waits
  have wrapped : CvCall.wait ≠ .waitNowrap := nofun
  have resumed : s.resume curlwp monotonic = .ok { s with
      queues := { s.queues with
        head := head
        waiting := update s.queues.waiting s.queues.current none }
      mtx := { s.mtx with v := 1, o := curlwp s.current, bmkO := some s.current }
      owners := s.current :: s.owners
      phase := update s.phase s.current (.cvRelocked .wait result) } := by
    rw [MtxSys.resume, place]
    dsimp only
    rw [returned, ok_bind, cvResched_wrapped curlwp result wrapped, if_neg (by simp [inv.kmutex]),
      MtxSys.mutexEnterNowrap, MtxSys.mutexTryenter, if_neg (by simp [nobody]),
      if_neg (by simp [free])]
    rfl
  refine ⟨_, result, resumed, ⟨back, ?_, ?_, inv.kmutex⟩, rfl, rfl, rfl⟩
  · intro t
    dsimp only
    by_cases here : t = s.current
    · rw [here, update_self s.current]
      exact update_self ..
    · rw [update_of_ne here]
      exact (update_of_ne here ..).trans (inv.waits t)
  · intro t
    dsimp only
    by_cases here : t = s.current
    · rw [here, update_self]
      exact .inr (.inr (.inr ⟨result, rfl⟩))
    · rw [update_of_ne here]
      exact inv.places t

theorem cvSignal :
    ∃ next, s.step curlwp .cvSignal = .ok next ∧ ReadersInv next ∧ next.mtx = s.mtx ∧
      next.phase = s.phase := by
  obtain ⟨queues, ran, after, woke⟩ := inv.wait.wakeupOne .cv
  refine ⟨{ s with queues := queues }, ?_, ⟨after, ?_, inv.places, inv.kmutex⟩, rfl, rfl⟩
  · rw [MtxSys.step, ran]
    rfl
  · intro t
    dsimp only
    rw [woke.waiting]
    exact inv.waits t

theorem sched {event : Scheduler.Event} (allowed : s.queues.sys.Admits event)
    (goesOn : s.queues.GoesOn event) :
    ∃ next, s.step curlwp (.sched event) = .ok next ∧ ReadersInv next ∧ next.mtx = s.mtx ∧
      next.phase = s.phase := by
  obtain ⟨sys, -, ran, after⟩ := inv.wait.sched allowed goesOn
  refine ⟨{ s with queues := { s.queues with sys := sys } }, ?_,
    ⟨after, inv.waits, inv.places, inv.kmutex⟩, rfl, rfl⟩
  rw [MtxSys.step, ran]
  rfl

end ReadersInv

/-! ## The bytes -/

section Bytes
variable {Buf : Type} {circ : CircBuf Buf} {contents : Buf → List UInt8} {capacity : Nat}

/-- Every read has returned a piece of what was put, and the pieces are one after the other. -/
structure StreamInv (contents : Buf → List UInt8) (s : StdioSys Buf) : Prop where
  buffer : contents s.buffer = s.received.drop s.taken
  taken : s.taken ≤ s.received.length
  within : ∀ entry ∈ s.returns, entry.first + entry.bytes.length ≤ s.taken
  pieces : ∀ entry ∈ s.returns, entry.bytes = (s.received.drop entry.first).take entry.bytes.length
  order : s.returns.Pairwise fun later earlier =>
    earlier.first + earlier.bytes.length ≤ later.first

namespace StreamInv
variable {s next : StdioSys Buf} (stream : StreamInv contents s)
include stream

theorem put {bytes : List UInt8} {buffer : Buf} (is : contents buffer = contents s.buffer ++ bytes) :
    StreamInv contents { s with buffer := buffer, received := s.received ++ bytes } := by
  refine ⟨?_, ?_, stream.within, ?_, stream.order⟩
  · dsimp only
    rw [is, stream.buffer, drop_append_of_le_length stream.taken]
  · dsimp only
    rw [length_append]
    exact Nat.le_add_right_of_le stream.taken
  · intro entry mem
    have inside := (stream.within entry mem).trans stream.taken
    dsimp only
    rw [drop_append_of_le_length (by omega), take_append_of_le_length ?_]
    · exact stream.pieces entry mem
    · rw [length_drop]
      omega

theorem readReturn {len : Nat} {stored : List UInt8} {left : Buf}
    (is : stored = (contents s.buffer).take len) (remains : contents left = (contents s.buffer).drop len) :
    StreamInv contents (s.readReturn stored left) := by
  have count : stored.length = min len (s.received.length - s.taken) := by
    rw [is, stream.buffer, length_take, length_drop]
  refine ⟨?_, ?_, ?_, ?_, ?_⟩
  · dsimp only [StdioSys.readReturn]
    rw [count, ← drop_drop, ← stream.buffer, remains]
    by_cases short : len ≤ s.received.length - s.taken
    · rw [min_eq_left short]
    · have all : (contents s.buffer).length ≤ len := by
        rw [stream.buffer, length_drop]
        omega
      rw [drop_eq_nil_of_le all, drop_eq_nil_of_le]
      rw [stream.buffer, length_drop]
      omega
  · dsimp only [StdioSys.readReturn]
    have := stream.taken
    omega
  · intro entry mem
    dsimp only [StdioSys.readReturn] at mem ⊢
    rcases mem_cons.mp mem with new | old
    · rw [new]
    · exact (stream.within entry old).trans (Nat.le_add_right ..)
  · intro entry mem
    dsimp only [StdioSys.readReturn] at mem ⊢
    rcases mem_cons.mp mem with new | old
    · rw [new]
      dsimp only
      rw [← stream.buffer, is, length_take, ← take_eq_take_min]
    · exact stream.pieces entry old
  · dsimp only [StdioSys.readReturn]
    rw [pairwise_cons]
    exact ⟨stream.within, stream.order⟩

theorem opened (buffer : contents next.buffer = []) (received : next.received = s.received)
    (taken : next.taken = s.received.length) (returns : next.returns = s.returns) :
    StreamInv contents next := by
  refine ⟨?_, ?_, ?_, ?_, ?_⟩
  · rw [buffer, received, taken, drop_length]
  · rw [received, taken]
  · rw [returns, taken]
    exact fun entry mem => (stream.within entry mem).trans stream.taken
  · rw [returns, received]
    exact stream.pieces
  · rw [returns]
    exact stream.order

theorem keep (buffer : contents next.buffer = contents s.buffer)
    (received : next.received = s.received) (taken : next.taken = s.taken)
    (returns : next.returns = s.returns) : StreamInv contents next := by
  obtain ⟨one, two, three, four, five⟩ := stream
  rw [← buffer, ← received, ← taken] at one
  rw [← received, ← taken] at two
  rw [← returns, ← taken] at three
  rw [← returns, ← received] at four
  rw [← returns] at five
  exact ⟨one, two, three, four, five⟩

end StreamInv

/-! ## The steps -/

structure StdioInv (contents : Buf → List UInt8) (s : StdioSys Buf) : Prop where
  readers : ReadersInv s.sync
  passed : s.handler = true → PassedOn s.sync.mtx s.sync.phase
  closed : s.handler = false → ∀ t, s.sync.phase t = .outside
  once : s.handler = true → s.openOnce rrStdin = true
  reading : ∀ t, s.reading t = none ↔ s.sync.phase t = .outside
  stream : StreamInv contents s

/-- The event gets to the `rumpuser_mutex_exit` in the `rumpuser_cv_wait` of a reader. -/
def StdioSys.GivesUp (s : StdioSys Buf) : StdioEvent → Prop
  | .resume _ => s.sync.phase s.current = .cvUnsched .wait
  | _ => False

/-- No other reader is then between its `rumpuser_mutex_exit` and entering the mutex again. -/
def StdioSys.Alone (s : StdioSys Buf) (event : StdioEvent) : Prop :=
  s.GivesUp event → ∀ t, s.sync.phase t ≠ .cvWaiting .wait

def exitAssertion : Stop := .halt "assert \"mtx->v == 1\" FAILED\n"

namespace StdioInv
variable {s : StdioSys Buf} (fifo : circ.Fifo contents capacity) (curlwp : Scheduler.Tid → Nat)

include fifo in
theorem init {sys : Scheduler.System} (inv : Scheduler.SysInv sys) (memory : Buf) :
    StdioInv contents (init circ memory sys) where
  readers := ReadersInv.init inv true
  passed := nofun
  closed := fun _ _ => rfl
  once := nofun
  reading := fun _ => iff_of_true rfl rfl
  stream := ⟨fifo.init memory, le_rfl, nofun, nofun, List.Pairwise.nil⟩

include fifo in
theorem readTurn (readers : ReadersInv s.sync) (handler : s.handler = true)
    (once : s.handler = true → s.openOnce rrStdin = true) (passed : PassedOn s.sync.mtx s.sync.phase)
    (reading : ∀ t, t ≠ s.current → (s.reading t = none ↔ s.sync.phase t = .outside))
    (stream : StreamInv contents s) (outside : s.sync.phase s.sync.current = .outside)
    (few : s.sync.nwaiters < 2 ^ 31 - 1) (len : Nat) :
    ∃ next, s.readTurn circ len = .ok next ∧ StdioInv contents next := by
  have returned : ∀ {len stored left}, stored = (contents s.buffer).take len →
      contents left = (contents s.buffer).drop len → StdioInv contents (s.readReturn stored left) := by
    intro len stored left is remains
    refine ⟨readers, fun _ => passed, ?_, once, ?_, stream.readReturn is remains⟩
    · intro closed
      cases handler.symm.trans closed
    · intro t
      dsimp only [StdioSys.readReturn]
      by_cases here : t = s.current
      · rw [here, update_self]
        exact iff_of_true rfl outside
      · rw [update_of_ne here]
        exact reading t here
  rw [StdioSys.readTurn]
  by_cases asks : 0 < len
  · rw [if_pos asks]
    obtain ⟨is, remains⟩ := fifo.gets len s.buffer
    dsimp only
    by_cases dry : (rumpcompSel4StdioGets circ len s.buffer).1.length = 0
    · rw [if_pos dry, MtxSys.cvWait, increment_eq few, ok_bind]
      have empty : contents s.buffer = [] := by
        rw [is] at dry
        rcases take_eq_nil_iff.mp (length_eq_zero_iff.mp dry) with zero | empty
        · omega
        · exact empty
      have settled := readers.setPhase (.inr (.inl rfl)) (by rw [outside]; rfl)
        (show (MtxPhase.cvUnsched .wait).head = none from rfl)
      refine ⟨_, rfl, ⟨settled.wait, settled.waits, settled.places, settled.kmutex⟩, ?_, ?_, once,
        ?_, stream.keep (s := s) ?_ rfl rfl rfl⟩
      · intro _
        exact passed.move (fun is => by cases outside.symm.trans is) (by simp)
      · intro closed
        cases handler.symm.trans closed
      · intro t
        change update s.reading s.sync.current (some len) t = none ↔
          update s.sync.phase s.sync.current (.cvUnsched .wait) t = .outside
        by_cases here : t = s.sync.current
        · simp [here]
        · rw [update_of_ne here, update_of_ne here]
          exact reading t here
      · rw [remains, empty, drop_nil]
    · rw [if_neg dry]
      exact ⟨_, rfl, returned is remains⟩
  · rw [if_neg asks]
    exact ⟨_, rfl, returned (take_zero ..).symm rfl⟩

variable (inv : StdioInv contents s)
include inv

theorem goesOn (going : s.reading s.current ≠ none) (handler : s.handler = true) {sync : MtxSys}
    {place : MtxPhase} (readers : ReadersInv sync) (passed : PassedOn sync.mtx sync.phase)
    (phase : sync.phase = update s.sync.phase s.sync.current place) (inside : place ≠ .outside) :
    StdioInv contents { s with sync := sync } := by
  refine ⟨readers, fun _ => passed, ?_, inv.once, ?_, inv.stream.keep rfl rfl rfl rfl⟩
  · intro closed
    exact absurd (handler.symm.trans closed) nofun
  · intro t
    dsimp only
    rw [phase]
    by_cases here : t = s.sync.current
    · rw [here, update_self]
      exact iff_of_false going inside
    · rw [update_of_ne here]
      exact inv.reading t

theorem stays {sync : MtxSys} (readers : ReadersInv sync) (mtx : sync.mtx = s.sync.mtx)
    (phase : sync.phase = s.sync.phase) : StdioInv contents { s with sync := sync } := by
  obtain ⟨-, passed, closed, once, reading, stream⟩ := inv
  rw [← phase] at passed closed reading
  rw [← mtx] at passed
  exact ⟨readers, passed, closed, once, reading, stream.keep rfl rfl rfl rfl⟩

include fifo in
theorem resume (runs : s.sync.Runs) (going : s.reading s.current ≠ none)
    (few : s.sync.nwaiters < 2 ^ 31 - 1) (monotonic : Int) :
    (s.Alone (.resume monotonic) ∧ ∃ next, s.resume circ curlwp monotonic = .ok next ∧
      StdioInv contents next) ∨
      ¬ s.Alone (.resume monotonic) ∧ s.resume circ curlwp monotonic = .error exitAssertion := by
  obtain ⟨len, reads⟩ := Option.ne_none_iff_exists'.mp going
  have inside : s.sync.phase s.sync.current ≠ .outside := fun is => going ((inv.reading _).mpr is)
  have handler : s.handler = true := by
    cases is : s.handler with
    | true => rfl
    | false => exact absurd (inv.closed is _) inside
  have passed := inv.passed handler
  -- in `rumpuser_cv_wait` the loop does not go on yet
  have still : ∀ {sync : MtxSys} {place : MtxPhase}, s.sync.resume curlwp monotonic = .ok sync →
      sync.current = s.sync.current →
      sync.phase = update s.sync.phase s.sync.current place → place ≠ .outside →
      s.resume circ curlwp monotonic = .ok { s with sync := sync } := by
    intro sync place resumed current phase inside
    have there : sync.phase sync.current ≠ .outside := by
      rw [current, phase, update_self]
      exact inside
    rw [StdioSys.resume, reads]
    dsimp only
    rw [resumed, ok_bind]
    exact if_neg there
  rcases inv.readers.places s.sync.current with outside | unsched | waiting | ⟨result, relocked⟩
  · exact absurd outside inside
  · have gives : s.sync.resume curlwp monotonic = s.sync.cvSleep .wait monotonic := by
      rw [MtxSys.resume, unsched]
    by_cases alone : ∀ t, s.sync.phase t ≠ .cvWaiting .wait
    · obtain ⟨sync, slept, readers, free, nobody, current, phase⟩ :=
        inv.readers.cvSleep runs unsched (passed.held alone) monotonic
      refine .inl ⟨fun _ => alone, _, still (gives.trans slept) current phase (by simp), ?_⟩
      apply inv.goesOn going handler readers _ phase (by simp)
      rw [phase]
      exact PassedOn.sleep alone free nobody
    · refine .inr ⟨fun are => alone (are unsched), ?_⟩
      have free : s.sync.mtx.v ≠ 1 := by
        rcases passed with ⟨-, none⟩ | ⟨free, -⟩
        · exact absurd none alone
        · rw [free]
          decide
      rw [StdioSys.resume, reads]
      dsimp only
      rw [gives, ReadersInv.cvSleep_stops free]
      rfl
  · obtain ⟨free, nobody, only⟩ := passed.free waiting
    obtain ⟨sync, result, resumed, readers, held, current, phase⟩ :=
      inv.readers.relock curlwp waiting free nobody monotonic
    refine .inl ⟨?_, _, still resumed current phase (by simp), ?_⟩
    · exact fun gives => absurd (waiting.symm.trans gives) (by simp)
    · apply inv.goesOn going handler readers _ phase (by simp)
      rw [phase]
      exact PassedOn.relock only held result
  · have settled := inv.readers.setPhase (.inl rfl) (by rw [relocked]; rfl)
      (show MtxPhase.outside.head = none from rfl)
    have returns : s.sync.resume curlwp monotonic = .ok (s.sync.cvReturn .wait result) := by
      rw [MtxSys.resume, relocked]
    have outside : (s.sync.cvReturn .wait result).phase s.sync.current = .outside := update_self ..
    have loops : s.resume circ curlwp monotonic =
        ({ s with sync := s.sync.cvReturn .wait result } : StdioSys Buf).readTurn circ len := by
      rw [StdioSys.resume, reads]
      dsimp only
      rw [returns, ok_bind]
      exact if_pos outside
    refine .inl ⟨fun gives => absurd (relocked.symm.trans gives) (by simp), ?_⟩
    rw [loops]
    refine readTurn (s := { s with sync := s.sync.cvReturn .wait result }) fifo
      ⟨settled.wait, settled.waits, settled.places, settled.kmutex⟩ handler inv.once ?_ ?_
      (inv.stream.keep rfl rfl rfl rfl) outside (by simp only [MtxSys.cvReturn]; omega) len
    · exact passed.move (fun is => absurd (relocked.symm.trans is) (by simp)) (by simp)
    · intro t other
      have same : (s.sync.cvReturn .wait result).phase t = s.sync.phase t := update_of_ne other ..
      dsimp only
      rw [same]
      exact inv.reading t

include fifo in
theorem openDevice {minor : Nat} (inited : Bool) (valid : minor < rrNumio)
    (once : s.openOnce minor = false) :
    ∃ next, s.sel4StdioOpen circ curlwp minor inited = .ok next ∧ StdioInv contents next := by
  have marked : ∀ {n : Nat}, s.openOnce n = true → update s.openOnce minor true n = true := by
    intro n opened
    by_cases here : n = minor
    · rw [here, update_self]
    · rw [update_of_ne here]
      exact opened
  have same : StdioInv contents { s with openOnce := update s.openOnce minor true } :=
    ⟨inv.readers, inv.passed, inv.closed, fun handler => marked (inv.once handler), inv.reading,
      inv.stream.keep rfl rfl rfl rfl⟩
  rw [sel4StdioOpen, if_neg (not_le.mpr valid), if_neg (by simp [once])]
  dsimp only
  by_cases failed : inited = false
  · rw [if_pos failed]
    exact ⟨_, rfl, same⟩
  · rw [if_neg failed]
    by_cases stdin : minor = rrStdin
    · subst stdin
      rw [if_pos rfl]
      have closed : s.handler = false := by
        cases handler : s.handler with
        | false => rfl
        | true => exact absurd (inv.once handler) (by simp [once])
      have fresh := ReadersInv.init inv.readers.wait.sys true
      refine ⟨_, rfl, ⟨fresh.wait, fresh.waits, fresh.places, rfl⟩, ?_, nofun, ?_, ?_,
        inv.stream.opened (fifo.init _) rfl rfl rfl⟩
      · exact fun _ => .inl ⟨rfl, nofun⟩
      · exact fun _ => update_self rrStdin true s.openOnce
      · exact fun t => iff_of_true ((inv.reading t).mpr (inv.closed closed t)) rfl
    · rw [if_neg stdin]
      exact ⟨_, rfl, same⟩

include fifo in
theorem step {event : StdioEvent} (allowed : s.Admits event) :
    (s.Alone event ∧ ∃ next, s.step circ curlwp event = .ok next ∧ StdioInv contents next) ∨
      ¬ s.Alone event ∧ s.step circ curlwp event = .error exitAssertion := by
  cases event with
  | openDevice minor inited =>
    exact .inl ⟨False.elim, inv.openDevice fifo curlwp inited allowed.2.1 allowed.2.2⟩
  | read minor uioResid =>
    refine .inl ⟨False.elim, ?_⟩
    obtain ⟨runs, handler, idle, few⟩ := allowed
    rw [StdioSys.step, StdioSys.sel4StdioRead]
    by_cases other : minor ≠ rrStdin
    · rw [if_pos other]
      exact ⟨s, rfl, inv⟩
    · rw [if_neg other]
      exact readTurn fifo inv.readers handler inv.once (inv.passed handler) (fun t _ => inv.reading t)
        inv.stream ((inv.reading _).mp idle) few _
  | handler =>
    refine .inl ⟨False.elim, ?_⟩
    rw [StdioSys.step, StdioSys.stdioHandler]
    by_cases set : s.handler = true
    · obtain ⟨sync, ran, readers, mtx, phase⟩ := inv.readers.cvSignal curlwp
      rw [if_pos set, ran]
      exact ⟨_, rfl, inv.stays readers mtx phase⟩
    · rw [if_neg set]
      exact ⟨s, rfl, inv⟩
  | resume monotonic => exact inv.resume fifo curlwp allowed.1 allowed.2.1 allowed.2.2 monotonic
  | put bytes =>
    refine .inl ⟨False.elim, _, rfl, inv.readers, inv.passed, inv.closed, inv.once, inv.reading, ?_⟩
    exact inv.stream.put (fifo.puts_untaken bytes s.buffer)
  | sched event =>
    refine .inl ⟨False.elim, ?_⟩
    obtain ⟨sync, ran, readers, mtx, phase⟩ := inv.readers.sched curlwp allowed.1 allowed.2
    rw [StdioSys.step, ran]
    exact ⟨_, rfl, inv.stays readers mtx phase⟩

end StdioInv
end Bytes

/-! ## The runs -/

def twoReadersRun : List StdioEvent :=
  [.openDevice rrStdin true, .sched (.call (.create 2 false 0 0 0x9000 0x20)), .read rrStdin 1,
    .resume 0, .sched (.call .block), .sched (.turn 100), .read rrStdin 1, .resume 100]

theorem two_readers_stop :
    ∃ boot ∈ (Scheduler.System.start 1 0x8000 0x1000 0x10).toOption,
      Admissible StdioSys.Admits (StdioSys.step (CircBuf.ofList 8) (· + 1)) twoReadersRun
        (StdioSys.init (CircBuf.ofList 8) [] boot) ∧
      run (StdioSys.step (CircBuf.ofList 8) (· + 1)) twoReadersRun
          (StdioSys.init (CircBuf.ofList 8) [] boot) =
        .error (.halt "assert \"mtx->v == 1\" FAILED\n") := by
  have evaluated : ∃ boot ∈ (start 1 0x8000 0x1000 0x10).toOption,
      Admissible StdioSys.Admits (StdioSys.step (CircBuf.ofList 8) (· + 1)) twoReadersRun
        (init (CircBuf.ofList 8) [] boot) ∧
      faultOf (run (StdioSys.step (CircBuf.ofList 8) (· + 1)) twoReadersRun
          (init (CircBuf.ofList 8) [] boot)) =
        some (.halt "assert \"mtx->v == 1\" FAILED\n") := by
    decide +kernel
  obtain ⟨boot, booted, allowed, halted⟩ := evaluated
  exact ⟨boot, booted, allowed, eq_error_of_faultOf halted⟩

/-- The byte that was put as number `i` is one of the read. -/
def StdioReturn.Holds (entry : StdioReturn) (i : Nat) : Prop :=
  entry.first ≤ i ∧ i < entry.first + entry.bytes.length

/-- The reads have returned bytes that were put, and no byte twice. -/
structure ReadsApart {Buf : Type} (s : StdioSys Buf) : Prop where
  pieces : ∀ entry ∈ s.returns, ∀ i, entry.Holds i → entry.bytes[i - entry.first]? = s.received[i]?
  apart : s.returns.Pairwise fun one other => ∀ i, ¬ (one.Holds i ∧ other.Holds i)

theorem StreamInv.readsApart {Buf : Type} {contents : Buf → List UInt8} {s : StdioSys Buf}
    (stream : StreamInv contents s) : ReadsApart s := by
  refine ⟨?_, ?_⟩
  · intro entry mem i holds
    obtain ⟨low, high⟩ := holds
    rw [stream.pieces entry mem, getElem?_take_of_lt (by omega), getElem?_drop]
    congr 1
    omega
  · apply stream.order.imp
    intro later earlier before i both
    obtain ⟨⟨low, -⟩, -, high⟩ := both
    omega

/-- Every reader that gets to its `rumpuser_mutex_exit` is alone there. -/
def StdioSys.AdmitsAlone {Buf : Type} (s : StdioSys Buf) (event : StdioEvent) : Prop :=
  s.Admits event ∧ s.Alone event

/-- However readers, the handler and arriving bytes are
interleaved, the run goes on if and only if no reader leaves the mutex while another one waits;
otherwise it stops at the assertion of `rumpuser_mutex_exit`, and at nothing else. The reads
that have returned hold different bytes. -/
theorem stdin_readers {Buf : Type} (circ : CircBuf Buf) {contents : Buf → List UInt8} {capacity : Nat}
    (fifo : circ.Fifo contents capacity) (memory : Buf) (curlwp : Scheduler.Tid → Nat)
    (main stack stackSize tlsarea : Nat) (stacked : stack ≠ 0) :
    ∃ boot, Scheduler.System.start main stack stackSize tlsarea = .ok boot ∧
      ∀ events, Admissible StdioSys.Admits (StdioSys.step circ curlwp) events
          (StdioSys.init circ memory boot) →
        ((∃ final, run (StdioSys.step circ curlwp) events (StdioSys.init circ memory boot) =
            .ok final) ↔
          Admissible StdioSys.AdmitsAlone (StdioSys.step circ curlwp) events
            (StdioSys.init circ memory boot)) ∧
        (∀ fault, run (StdioSys.step circ curlwp) events (StdioSys.init circ memory boot) =
            .error fault → fault = .halt "assert \"mtx->v == 1\" FAILED\n") ∧
        ∀ final, run (StdioSys.step circ curlwp) events (StdioSys.init circ memory boot) =
            .ok final → ReadsApart final := by
  refine ⟨_, start_eq main stackSize tlsarea stacked, ?_⟩
  intro events allowed
  have decided := run_decides (fun s event inv admitted => StdioInv.step fifo curlwp inv admitted)
    events _ (StdioInv.init fifo (mainOnly_inv main stack tlsarea) memory) allowed
  rcases decided with ⟨alone, final, ran, inv⟩ | ⟨together, stops⟩
  · rw [ran]
    refine ⟨iff_of_true ⟨final, rfl⟩ alone, nofun, ?_⟩
    intro final' is
    cases is
    exact inv.stream.readsApart
  · rw [stops]
    refine ⟨iff_of_false (fun is => nomatch is) together, ?_, nofun⟩
    intro fault is
    exact (Except.error.inj is).symm

/-- One reader waits, the other finds the first byte, and the handler lets the first one go on to
the second byte. -/
def readersInTurnRun : List StdioEvent :=
  [.openDevice rrStdin true, .sched (.call (.create 2 false 0 0 0x9000 0x20)), .read rrStdin 1,
    .resume 0, .sched (.call .block), .sched (.turn 100), .put [0x41, 0x42], .read rrStdin 1,
    .handler, .sched (.call .yield), .sched (.turn 200), .sched .advance, .resume 200,
    .resume 200]

theorem stdin_readers_in_turn :
    ∃ boot ∈ (Scheduler.System.start 1 0x8000 0x1000 0x10).toOption,
      Admissible StdioSys.AdmitsAlone (StdioSys.step (CircBuf.ofList 8) (· + 1)) readersInTurnRun
        (StdioSys.init (CircBuf.ofList 8) [] boot) ∧
      ∃ final ∈ (run (StdioSys.step (CircBuf.ofList 8) (· + 1)) readersInTurnRun
          (StdioSys.init (CircBuf.ofList 8) [] boot)).toOption,
        final.returns.map StdioReturn.bytes = [[0x42], [0x41]] ∧
        final.returns.map StdioReturn.thread = [1, 2] ∧ ReadsApart final := by
  have evaluated : ∀ boot ∈ (start 1 0x8000 0x1000 0x10).toOption,
      Admissible StdioSys.Admits (StdioSys.step (CircBuf.ofList 8) (· + 1)) readersInTurnRun
        (init (CircBuf.ofList 8) [] boot) ∧
      ∃ final ∈ (run (StdioSys.step (CircBuf.ofList 8) (· + 1)) readersInTurnRun
          (init (CircBuf.ofList 8) [] boot)).toOption,
        final.returns.map StdioReturn.bytes = [[0x42], [0x41]] ∧
        final.returns.map StdioReturn.thread = [1, 2] := by
    decide +kernel
  obtain ⟨boot, booted, holds⟩ := stdin_readers (CircBuf.ofList 8)
    (CircBuf.ofList_fifo 8) [] (· + 1) 1 0x8000 0x1000 0x10 (by decide)
  have started : boot ∈ (start 1 0x8000 0x1000 0x10).toOption := by
    rw [booted]
    rfl
  obtain ⟨allowed, final, ended, bytes, threads⟩ := evaluated boot started
  obtain ⟨goesOn, -, apart⟩ := holds readersInTurnRun allowed
  have ran := eq_ok_of_mem ended
  exact ⟨boot, started, goesOn.mp ⟨final, ran⟩, final, ended, bytes, threads, apart final ran⟩

end Rumprun.Sel4
