import OvmsStateful.Interleaving.Deadlock
import OvmsStateful.Interleaving.Alone
/-!
# Every request returns

With an infer request for every thread, every request leaves the
interleaved `infer`, whatever the schedule: it returns, or it reaches the
undefined behaviour of using a Sequence object destroyed under it, after
which the model follows it no further. Two facts give it.

No run is long: each step moves a thread forward along `infer`'s control
flow, which has no loop, so each step lowers `World.rank`
(`rank_lt_of_stepThread`).

No run stops early: a thread that has not left `infer` and cannot step waits
for a resource another such thread holds, so a world where no thread can
step, and some has not left, is deadlocked (`exists_stepThread`); the
Deadlock module's pigeonhole excludes that. A run that can go no further has
answered every request (`answered_of_stuck`), and from every reachable world
some run answers them all (`exists_answered`).
-/

namespace OvmsStateful

variable {Tensor : Type} {rt : Runtime Tensor} {requests : List PredictRequest}

namespace Pc

/-- Whether a thread has left `infer`: it returned, or reached undefined
behaviour. -/
def exited : Pc → Bool
  | .done _ _ | .undefinedBehavior => true
  | _ => false

/-- How many steps a thread at this point can still take, at most. -/
def rank : Pc → Nat
  | start => 7
  | lockManager _ => 6
  | lockSequence _ _ => 5
  | acquireStream _ _ => 4
  | inference _ _ _ => 3
  | postprocess _ _ _ _ => 2
  | relockManager _ _ _ => 1
  | done _ _ | undefinedBehavior => 0

theorem holds_eq_false_of_exited {pc : Pc} (h : pc.exited = true) (r : Resource) :
    pc.holds r = false := by
  cases pc <;> cases r <;> simp_all [exited, holds, heldSequence, heldStream]

end Pc

/-- Every request has left `infer`: returned its answer, or reached undefined
behaviour. -/
def World.Answered (w : World Tensor) : Prop := ∀ pc ∈ w.pcs, pc.exited = true

instance (w : World Tensor) : Decidable w.Answered :=
  inferInstanceAs (Decidable (∀ pc ∈ w.pcs, _))

/-- How many steps the threads can still take, at most. -/
def World.rank (w : World Tensor) : Nat := (w.pcs.map Pc.rank).foldr (· + ·) 0

/-! ## No run is long -/

/-- Each step moves a thread forward along the control flow. -/
theorem rank_lt_of_advance {request : PredictRequest} {w : World Tensor} {i slot : Nat}
    {pc : Pc} {next : Shared Tensor × Pc} (h : advance rt request w i slot pc = some next) :
    next.2.rank < pc.rank := by
  have hnext := next_of_advance h
  generalize next.2 = pc' at hnext
  cases pc
  case done | undefinedBehavior => simp [advance] at h
  all_goals cases hnext <;> simp [Pc.rank]

theorem sum_map_set_lt {f : Pc → Nat} {pc pc' : Pc} (hlt : f pc' < f pc) :
    ∀ {pcs : List Pc} {i : Nat}, pcs[i]? = some pc →
      ((pcs.set i pc').map f).foldr (· + ·) 0 < (pcs.map f).foldr (· + ·) 0
  | _ :: _, 0, h => by simp_all
  | _ :: _, _ + 1, h => by simpa using sum_map_set_lt hlt (List.getElem?_cons_succ ▸ h)

theorem rank_lt_of_stepThread {w w' : World Tensor} {i slot : Nat}
    (h : stepThread rt requests w i slot = some w') : w'.rank < w.rank := by
  obtain ⟨request, pc, next, -, hpc, hadv, rfl⟩ := stepThread_eq_some h
  exact sum_map_set_lt (rank_lt_of_advance hadv) hpc

/-- The deadlock schedule with four infer requests, then the rest: the first
CONTINUE takes a second infer request and returns, the second takes the
Sequence and a third infer request and returns, and the END removes the id. -/
def completeSchedule : List (Nat × Nat) :=
  deadlockSchedule ++ List.replicate 3 (2, 1) ++ List.replicate 4 (3, 2) ++ [(1, 0)]

/-! ## No run stops early -/

/-- **A thread that cannot step waits for a resource that is taken**, unless
it has left `infer`: every other point of `infer` always has a step. -/
theorem waitsFor_of_advance_none {request : PredictRequest} {w : World Tensor} {i : Nat} {pc : Pc}
    (h : ∀ slot, advance rt request w i slot pc = none) (hpc : pc.exited = false) :
    ∃ r ∈ pc.waitsFor, ¬ w.Available r := by
  cases pc
  case start => simp [advance] at h
  case lockManager spec =>
    refine ⟨.manager, rfl, fun hm => ?_⟩
    have := h 0
    simp only [advance, hm, not_true_eq_false, if_false] at this
    split_ifs at this <;> (try split at this) <;> cases this
  case lockSequence spec o =>
    refine ⟨.sequence o, rfl, fun hs => ?_⟩
    simpa [advance, hs] using h 0
  case acquireStream spec o =>
    refine ⟨.pool, rfl, fun ⟨k, hk, hfree⟩ => ?_⟩
    have := h k
    simp only [advance, hk, hfree, and_self, not_true_eq_false, if_false] at this
    split at this <;> cases this
  case inference => simp [advance] at h
  case postprocess =>
    have := h 0
    simp only [advance] at this
    split at this <;> cases this
  case relockManager spec k response =>
    refine ⟨.manager, rfl, fun hm => ?_⟩
    simpa [advance, hm] using h 0
  case done | undefinedBehavior => simp [Pc.exited] at hpc

theorem stepThread_eq_none_of_answered {w : World Tensor} (h : w.Answered) (j slot : Nat) :
    stepThread rt requests w j slot = none := by
  cases hs : stepThread rt requests w j slot with
  | none => rfl
  | some w' =>
    obtain ⟨request, pc, next, -, hpc, hadv, -⟩ := stepThread_eq_some hs
    have := h pc (List.getElem?_mem hpc)
    cases pc <;> simp [Pc.exited, advance] at this hadv

namespace World

variable {w : World Tensor}

/-- The threads that have not left `infer`. -/
def pending (w : World Tensor) : List Nat :=
  (List.range w.pcs.length).filter fun j => (w.pcs[j]?).any fun pc => !pc.exited

theorem mem_pending {j : Nat} : j ∈ w.pending ↔ ∃ pc, w.pcs[j]? = some pc ∧ pc.exited = false := by
  simp only [pending, List.mem_filter, List.mem_range]
  cases hpc : w.pcs[j]? with
  | none => simp
  | some pc => simp [(List.getElem?_eq_some_iff.1 hpc).1]

/-- **A world where no thread can step is answered, or deadlocked** on the
threads that have not left `infer`: each waits for a resource that is taken,
and only threads that have not left hold anything. -/
theorem deadlock_pending (hreq : w.pcs.length ≤ requests.length)
    (hstuck : ∀ j slot, stepThread rt requests w j slot = none) (hna : ¬ w.Answered) :
    w.Deadlock w.pending := by
  refine ⟨fun hnil => hna fun pc hpc => ?_, fun j hj => ?_⟩
  · obtain ⟨j, hj, rfl⟩ := List.getElem_of_mem hpc
    cases hr : w.pcs[j].exited
    · simpa [hnil] using mem_pending.2 ⟨_, List.getElem?_eq_getElem hj, hr⟩
    · rfl
  obtain ⟨pc, hpc, hr⟩ := mem_pending.1 hj
  have hj' : j < requests.length := (List.getElem?_eq_some_iff.1 hpc).1.trans_le hreq
  have hreqj := List.getElem?_eq_getElem hj'
  have hnone : ∀ slot, advance rt requests[j] w j slot pc = none := fun slot =>
    Option.eq_none_iff_forall_not_mem.2 fun _ hadv => by
      simpa [stepThread_of_advance rt requests w slot hreqj hpc hadv] using hstuck j slot
  obtain ⟨r, hr', hun⟩ := waitsFor_of_advance_none hnone hr
  refine ⟨r, by simpa [waitOf, hpc] using hr', hun, fun j' _ hh => ?_⟩
  obtain ⟨pc', hpc', hh', -⟩ := exists_pc_of_holds hh
  exact mem_pending.2 ⟨pc', hpc', Bool.eq_false_iff.2 fun h => by
    simp [Pc.holds_eq_false_of_exited h] at hh'⟩

end World

variable {w : World Tensor}

variable (rt requests) in
/-- **Some thread can step** while a request has not left `infer`, when the pool
has an infer request per thread. -/
theorem exists_stepThread (hle : w.pcs.length ≤ w.shared.streams.length)
    (hreq : w.pcs.length ≤ requests.length) (hna : ¬ w.Answered) :
    ∃ j slot w', stepThread rt requests w j slot = some w' := by
  by_contra h
  push_neg at h
  exact (World.deadlock_pending hreq (fun j slot => Option.eq_none_iff_forall_not_mem.2 (h j slot))
    hna).false_of_le hle

/-- From a world whose threads fit the pool and the requests some schedule
answers every request: take any step, until none is left (`World.rank`). -/
theorem exists_runSchedule_answered {w : World Tensor} (hle : w.pcs.length ≤ w.shared.streams.length)
    (hreq : w.pcs.length ≤ requests.length) :
    ∃ schedule w', runSchedule rt requests w schedule = some w' ∧ w'.Answered := by
  by_cases hna : w.Answered
  · exact ⟨[], w, rfl, hna⟩
  obtain ⟨j, slot, w₁, h₁⟩ := exists_stepThread rt requests hle hreq hna
  obtain ⟨hpcs, hstreams⟩ := length_of_reachable (Reachable.step j slot .init h₁)
  have := rank_lt_of_stepThread h₁
  obtain ⟨schedule, w', h, hw'⟩ := exists_runSchedule_answered (w := w₁) (by omega) (by omega)
  exact ⟨(j, slot) :: schedule, w', by simp [runSchedule, h₁, h], hw'⟩
termination_by w.rank

variable {maxSequenceNumber : UInt32} {nireq threads : Nat}

/-- **A run that can go no further has answered every request**, when the
pool has an infer request per request: each has returned, or reached
undefined behaviour on a Sequence object destroyed under it. -/
theorem answered_of_stuck (hle : threads ≤ nireq) (hreq : threads ≤ requests.length)
    (h : Reachable rt requests (World.init rt maxSequenceNumber nireq threads) w)
    (hstuck : ∀ j slot, stepThread rt requests w j slot = none) : w.Answered := by
  obtain ⟨hpcs, hstreams⟩ := length_of_reachable_init h
  by_contra hna
  obtain ⟨j, slot, w', h'⟩ := exists_stepThread rt requests (by omega) (by omega) hna
  simp [hstuck j slot] at h'

theorem answered_of_stuck_completeSchedule :
    4 ≤ 4 ∧ 4 ≤ deadlockRequests.length ∧
      Reachable counterRuntime deadlockRequests (World.init counterRuntime 4 4 4)
        (scheduled counterRuntime deadlockRequests (World.init counterRuntime 4 4 4)
          completeSchedule) ∧
      (∀ j slot, stepThread counterRuntime deadlockRequests
        (scheduled counterRuntime deadlockRequests (World.init counterRuntime 4 4 4)
          completeSchedule) j slot = none) ∧
      (scheduled counterRuntime deadlockRequests (World.init counterRuntime 4 4 4)
        completeSchedule).Answered :=
  have hr : Reachable counterRuntime deadlockRequests (World.init counterRuntime 4 4 4)
      (scheduled counterRuntime deadlockRequests (World.init counterRuntime 4 4 4)
        completeSchedule) := reachable_scheduled (by decide)
  have hstuck : ∀ j slot, stepThread counterRuntime deadlockRequests
      (scheduled counterRuntime deadlockRequests (World.init counterRuntime 4 4 4)
        completeSchedule) j slot = none := stepThread_eq_none_of_answered (by decide)
  ⟨le_refl 4, by decide, hr, hstuck, answered_of_stuck (le_refl 4) (by decide) hr hstuck⟩

/-- **Every request can still be answered**: from every world an
interleaving reaches, some schedule brings every request to its return, or
to undefined behaviour on a Sequence object destroyed under it, when the pool
has an infer request per request. With one infer request for four requests,
`infer_deadlock` reaches a world from which three never return. -/
theorem exists_answered (hle : threads ≤ nireq) (hreq : threads ≤ requests.length)
    (h : Reachable rt requests (World.init rt maxSequenceNumber nireq threads) w) :
    ∃ schedule w', runSchedule rt requests w schedule = some w' ∧ w'.Answered := by
  obtain ⟨hpcs, hstreams⟩ := length_of_reachable_init h
  exact exists_runSchedule_answered (by omega) (by omega)

theorem exists_answered_deadlockSchedule :
    4 ≤ 4 ∧ 4 ≤ deadlockRequests.length ∧
      Reachable counterRuntime deadlockRequests (World.init counterRuntime 4 4 4)
        (scheduled counterRuntime deadlockRequests (World.init counterRuntime 4 4 4)
          deadlockSchedule) ∧
      ∃ schedule w, runSchedule counterRuntime deadlockRequests
        (scheduled counterRuntime deadlockRequests (World.init counterRuntime 4 4 4)
          deadlockSchedule) schedule = some w ∧ w.Answered :=
  have hr : Reachable counterRuntime deadlockRequests (World.init counterRuntime 4 4 4)
      (scheduled counterRuntime deadlockRequests (World.init counterRuntime 4 4 4)
        deadlockSchedule) := reachable_scheduled (by decide)
  ⟨le_refl 4, by decide, hr, exists_answered (le_refl 4) (by decide) hr⟩

end OvmsStateful
