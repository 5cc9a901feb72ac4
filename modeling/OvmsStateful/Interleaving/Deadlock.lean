import OvmsStateful.Interleaving.World
import Mathlib.Data.Finset.Card
/-!
# Deadlock

A deadlock is a non-empty set of threads each waiting for a resource that
only threads of the set hold (`World.Deadlock`). Nothing outside the set can
release what the set holds, and nothing inside it can move, so a deadlock
lasts forever (`deadlock_step`, `deadlock_of_reachable`).

`infer` has one: an END keeps its infer request while it waits for the
manager's mutex at line 285, against the lock order manager ≻ Sequence ≻
infer request that the hand-off at lines 227–228 and the unlock at line 283
otherwise keep. With one infer request, an END, and two CONTINUEs on the same
id close the cycle (`infer_deadlock`).

The cycle needs the pool to run out. With at least as many infer requests as
threads, a wait for an infer request always ends, hence so does a wait for a
Sequence (its holder waits for an infer request or for nothing) and a wait
for the manager (its holder waits for a Sequence): no reachable world is
deadlocked (`no_deadlock_of_threads_le`).
-/

namespace OvmsStateful

variable {Tensor : Type}

namespace World

/-- **A deadlock**: a non-empty set `D` of threads, each waiting for a
resource it cannot take now, and held only by threads of `D`. -/
def Deadlock (w : World Tensor) (D : List Nat) : Prop :=
  D ≠ [] ∧ ∀ i ∈ D, ∃ r ∈ w.waitOf i, ¬ w.Available r ∧
    ∀ j < w.pcs.length, w.holds j r = true → j ∈ D

instance (w : World Tensor) (D : List Nat) : Decidable (w.Deadlock D) :=
  inferInstanceAs (Decidable (_ ∧ _))

end World

/-- A START, an END and two CONTINUEs of the sequence `1`. -/
def deadlockRequests : List PredictRequest :=
  [sequenceRequest 1 SEQUENCE_START, sequenceRequest 1 SEQUENCE_END,
    sequenceRequest 1 NO_CONTROL_INPUT, sequenceRequest 1 NO_CONTROL_INPUT]

/-- The START runs to its return; the END runs to line 285, keeping the only
infer request; one CONTINUE takes the Sequence and waits for an infer request;
the other takes the manager's mutex and waits for the Sequence. -/
def deadlockSchedule : List (Nat × Nat) :=
  List.replicate 6 (0, 0) ++ List.replicate 6 (1, 0) ++ List.replicate 3 (2, 0) ++
    List.replicate 2 (3, 0)

variable {rt : Runtime Tensor} {requests : List PredictRequest}

/-- **A deadlock survives every step.** Its threads cannot move, and the step
of any other thread neither releases nor takes what they wait for. -/
theorem deadlock_step {w w' : World Tensor} {D : List Nat} {i slot : Nat} (hd : w.Deadlock D)
    (h : stepThread rt requests w i slot = some w') : w'.Deadlock D := by
  obtain ⟨request, pc, next, -, hpc, hadv, rfl⟩ := stepThread_eq_some h
  have hnext := next_of_advance hadv
  have hlt : i < w.pcs.length := (List.getElem?_eq_some_iff.1 hpc).1
  have hiD : i ∉ D := fun hi => by
    obtain ⟨r, hr, hun, -⟩ := hd.2 i hi
    exact hun (hnext.available_of_waitsFor (by simpa [World.waitOf, hpc] using hr))
  refine ⟨hd.1, fun j hj => ?_⟩
  have hji : j ≠ i := fun e => hiD (e ▸ hj)
  obtain ⟨r, hr, hun, hheld⟩ := hd.2 j hj
  -- thread `i` holds `r` neither before the step nor after it
  have hi : w.holds i r = false := by
    by_contra hh
    exact hiD (hheld i hlt (by simpa using hh))
  have hi' : next.2.holds r = false := by
    by_contra hh
    rcases hnext.holds_or_available (by simpa using hh) with h | h
    · simp [World.holds, hpc, h] at hi
    · exact hun h
  refine ⟨r, by simpa [hji] using hr, ?_, fun k hk hkr => hheld k (by simpa using hk) ?_⟩
  · rwa [available_set_iff (advance_streams_length hadv) hi hi']
  · rwa [holds_set_eq hi hi'] at hkr

/-- **A deadlock is permanent**: every world reachable from a deadlocked one
is deadlocked, on the same threads, so none of them ever returns. -/
theorem deadlock_of_reachable {w w' : World Tensor} {D : List Nat} (hd : w.Deadlock D)
    (h : Reachable rt requests w w') : w'.Deadlock D := by
  induction h with
  | init => exact hd
  | step i slot _ hs ih => exact deadlock_step ih hs

theorem deadlock_of_reachable_deadlockSchedule :
    (scheduled counterRuntime deadlockRequests (World.init counterRuntime 4 1 4)
        deadlockSchedule).Deadlock [1, 2, 3] ∧
      Reachable counterRuntime deadlockRequests
        (scheduled counterRuntime deadlockRequests (World.init counterRuntime 4 1 4)
          deadlockSchedule)
        (scheduled counterRuntime deadlockRequests (World.init counterRuntime 4 1 4)
          deadlockSchedule) ∧
      (scheduled counterRuntime deadlockRequests (World.init counterRuntime 4 1 4)
        deadlockSchedule).Deadlock [1, 2, 3] :=
  have hd : World.Deadlock _ [1, 2, 3] := by decide
  ⟨hd, .init, @deadlock_of_reachable _ counterRuntime deadlockRequests _ _ _ hd .init⟩

/-- **`infer` deadlocks** with a pool of one infer request: the END waits for
the manager's mutex, which the second CONTINUE holds while it waits for the
Sequence, which the first CONTINUE holds while it waits for the END's infer
request. -/
theorem infer_deadlock :
    ∃ w, Reachable counterRuntime deadlockRequests (World.init counterRuntime 4 1 4) w ∧
      w.Deadlock [1, 2, 3] :=
  ⟨_, reachable_of_runSchedule .init (show runSchedule counterRuntime deadlockRequests
    (World.init counterRuntime 4 1 4) deadlockSchedule = some _ from rfl), by decide⟩

/-! ## With an infer request for every thread -/

namespace Pc

theorem waitsFor_of_holds_sequence {pc : Pc} {o : Nat} (h : pc.holds (.sequence o) = true) :
    pc.waitsFor = some .pool ∨ pc.waitsFor = none := by
  cases pc <;> simp_all [holds, heldSequence, waitsFor]

theorem waitsFor_of_holds_manager {pc : Pc} (h : pc.holds .manager = true) :
    ∃ o, pc.waitsFor = some (.sequence o) := by
  cases pc <;> simp_all [holds, waitsFor]

theorem heldStream_of_waitsFor_pool {pc : Pc} (h : pc.waitsFor = some .pool) :
    pc.heldStream = none := by
  cases pc <;> simp_all [waitsFor, heldStream]

end Pc

namespace World

variable {w : World Tensor}

theorem exists_pc_of_holds {j : Nat} {r : Resource} (h : w.holds j r = true) :
    ∃ pc, w.pcs[j]? = some pc ∧ pc.holds r = true ∧ w.waitOf j = pc.waitsFor := by
  simp only [World.holds] at h
  cases hpc : w.pcs[j]? with
  | none => simp [hpc] at h
  | some pc => exact ⟨pc, rfl, by simpa [hpc] using h, by simp [World.waitOf, hpc]⟩

theorem exists_holder {r : Resource} (hr : r ≠ .pool) (h : ¬ w.Available r) :
    ∃ j < w.pcs.length, w.holds j r = true := by
  cases r <;> simp_all [Available]

/-- **With an infer request for every thread, one is free** for a thread that
holds none: the others hold at most one each. -/
theorem available_pool (hle : w.pcs.length ≤ w.shared.streams.length) {i : Nat}
    (hi : i < w.pcs.length) (hno : w.streamOf i = none) : w.Available .pool := by
  classical
  have hcard : (((Finset.range w.pcs.length).erase i).image
      fun j => (w.streamOf j).getD 0).card < (Finset.range w.shared.streams.length).card := by
    refine (Finset.card_image_le).trans_lt ?_
    rw [Finset.card_erase_of_mem (Finset.mem_range.2 hi), Finset.card_range, Finset.card_range]
    omega
  obtain ⟨k, hk, hkn⟩ :=
    Finset.not_subset.1 fun hsub => absurd (Finset.card_le_card hsub) (not_le.2 hcard)
  refine ⟨k, Finset.mem_range.1 hk, fun j hj hjk => hkn (Finset.mem_image.2 ⟨j, ?_, by simp [hjk]⟩)⟩
  refine Finset.mem_erase.2 ⟨fun hji => ?_, Finset.mem_range.2 hj⟩
  subst hji
  simp [hno] at hjk

namespace Deadlock

variable {D : List Nat} (hd : w.Deadlock D) (hle : w.pcs.length ≤ w.shared.streams.length)
include hd hle

/-- No thread of a deadlock waits for an infer request. -/
theorem waitOf_ne_pool {j : Nat} (hj : j ∈ D) : w.waitOf j ≠ some .pool := fun hw => by
  obtain ⟨r, hr, hun, -⟩ := hd.2 j hj
  obtain rfl : r = .pool := Option.some_inj.1 (hr.symm.trans hw)
  simp only [World.waitOf, Option.bind_eq_some] at hw
  obtain ⟨pc, hpc, hpool⟩ := hw
  exact hun (available_pool hle (List.getElem?_eq_some_iff.1 hpc).1
    (by simp [World.streamOf, hpc, Pc.heldStream_of_waitsFor_pool hpool]))

/-- No thread of a deadlock waits for a Sequence: its holder would wait for
an infer request or for nothing. -/
theorem waitOf_ne_sequence {j o : Nat} (hj : j ∈ D) : w.waitOf j ≠ some (.sequence o) :=
    fun hw => by
  obtain ⟨r, hr, hun, hheld⟩ := hd.2 j hj
  obtain rfl : r = .sequence o := Option.some_inj.1 (hr.symm.trans hw)
  obtain ⟨j', hj', hh⟩ := exists_holder (by simp) hun
  obtain ⟨pc, -, hpch, hwait⟩ := exists_pc_of_holds hh
  have hj'D := hheld j' hj' hh
  rcases Pc.waitsFor_of_holds_sequence hpch with h | h
  · exact waitOf_ne_pool hd hle hj'D (hwait.trans h)
  · obtain ⟨r', hr', -⟩ := hd.2 j' hj'D
    simp [hwait, h] at hr'

/-- No thread of a deadlock waits for the manager: its holder would wait for
a Sequence. -/
theorem waitOf_ne_manager {j : Nat} (hj : j ∈ D) : w.waitOf j ≠ some .manager := fun hw => by
  obtain ⟨r, hr, hun, hheld⟩ := hd.2 j hj
  obtain rfl : r = .manager := Option.some_inj.1 (hr.symm.trans hw)
  obtain ⟨j', hj', hh⟩ := exists_holder (by simp) hun
  obtain ⟨pc, -, hpch, hwait⟩ := exists_pc_of_holds hh
  obtain ⟨o, ho⟩ := Pc.waitsFor_of_holds_manager hpch
  exact waitOf_ne_sequence hd hle (hheld j' hj' hh) (hwait.trans ho)

theorem false_of_le : False := by
  obtain ⟨j, hj⟩ := List.exists_mem_of_ne_nil _ hd.1
  obtain ⟨r, hr, -⟩ := hd.2 j hj
  cases r
  · exact waitOf_ne_manager hd hle hj hr
  · exact waitOf_ne_sequence hd hle hj hr
  · exact waitOf_ne_pool hd hle hj hr

end Deadlock

end World

variable {maxSequenceNumber : UInt32} {nireq threads : Nat} {w : World Tensor}

/-- **No deadlock with an infer request for every thread.** In every world an
interleaving reaches from a freshly loaded version whose pool holds at least
as many infer requests as there are requests, no set of requests is
deadlocked. -/
theorem no_deadlock_of_threads_le (hle : threads ≤ nireq)
    (h : Reachable rt requests (World.init rt maxSequenceNumber nireq threads) w)
    (D : List Nat) : ¬ w.Deadlock D := fun hd =>
  hd.false_of_le (by rwa [(length_of_reachable_init h).1, (length_of_reachable_init h).2])

theorem no_deadlock_of_threads_le_deadlockSchedule :
    4 ≤ 4 ∧ ¬ (scheduled counterRuntime deadlockRequests (World.init counterRuntime 4 4 4)
      deadlockSchedule).Deadlock [1, 2, 3] :=
  ⟨le_refl 4, no_deadlock_of_threads_le (le_refl 4) (reachable_scheduled (by decide)) [1, 2, 3]⟩

end OvmsStateful
