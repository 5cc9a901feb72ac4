import OvmsStateful.Interleaving.World
/-!
# Mutual exclusion, and the END's late removal

Each lock does exclude: in every reachable world at most one thread holds
the manager's mutex, each Sequence object's mutex, and each infer request
(`exclusive_of_reachable`), so two requests never run pre- to
post-inference on the same Sequence object at once (`window_exclusive`).

What the code does not exclude is a second request on the same id. An END
releases its Sequence at line 283 and removes the id only at line 286, after
taking the manager's mutex again; in between, a CONTINUE that resolved the
id can take the Sequence. The END then removes a sequence another request
holds (`infer_removes_sequence_in_use`), destroying the object under it; and
with a second infer request the CONTINUE runs to `OK` in between, so it
succeeds after the END did (`infer_continue_after_end`).
-/

namespace OvmsStateful

variable {Tensor : Type} {rt : Runtime Tensor} {requests : List PredictRequest}

namespace World

/-- **Mutual exclusion**: a mutex has at most one holder, and so has each
infer request of the pool. -/
def Exclusive (w : World Tensor) : Prop :=
  (∀ r j k, r ≠ .pool → w.holds j r = true → w.holds k r = true → j = k) ∧
    ∀ s j k, w.streamOf j = some s → w.streamOf k = some s → j = k

theorem holds_eq_false_of_available {w : World Tensor} {r : Resource} (hr : r ≠ .pool)
    (hav : w.Available r) (j : Nat) : w.holds j r = false := by
  cases hh : w.holds j r
  · rfl
  · have hj := w.lt_of_holds hh
    cases r <;> simp_all [Available]

end World

theorem exclusive_init (maxSequenceNumber : UInt32) (nireq threads : Nat) :
    (World.init rt maxSequenceNumber nireq threads).Exclusive := by
  have hpc : ∀ j, (World.init rt maxSequenceNumber nireq threads).pcs[j]? =
      if j < threads then some .start else none := fun j => by
    simp [World.init, List.getElem?_replicate]
  refine ⟨fun r j k _ hj _ => ?_, fun s j k hj _ => ?_⟩
  · rw [World.holds, hpc] at hj
    cases r <;> split_ifs at hj <;> simp [Pc.holds, Pc.heldSequence, Pc.heldStream] at hj
  · rw [World.streamOf, hpc] at hj
    split_ifs at hj <;> simp [Pc.heldStream] at hj

/-- A step keeps mutual exclusion: a thread takes a resource only while no
thread holds it. -/
theorem exclusive_step {w w' : World Tensor} {i slot : Nat} (he : w.Exclusive)
    (h : stepThread rt requests w i slot = some w') : w'.Exclusive := by
  refine ⟨fun r j k hr hj hk => ?_, fun s j k hj hk => ?_⟩
  · rcases holds_of_stepThread h hj with hj | ⟨rfl, hav⟩ <;>
      rcases holds_of_stepThread h hk with hk | ⟨rfl, hav'⟩
    · exact he.1 r j k hr hj hk
    · simp [World.holds_eq_false_of_available hr hav'] at hj
    · simp [World.holds_eq_false_of_available hr hav] at hk
    · rfl
  · rcases streamOf_of_stepThread h hj with hj | ⟨rfl, hav⟩ <;>
      rcases streamOf_of_stepThread h hk with hk | ⟨rfl, hav'⟩
    · exact he.2 s j k hj hk
    · exact absurd hj (hav' j (w.lt_of_streamOf hj))
    · exact absurd hk (hav k (w.lt_of_streamOf hk))
    · rfl

theorem exclusive_of_reachable {w₀ w : World Tensor} (h₀ : w₀.Exclusive)
    (h : Reachable rt requests w₀ w) : w.Exclusive := by
  induction h with
  | init => exact h₀
  | step i slot _ hs ih => exact exclusive_step ih hs

/-- The Sequence object a thread at this point has loaded and not yet
saved: it is between pre-inference and post-inference on it. -/
def Pc.window : Pc → Option Nat
  | .inference _ o _ | .postprocess _ o _ _ => some o
  | _ => none

/-- Thread `j` is between pre-inference and post-inference on the Sequence
object `o`. -/
def World.InWindow (w : World Tensor) (j o : Nat) : Prop := (w.pcs[j]?).bind Pc.window = some o

instance (w : World Tensor) (j o : Nat) : Decidable (w.InWindow j o) :=
  inferInstanceAs (Decidable (_ = _))

/-- A START, an END and a CONTINUE of the sequence `1`. -/
def lateRemovalRequests : List PredictRequest :=
  [sequenceRequest 1 SEQUENCE_START, sequenceRequest 1 SEQUENCE_END,
    sequenceRequest 1 NO_CONTROL_INPUT]

/-- The START runs to its return; the END runs to line 285; the CONTINUE
resolves the id and takes the Sequence the END released. -/
def lateRemovalSchedule : List (Nat × Nat) :=
  List.replicate 6 (0, 0) ++ List.replicate 6 (1, 0) ++ List.replicate 3 (2, 0)

/-- **Per Sequence object, inference is serialized.** In every world
reachable from a freshly loaded version, two threads between pre-inference
and post-inference on the same Sequence object are one thread. -/
theorem window_exclusive {maxSequenceNumber : UInt32} {nireq : Nat} {w : World Tensor}
    (h : Reachable rt requests (World.init rt maxSequenceNumber nireq requests.length) w)
    {j k o : Nat} (hj : w.InWindow j o) (hk : w.InWindow k o) : j = k := by
  have holds_of_window : ∀ {j}, w.InWindow j o → w.holds j (.sequence o) = true := by
    intro j hj
    simp only [World.InWindow, Option.bind_eq_some] at hj
    obtain ⟨pc, hpc, hw⟩ := hj
    cases pc <;> simp_all [World.holds, Pc.window, Pc.holds, Pc.heldSequence]
  exact (exclusive_of_reachable (exclusive_init _ _ _) h).1 _ j k (by simp)
    (holds_of_window hj) (holds_of_window hk)

theorem window_exclusive_end :
    Reachable counterRuntime lateRemovalRequests (World.init counterRuntime 4 1 3)
        (scheduled counterRuntime lateRemovalRequests (World.init counterRuntime 4 1 3)
          (List.replicate 6 (0, 0) ++ List.replicate 4 (1, 0))) ∧
      (scheduled counterRuntime lateRemovalRequests (World.init counterRuntime 4 1 3)
        (List.replicate 6 (0, 0) ++ List.replicate 4 (1, 0))).InWindow 1 0 ∧ 1 = 1 :=
  have h := reachable_scheduled (by decide)
  have hj : World.InWindow _ 1 0 := by decide
  ⟨h, hj, window_exclusive h hj hj⟩

/-! ## The END's late removal -/

/-- The id an END waiting at line 285 is about to remove. -/
def Pc.removing : Pc → Option UInt64
  | .relockManager spec _ _ => some spec.sequenceId
  | _ => none

/-- Thread `i`'s next step removes a sequence whose Sequence object thread
`j` holds or waits for. -/
def World.RemovesInUse (w : World Tensor) (i j : Nat) : Prop :=
  j ≠ i ∧ w.Available .manager ∧ ∃ s ∈ (w.pcs[i]?).bind Pc.removing,
    ∃ o ∈ w.shared.manager.getSequence s,
      w.holds j (.sequence o) = true ∨ w.waitOf j = some (.sequence o)

instance (w : World Tensor) (i j : Nat) : Decidable (w.RemovesInUse i j) :=
  inferInstanceAs (Decidable (_ ∧ _ ∧ _))

/-- **An END removes a Sequence another request holds.** With one infer
request, the END is about to remove the sequence while the CONTINUE holds its
Sequence's mutex, waiting for the infer request the END keeps. -/
theorem infer_removes_sequence_in_use :
    ∃ w, Reachable counterRuntime lateRemovalRequests (World.init counterRuntime 4 1 3) w ∧
      w.RemovesInUse 1 2 :=
  ⟨_, reachable_of_runSchedule .init (show runSchedule counterRuntime lateRemovalRequests
    (World.init counterRuntime 4 1 3) lateRemovalSchedule = some _ from rfl), by decide⟩

/-- The END then removes the id and returns, giving up the infer request,
and the CONTINUE's pre-inference reads the object the removal destroyed. -/
example : (scheduled counterRuntime lateRemovalRequests (World.init counterRuntime 4 1 3)
    (lateRemovalSchedule ++ [(1, 0), (2, 0)])).pcs[2]? = some .undefinedBehavior := by decide

/-- The spec's machine of one sequence (§4.F), Absent or `live`, on the
control values of its successful requests: whether they are one of its
runs. START makes it live, a CONTINUE needs it live, and an END needs it live
and makes it absent. -/
def lifecycleRun : Bool → List UInt32 → Bool
  | _, [] => true
  | false, c :: rest => c == SEQUENCE_START && lifecycleRun true rest
  | true, c :: rest => c != SEQUENCE_START && lifecycleRun (c != SEQUENCE_END) rest

/-- Thread `j` returned `OK`. -/
def World.succeeded (w : World Tensor) (j : Nat) : Bool :=
  match w.pcs[j]? with
  | some (.done status _) => status.ok
  | _ => false

/-- The control values of the successful requests on the id `s`, in the order
they took their Sequence's mutex. -/
def World.successfulControls (w : World Tensor) (s : UInt64) : List UInt32 :=
  (w.shared.log.filter fun a => a.spec.sequenceId == s && w.succeeded a.thread).map
    (·.spec.sequenceControlInput)

/-- With two infer requests: the START runs to its return; the END runs to
line 285, keeping the first infer request; the CONTINUE resolves the id, takes
the Sequence the END released and the second infer request, and returns
`OK`. No Sequence object is destroyed. -/
def continueAfterEndSchedule : List (Nat × Nat) :=
  List.replicate 6 (0, 0) ++ List.replicate 6 (1, 0) ++ List.replicate 6 (2, 1)

/-- **A CONTINUE succeeds after the END of its sequence.** Once the END of
`continueAfterEndSchedule` has removed the id, every request has returned,
and the successful requests on the id `1`, in the order they took its
Sequence, are START, END, CONTINUE: not a run of the sequence's machine. -/
theorem infer_continue_after_end :
    ∃ w, Reachable counterRuntime lateRemovalRequests (World.init counterRuntime 4 2 3) w ∧
      w.successfulControls 1 = [SEQUENCE_START, SEQUENCE_END, NO_CONTROL_INPUT] ∧
      lifecycleRun false (w.successfulControls 1) = false :=
  ⟨_, reachable_of_runSchedule .init (show runSchedule counterRuntime lateRemovalRequests
    (World.init counterRuntime 4 2 3) (continueAfterEndSchedule ++ [(1, 0)]) = some _ from rfl),
    by decide⟩

end OvmsStateful
