import OvmsStateful.Interleaving.Ownership
import OvmsStateful.Refinement
/-!
# Until its END, a sequence runs on a private state

`privateInfer`, the abstract machine of the Refinement module, gives each
live id a private state. Once a request has resolved its id, what the machine
does is `privateStep`, the model's step on that state
(`privateInfer_resolved`). Over the requests that took a Sequence object's
mutex, in the order they took it, `privateRun` is the state the machine holds
for the object's id: from the model's defaults that a START gives its id,
until a START fails or an END deletes the id.

A step of the locked part on the object simulates `privateStep`
(`lockedPart_privateStep`), so along the object's takers the object holds the
machine's state (`replay_privateRun`). In every interleaving, then, a request
that took an object's mutex and returned answered as the abstract machine, as
long as the machine still holds a state for the id
(`answered_privately`), and an object that no request holds and
`removeSequence` has not destroyed holds that state
(`sequence_state_private`). Where the machine holds none, the code departs
from it: a CONTINUE that resolved the id before an END removed it still runs
on the object, and the object of a START that failed after creating its id
holds no saved state.
-/

namespace OvmsStateful

variable {Tensor : Type} (rt : Runtime Tensor)

/-- **The abstract machine on a resolved id**: the model's step on the id's
private state, which is what `privateInfer` does once the id has resolved
(`privateInfer_resolved`). The status, the response, and the state the id
keeps: none when a START failed (its id is never made) or an END succeeded
(its id is deleted). -/
def privateStep (request : PredictRequest) (spec : SequenceProcessingSpec)
    (state : List (String × Tensor)) : Status × TensorMap × Option (List (String × Tensor)) :=
  let run := runInference rt request ⟨state⟩ []
  if !run.1.ok then
    (run.1, run.2.2, if spec.sequenceControlInput = SEQUENCE_START then none else some state)
  else if spec.sequenceControlInput = SEQUENCE_END then
    (.ofCode .OK, addSequenceIdOutput run.2.2 spec.sequenceId, none)
  else (.ofCode .OK, addSequenceIdOutput run.2.2 spec.sequenceId, some run.2.1.memoryState)

/-- The state the abstract machine holds for an object's id after the
requests of `takers` ran on it in turn, from the model's defaults that a
START's id starts with; none once a START failed or an END succeeded. -/
def privateRun (requests : List PredictRequest) (takers : List Acquisition) :
    Option (List (String × Tensor)) :=
  takers.foldl (fun state a => state.bind fun s =>
      (privateStep rt (requests.getD a.thread ⟨[]⟩) a.spec s).2.2)
    (some rt.freshInferRequest.memoryState)

theorem privateRun_append_singleton (requests : List PredictRequest) (F : List Acquisition)
    (a : Acquisition) :
    privateRun rt requests (F ++ [a]) = (privateRun rt requests F).bind fun s =>
      (privateStep rt (requests.getD a.thread ⟨[]⟩) a.spec s).2.2 := by
  simp [privateRun, List.foldl_append]

/-! ## `privateInfer` is `privateStep` on the resolved id -/

section Resolved

variable {rt} {request : PredictRequest} {store : SequenceManager (List (String × Tensor))}

theorem SequenceManager.getSequence_eraseSequence {σ : Type} (m : SequenceManager σ)
    (sequenceId : UInt64) : (m.eraseSequence sequenceId).getSequence sequenceId = none :=
  Option.not_isSome_iff_eq_none.1 fun h => by
    simpa using ((m.eraseSequence sequenceId).getSequence_isSome_iff sequenceId).1 h

/-- **`privateInfer` is `privateStep` on the resolved id**: once validation
and `processRequestedSpec` succeed and the resolved id holds `state`, the
call answers as `privateStep`, and leaves the id the state `privateStep`
keeps. -/
theorem privateInfer_resolved {status : Status} {m' : SequenceManager (List (String × Tensor))}
    {spec' : SequenceProcessingSpec} (hv : (validate rt request {}).1.code = .OK)
    (hp : store.processRequestedSpec rt.freshInferRequest.memoryState (validate rt request {}).2 =
      (status, m', spec')) (hok : status.code = .OK) {state : List (String × Tensor)}
    (hs : m'.getSequence spec'.sequenceId = some state) :
    (privateInfer rt request store).1 = (privateStep rt request spec' state).1 ∧
      (privateInfer rt request store).2.2 = (privateStep rt request spec' state).2.1 ∧
      (privateInfer rt request store).2.1.getSequence spec'.sequenceId =
        (privateStep rt request spec' state).2.2 := by
  simp only [privateInfer, privateStep, Status.ite_not_ok, if_pos hv, hp, if_pos hok, hs]
  by_cases hrun : (runInference rt request ⟨state⟩ []).1.code = .OK
  · by_cases hend : spec'.sequenceControlInput = SEQUENCE_END
    · simp [hrun, hend, SequenceManager.getSequence_eraseSequence]
    · simp [hrun, hend, SequenceManager.getSequence_updateSequence, hs]
  · simp only [if_neg hrun, true_and]
    -- a failed request leaves the store as it was: a START's id was never there
    rcases store.processRequestedSpec_cases hp with ⟨hne, -⟩ | ⟨-, hst, hspec, -, hfree, -, -, -⟩ |
      ⟨-, hst, rfl, rfl, -⟩
    · exact absurd hok hne
    · have hst' : spec'.sequenceControlInput = SEQUENCE_START := by rw [hspec]; exact hst
      rw [if_pos hst']
      exact Option.not_isSome_iff_eq_none.1 fun h => hfree ((store.getSequence_isSome_iff _).1 h)
    · rw [if_neg hst, hs]

end Resolved

/-! ## The locked part simulates `privateStep` -/

section Simulation

variable {rt} {request : PredictRequest} {spec : SequenceProcessingSpec} {q : Sequence Tensor}
  {state : List (String × Tensor)}

/-- **One locked part is one step of the abstract machine**, on an object
that holds the machine's state, or for a START, which reads none of it and
runs on the model's defaults: the same status and response, and where the
machine keeps a state for the id, the object holds it, complete. -/
theorem lockedPart_privateStep
    (h : spec.sequenceControlInput = SEQUENCE_START ∧ state = rt.freshInferRequest.memoryState ∨
      spec.sequenceControlInput ≠ SEQUENCE_START ∧ q.memoryState = state ∧ rt.Complete state) :
    (lockedPart rt request spec q).1 = (privateStep rt request spec state).1 ∧
      (lockedPart rt request spec q).2.1 = (privateStep rt request spec state).2.1 ∧
      ∀ s ∈ (privateStep rt request spec state).2.2,
        (lockedPart rt request spec q).2.2.memoryState = s ∧ rt.Complete s := by
  -- pre-inference loads the machine's state
  have hpre : preInferenceProcessing rt rt.freshInferRequest q spec = (.ofCode .OK, ⟨state⟩) := by
    rcases h with ⟨hs, rfl⟩ | ⟨hs, rfl, hc⟩
    exacts [preInferenceProcessing_start rt (exposes_freshInferRequest rt) q hs,
      preInferenceProcessing_of_complete rt (exposes_freshInferRequest rt) hc hs]
  have hc : rt.Complete state := by
    rcases h with ⟨-, rfl⟩ | ⟨-, -, hc⟩
    exacts [exposes_freshInferRequest rt, hc]
  have hrunc : rt.Complete (runInference rt request ⟨state⟩ []).2.1.memoryState :=
    (names_runInference rt request _ []).trans hc
  simp only [lockedPart, privateStep, hpre, Status.ite_not_ok, Status.ofCode_code, if_true]
  by_cases hrun : (runInference rt request ⟨state⟩ []).1.code = .OK
  · by_cases hend : spec.sequenceControlInput = SEQUENCE_END
    · simp [hrun, hend, postInferenceProcessing]
    · simp [hrun, hend, postInferenceProcessing, Sequence.updateMemoryState, hrunc]
  · simp only [if_neg hrun, true_and]
    intro s hs
    split_ifs at hs with hst
    · cases hs
    · rcases h with ⟨hst', -⟩ | ⟨-, hq, -⟩
      exacts [absurd hst' hst, ⟨hq.trans (Option.some_inj.1 hs), Option.some_inj.1 hs ▸ hc⟩]

variable {requests : List PredictRequest}

/-- A START and then requests that are not STARTs, as the takers of an
object are. -/
def StartsOnce (T : List Acquisition) : Prop :=
  ∀ a rest, T = a :: rest → a.spec.sequenceControlInput = SEQUENCE_START ∧
    ∀ b ∈ rest, b.spec.sequenceControlInput ≠ SEQUENCE_START

theorem StartsOnce.of_append {F L : List Acquisition} (h : StartsOnce (F ++ L)) : StartsOnce F :=
  fun a rest hF => by
    subst hF
    obtain ⟨ha, hrest⟩ := h a (rest ++ L) rfl
    exact ⟨ha, fun b hb => hrest b (List.mem_append_left _ hb)⟩

/-- Before each taker, the object and the machine agree as one locked part
needs: the first taker is the START, on the model's defaults; a later one
loads what the takers before it left. -/
theorem StartsOnce.mirrors {F G : List Acquisition} {b : Acquisition}
    (h : StartsOnce (F ++ b :: G))
    (hF : F ≠ [] → ∀ s ∈ privateRun rt requests F,
      (replay rt requests F).memoryState = s ∧ rt.Complete s)
    (hs : state ∈ privateRun rt requests F) :
    b.spec.sequenceControlInput = SEQUENCE_START ∧ state = rt.freshInferRequest.memoryState ∨
      b.spec.sequenceControlInput ≠ SEQUENCE_START ∧
        (replay rt requests F).memoryState = state ∧ rt.Complete state := by
  cases F with
  | nil => exact .inl ⟨(h b G rfl).1, (Option.some_inj.1 hs).symm⟩
  | cons a F => exact .inr ⟨(h a (F ++ b :: G) rfl).2 b (by simp), hF (List.cons_ne_nil _ _) _ hs⟩

/-- **Along an object's takers, the object holds the machine's state**: over
a START and then requests that are not STARTs, while the machine holds a
state for the id, the object the locked part leaves holds it, complete. -/
theorem replay_privateRun : ∀ {T : List Acquisition}, StartsOnce T → T ≠ [] →
    ∀ s ∈ privateRun rt requests T, (replay rt requests T).memoryState = s ∧ rt.Complete s := by
  intro T
  induction T using List.reverseRecOn with
  | nil => intro _ hne; exact absurd rfl hne
  | append_singleton F b ih =>
    intro hT _ s hs
    rw [privateRun_append_singleton, Option.mem_def, Option.bind_eq_some] at hs
    obtain ⟨s', hs', hs⟩ := hs
    rw [replay_append_singleton]
    exact (lockedPart_privateStep (hT.mirrors (ih hT.of_append) hs')).2.2 s hs

end Simulation

/-! ## Every interleaving -/

variable {rt} {requests : List PredictRequest} {maxSequenceNumber : UInt32} {nireq threads : Nat}
  {w : World Tensor}

theorem World.Owned.startsOnce (ho : w.Owned) (o : Nat) : StartsOnce (w.shared.takers o) :=
  fun a rest h => ⟨(ho.history o a rest h).1, fun b hb => (ho.history o a rest h).2 b hb |>.2⟩

/-- **An idle sequence holds its private state.** In every world an
interleaving of `infer` calls reaches from a freshly loaded version, a
Sequence object that some request took, no request holds and
`removeSequence` has not destroyed holds, while the abstract machine holds a
state for its id after the requests that took it, exactly that state, with
every variable of the model. -/
theorem sequence_state_private
    (h : Reachable rt requests (World.init rt maxSequenceNumber nireq threads) w) (o : Nat)
    (hlive : o ∉ w.shared.destroyed) (hfree : ∀ j, w.holds j (.sequence o) = false)
    (htaken : w.shared.takers o ≠ []) :
    ∀ state ∈ privateRun rt requests (w.shared.takers o),
      (w.shared.sequences.getD o {}).memoryState = state ∧ rt.Complete state := by
  rw [(linear_of_reachable h).free o hlive hfree]
  exact replay_privateRun ((owned_of_reachable h).startsOnce o) htaken

/-- A START of the sequence `1`, and a CONTINUE of it. -/
def continuedRequests : List PredictRequest :=
  [sequenceRequest 1 SEQUENCE_START, sequenceRequest 1 NO_CONTROL_INPUT]

/-- Where the START and then the CONTINUE, one after the other, leave the
model `tallyRuntime`: the sequence is live, and no request holds it. -/
def continuedWorld : World Nat :=
  scheduled tallyRuntime continuedRequests (World.init tallyRuntime 4 1 2)
    (List.replicate 6 (0, 0) ++ List.replicate 6 (1, 0))

theorem sequence_state_private_continued :
    Reachable tallyRuntime continuedRequests (World.init tallyRuntime 4 1 2) continuedWorld ∧
      0 ∉ continuedWorld.shared.destroyed ∧ (∀ j, continuedWorld.holds j (.sequence 0) = false) ∧
      continuedWorld.shared.takers 0 ≠ [] ∧
      (privateRun tallyRuntime continuedRequests (continuedWorld.shared.takers 0)).isSome ∧
      ∀ state ∈ privateRun tallyRuntime continuedRequests (continuedWorld.shared.takers 0),
        (continuedWorld.shared.sequences.getD 0 {}).memoryState = state ∧
          tallyRuntime.Complete state :=
  have h : Reachable tallyRuntime continuedRequests (World.init tallyRuntime 4 1 2)
      continuedWorld := reachable_scheduled (by decide)
  have hlive : 0 ∉ continuedWorld.shared.destroyed := by decide
  have hfree : ∀ j, continuedWorld.holds j (.sequence 0) = false :=
    World.holds_eq_false_of_available (by simp) (by decide)
  have htaken : continuedWorld.shared.takers 0 ≠ [] := by decide
  ⟨h, hlive, hfree, htaken, by decide, sequence_state_private h 0 hlive hfree htaken⟩

end OvmsStateful
