import OvmsStateful.Pipeline
/-!
# One call of `infer`

`StatefulModelInstance::infer` with nothing interleaved: the manager and
the infer request are passed in and returned. `inferSequence` is what runs
once the Sequence is locked and the manager released (lines 230–291), so
`infer` is validation, `processRequestedSpec`, the lookup, and then
`inferSequence`. The equations `inferSequence_of_pre_fail`,
`inferSequence_of_run_fail` and `inferSequence_of_run_ok` say what each
path of the locked part returns, and `infer_of_process_ok` hands over to it;
the results below and the refinement are read off them.

Two results about every call: a failed call leaves the manager as it was,
up to the one sequence a START inserted (`infer_failure_atomic`); and a
successful call's `sequence_id` output is a well-formed tensor holding the
resolved id, unless the model itself has an output of that name
(`infer_sequence_id_output`, and `infer_sequence_id_output_collision` for
the model that does).
-/

namespace OvmsStateful

variable {Tensor : Type} (rt : Runtime Tensor)

/-- `SPECIAL_INPUT_NAMES`: the inputs generic validation skips. -/
def SPECIAL_INPUT_NAMES : List String := ["sequence_id", "sequence_control_input"]

/-- `validate`: the special keys, then generic validation of the other inputs. -/
def validate (request : PredictRequest) (spec : SequenceProcessingSpec) :
    Status × SequenceProcessingSpec :=
  if (validateSpecialKeys request spec).1.ok then
    (rt.requestValidation request SPECIAL_INPUT_NAMES, (validateSpecialKeys request spec).2)
  else validateSpecialKeys request spec

/-- What one call of `infer` leaves: its status, the manager, the infer
request it held, and the response. -/
structure InferResult (Tensor : Type) where
  status : Status
  manager : SequenceManager (Sequence Tensor)
  inferRequest : InferRequest Tensor
  response : TensorMap

/-- Lines 230–291 of `infer`, run on the Sequence `getSequence` returned:
pre-inference, inference, post-inference, and an END's removal. -/
def inferSequence (request : PredictRequest) (response : TensorMap)
    (manager : SequenceManager (Sequence Tensor)) (sequence : Sequence Tensor)
    (spec : SequenceProcessingSpec) (inferRequest : InferRequest Tensor) : InferResult Tensor :=
  let pre := preInferenceProcessing rt inferRequest sequence spec
  if !pre.1.ok then ⟨pre.1, manager, pre.2, response⟩ else
  let run := runInference rt request pre.2 response
  if !run.1.ok then ⟨run.1, manager, run.2.1, run.2.2⟩ else
  let post := postInferenceProcessing rt run.2.2 run.2.1 sequence spec
  let manager := manager.updateSequence spec.sequenceId fun _ => post.2.2.2
  if !post.1.ok then ⟨post.1, manager, post.2.2.1, post.2.1⟩ else
  if spec.sequenceControlInput = SEQUENCE_END then
    ⟨(manager.removeSequence spec.sequenceId).1, (manager.removeSequence spec.sequenceId).2,
      post.2.2.1, post.2.1⟩
  else ⟨.ofCode .OK, manager, post.2.2.1, post.2.1⟩

/-- `StatefulModelInstance::infer`, one call with nothing interleaved. The
`sequenceExists` check and `getSequence` are one lookup here. -/
def infer (request : PredictRequest) (response : TensorMap)
    (manager : SequenceManager (Sequence Tensor)) (inferRequest : InferRequest Tensor) :
    InferResult Tensor :=
  let v := validate rt request {}
  if !v.1.ok then ⟨v.1, manager, inferRequest, response⟩ else
  let p := manager.processRequestedSpec {} v.2
  if !p.1.ok then ⟨p.1, p.2.1, inferRequest, response⟩ else
  match p.2.1.getSequence p.2.2.sequenceId with
  | none => ⟨.ofCode .INTERNAL_ERROR, p.2.1, inferRequest, response⟩
  | some sequence => inferSequence rt request response p.2.1 sequence p.2.2 inferRequest

/-! ## The paths of a call -/

section Paths

variable {request : PredictRequest} {response : TensorMap}
  {manager : SequenceManager (Sequence Tensor)} {sequence : Sequence Tensor}
  {spec : SequenceProcessingSpec} {inferRequest : InferRequest Tensor}

theorem inferSequence_of_pre_fail
    (h : (preInferenceProcessing rt inferRequest sequence spec).1.code ≠ .OK) :
    inferSequence rt request response manager sequence spec inferRequest =
      ⟨(preInferenceProcessing rt inferRequest sequence spec).1, manager,
        (preInferenceProcessing rt inferRequest sequence spec).2, response⟩ := by
  simp [inferSequence, Status.ok, h]

theorem inferSequence_of_run_fail
    (hpre : (preInferenceProcessing rt inferRequest sequence spec).1.code = .OK)
    (h : (runInference rt request (preInferenceProcessing rt inferRequest sequence spec).2
      response).1.code ≠ .OK) :
    inferSequence rt request response manager sequence spec inferRequest =
      ⟨(runInference rt request (preInferenceProcessing rt inferRequest sequence spec).2
          response).1, manager,
        (runInference rt request (preInferenceProcessing rt inferRequest sequence spec).2
          response).2.1,
        (runInference rt request (preInferenceProcessing rt inferRequest sequence spec).2
          response).2.2⟩ := by
  simp [inferSequence, Status.ok, hpre, h]

/-- **The locked part, when inference succeeds.** The response gets the
`sequence_id` output; an END resets the infer request and removes the
sequence, any other request saves the advanced state into it. -/
theorem inferSequence_of_run_ok (hseq : manager.getSequence spec.sequenceId = some sequence)
    (hpre : (preInferenceProcessing rt inferRequest sequence spec).1.code = .OK)
    (hrun : (runInference rt request (preInferenceProcessing rt inferRequest sequence spec).2
      response).1.code = .OK) :
    let run := runInference rt request (preInferenceProcessing rt inferRequest sequence spec).2
      response
    inferSequence rt request response manager sequence spec inferRequest =
      if spec.sequenceControlInput = SEQUENCE_END then
        ⟨.ofCode .OK, manager.eraseSequence spec.sequenceId, resetStates rt run.2.1,
          addSequenceIdOutput run.2.2 spec.sequenceId⟩
      else
        ⟨.ofCode .OK, manager.updateSequence spec.sequenceId fun _ => ⟨run.2.1.memoryState⟩,
          run.2.1, addSequenceIdOutput run.2.2 spec.sequenceId⟩ := by
  have hmem := manager.mem_ids_of_getSequence hseq
  by_cases hend : spec.sequenceControlInput = SEQUENCE_END
  · simp [inferSequence, postInferenceProcessing, Status.ok, hpre, hrun, hend,
      manager.updateSequence_of_getSequence hseq, SequenceManager.removeSequence, hmem,
      Status.ofCode]
  · simp [inferSequence, postInferenceProcessing, Status.ok, hpre, hrun, hend,
      Sequence.updateMemoryState]

theorem infer_of_validate_fail (h : (validate rt request {}).1.code ≠ .OK) :
    infer rt request response manager inferRequest =
      ⟨(validate rt request {}).1, manager, inferRequest, response⟩ := by
  simp [infer, Status.ok, h]

theorem infer_of_process_fail (hv : (validate rt request {}).1.code = .OK)
    (h : (manager.processRequestedSpec {} (validate rt request {}).2).1.code ≠ .OK) :
    infer rt request response manager inferRequest =
      ⟨(manager.processRequestedSpec {} (validate rt request {}).2).1,
        (manager.processRequestedSpec {} (validate rt request {}).2).2.1, inferRequest,
        response⟩ := by
  simp [infer, Status.ok, hv, h]

/-- **Past `processRequestedSpec`, the call is its locked part**, on the
Sequence the id resolved to, which the manager always holds. -/
theorem infer_of_process_ok (hv : (validate rt request {}).1.code = .OK)
    {status : Status} {m' : SequenceManager (Sequence Tensor)} {spec' : SequenceProcessingSpec}
    (hp : manager.processRequestedSpec {} (validate rt request {}).2 = (status, m', spec'))
    (h : status.code = .OK) :
    ∃ sequence, m'.getSequence spec'.sequenceId = some sequence ∧
      infer rt request response manager inferRequest =
        inferSequence rt request response m' sequence spec' inferRequest := by
  have hmem : spec'.sequenceId ∈ m'.ids := by
    rcases manager.processRequestedSpec_cases hp with ⟨hne, -⟩ | ⟨-, -, -, -, _, _, _, rfl⟩ |
      ⟨-, -, rfl, rfl, hm⟩
    · exact absurd h hne
    · simp
    · exact hm
  obtain ⟨sequence, hs⟩ := m'.getSequence_of_mem hmem
  refine ⟨sequence, hs, ?_⟩
  simp [infer, Status.ok, hv, hp, h, hs]

end Paths

/-- On `OK`, validation resolved the request's own id and control value. -/
theorem validate_of_ok {request : PredictRequest} (h : (validate rt request {}).1.code = .OK) :
    (validate rt request {}).2 = ⟨requestedId request, requestedControl request⟩ := by
  unfold validate at *
  by_cases hs : (validateSpecialKeys request {}).1.ok
  · rw [if_pos hs]; exact validateSpecialKeys_of_ok (by simpa [Status.ok] using hs)
  · rw [if_neg hs] at h ⊢; exact validateSpecialKeys_of_ok h

/-- The locked part of a failed call gives the manager back as it got it. -/
theorem inferSequence_manager_of_fail {request : PredictRequest} {response : TensorMap}
    {manager : SequenceManager (Sequence Tensor)} {sequence : Sequence Tensor}
    {spec : SequenceProcessingSpec} {inferRequest : InferRequest Tensor}
    (hseq : manager.getSequence spec.sequenceId = some sequence)
    (h : (inferSequence rt request response manager sequence spec inferRequest).status.code ≠ .OK) :
    (inferSequence rt request response manager sequence spec inferRequest).manager = manager := by
  by_cases hpre : (preInferenceProcessing rt inferRequest sequence spec).1.code = .OK
  · by_cases hrun : (runInference rt request (preInferenceProcessing rt inferRequest sequence spec).2
      response).1.code = .OK
    · rw [inferSequence_of_run_ok rt hseq hpre hrun] at h
      by_cases hend : spec.sequenceControlInput = SEQUENCE_END <;> simp [hend, Status.ofCode] at h
    · rw [inferSequence_of_run_fail rt hpre hrun]
  · rw [inferSequence_of_pre_fail rt hpre]

/-! ## A model to run -/

/-- A model with one state variable `h` and one output `y`. -/
def counterRuntime : Runtime Nat where
  stateNames := ["h"]
  stateNames_nodup := by decide
  defaultState _ := 0
  requestValidation _ _ := .ofCode .OK
  deserializePredictRequest _ := (.ofCode .OK, [])
  performInference _ _ := (.ofCode .OK, [("y", 0)], fun _ => 0)
  serializePredictResponse _ response := (.ofCode .OK, response.modify "y" fun t => t)

/-- A START that leaves the id to the server. -/
def startRequest : PredictRequest :=
  ⟨[("sequence_control_input", { tensorShape := [1], uint32Val := [1] })]⟩

/-- A request naming `sequenceId` and the control value `control`. -/
def sequenceRequest (sequenceId : UInt64) (control : UInt32) : PredictRequest :=
  ⟨[("sequence_id", { tensorShape := [1], uint64Val := [sequenceId] }),
    ("sequence_control_input", { tensorShape := [1], uint32Val := [control] })]⟩

/-! ## A failed call -/

/-- **Failure atomicity of `infer`.** A call that fails removes no sequence
and changes no saved state: the manager is the one it was given, or that
one with a single new, empty sequence under a fresh non-zero id, which a
START inserted in `processRequestedSpec` before a later step failed. A
failure in validation leaves the manager exactly as it was. -/
theorem infer_failure_atomic (request : PredictRequest) (response : TensorMap)
    (manager : SequenceManager (Sequence Tensor)) (inferRequest : InferRequest Tensor)
    (hfail : (infer rt request response manager inferRequest).status.code ≠ .OK) :
    ((infer rt request response manager inferRequest).manager = manager ∨
      ∃ sequenceId, sequenceId ∉ manager.ids ∧ sequenceId ≠ 0 ∧
        requestedControl request = SEQUENCE_START ∧
        (infer rt request response manager inferRequest).manager.sequences =
          manager.sequences ++ [(sequenceId, ⟨[]⟩)] ∧
        (infer rt request response manager inferRequest).manager.maxSequenceNumber =
          manager.maxSequenceNumber) ∧
    ((validate rt request {}).1.code ≠ .OK →
      (infer rt request response manager inferRequest).manager = manager) := by
  by_cases hv : (validate rt request {}).1.code = .OK
  · refine ⟨?_, fun h => absurd hv h⟩
    rcases hp : manager.processRequestedSpec {} (validate rt request {}).2 with ⟨st, m', spec'⟩
    by_cases hst : st.code = .OK
    · obtain ⟨sequence, hs, heq⟩ := infer_of_process_ok rt hv hp hst
      rw [heq] at hfail ⊢
      rw [inferSequence_manager_of_fail rt hs hfail]
      rcases manager.processRequestedSpec_cases hp with ⟨hne, -⟩ |
        ⟨-, hstart, -, -, hfree, hne0, _, rfl⟩ | ⟨-, -, -, rfl, -⟩
      · exact absurd hst hne
      · rw [validate_of_ok rt hv] at hstart
        exact .inr ⟨_, hfree, hne0, hstart, rfl, rfl⟩
      · exact .inl rfl
    · rw [infer_of_process_fail rt hv (by rw [hp]; exact hst), hp]
      exact .inl (manager.processRequestedSpec_of_fail hp hst).1
  · rw [infer_of_validate_fail rt hv]
    exact ⟨.inl rfl, fun _ => rfl⟩

/-- `counterRuntime` with an inference that always fails. -/
def failingRuntime : Runtime Nat :=
  { counterRuntime with performInference := fun _ _ => (.ofCode (.other 1), [], fun _ => 0) }

theorem infer_failure_atomic_start_and_end :
    let start := infer failingRuntime startRequest [] (.empty 4) failingRuntime.freshInferRequest
    let stop := infer counterRuntime (sequenceRequest 0 SEQUENCE_END) [] (.empty 4)
      counterRuntime.freshInferRequest
    -- a START that fails in inference keeps the sequence it inserted
    (start.status.code ≠ .OK ∧ start.manager.sequences = [(1, ⟨[]⟩)] ∧
      (start.manager = .empty 4 ∨
        ∃ sequenceId, sequenceId ∉ (SequenceManager.empty 4 : SequenceManager (Sequence Nat)).ids ∧
          sequenceId ≠ 0 ∧ requestedControl startRequest = SEQUENCE_START ∧
          start.manager.sequences =
            (SequenceManager.empty 4 : SequenceManager (Sequence Nat)).sequences ++
              [(sequenceId, ⟨[]⟩)] ∧
          start.manager.maxSequenceNumber =
            (SequenceManager.empty 4 : SequenceManager (Sequence Nat)).maxSequenceNumber) ∧
      ((validate failingRuntime startRequest {}).1.code ≠ .OK → start.manager = .empty 4)) ∧
    -- an END without an id fails validation and changes nothing
    (stop.status.code ≠ .OK ∧
      (validate counterRuntime (sequenceRequest 0 SEQUENCE_END) {}).1.code ≠ .OK ∧
      (stop.manager = .empty 4 ∨
        ∃ sequenceId, sequenceId ∉ (SequenceManager.empty 4 : SequenceManager (Sequence Nat)).ids ∧
          sequenceId ≠ 0 ∧ requestedControl (sequenceRequest 0 SEQUENCE_END) = SEQUENCE_START ∧
          stop.manager.sequences =
            (SequenceManager.empty 4 : SequenceManager (Sequence Nat)).sequences ++
              [(sequenceId, ⟨[]⟩)] ∧
          stop.manager.maxSequenceNumber =
            (SequenceManager.empty 4 : SequenceManager (Sequence Nat)).maxSequenceNumber) ∧
      ((validate counterRuntime (sequenceRequest 0 SEQUENCE_END) {}).1.code ≠ .OK →
        stop.manager = .empty 4)) :=
  have hstart : (infer failingRuntime startRequest [] (.empty 4)
      failingRuntime.freshInferRequest).status.code ≠ .OK := by decide
  have hstop : (infer counterRuntime (sequenceRequest 0 SEQUENCE_END) [] (.empty 4)
      counterRuntime.freshInferRequest).status.code ≠ .OK := by decide
  ⟨⟨hstart, by decide, infer_failure_atomic failingRuntime _ _ _ _ hstart⟩,
    ⟨hstop, by decide, infer_failure_atomic counterRuntime _ _ _ _ hstop⟩⟩

/-! ## The `sequence_id` output -/

/-- The `sequence_id` output a response without one gets: shape `[1]`,
dtype `DT_UINT64`, the id as its only value, and no other payload. -/
theorem find_addSequenceIdOutput {response : TensorMap} (h : "sequence_id" ∉ response.keys)
    (sequenceId : UInt64) :
    (addSequenceIdOutput response sequenceId).find "sequence_id" =
      some { dtype := DT_UINT64, tensorShape := [1], uint64Val := [sequenceId] } := by
  simp [addSequenceIdOutput, TensorMap.find_eq_none h]

/-- The response of a successful locked part is the serialized response
with the `sequence_id` output added. -/
theorem inferSequence_response_of_ok {request : PredictRequest} {response : TensorMap}
    {manager : SequenceManager (Sequence Tensor)} {sequence : Sequence Tensor}
    {spec : SequenceProcessingSpec} {inferRequest : InferRequest Tensor}
    (hseq : manager.getSequence spec.sequenceId = some sequence)
    (h : (inferSequence rt request response manager sequence spec inferRequest).status.code = .OK) :
    ∃ outputs, (rt.serializePredictResponse outputs response).1.code = .OK ∧
      (inferSequence rt request response manager sequence spec inferRequest).response =
        addSequenceIdOutput (rt.serializePredictResponse outputs response).2 spec.sequenceId := by
  by_cases hpre : (preInferenceProcessing rt inferRequest sequence spec).1.code = .OK
  · by_cases hrun : (runInference rt request (preInferenceProcessing rt inferRequest sequence spec).2
      response).1.code = .OK
    · obtain ⟨outputs, hser, hresp⟩ := runInference_ok rt hrun
      refine ⟨outputs, hser, ?_⟩
      rw [inferSequence_of_run_ok rt hseq hpre hrun]
      split <;> simp [hresp]
    · rw [inferSequence_of_run_fail rt hpre hrun] at h; exact absurd h hrun
  · rw [inferSequence_of_pre_fail rt hpre] at h; exact absurd h hpre

/-- **A successful call's `sequence_id` output is well formed**, for every
model none of whose outputs is named `sequence_id`: started from an empty
response, the response holds the serialized outputs unmodified, and a
`sequence_id` output of shape `[1]` and dtype `DT_UINT64` whose one value is
the non-zero id the client sent, or, for a START without one, the id
`processRequestedSpec` generated. -/
theorem infer_sequence_id_output (request : PredictRequest)
    (manager : SequenceManager (Sequence Tensor)) (inferRequest : InferRequest Tensor)
    (hok : (infer rt request [] manager inferRequest).status.code = .OK)
    (hno : ∀ outputs, "sequence_id" ∉ (rt.serializePredictResponse outputs []).2.keys) :
    ∃ sequenceId outputs, (rt.serializePredictResponse outputs []).1.code = .OK ∧
      (infer rt request [] manager inferRequest).response.find "sequence_id" =
        some { dtype := DT_UINT64, tensorShape := [1], uint64Val := [sequenceId] } ∧
      (∀ k, k ≠ "sequence_id" → (infer rt request [] manager inferRequest).response.find k =
        (rt.serializePredictResponse outputs []).2.find k) ∧
      sequenceId ≠ 0 ∧
      (sequenceId = requestedId request ∨
        requestedId request = 0 ∧ requestedControl request = SEQUENCE_START ∧
          sequenceId = SequenceManager.uniqueSequenceId manager.ids) := by
  have hv : (validate rt request {}).1.code = .OK := by
    by_contra hv
    rw [infer_of_validate_fail rt hv] at hok
    exact hv hok
  rcases hp : manager.processRequestedSpec {} (validate rt request {}).2 with ⟨st, m', spec'⟩
  have hst : st.code = .OK := by
    by_contra hst
    rw [infer_of_process_fail rt hv (by rw [hp]; exact hst), hp] at hok
    exact hst hok
  obtain ⟨sequence, hs, heq⟩ := infer_of_process_ok rt hv hp hst
  rw [heq] at hok ⊢
  obtain ⟨outputs, hser, hresp⟩ := inferSequence_response_of_ok rt hs hok
  refine ⟨spec'.sequenceId, outputs, hser, ?_, fun k hk => ?_, ?_⟩
  · rw [hresp, find_addSequenceIdOutput (hno outputs)]
  · rw [hresp, addSequenceIdOutput, TensorMap.find_modify_ne _ _ hk]
  · have hreq := validate_of_ok rt hv
    rcases manager.processRequestedSpec_cases hp with ⟨hne, -⟩ |
      ⟨-, hstart, -, hid, -, hne0, -⟩ | ⟨-, -, hspec, -, hmem⟩
    · exact absurd hst hne
    · rw [hreq] at hstart hid
      refine ⟨hne0, ?_⟩
      rcases hid with ⟨h0, hgen⟩ | hid
      · exact .inr ⟨h0, hstart, hgen⟩
      · exact .inl hid.symm
    · rw [hspec, hreq] at *
      exact ⟨manager.ne_zero_of_mem hmem, .inl rfl⟩

theorem infer_sequence_id_output_start :
    (infer counterRuntime startRequest [] (.empty 4) counterRuntime.freshInferRequest).status.code =
        .OK ∧
      (∀ outputs, "sequence_id" ∉ (counterRuntime.serializePredictResponse outputs []).2.keys) ∧
      ∃ sequenceId outputs, (counterRuntime.serializePredictResponse outputs []).1.code = .OK ∧
        (infer counterRuntime startRequest [] (.empty 4)
          counterRuntime.freshInferRequest).response.find "sequence_id" =
          some { dtype := DT_UINT64, tensorShape := [1], uint64Val := [sequenceId] } ∧
        (∀ k, k ≠ "sequence_id" → (infer counterRuntime startRequest [] (.empty 4)
          counterRuntime.freshInferRequest).response.find k =
          (counterRuntime.serializePredictResponse outputs []).2.find k) ∧
        sequenceId ≠ 0 ∧
        (sequenceId = requestedId startRequest ∨
          requestedId startRequest = 0 ∧ requestedControl startRequest = SEQUENCE_START ∧
            sequenceId = SequenceManager.uniqueSequenceId
              (SequenceManager.empty 4 : SequenceManager (Sequence Nat)).ids) := by
  have hok : (infer counterRuntime startRequest [] (.empty 4)
      counterRuntime.freshInferRequest).status.code = .OK := by decide
  have hno : ∀ outputs,
      "sequence_id" ∉ (counterRuntime.serializePredictResponse outputs []).2.keys := fun _ => by
    simp [counterRuntime, TensorMap.modify, TensorMap.keys]
  exact ⟨hok, hno, infer_sequence_id_output counterRuntime startRequest (.empty 4)
    counterRuntime.freshInferRequest hok hno⟩

/-- `counterRuntime`, but with a model output named `sequence_id`. -/
def collidingRuntime : Runtime Nat :=
  { counterRuntime with
    serializePredictResponse := fun _ response =>
      (.ofCode .OK, response.modify "sequence_id" fun _ =>
        { dtype := 1, tensorShape := [1], tensorContent := [7] }) }

/-- **A model output named `sequence_id` is appended to.** The call succeeds,
and the `sequence_id` output is the model's tensor with a second dimension
and the id added, so its shape is `[1, 1]`, not `[1]`. -/
theorem infer_sequence_id_output_collision :
    (infer collidingRuntime startRequest [] (.empty 4)
        collidingRuntime.freshInferRequest).status.code = .OK ∧
      ((infer collidingRuntime startRequest [] (.empty 4)
        collidingRuntime.freshInferRequest).response.find "sequence_id").map
          TensorProto.tensorShape = some [1, 1] := by
  decide

end OvmsStateful
