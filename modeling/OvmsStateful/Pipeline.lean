import OvmsStateful.SequenceManager
/-!
# The pipeline's steps

The collaborators `infer` calls and this repository does not define
(request validation, deserialization, the runtime, serialization) are the
fields of `Runtime`, so every result below holds whatever they do. An
`InferRequest` is the state its variables hold; the compiled model fixes
their names (`Runtime.stateNames`), and every step keeps them
(`exposes_preInferenceProcessing`, `exposes_runInference`,
`exposes_postInferenceProcessing`).

`preInferenceProcessing` loads a sequence's saved state into the infer
request, `runInference` is lines 248–273 of `infer` (deserialize, perform
inference, serialize), and `postInferenceProcessing` saves the state back
and writes the `sequence_id` output. `setStates_of_names` is the fact the
refinement rests on: loading a state saved under exactly the model's names
reproduces it.
-/

namespace OvmsStateful

/-- The compiled model's state variables and the collaborators `infer`
calls, each returning its status as the code does:
`request_validation_utils::validate`, handed the input names to skip;
`deserializePredictRequest`, with the inputs it set; `performInference`,
which from the inputs and the variables' values gives the outputs and each
variable's next value (on a failure, whatever it left there); and
`serializePredictResponse`, which writes outputs into the response's
outputs, possibly some before failing. Variable names are unique in a model. -/
structure Runtime (Tensor : Type) where
  stateNames : List String
  stateNames_nodup : stateNames.Nodup
  defaultState : String → Tensor
  requestValidation : PredictRequest → List String → Status
  deserializePredictRequest : PredictRequest → Status × List (String × Tensor)
  performInference : List (String × Tensor) → List (String × Tensor) →
    Status × List (String × Tensor) × (String → Tensor)
  serializePredictResponse : List (String × Tensor) → TensorMap → Status × TensorMap

/-- An `ov::InferRequest`, as `query_state()` lists its state variables: each
name with the value it holds. -/
structure InferRequest (Tensor : Type) where
  memoryState : List (String × Tensor)
  deriving DecidableEq, Repr

variable {Tensor : Type} (rt : Runtime Tensor)

namespace Runtime

/-- A fresh infer request of the model: every variable at its default. -/
def freshInferRequest : InferRequest Tensor :=
  ⟨rt.stateNames.map fun n => (n, rt.defaultState n)⟩

/-- An infer request exposes exactly the model's state variables. -/
def Exposes (r : InferRequest Tensor) : Prop :=
  r.memoryState.map Prod.fst = rt.stateNames

/-- A saved map holds every state variable of the model, each once. -/
def Complete (saved : List (String × Tensor)) : Prop :=
  saved.map Prod.fst = rt.stateNames

end Runtime

/-- `state.reset()` on every state variable. -/
def resetStates (r : InferRequest Tensor) : InferRequest Tensor :=
  ⟨r.memoryState.map fun p => (p.1, rt.defaultState p.1)⟩

/-- The CONTINUE/END loop of `preInferenceProcessing`: each variable in turn
is set to the value saved under its name; the first name the saved map lacks
ends the loop with `INTERNAL_ERROR`, the variables from it on untouched. -/
def setStates (saved : List (String × Tensor)) :
    List (String × Tensor) → Status × List (String × Tensor)
  | [] => (.ofCode .OK, [])
  | (n, v) :: rest =>
    match saved.lookup n with
    | none => (.ofCode .INTERNAL_ERROR, (n, v) :: rest)
    | some v' => ((setStates saved rest).1, (n, v') :: (setStates saved rest).2)

/-- `preInferenceProcessing`: a START resets every variable, any other
request loads the sequence's saved state. -/
def preInferenceProcessing (inferRequest : InferRequest Tensor) (sequence : Sequence Tensor)
    (spec : SequenceProcessingSpec) : Status × InferRequest Tensor :=
  if spec.sequenceControlInput = SEQUENCE_START then (.ofCode .OK, resetStates rt inferRequest)
  else ((setStates sequence.memoryState inferRequest.memoryState).1,
    ⟨(setStates sequence.memoryState inferRequest.memoryState).2⟩)

/-- Lines 248–273 of `infer`: deserialize the inputs, perform inference, and
serialize the outputs into the response. The status, the infer request with
its variables advanced, and the response. -/
def runInference (request : PredictRequest) (inferRequest : InferRequest Tensor)
    (response : TensorMap) : Status × InferRequest Tensor × TensorMap :=
  let deserialized := rt.deserializePredictRequest request
  if !deserialized.1.ok then (deserialized.1, inferRequest, response) else
  let inferred := rt.performInference deserialized.2 inferRequest.memoryState
  let advanced : InferRequest Tensor :=
    ⟨inferRequest.memoryState.map fun p => (p.1, inferred.2.2 p.1)⟩
  if !inferred.1.ok then (inferred.1, advanced, response) else
  ((rt.serializePredictResponse inferred.2.1 response).1, advanced,
    (rt.serializePredictResponse inferred.2.1 response).2)

/-- The `sequence_id` output: `response["sequence_id"]`, with a dimension of
size 1 added to its shape, its dtype set to `DT_UINT64`, and the id added to
its values. -/
def addSequenceIdOutput (response : TensorMap) (sequenceId : UInt64) : TensorMap :=
  response.modify "sequence_id" fun t =>
    { t with
      tensorShape := t.tensorShape ++ [1]
      dtype := DT_UINT64
      uint64Val := t.uint64Val ++ [sequenceId] }

/-- `postInferenceProcessing`: an END resets every variable, any other
request saves the variables into the sequence; then the resolved id is
written into the response. The status, the response, the infer request and
the sequence. -/
def postInferenceProcessing (response : TensorMap) (inferRequest : InferRequest Tensor)
    (sequence : Sequence Tensor) (spec : SequenceProcessingSpec) :
    Status × TensorMap × InferRequest Tensor × Sequence Tensor :=
  if spec.sequenceControlInput = SEQUENCE_END then
    (.ofCode .OK, addSequenceIdOutput response spec.sequenceId, resetStates rt inferRequest, sequence)
  else
    (.ofCode .OK, addSequenceIdOutput response spec.sequenceId, inferRequest,
      sequence.updateMemoryState inferRequest.memoryState)

/-- **What a successful inference step did**: it serialized the outputs of
the runtime into the response, and advanced every variable. -/
theorem runInference_ok {request : PredictRequest} {r : InferRequest Tensor} {response : TensorMap}
    (h : (runInference rt request r response).1.code = .OK) :
    ∃ outputs, (rt.serializePredictResponse outputs response).1.code = .OK ∧
      (runInference rt request r response).2.2 = (rt.serializePredictResponse outputs response).2 := by
  unfold runInference at *
  dsimp only at h ⊢
  split_ifs at h ⊢ with hd hi
  · exact absurd h (by simpa [Status.ok] using hd)
  · exact absurd h (by simpa [Status.ok] using hi)
  · exact ⟨_, h, rfl⟩

/-! ## The variables' names are the model's -/

@[simp] theorem names_resetStates (r : InferRequest Tensor) :
    (resetStates rt r).memoryState.map Prod.fst = r.memoryState.map Prod.fst := by
  simp [resetStates, Function.comp_def]

theorem exposes_resetStates {r : InferRequest Tensor} (h : rt.Exposes r) :
    rt.Exposes (resetStates rt r) := by
  simpa [Runtime.Exposes] using h

theorem names_setStates (saved : List (String × Tensor)) (l : List (String × Tensor)) :
    (setStates saved l).2.map Prod.fst = l.map Prod.fst := by
  induction l with
  | nil => rfl
  | cons p rest ih =>
    obtain ⟨n, v⟩ := p
    simp only [setStates]
    split <;> simp [ih]

theorem names_preInferenceProcessing (r : InferRequest Tensor) (sequence : Sequence Tensor)
    (spec : SequenceProcessingSpec) :
    (preInferenceProcessing rt r sequence spec).2.memoryState.map Prod.fst =
      r.memoryState.map Prod.fst := by
  unfold preInferenceProcessing
  split
  · exact names_resetStates rt r
  · exact names_setStates _ _

theorem names_runInference (request : PredictRequest) (r : InferRequest Tensor)
    (response : TensorMap) :
    (runInference rt request r response).2.1.memoryState.map Prod.fst =
      r.memoryState.map Prod.fst := by
  unfold runInference
  dsimp only
  split_ifs <;> simp [Function.comp_def]

/-- Post-inference keeps the variables' names, and the Sequence it returns
is the one it got (END) or holds the infer request's variables. -/
theorem postInferenceProcessing_state (response : TensorMap) (r : InferRequest Tensor)
    (sequence : Sequence Tensor) (spec : SequenceProcessingSpec) :
    (postInferenceProcessing rt response r sequence spec).2.2.1.memoryState.map Prod.fst =
        r.memoryState.map Prod.fst ∧
      ((postInferenceProcessing rt response r sequence spec).2.2.2 = sequence ∨
        (postInferenceProcessing rt response r sequence spec).2.2.2.memoryState =
          (postInferenceProcessing rt response r sequence spec).2.2.1.memoryState) := by
  unfold postInferenceProcessing
  split
  · exact ⟨names_resetStates rt r, .inl rfl⟩
  · exact ⟨rfl, .inr rfl⟩

theorem exposes_preInferenceProcessing {r : InferRequest Tensor} (h : rt.Exposes r)
    (sequence : Sequence Tensor) (spec : SequenceProcessingSpec) :
    rt.Exposes (preInferenceProcessing rt r sequence spec).2 :=
  (names_preInferenceProcessing rt r sequence spec).trans h

theorem exposes_runInference {r : InferRequest Tensor} (h : rt.Exposes r)
    (request : PredictRequest) (response : TensorMap) :
    rt.Exposes (runInference rt request r response).2.1 :=
  (names_runInference rt request r response).trans h

theorem exposes_postInferenceProcessing {r : InferRequest Tensor} (h : rt.Exposes r)
    (response : TensorMap) (sequence : Sequence Tensor) (spec : SequenceProcessingSpec) :
    rt.Exposes (postInferenceProcessing rt response r sequence spec).2.2.1 :=
  (postInferenceProcessing_state rt response r sequence spec).1.trans h

theorem exposes_freshInferRequest : rt.Exposes rt.freshInferRequest := by
  simp [Runtime.Exposes, Runtime.freshInferRequest, Function.comp_def]

/-! ## Loading a saved state -/

/-- Loading from a map that holds every name sets each variable to the
value saved under its name. -/
theorem setStates_of_subset {saved l : List (String × Tensor)}
    (h : ∀ n ∈ l.map Prod.fst, n ∈ saved.map Prod.fst) :
    setStates saved l = (.ofCode .OK, l.map fun p => (p.1, (saved.lookup p.1).getD p.2)) := by
  induction l with
  | nil => rfl
  | cons p rest ih =>
    obtain ⟨n, v⟩ := p
    obtain ⟨v', hv'⟩ := Option.isSome_iff_exists.1 ((lookup_isSome_iff saved n).2 (h n (by simp)))
    simp only [setStates, hv', ih fun k hk => h k (by simp [hk]), List.map_cons, Option.getD_some]

/-- **Loading a state saved under the variables' own names reproduces it.**
The names are unique, so each variable finds its own saved value. -/
theorem setStates_of_names {saved l : List (String × Tensor)}
    (hnames : saved.map Prod.fst = l.map Prod.fst) (hnd : (saved.map Prod.fst).Nodup) :
    setStates saved l = (.ofCode .OK, saved) := by
  rw [setStates_of_subset (by simp [hnames])]
  have hlen : l.length = saved.length := by simpa using congrArg List.length hnames.symm
  congr 1
  refine List.ext_getElem (by simp [hlen]) fun i h1 h2 => ?_
  have hk : l[i].1 = saved[i].1 := by
    have := congrArg (fun xs => xs[i]?) hnames
    simp [List.getElem?_eq_getElem h2, List.getElem?_eq_getElem (hlen ▸ h2)] at this
    exact this.symm
  simp [hk, lookup_of_mem hnd (List.getElem_mem h2)]

/-- Any other request loads exactly the complete state the sequence saved. -/
theorem preInferenceProcessing_of_complete {r : InferRequest Tensor} (hr : rt.Exposes r)
    {sequence : Sequence Tensor} (hc : rt.Complete sequence.memoryState)
    {spec : SequenceProcessingSpec} (hs : spec.sequenceControlInput ≠ SEQUENCE_START) :
    preInferenceProcessing rt r sequence spec = (.ofCode .OK, ⟨sequence.memoryState⟩) := by
  have hnames : sequence.memoryState.map Prod.fst = r.memoryState.map Prod.fst := hc.trans hr.symm
  simp [preInferenceProcessing, hs,
    setStates_of_names hnames (hc ▸ rt.stateNames_nodup)]

/-- Loading a saved state succeeds or fails by the variables' names alone,
and on success sets them from the saved map alone. -/
theorem setStates_congr (saved : List (String × Tensor)) :
    ∀ {l l' : List (String × Tensor)}, l.map Prod.fst = l'.map Prod.fst →
      (setStates saved l).1 = (setStates saved l').1 ∧
        ((setStates saved l).1.code = .OK → (setStates saved l).2 = (setStates saved l').2)
  | [], [], _ => ⟨rfl, fun _ => rfl⟩
  | [], _ :: _, h | _ :: _, [], h => by simp at h
  | (n, v) :: rest, (n', v') :: rest', h => by
    simp only [List.map_cons, List.cons.injEq] at h
    obtain ⟨rfl, h⟩ := h
    obtain ⟨h1, h2⟩ := setStates_congr saved h
    simp only [setStates]
    split
    · exact ⟨rfl, fun hc => by cases hc⟩
    · exact ⟨h1, fun hc => by rw [h2 hc]⟩

/-- **Pre-inference reads an infer request's names only**: on one that
exposes the model's variables it succeeds or fails as on a fresh one, and on
success leaves in it what it leaves in a fresh one. -/
theorem preInferenceProcessing_fresh {r : InferRequest Tensor} (hr : rt.Exposes r)
    (sequence : Sequence Tensor) (spec : SequenceProcessingSpec) :
    (preInferenceProcessing rt r sequence spec).1 =
        (preInferenceProcessing rt rt.freshInferRequest sequence spec).1 ∧
      ((preInferenceProcessing rt r sequence spec).1.code = .OK →
        (preInferenceProcessing rt r sequence spec).2 =
          (preInferenceProcessing rt rt.freshInferRequest sequence spec).2) := by
  have hn := hr.trans (exposes_freshInferRequest rt).symm
  have hreset : ∀ r : InferRequest Tensor, resetStates rt r =
      ⟨(r.memoryState.map Prod.fst).map fun n => (n, rt.defaultState n)⟩ := fun r => by
    simp [resetStates, Function.comp_def]
  unfold preInferenceProcessing
  split
  · exact ⟨rfl, fun _ => by rw [hreset, hreset, hn]⟩
  · obtain ⟨h1, h2⟩ := setStates_congr sequence.memoryState hn
    exact ⟨h1, fun hc => by rw [h2 hc]⟩

end OvmsStateful
