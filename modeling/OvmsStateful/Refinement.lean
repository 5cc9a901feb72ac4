import OvmsStateful.Infer
/-!
# Pooled infer requests refine private per-sequence state

What the sequence machinery is for: each live id owns a private state, a
START sets it to the model's defaults, each successful inference step reads
it and (START, CONTINUE) replaces it with the step's output state, a
successful END deletes the id, and a failed request changes nothing. That is
`privateInfer`, over a store of states.

The code keeps no state per request: the variables live in a pool of infer
requests, shared by all sequences, each keeping whatever its last user left.
`infer_refines_privateInfer` shows one call on any pooled infer request
answers as `privateInfer` does, on the store the manager stands for
(`privateStore`), and keeps the invariant that makes this work
(`SavedComplete`: every live sequence saved every variable). The proof rests
on pre-inference overwriting every variable (`preInferenceProcessing_start`,
`preInferenceProcessing_of_complete`) and post-inference saving every
variable. `serveAll_refines_privateAll` lifts this to every sequential run,
with any assignment of pool entries to requests, provided no START fails
after inserting its sequence (`StartsComplete`).
-/

namespace OvmsStateful

variable {Tensor : Type} (rt : Runtime Tensor)

/-- **The abstract machine's step.** Each live id owns a state; a request
runs the model's step on its own id's state (a fresh START's being the
defaults) and keeps the result, or deletes the id on END. The status, the
store, and the response. -/
def privateInfer (request : PredictRequest) (store : SequenceManager (List (String × Tensor))) :
    Status × SequenceManager (List (String × Tensor)) × TensorMap :=
  let v := validate rt request {}
  if !v.1.ok then (v.1, store, []) else
  let p := store.processRequestedSpec rt.freshInferRequest.memoryState v.2
  if !p.1.ok then (p.1, store, []) else
  match p.2.1.getSequence p.2.2.sequenceId with
  | none => (.ofCode .INTERNAL_ERROR, store, [])
  | some state =>
    let run := runInference rt request ⟨state⟩ []
    if !run.1.ok then (run.1, store, run.2.2)
    else if p.2.2.sequenceControlInput = SEQUENCE_END then
      (.ofCode .OK, p.2.1.eraseSequence p.2.2.sequenceId,
        addSequenceIdOutput run.2.2 p.2.2.sequenceId)
    else
      (.ofCode .OK, p.2.1.updateSequence p.2.2.sequenceId (fun _ => run.2.1.memoryState),
        addSequenceIdOutput run.2.2 p.2.2.sequenceId)

/-- The private store a manager stands for: each live id's saved state. -/
def privateStore (manager : SequenceManager (Sequence Tensor)) :
    SequenceManager (List (String × Tensor)) :=
  manager.map Sequence.memoryState

/-- Every live sequence saved every variable of the model. -/
def SavedComplete (manager : SequenceManager (Sequence Tensor)) : Prop :=
  ∀ p ∈ manager.sequences, rt.Complete p.2.memoryState

/-- A START whose sequence `processRequestedSpec` inserted, and which then
failed. -/
def StartFailsLate (manager : SequenceManager (Sequence Tensor)) (request : PredictRequest)
    (inferRequest : InferRequest Tensor) : Prop :=
  (validate rt request {}).1.code = .OK ∧
    (validate rt request {}).2.sequenceControlInput = SEQUENCE_START ∧
    (manager.processRequestedSpec {} (validate rt request {}).2).1.code = .OK ∧
    (infer rt request [] manager inferRequest).status.code ≠ .OK

/-! ## Pre-inference overwrites every variable -/

/-- A START resets the infer request to the model's fresh one, whatever its
last user left. -/
theorem preInferenceProcessing_start {r : InferRequest Tensor} (hr : rt.Exposes r)
    (sequence : Sequence Tensor) {spec : SequenceProcessingSpec}
    (hs : spec.sequenceControlInput = SEQUENCE_START) :
    preInferenceProcessing rt r sequence spec = (.ofCode .OK, rt.freshInferRequest) := by
  simp only [preInferenceProcessing, hs, if_true, resetStates, Runtime.freshInferRequest,
    Prod.mk.injEq, InferRequest.mk.injEq, true_and]
  rw [← hr, List.map_map]; rfl

/-! ## The invariant -/

section Saved

variable {rt} {manager : SequenceManager (Sequence Tensor)}

theorem savedComplete_createSequence (h : SavedComplete rt manager) {w : List (String × Tensor)}
    (hw : rt.Complete w) {sequenceId : UInt64} {hfree hne hlt} :
    SavedComplete rt (manager.createSequence sequenceId ⟨w⟩ hfree hne hlt) := by
  intro p hp
  simp only [SequenceManager.createSequence, List.mem_append, List.mem_singleton] at hp
  rcases hp with hp | rfl
  exacts [h p hp, hw]

theorem savedComplete_updateSequence (h : SavedComplete rt manager) {w : List (String × Tensor)}
    (hw : rt.Complete w) (sequenceId : UInt64) :
    SavedComplete rt (manager.updateSequence sequenceId fun _ => ⟨w⟩) := by
  intro p hp
  obtain ⟨q, hq, rfl⟩ := List.mem_map.1 hp
  split
  exacts [hw, h q hq]

theorem savedComplete_eraseSequence (h : SavedComplete rt manager) (sequenceId : UInt64) :
    SavedComplete rt (manager.eraseSequence sequenceId) :=
  fun p hp => h p (List.mem_of_mem_filter hp)

end Saved

/-! ## One call -/

/-- One call of `infer` on a pooled infer request answers as `privateInfer`
does on the store the manager stands for, and leaves every live sequence's
saved state complete and the infer request exposing the model's variables. -/
def Refines (request : PredictRequest) (manager : SequenceManager (Sequence Tensor))
    (r : InferRequest Tensor) : Prop :=
  (infer rt request [] manager r).status = (privateInfer rt request (privateStore manager)).1 ∧
    (infer rt request [] manager r).response =
      (privateInfer rt request (privateStore manager)).2.2 ∧
    privateStore (infer rt request [] manager r).manager =
      (privateInfer rt request (privateStore manager)).2.1 ∧
    SavedComplete rt (infer rt request [] manager r).manager ∧
    rt.Exposes (infer rt request [] manager r).inferRequest

section OneCall

variable {rt} {request : PredictRequest} {manager : SequenceManager (Sequence Tensor)}
  {r : InferRequest Tensor}

theorem refines_of_validate_fail (hsaved : SavedComplete rt manager) (hr : rt.Exposes r)
    (hv : (validate rt request {}).1.code ≠ .OK) : Refines rt request manager r := by
  rw [Refines, infer_of_validate_fail rt hv]
  simp [privateInfer, Status.ok, hv, hsaved, hr]

theorem refines_of_process_fail (hsaved : SavedComplete rt manager) (hr : rt.Exposes r)
    (hv : (validate rt request {}).1.code = .OK)
    (hp : (manager.processRequestedSpec {} (validate rt request {}).2).1.code ≠ .OK) :
    Refines rt request manager r := by
  obtain ⟨hst, hspec⟩ := SequenceManager.processRequestedSpec_congr
    (SequenceManager.ids_map manager Sequence.memoryState).symm rfl ({} : Sequence Tensor)
    rt.freshInferRequest.memoryState (validate rt request {}).2
  rcases hq : manager.processRequestedSpec {} (validate rt request {}).2 with ⟨st, m', spec'⟩
  rw [hq] at hp
  have hm' := (manager.processRequestedSpec_of_fail hq hp).1
  rw [Refines, infer_of_process_fail rt hv (by rw [hq]; exact hp), hq]
  rw [hq] at hst
  simp only [privateInfer, privateStore] at hst ⊢
  simp [Status.ok, hv, ← hst, hp, hm', hsaved, hr, privateStore]

/-- The abstract side of a successful `processRequestedSpec`: the same
status and spec, and a store that is the manager's, but for the fresh value. -/
theorem privateStore_processRequestedSpec (rt : Runtime Tensor) {st : Status} {m' : SequenceManager (Sequence Tensor)}
    {spec spec' : SequenceProcessingSpec}
    (hq : manager.processRequestedSpec {} spec = (st, m', spec')) :
    (privateStore manager).processRequestedSpec rt.freshInferRequest.memoryState spec =
      (st, ((privateStore manager).processRequestedSpec rt.freshInferRequest.memoryState
        spec).2.1, spec') := by
  obtain ⟨hst, hspec⟩ := SequenceManager.processRequestedSpec_congr
    (SequenceManager.ids_map manager Sequence.memoryState).symm rfl ({} : Sequence Tensor)
    rt.freshInferRequest.memoryState spec
  simp only [privateStore]
  rw [hq] at hst hspec
  exact Prod.ext hst.symm (Prod.ext rfl hspec.symm)

theorem refines_of_start (hsaved : SavedComplete rt manager) (hr : rt.Exposes r)
    (hv : (validate rt request {}).1.code = .OK) (hlate : ¬ StartFailsLate rt manager request r)
    {st : Status} {m' : SequenceManager (Sequence Tensor)} {spec' : SequenceProcessingSpec}
    (hq : manager.processRequestedSpec {} (validate rt request {}).2 = (st, m', spec'))
    (hst : st.code = .OK) (hstart : (validate rt request {}).2.sequenceControlInput = SEQUENCE_START) :
    Refines rt request manager r := by
  obtain ⟨sequence, hs, heq⟩ : ∃ sequence, _ ∧ infer rt request [] manager r = _ :=
    infer_of_process_ok rt hv hq hst
  have hq2 := privateStore_processRequestedSpec rt hq
  rcases manager.processRequestedSpec_cases hq with ⟨hne, -⟩ | ⟨-, -, hspec', -, hfree, hne0, hlt, rfl⟩ |
    ⟨-, hns, -⟩
  · exact absurd hst hne
  · rw [SequenceManager.getSequence_createSequence, Option.some_inj] at hs
    subst hs
    have hs' : spec'.sequenceControlInput = SEQUENCE_START := by rw [hspec']; exact hstart
    have hpre := preInferenceProcessing_start rt hr ⟨[]⟩ hs'
    rcases (privateStore manager).processRequestedSpec_cases hq2 with ⟨hne, -⟩ |
      ⟨-, -, -, -, hfree2, hne2, hlt2, hp'⟩ | ⟨-, hns, -⟩
    · exact absurd hst hne
    · by_cases hrun : (runInference rt request rt.freshInferRequest []).1.code = .OK
      · rw [Refines, heq, inferSequence_of_run_ok rt (by simp) (by rw [hpre]; rfl)
          (by rw [hpre]; exact hrun)]
        have hne : spec'.sequenceControlInput ≠ SEQUENCE_END := by rw [hs']; decide
        simp only [privateInfer, hpre, hne, if_false]
        rw [hq2, hp']
        have hexp := exposes_runInference rt (exposes_freshInferRequest rt) request []
        simp [Status.ok, hv, hst, hrun, hne, SequenceManager.updateSequence_createSequence,
          privateStore, SequenceManager.map_createSequence, savedComplete_createSequence hsaved hexp, hexp]
      · refine absurd ⟨hv, hstart, by rw [hq]; exact hst, ?_⟩ hlate
        rw [heq, inferSequence_of_run_fail rt (by rw [hpre]; rfl) (by rw [hpre]; exact hrun)]
        simpa [hpre] using hrun
    · exact absurd hstart hns
  · exact absurd hstart hns

theorem refines_of_continue (hsaved : SavedComplete rt manager) (hr : rt.Exposes r)
    (hv : (validate rt request {}).1.code = .OK) {st : Status}
    {m' : SequenceManager (Sequence Tensor)} {spec' : SequenceProcessingSpec}
    (hq : manager.processRequestedSpec {} (validate rt request {}).2 = (st, m', spec'))
    (hst : st.code = .OK) (hns : (validate rt request {}).2.sequenceControlInput ≠ SEQUENCE_START) :
    Refines rt request manager r := by
  obtain ⟨sequence, hs, heq⟩ : ∃ sequence, _ ∧ infer rt request [] manager r = _ :=
    infer_of_process_ok rt hv hq hst
  have hq2 := privateStore_processRequestedSpec rt hq
  rcases manager.processRequestedSpec_cases hq with ⟨hne, -⟩ | ⟨-, hstart, -⟩ |
    ⟨-, -, rfl, hm, -⟩
  · exact absurd hst hne
  · exact absurd hstart hns
  rw [hm] at hs heq
  have hc : rt.Complete sequence.memoryState := hsaved _ (manager.mem_of_getSequence hs)
  have hpre := preInferenceProcessing_of_complete rt hr hc hns
  have hs2 : (privateStore manager).getSequence (validate rt request {}).2.sequenceId =
      some sequence.memoryState := by simp [privateStore, hs]
  have hexp := exposes_runInference rt (r := ⟨sequence.memoryState⟩) hc request []
  rcases (privateStore manager).processRequestedSpec_cases hq2 with ⟨hne, -⟩ | ⟨-, hstart, -⟩ |
    ⟨-, -, -, hp', -⟩
  · exact absurd hst hne
  · exact absurd hstart hns
  rw [hp'] at hq2
  rw [Refines, heq]
  simp only [privateInfer, hq2, hs2]
  by_cases hrun : (runInference rt request ⟨sequence.memoryState⟩ []).1.code = .OK
  · rw [inferSequence_of_run_ok rt hs (by rw [hpre]; rfl) (by rw [hpre]; exact hrun)]
    by_cases hend : (validate rt request {}).2.sequenceControlInput = SEQUENCE_END
    · simp [Status.ok, hv, hst, hpre, hrun, hend, privateStore,
        SequenceManager.map_eraseSequence, savedComplete_eraseSequence hsaved,
        exposes_resetStates rt hexp]
    · simp [Status.ok, hv, hst, hpre, hrun, hend, privateStore,
        SequenceManager.map_updateSequence, savedComplete_updateSequence hsaved hexp, hexp]
  · rw [inferSequence_of_run_fail rt (by rw [hpre]; rfl) (by rw [hpre]; exact hrun)]
    simp [Status.ok, hv, hst, hpre, hrun, privateStore, hsaved, hexp]

/-- **One call refines the abstract step**, on any pooled infer request that
exposes the model's variables, when every live sequence saved a complete
state and the call is not a START failing after it inserted its sequence. -/
theorem infer_refines_privateInfer (hsaved : SavedComplete rt manager) (hr : rt.Exposes r)
    (hlate : ¬ StartFailsLate rt manager request r) : Refines rt request manager r := by
  by_cases hv : (validate rt request {}).1.code = .OK
  · rcases hq : manager.processRequestedSpec {} (validate rt request {}).2 with ⟨st, m', spec'⟩
    by_cases hst : st.code = .OK
    · by_cases hstart : (validate rt request {}).2.sequenceControlInput = SEQUENCE_START
      · exact refines_of_start hsaved hr hv hlate hq hst hstart
      · exact refines_of_continue hsaved hr hv hq hst hstart
    · exact refines_of_process_fail hsaved hr hv (by rw [hq]; exact hst)
  · exact refines_of_validate_fail hsaved hr hv

end OneCall

/-! ## Runs over a pool -/

/-- The server between calls: the manager, and a pool of `nireq` infer
requests, each holding what its last user left. -/
structure Served (Tensor : Type) (nireq : Nat) where
  manager : SequenceManager (Sequence Tensor)
  pool : Fin nireq → InferRequest Tensor

variable {nireq : Nat}

/-- One call of `infer` on the pool entry `slot`, which keeps what the call
left in it. The status and response, and the server after. -/
def Served.serve (s : Served Tensor nireq) (request : PredictRequest) (slot : Fin nireq) :
    (Status × TensorMap) × Served Tensor nireq :=
  let res := infer rt request [] s.manager (s.pool slot)
  ((res.status, res.response), ⟨res.manager, Function.update s.pool slot res.inferRequest⟩)

/-- A sequential run: each request on the pool entry it was given. -/
def serveAll : List (PredictRequest × Fin nireq) → Served Tensor nireq →
    List (Status × TensorMap) × Served Tensor nireq
  | [], s => ([], s)
  | (request, slot) :: rest, s =>
    ((s.serve rt request slot).1 :: (serveAll rest (s.serve rt request slot).2).1,
      (serveAll rest (s.serve rt request slot).2).2)

/-- The abstract machine's run. -/
def privateAll : List PredictRequest → SequenceManager (List (String × Tensor)) →
    List (Status × TensorMap) × SequenceManager (List (String × Tensor))
  | [], store => ([], store)
  | request :: rest, store =>
    (((privateInfer rt request store).1, (privateInfer rt request store).2.2) ::
      (privateAll rest (privateInfer rt request store).2.1).1,
      (privateAll rest (privateInfer rt request store).2.1).2)

/-- No START of the run fails after inserting its sequence. -/
def StartsComplete : List (PredictRequest × Fin nireq) → Served Tensor nireq → Prop
  | [], _ => True
  | (request, slot) :: rest, s =>
    ¬ StartFailsLate rt s.manager request (s.pool slot) ∧
      StartsComplete rest (s.serve rt request slot).2

instance (manager : SequenceManager (Sequence Tensor)) (request : PredictRequest)
    (r : InferRequest Tensor) : Decidable (StartFailsLate rt manager request r) :=
  inferInstanceAs (Decidable (_ ∧ _ ∧ _ ∧ _))

instance decStartsComplete :
    (run : List (PredictRequest × Fin nireq)) → (s : Served Tensor nireq) →
      Decidable (StartsComplete rt run s)
  | [], _ => isTrue trivial
  | (request, slot) :: rest, s =>
    haveI := decStartsComplete rest (s.serve rt request slot).2
    inferInstanceAs (Decidable (¬ _ ∧ _))

/-- Between calls: every live sequence saved a complete state, and every pool
entry exposes the model's variables. -/
def Coherent (s : Served Tensor nireq) : Prop :=
  SavedComplete rt s.manager ∧ ∀ slot, rt.Exposes (s.pool slot)

/-- A freshly loaded version is coherent: no sequence, and a pool of fresh
infer requests. -/
theorem coherent_init (maxSequenceNumber : UInt32) :
    Coherent rt (⟨.empty maxSequenceNumber, fun _ => rt.freshInferRequest⟩ : Served Tensor nireq) :=
  ⟨fun _ h => absurd h (List.not_mem_nil _), fun _ => exposes_freshInferRequest rt⟩

theorem coherent_serve {s : Served Tensor nireq} {request : PredictRequest} {slot : Fin nireq}
    (h : Coherent rt s) (hlate : ¬ StartFailsLate rt s.manager request (s.pool slot)) :
    Coherent rt (s.serve rt request slot).2 := by
  have href := infer_refines_privateInfer h.1 (h.2 slot) hlate
  refine ⟨href.2.2.2.1, fun i => ?_⟩
  by_cases hi : i = slot
  · subst hi; simpa [Served.serve] using href.2.2.2.2
  · simpa [Served.serve, Function.update_noteq hi] using h.2 i

/-- **Pooled infer requests refine private per-sequence state.** Over any
sequential run from a coherent server, with any pool entry given to each
request, and no START failing after inserting its sequence: every status
and response is the abstract machine's, and so are the final private
states and the live ids. -/
theorem serveAll_refines_privateAll (run : List (PredictRequest × Fin nireq))
    (s : Served Tensor nireq) (hcoh : Coherent rt s) (hstarts : StartsComplete rt run s) :
    (serveAll rt run s).1 = (privateAll rt (run.map Prod.fst) (privateStore s.manager)).1 ∧
      privateStore (serveAll rt run s).2.manager =
        (privateAll rt (run.map Prod.fst) (privateStore s.manager)).2 ∧
      (serveAll rt run s).2.manager.ids =
        (privateAll rt (run.map Prod.fst) (privateStore s.manager)).2.ids := by
  induction run generalizing s with
  | nil => simp [serveAll, privateAll, privateStore]
  | cons step rest ih =>
    obtain ⟨request, slot⟩ := step
    obtain ⟨hlate, hrest⟩ := hstarts
    obtain ⟨hstatus, hresponse, hstore, -⟩ := infer_refines_privateInfer hcoh.1 (hcoh.2 slot) hlate
    obtain ⟨h1, h2, h3⟩ := ih _ (coherent_serve rt hcoh hlate) hrest
    simp only [serveAll, privateAll, List.map_cons, ← hstatus, ← hresponse, ← hstore]
    exact ⟨by rw [h1]; rfl, h2, h3⟩

theorem serveAll_refines_privateAll_counter :
    let run := [(startRequest, 0), (sequenceRequest 1 NO_CONTROL_INPUT, 1),
      (sequenceRequest 1 SEQUENCE_END, 0)]
    let s : Served Nat 2 := ⟨.empty 4, fun _ => counterRuntime.freshInferRequest⟩
    Coherent counterRuntime s ∧ StartsComplete counterRuntime run s ∧
      (serveAll counterRuntime run s).1 =
        (privateAll counterRuntime (run.map Prod.fst) (privateStore s.manager)).1 ∧
      privateStore (serveAll counterRuntime run s).2.manager =
        (privateAll counterRuntime (run.map Prod.fst) (privateStore s.manager)).2 ∧
      (serveAll counterRuntime run s).2.manager.ids =
        (privateAll counterRuntime (run.map Prod.fst) (privateStore s.manager)).2.ids :=
  ⟨coherent_init counterRuntime 4, by decide,
    serveAll_refines_privateAll counterRuntime _ _ (coherent_init counterRuntime 4) (by decide)⟩

end OvmsStateful
