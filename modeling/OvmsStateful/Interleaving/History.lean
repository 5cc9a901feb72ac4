import OvmsStateful.Interleaving.Exclusion
import OvmsStateful.Interleaving.Alone
/-!
# Each Sequence object is linearizable

The ids are not (`infer_continue_after_end`), but the Sequence objects are.
The requests that take the mutex of one object run the locked part of
`infer` on it one after another, in the order they take the mutex, as the
sequential locked part would (`lockedPart`). In every world an interleaving
reaches, an object that no request holds and `removeSequence` has not
destroyed has the state that running the locked part over its takers, from
an empty Sequence, leaves (`replay`, `sequence_state_replays`); and every
request that took a mutex and returned answers what the locked part answers
on the state the takers before it left, an END the status of its removal
(`response_replays`). A request whose object was destroyed under it does not
return: it reaches undefined behaviour at its next use of the object.

Three facts of the code make it so. A Sequence's mutex is held from the
hand-off to post-inference, so the object changes only under its holder;
each holder keeps its infer request to itself (`exclusive_of_reachable`);
and pre-inference reads an infer request's names only, so what the previous
user of the infer request left there does not matter
(`preInferenceProcessing_fresh`). The invariant `World.Linear` ties each
request that took a mutex to the state it found, in the order of the ghost
log of acquisitions.
-/

namespace OvmsStateful

variable {Tensor : Type} (rt : Runtime Tensor)

/-! ## The sequential locked part -/

/-- **The locked part of `infer` on one Sequence** (lines 241–281): its
status, its response, and what it leaves in the Sequence, on an infer request
of the model and an empty response. A failure returns at once and leaves the
Sequence as it was. -/
def lockedPart (request : PredictRequest) (spec : SequenceProcessingSpec)
    (sequence : Sequence Tensor) : Status × TensorMap × Sequence Tensor :=
  let pre := preInferenceProcessing rt rt.freshInferRequest sequence spec
  if !pre.1.ok then (pre.1, [], sequence) else
  let run := runInference rt request pre.2 []
  if !run.1.ok then (run.1, run.2.2, sequence) else
  let post := postInferenceProcessing rt run.2.2 run.2.1 sequence spec
  (post.1, post.2.1, post.2.2.2)

/-- The state a Sequence holds after the requests of `takers` ran the locked
part on it one after another, from an empty one. -/
def replay (requests : List PredictRequest) (takers : List Acquisition) : Sequence Tensor :=
  takers.foldl (fun q a => (lockedPart rt (requests.getD a.thread ⟨[]⟩) a.spec q).2.2) {}

/-- The requests that took the mutex of the object `o`, in the order they
took it. -/
def Shared.takers (s : Shared Tensor) (o : Nat) : List Acquisition :=
  s.log.filter fun a => a.sequence = o

section LockedPart

variable {request : PredictRequest} {spec : SequenceProcessingSpec} {q : Sequence Tensor}

theorem lockedPart_of_pre_fail
    (h : (preInferenceProcessing rt rt.freshInferRequest q spec).1.code ≠ .OK) :
    lockedPart rt request spec q = ((preInferenceProcessing rt rt.freshInferRequest q spec).1, [], q) := by
  simp [lockedPart, Status.ok, h]

theorem lockedPart_of_run_fail
    (hpre : (preInferenceProcessing rt rt.freshInferRequest q spec).1.code = .OK)
    (h : (runInference rt request (preInferenceProcessing rt rt.freshInferRequest q spec).2
      []).1.code ≠ .OK) :
    lockedPart rt request spec q =
      ((runInference rt request (preInferenceProcessing rt rt.freshInferRequest q spec).2 []).1,
        (runInference rt request (preInferenceProcessing rt rt.freshInferRequest q spec).2 []).2.2,
        q) := by
  simp [lockedPart, Status.ok, hpre, h]

theorem lockedPart_of_run_ok
    (hpre : (preInferenceProcessing rt rt.freshInferRequest q spec).1.code = .OK)
    (hrun : (runInference rt request (preInferenceProcessing rt rt.freshInferRequest q spec).2
      []).1.code = .OK) :
    let run := runInference rt request (preInferenceProcessing rt rt.freshInferRequest q spec).2 []
    let post := postInferenceProcessing rt run.2.2 run.2.1 q spec
    lockedPart rt request spec q = (post.1, post.2.1, post.2.2.2) := by
  simp [lockedPart, Status.ok, hpre, hrun]

/-- A locked part that succeeded answers the serialized outputs with the
`sequence_id` output added. -/
theorem lockedPart_response_of_ok (h : (lockedPart rt request spec q).1.code = .OK) :
    ∃ outputs, (lockedPart rt request spec q).2.1 =
      addSequenceIdOutput (rt.serializePredictResponse outputs []).2 spec.sequenceId := by
  by_cases hpre : (preInferenceProcessing rt rt.freshInferRequest q spec).1.code = .OK
  swap
  · rw [lockedPart_of_pre_fail rt hpre] at h; exact absurd h hpre
  by_cases hrun : (runInference rt request (preInferenceProcessing rt rt.freshInferRequest q spec).2
    []).1.code = .OK
  swap
  · rw [lockedPart_of_run_fail rt hpre hrun] at h; exact absurd h hrun
  obtain ⟨outputs, -, hresp⟩ := runInference_ok rt hrun
  refine ⟨outputs, ?_⟩
  rw [lockedPart_of_run_ok rt hpre hrun]
  simp only [postInferenceProcessing]
  split_ifs <;> rw [hresp]

end LockedPart

theorem replay_append_singleton (requests : List PredictRequest) (F : List Acquisition)
    (a : Acquisition) :
    replay rt requests (F ++ [a]) =
      (lockedPart rt (requests.getD a.thread ⟨[]⟩) a.spec (replay rt requests F)).2.2 := by
  simp [replay]

/-! ## Where a request that took a mutex is -/

/-- Whether a thread at this point has taken a Sequence's mutex and not
returned. -/
def Pc.locked : Pc → Bool
  | .acquireStream _ _ | .inference _ _ _ | .postprocess _ _ _ _ | .relockManager _ _ _ => true
  | _ => false

section Follows

variable (request : PredictRequest) (s : Shared Tensor) (a : Acquisition) (q : Sequence Tensor)
  (last : Prop)

/-- **A request that took the mutex `a` follows the locked part from `q`**,
the state the takers before it left. Up to post-inference it holds the
object, no request took the mutex after it (`last`), the object still holds
`q`, and its infer request holds what the locked part has made of it so far;
from then on it returns what the locked part returns on `q`, an END the
status `removeSequence` gave it. A request that used its object after it was
destroyed is followed no further. -/
def Pc.FollowsLocked : Pc → Prop
  | .acquireStream spec o => spec = a.spec ∧ o = a.sequence ∧ last ∧ s.sequences.getD o {} = q
  | .inference spec o k =>
    let pre := preInferenceProcessing rt rt.freshInferRequest q spec
    spec = a.spec ∧ o = a.sequence ∧ last ∧ s.sequences.getD o {} = q ∧ k < s.streams.length ∧
      pre.1.code = .OK ∧ s.streams.getD k ⟨[]⟩ = pre.2
  | .postprocess spec o k response =>
    let pre := preInferenceProcessing rt rt.freshInferRequest q spec
    let run := runInference rt request pre.2 []
    spec = a.spec ∧ o = a.sequence ∧ last ∧ s.sequences.getD o {} = q ∧ k < s.streams.length ∧
      pre.1.code = .OK ∧ run.1.code = .OK ∧ s.streams.getD k ⟨[]⟩ = run.2.1 ∧ response = run.2.2
  | .relockManager spec _ response =>
    spec = a.spec ∧ spec.sequenceControlInput = SEQUENCE_END ∧
      (lockedPart rt request spec q).1.code = .OK ∧ response = (lockedPart rt request spec q).2.1
  | .done status response =>
    response = (lockedPart rt request a.spec q).2.1 ∧
      (status = (lockedPart rt request a.spec q).1 ∨
        a.spec.sequenceControlInput = SEQUENCE_END ∧ (lockedPart rt request a.spec q).1.code = .OK ∧
          ∃ manager : SequenceManager Nat, status = (manager.removeSequence a.spec.sequenceId).1)
  | .undefinedBehavior => True
  | _ => False

end Follows

variable {rt}

/-- What a request that took a mutex follows depends on the object it holds,
its infer request, and whether it took the mutex last, only. -/
theorem Pc.FollowsLocked.frame {request : PredictRequest} {a : Acquisition} {q : Sequence Tensor}
    {pc : Pc} {s s' : Shared Tensor} {last last' : Prop}
    (hf : pc.FollowsLocked rt request s a q last)
    (hseq : ∀ o, pc.heldSequence = some o → s'.sequences.getD o {} = s.sequences.getD o {})
    (hstream : ∀ k, pc.heldStream = some k → s'.streams.getD k ⟨[]⟩ = s.streams.getD k ⟨[]⟩)
    (hlen : s'.streams.length = s.streams.length)
    (hlast : ∀ o, pc.heldSequence = some o → (last' ↔ last)) :
    pc.FollowsLocked rt request s' a q last' := by
  cases pc <;> simp only [Pc.FollowsLocked, Pc.heldSequence, Pc.heldStream] at hf hseq hstream hlast ⊢
  case acquireStream spec o =>
    rw [hseq o rfl, hlast o rfl]; exact hf
  case inference spec o k =>
    rw [hseq o rfl, hlast o rfl, hstream k rfl, hlen]; exact hf
  case postprocess spec o k response =>
    rw [hseq o rfl, hlast o rfl, hstream k rfl, hlen]; exact hf
  all_goals exact hf

/-! ## What one step does -/

section Step

variable {request : PredictRequest} {w : World Tensor} {i slot : Nat} {pc : Pc}
  {next : Shared Tensor × Pc}

/-- **What a step leaves alone**: every object and every taken infer request
but those the stepping thread holds, and the number of objects, which only
grows; and the mutex a thread goes on to wait for is of a live id's object. -/
theorem advance_frame (h : advance rt request w i slot pc = some next) :
    (∀ o, pc.heldSequence ≠ some o →
      next.1.sequences.getD o {} = w.shared.sequences.getD o {}) ∧
    (∀ k, pc.heldStream ≠ some k → ¬ w.StreamFree k →
      next.1.streams.getD k ⟨[]⟩ = w.shared.streams.getD k ⟨[]⟩) ∧
    w.shared.sequences.length ≤ next.1.sequences.length ∧
    (∀ spec o, next.2 = .lockSequence spec o → ∃ id, next.1.manager.getSequence id = some o) := by
  cases pc <;> simp only [advance] at h
  case start =>
    cases h
    refine ⟨fun _ _ => rfl, fun _ _ _ => rfl, le_rfl, fun spec o h => ?_⟩
    split at h <;> cases h
  case lockManager spec =>
    split_ifs at h <;> (try split at h) <;> cases h
    all_goals refine ⟨fun o _ => ?_, fun _ _ _ => rfl, by simp, fun _ _ h => ?_⟩
    all_goals first
      | rfl
      | exact congrFun (getD_append_default _ _) o
      | cases h
    all_goals exact ⟨_, by assumption⟩
  case lockSequence spec o =>
    split_ifs at h
    cases h
    exact ⟨fun _ _ => rfl, fun _ _ _ => rfl, le_rfl, fun _ _ h => by cases h⟩
  case acquireStream spec o =>
    split_ifs at h with hs <;> cases h
    · exact ⟨fun _ _ => rfl, fun _ _ _ => rfl, le_rfl, fun _ _ h => by cases h⟩
    all_goals
      refine ⟨fun _ _ => rfl, fun k _ hk => ?_, le_rfl, fun _ _ h => by cases h⟩
      have hne : slot ≠ k := fun e => hk (e ▸ hs.2)
      simp [List.getElem?_set_ne hne]
  case inference spec o k' =>
    cases h
    refine ⟨fun _ _ => rfl, fun k hk _ => ?_, le_rfl, fun _ _ h => ?_⟩
    · have hne : k' ≠ k := fun e => hk (by simp [Pc.heldStream, e])
      simp [List.getElem?_set_ne hne]
    · dsimp only at h; split_ifs at h
  case postprocess spec o k' response =>
    split at h <;> cases h
    · exact ⟨fun _ _ => rfl, fun _ _ _ => rfl, le_rfl, fun _ _ h => by cases h⟩
    refine ⟨fun o' ho => ?_, fun k hk _ => ?_, by simp, fun _ _ h => ?_⟩
    · have hne : o ≠ o' := fun e => ho (by simp [Pc.heldSequence, e])
      simp [List.getElem?_set_ne hne]
    · have hne : k' ≠ k := fun e => hk (by simp [Pc.heldStream, e])
      simp [List.getElem?_set_ne hne]
    · dsimp only at h; split_ifs at h
  case relockManager spec k response =>
    split_ifs at h
    cases h
    exact ⟨fun _ _ => rfl, fun _ _ _ => rfl, le_rfl, fun _ _ h => by cases h⟩
  case done | undefinedBehavior => cases h

/-- Only taking a Sequence's mutex writes the log. -/
theorem advance_log (h : advance rt request w i slot pc = some next)
    (hpc : ∀ spec o, pc ≠ .lockSequence spec o) : next.1.log = w.shared.log := by
  cases pc <;> simp only [advance] at h
  case lockSequence spec o => exact absurd rfl (hpc spec o)
  case lockManager spec => split_ifs at h <;> (try split at h) <;> cases h <;> rfl
  case done | undefinedBehavior => cases h
  all_goals (try split_ifs at h) <;> cases h <;> rfl

/-- Taking a Sequence's mutex, while no thread holds it, logs it. -/
theorem advance_lockSequence {spec : SequenceProcessingSpec} {o : Nat}
    (h : advance rt request w i slot (.lockSequence spec o) = some next) :
    w.Available (.sequence o) ∧
      next = ({ w.shared with log := w.shared.log ++ [⟨i, o, spec⟩] }, .acquireStream spec o) := by
  simp only [advance] at h
  split_ifs at h with hs
  exact ⟨hs, (Option.some_inj.1 h).symm⟩

/-- **The request that steps follows the locked part**: its step computes,
on the object and its infer request, what the locked part computes on `q`;
when it lets go of the object, the object holds what the locked part leaves
in `q`, unless the object was destroyed. -/
theorem followsLocked_advance {a : Acquisition} {q : Sequence Tensor} {last : Prop}
    (hf : pc.FollowsLocked rt request w.shared a q last)
    (hexp : ∀ r ∈ w.shared.streams, rt.Exposes r) (hlt : a.sequence < w.shared.sequences.length)
    (h : advance rt request w i slot pc = some next) :
    next.2.FollowsLocked rt request next.1 a q last ∧
      ∀ o, pc.heldSequence = some o → next.2.heldSequence ≠ some o → o ∉ w.shared.destroyed →
        next.1.sequences.getD o {} = (lockedPart rt request a.spec q).2.2 := by
  cases pc <;> simp only [Pc.FollowsLocked] at hf
  case acquireStream spec o =>
    obtain ⟨rfl, rfl, hlast, hq⟩ := hf
    simp only [advance] at h
    by_cases hs : slot < w.shared.streams.length ∧ w.StreamFree slot
    swap
    · simp [hs] at h
    rw [if_neg (not_not.2 hs)] at h
    split at h
    · -- pre-inference on a destroyed object
      cases h; exact ⟨trivial, fun o ho _ hlive => by cases ho; contradiction⟩
    have hr : rt.Exposes (w.shared.streams.getD slot ⟨[]⟩) := by
      rw [List.getD_eq_getElem?_getD, List.getElem?_eq_getElem hs.1]
      exact hexp _ (List.getElem_mem _)
    obtain ⟨hst, hout⟩ := preInferenceProcessing_fresh rt hr (w.shared.sequences.getD a.sequence {})
      a.spec
    rw [hq] at hst hout h
    generalize preInferenceProcessing rt (w.shared.streams.getD slot ⟨[]⟩) q a.spec = pre
      at h hst hout
    cases h
    rw [Status.ite_not_ok]
    by_cases hok : pre.1.code = .OK
    · -- pre-inference loads the state: the request goes on holding the object
      rw [if_pos hok]
      exact ⟨⟨rfl, rfl, hlast, hq, by simpa using hs.1, hst ▸ hok, by simp [hs.1, hout hok]⟩,
        fun o ho hne => (hne ho).elim⟩
    · -- pre-inference fails, and the request returns
      rw [if_neg hok]
      have hL := @lockedPart_of_pre_fail _ rt request _ _ (hst ▸ hok)
      exact ⟨⟨by rw [hL], .inl (by rw [hL, hst])⟩, fun o ho _ _ => by cases ho; rw [hL]; exact hq⟩
  case inference spec o k =>
    obtain ⟨rfl, rfl, hlast, hq, hk, hpre, hstream⟩ := hf
    simp only [advance] at h
    cases h
    rw [hstream, Status.ite_not_ok]
    by_cases hok : (runInference rt request
        (preInferenceProcessing rt rt.freshInferRequest q a.spec).2 []).1.code = .OK
    · rw [if_pos hok]
      exact ⟨⟨rfl, rfl, hlast, hq, by simpa using hk, hpre, hok, by simp [hk], rfl⟩,
        fun o ho hne => (hne ho).elim⟩
    rw [if_neg hok]
    split
    · -- the return would unlock a destroyed object
      exact ⟨trivial, fun o ho _ hlive => by cases ho; contradiction⟩
    · have hL := lockedPart_of_run_fail rt hpre hok
      exact ⟨⟨by rw [hL], .inl (by rw [hL])⟩, fun o ho _ _ => by cases ho; rw [hL]; exact hq⟩
  case postprocess spec o k response =>
    obtain ⟨rfl, rfl, hlast, hq, hk, hpre, hrun, hstream, rfl⟩ := hf
    simp only [advance] at h
    split at h <;> cases h
    · -- post-inference on a destroyed object
      exact ⟨trivial, fun o ho _ hlive => by cases ho; contradiction⟩
    have hL := lockedPart_of_run_ok rt hpre hrun
    dsimp only at hL
    rw [hstream, hq]
    refine ⟨?_, fun o ho _ _ => by cases ho; simp [hlt, hL]⟩
    by_cases hend : a.spec.sequenceControlInput = SEQUENCE_END <;>
      simp [postInferenceProcessing, hend, hL, Status.ok, Status.ofCode, Pc.FollowsLocked]
  case relockManager spec k response =>
    obtain ⟨rfl, hend, hok, rfl⟩ := hf
    simp only [advance] at h
    split_ifs at h
    cases h
    exact ⟨⟨rfl, .inr ⟨hend, hok, _, rfl⟩⟩, fun o ho => by cases ho⟩
  case done | undefinedBehavior => simp [advance] at h

end Step

section Helpers

variable {request : PredictRequest} {w : World Tensor} {i slot : Nat} {pc : Pc}
  {next : Shared Tensor × Pc}

/-- After thread `i` moved to `pc`, a thread is at `pc` as thread `i`, or
where it was. -/
theorem pcs_set_eq_some {pcs : List Pc} {i j : Nat} {pc pc' : Pc}
    (h : (pcs.set i pc)[j]? = some pc') : j = i ∧ pc = pc' ∨ j ≠ i ∧ pcs[j]? = some pc' := by
  rw [List.getElem?_set] at h
  split_ifs at h with hij
  · exact .inl ⟨hij.symm, Option.some_inj.1 h⟩
  · exact .inr ⟨Ne.symm hij, h⟩

/-- A write of an infer request that keeps the variables' names keeps every
infer request exposing them. -/
theorem exposes_set {l : List (InferRequest Tensor)} (hl : ∀ r ∈ l, rt.Exposes r) {k : Nat}
    {r : InferRequest Tensor}
    (hr : r.memoryState.map Prod.fst = (l.getD k ⟨[]⟩).memoryState.map Prod.fst) :
    ∀ r' ∈ l.set k r, rt.Exposes r' := by
  intro r' hr'
  by_cases hk : k < l.length
  · rcases List.mem_or_eq_of_mem_set hr' with hr' | rfl
    · exact hl r' hr'
    · rw [Runtime.Exposes, hr, List.getD_eq_getElem?_getD, List.getElem?_eq_getElem hk]
      exact hl _ (List.getElem_mem _)
  · rw [List.set_eq_of_length_le (not_lt.1 hk)] at hr'
    exact hl r' hr'

theorem exposes_advance (hexp : ∀ r ∈ w.shared.streams, rt.Exposes r)
    (h : advance rt request w i slot pc = some next) : ∀ r ∈ next.1.streams, rt.Exposes r := by
  rcases advance_shared h with h | ⟨_, h | h | ⟨_, h⟩⟩ | ⟨_, h⟩ | ⟨k, r, h, hr⟩ |
    ⟨k, r, o, q, h, hr, -⟩ <;> rw [h]
  all_goals first | exact hexp | exact exposes_set hexp hr

/-- Only a step from the hand-off on ends holding a Sequence's mutex. -/
theorem locked_of_advance (h : advance rt request w i slot pc = some next)
    (hl : next.2.locked = true) : pc.locked = true ∨ ∃ spec o, pc = .lockSequence spec o := by
  have hn := next_of_advance h
  generalize next.2 = pc' at hn hl
  cases hn <;> simp_all [Pc.locked]

/-- A request that holds an object follows the locked part on that object,
and no request took its mutex after it. -/
theorem Pc.FollowsLocked.held {request : PredictRequest} {s : Shared Tensor} {a : Acquisition}
    {q : Sequence Tensor} {last : Prop} (hf : pc.FollowsLocked rt request s a q last) {o : Nat}
    (ho : pc.heldSequence = some o) : o = a.sequence ∧ last := by
  cases pc <;> simp only [Pc.heldSequence, Option.some_inj, reduceCtorEq] at ho <;>
    simp only [Pc.FollowsLocked] at hf <;> exact ⟨ho ▸ hf.2.1, hf.2.2.1⟩

theorem Shared.takers_log_append (s : Shared Tensor) (a : Acquisition) (o : Nat) :
    ({ s with log := s.log ++ [a] } : Shared Tensor).takers o =
      s.takers o ++ if a.sequence = o then [a] else [] := by
  by_cases h : a.sequence = o <;> simp [Shared.takers, List.filter_append, h]

theorem World.holds_of_heldSequence {j o : Nat} {pc : Pc} (hj : w.pcs[j]? = some pc)
    (ho : pc.heldSequence = some o) : w.holds j (.sequence o) = true := by
  simp [World.holds, hj, Pc.holds, ho]

theorem World.streamOf_of_heldStream {j k : Nat} {pc : Pc} (hj : w.pcs[j]? = some pc)
    (hk : pc.heldStream = some k) : w.streamOf j = some k := by
  simp [World.streamOf, hj, hk]

/-- A request waiting for an object's mutex holds the manager's. -/
theorem World.holds_manager_of_lockSequence {j : Nat} {spec : SequenceProcessingSpec} {o : Nat}
    (h : w.pcs[j]? = some (.lockSequence spec o)) : w.holds j .manager = true := by
  simp [World.holds, h, Pc.holds]

/-- While the manager's mutex is free, no request waits for an object's. -/
theorem World.not_lockSequence_of_available (hm : w.Available .manager) (j : Nat)
    (spec : SequenceProcessingSpec) (o : Nat) : w.pcs[j]? ≠ some (.lockSequence spec o) :=
  fun h => by
    simpa [World.holds_manager_of_lockSequence h] using
      World.holds_eq_false_of_available (by simp) hm j

end Helpers

/-! ## The history invariant -/

variable (rt) (requests : List PredictRequest)

/-- **The history invariant**: the log of acquisitions orders, per object,
the requests that took its mutex, and each of them follows the locked part
from the state the ones before it left. -/
structure World.Linear (w : World Tensor) : Prop where
  /-- Every infer request exposes the model's variables. -/
  exposes : ∀ r ∈ w.shared.streams, rt.Exposes r
  /-- A request takes a Sequence's mutex at most once. -/
  nodup : (w.shared.log.map Acquisition.thread).Nodup
  /-- Every mutex taken is of an object made so far, -/
  logged_lt : ∀ a ∈ w.shared.log, a.sequence < w.shared.sequences.length
  /-- and so is every mutex a request waits for, -/
  waiting_lt : ∀ (j : Nat) spec o, w.pcs[j]? = some (Pc.lockSequence spec o) →
    o < w.shared.sequences.length
  /-- which is of an object not destroyed. -/
  waiting_live : ∀ (j : Nat) spec o, w.pcs[j]? = some (Pc.lockSequence spec o) →
    o ∉ w.shared.destroyed
  /-- A request past the hand-off took a mutex. -/
  taken : ∀ j pc, w.pcs[j]? = some pc → pc.locked = true → ∃ a ∈ w.shared.log, a.thread = j
  /-- Each request that took a mutex follows the locked part from the state
  the takers before it left. -/
  follows : ∀ a ∈ w.shared.log, ∃ F G pc, w.shared.takers a.sequence = F ++ a :: G ∧
    w.pcs[a.thread]? = some pc ∧
    pc.FollowsLocked rt (requests.getD a.thread ⟨[]⟩) w.shared a (replay rt requests F) (G = [])
  /-- An object no request holds, and not destroyed, holds what its takers
  left. -/
  free : ∀ o, o ∉ w.shared.destroyed → (∀ j, w.holds j (.sequence o) = false) →
    w.shared.sequences.getD o {} = replay rt requests (w.shared.takers o)

theorem linear_init (maxSequenceNumber : UInt32) (nireq threads : Nat) :
    (World.init rt maxSequenceNumber nireq threads).Linear rt requests where
  exposes r hr := by
    simp only [World.init] at hr
    rw [List.eq_of_mem_replicate hr]
    exact exposes_freshInferRequest rt
  nodup := List.nodup_nil
  logged_lt _ ha := absurd ha (List.not_mem_nil _)
  waiting_lt j _ _ h := by
    simp [World.init, List.getElem?_replicate] at h
  waiting_live j _ _ h := by
    simp [World.init, List.getElem?_replicate] at h
  taken j pc h hl := by
    simp only [World.init, List.getElem?_replicate] at h
    split_ifs at h
    cases h; cases hl
  follows _ ha := absurd ha (List.not_mem_nil _)
  free o _ _ := by simp [World.init, Shared.takers, replay]

section Step

variable {rt requests} {w : World Tensor} {i slot : Nat} {request : PredictRequest} {pc : Pc}
  {next : Shared Tensor × Pc}

/-- A step other than taking a Sequence's mutex keeps the invariant: the
stepping request follows the locked part one step further, and what it does
not hold it leaves alone. -/
theorem linear_step_of_ne (hl : w.Linear rt requests) (hex : w.Exclusive)
    (hidx : next.1.Indexed) (hreq : requests[i]? = some request) (hpc : w.pcs[i]? = some pc)
    (hadv : advance rt request w i slot pc = some next)
    (hne : ∀ spec o, pc ≠ .lockSequence spec o) :
    World.Linear rt requests ⟨next.1, w.pcs.set i next.2⟩ := by
  have hi : i < w.pcs.length := (List.getElem?_eq_some_iff.1 hpc).1
  have hreq' : requests.getD i ⟨[]⟩ = request := by simp [hreq]
  obtain ⟨hS, hK, hN, hM⟩ := advance_frame hadv
  obtain ⟨d, hd, hdm⟩ := advance_destroyed hadv
  have hlog := advance_log hadv hne
  have htak : ∀ o, next.1.takers o = w.shared.takers o := fun o => by
    simp only [Shared.takers, hlog]
  have hpcs : ∀ j, j ≠ i → (w.pcs.set i next.2)[j]? = w.pcs[j]? := fun j hj =>
    List.getElem?_set_ne (Ne.symm hj)
  refine ⟨exposes_advance hl.exposes hadv, hlog ▸ hl.nodup,
    fun a ha => (hl.logged_lt a (hlog ▸ ha)).trans_le hN, fun j spec o hj => ?_,
    fun j spec o hj => ?_, fun j pc' hj hlk => ?_, fun a ha => ?_, fun o hlive hfree => ?_⟩
  · -- a mutex waited for is of an object made so far
    rcases pcs_set_eq_some hj with ⟨-, hnext⟩ | ⟨-, hj⟩
    · obtain ⟨id, hid⟩ := hM spec o hnext
      exact hidx.lt _ (next.1.manager.mem_of_getSequence hid)
    · exact (hl.waiting_lt j spec o hj).trans_le hN
  · -- and not destroyed: only a step under the manager's mutex destroys one
    rcases pcs_set_eq_some hj with ⟨-, hnext⟩ | ⟨-, hj⟩
    · obtain ⟨id, hid⟩ := hM spec o hnext
      exact hidx.not_destroyed _ (next.1.manager.mem_of_getSequence hid)
    · rcases hdm with rfl | hav
      · rw [hd, List.append_nil]; exact hl.waiting_live j spec o hj
      · exact absurd hj (World.not_lockSequence_of_available hav j spec o)
  · -- a request past the hand-off took a mutex
    rw [hlog]
    rcases pcs_set_eq_some hj with ⟨rfl, rfl⟩ | ⟨-, hj⟩
    · rcases locked_of_advance hadv hlk with h | ⟨spec, o, rfl⟩
      exacts [hl.taken j pc hpc h, absurd rfl (hne spec o)]
    · exact hl.taken j pc' hj hlk
  · -- each request that took a mutex follows the locked part
    rw [hlog] at ha
    obtain ⟨F, G, pcj, hF, hpcj, hf⟩ := hl.follows a ha
    by_cases hai : a.thread = i
    · -- the stepping request goes one step further
      have hpci : pcj = pc := Option.some_inj.1 (hpcj.symm.trans (hai ▸ hpc))
      subst hpci
      refine ⟨F, G, next.2, (htak _).trans hF, by rw [hai]; exact List.getElem?_set_self hi, ?_⟩
      rw [hai, hreq'] at hf ⊢
      exact (followsLocked_advance hf hl.exposes (hl.logged_lt a ha) hadv).1
    · -- another request: what it holds, the stepping request left alone
      refine ⟨F, G, pcj, (htak _).trans hF, (hpcs _ hai).trans hpcj,
        hf.frame (fun o ho => hS o fun hio => hai ?_) (fun k hk => hK k (fun hik => hai ?_) ?_)
          (advance_streams_length hadv) fun _ _ => Iff.rfl⟩
      · exact hex.1 _ _ _ (by simp) (World.holds_of_heldSequence hpcj ho)
          (World.holds_of_heldSequence hpc hio)
      · exact hex.2 k _ _ (World.streamOf_of_heldStream hpcj hk)
          (World.streamOf_of_heldStream hpc hik)
      · have hj := World.streamOf_of_heldStream hpcj hk
        exact fun hfree => hfree a.thread (w.lt_of_streamOf hj) hj
  · -- an object no request holds holds what its takers left
    rw [htak]
    have hlive' : o ∉ w.shared.destroyed := fun ho => hlive (hd ▸ List.mem_append_left d ho)
    by_cases hio : pc.heldSequence = some o
    · -- the stepping request let go of `o`: it was the last to take it
      obtain ⟨a, ha, hai⟩ := hl.taken i pc hpc (by cases pc <;> simp_all [Pc.heldSequence, Pc.locked])
      obtain ⟨F, G, pcj, hF, hpcj, hf⟩ := hl.follows a ha
      rw [hai, hpc, Option.some_inj] at hpcj
      subst hpcj
      obtain ⟨rfl, rfl⟩ := hf.held hio
      rw [hai, hreq'] at hf
      have hrel := (followsLocked_advance hf hl.exposes (hl.logged_lt a ha) hadv).2 _ hio (by
        simpa [World.holds, List.getElem?_set_self hi, Pc.holds] using hfree i) hlive'
      rw [hrel, hF, replay_append_singleton, hai, hreq']
    · -- it did not hold `o`, and no other request let go of it
      rw [hS o hio]
      refine hl.free o hlive' fun j => ?_
      by_cases hji : j = i
      · subst hji; simp [World.holds, hpc, Pc.holds, hio]
      · simpa [World.holds, hpcs j hji] using hfree j

/-- Taking a Sequence's mutex keeps the invariant: the request becomes the
last taker of an object no request held, which holds what the takers before
it left. -/
theorem linear_step_lockSequence {spec : SequenceProcessingSpec} {o : Nat}
    (hl : w.Linear rt requests) (hpc : w.pcs[i]? = some (.lockSequence spec o))
    (hadv : advance rt request w i slot (.lockSequence spec o) = some next) :
    World.Linear rt requests ⟨next.1, w.pcs.set i next.2⟩ := by
  obtain ⟨hav, rfl⟩ := advance_lockSequence hadv
  have hi : i < w.pcs.length := (List.getElem?_eq_some_iff.1 hpc).1
  have hfree : ∀ j, w.holds j (.sequence o) = false :=
    World.holds_eq_false_of_available (by simp) hav
  -- the request had taken no mutex before
  have hnew : ∀ b ∈ w.shared.log, b.thread ≠ i := fun b hb hbi => by
    obtain ⟨F, G, pcj, -, hpcj, hf⟩ := hl.follows b hb
    rw [hbi, hpc, Option.some_inj] at hpcj
    subst hpcj
    exact hf
  have hpcs : ∀ j, j ≠ i → (w.pcs.set i (.acquireStream spec o))[j]? = w.pcs[j]? := fun j hj =>
    List.getElem?_set_ne (Ne.symm hj)
  refine ⟨hl.exposes, ?_, fun a ha => ?_, fun j spec' o' hj => ?_, fun j spec' o' hj => ?_,
    fun j pc' hj hlk => ?_, fun a ha => ?_, fun o' hlive hfree' => ?_⟩
  · -- a request takes a mutex once
    simp only [List.map_append, List.map_cons, List.map_nil]
    exact hl.nodup.append (List.nodup_singleton _) (List.disjoint_singleton.2 fun hmem => by
      obtain ⟨b, hb, hbi⟩ := List.mem_map.1 hmem
      exact hnew b hb hbi)
  · rcases List.mem_append.1 ha with ha | ha
    · exact hl.logged_lt a ha
    · rw [List.mem_singleton.1 ha]; exact hl.waiting_lt i spec o hpc
  · rcases pcs_set_eq_some hj with ⟨-, h⟩ | ⟨-, hj⟩
    exacts [(by cases h), hl.waiting_lt j spec' o' hj]
  · rcases pcs_set_eq_some hj with ⟨-, h⟩ | ⟨-, hj⟩
    exacts [(by cases h), hl.waiting_live j spec' o' hj]
  · rcases pcs_set_eq_some hj with ⟨rfl, -⟩ | ⟨-, hj⟩
    · exact ⟨⟨j, o, spec⟩, List.mem_append_right _ (List.mem_singleton_self _), rfl⟩
    · obtain ⟨a, ha, haj⟩ := hl.taken j pc' hj hlk
      exact ⟨a, List.mem_append_left _ ha, haj⟩
  · rcases List.mem_append.1 ha with ha | ha
    · -- an earlier taker: of another object, or past this one
      obtain ⟨F, G, pcj, hF, hpcj, hf⟩ := hl.follows a ha
      refine ⟨F, G ++ if o = a.sequence then [⟨i, o, spec⟩] else [], pcj, ?_,
        (hpcs _ (hnew a ha)).trans hpcj,
        hf.frame (fun _ _ => rfl) (fun _ _ => rfl) rfl fun o' ho' => ?_⟩
      · rw [Shared.takers_log_append, hF]; simp
      · obtain ⟨rfl, -⟩ := hf.held ho'
        have hne : o ≠ a.sequence := fun e => by
          simpa [World.holds_of_heldSequence hpcj (e ▸ ho')] using hfree a.thread
        simp [hne]
    · -- the new taker
      rw [List.mem_singleton.1 ha]
      exact ⟨w.shared.takers o, [], .acquireStream spec o, by rw [Shared.takers_log_append]; simp,
        List.getElem?_set_self hi, rfl, rfl, rfl, hl.free o (hl.waiting_live i spec o hpc) hfree⟩
  · -- the object taken has a holder; every other one keeps its takers
    have ho' : o ≠ o' := fun e => by
      simpa [World.holds, List.getElem?_set_self hi, Pc.holds, Pc.heldSequence, e] using hfree' i
    simp only [Shared.takers_log_append, if_neg ho', List.append_nil]
    refine hl.free o' hlive fun j => ?_
    by_cases hji : j = i
    · subst hji; simp [World.holds, hpc, Pc.holds, Pc.heldSequence]
    · simpa [World.holds, hpcs j hji] using hfree' j

/-- **Every step keeps the history invariant.** -/
theorem linear_step {w' : World Tensor} (hl : w.Linear rt requests) (hex : w.Exclusive)
    (hidx : w'.shared.Indexed) (h : stepThread rt requests w i slot = some w') :
    w'.Linear rt requests := by
  obtain ⟨request, pc, next, hreq, hpc, hadv, rfl⟩ := stepThread_eq_some h
  by_cases hls : ∃ spec o, pc = .lockSequence spec o
  · obtain ⟨spec, o, rfl⟩ := hls
    exact linear_step_lockSequence hl hpc hadv
  · push_neg at hls
    exact linear_step_of_ne hl hex hidx hreq hpc hadv hls

end Step

variable {rt requests} {maxSequenceNumber : UInt32} {nireq threads : Nat} {w : World Tensor}

theorem linear_of_reachable
    (h : Reachable rt requests (World.init rt maxSequenceNumber nireq threads) w) :
    w.Linear rt requests := by
  induction h with
  | init => exact linear_init rt requests _ _ _
  | step i slot hr hs ih =>
    exact linear_step ih (exclusive_of_reachable (exclusive_init _ _ _) hr)
      (indexed_step (indexed_of_reachable (indexed_init _ _ _) hr) hs) hs

/-! ## Linearizability -/

/-- **Each Sequence object holds what its takers, one after another, leave.**
In every world an interleaving of `infer` calls reaches from a freshly loaded
version, a Sequence object that no request holds and `removeSequence` has not
destroyed holds the state the sequential locked part leaves when run from an
empty Sequence over the requests that took its mutex, in the order they took
it, each on its own request and spec: whatever the schedule, and whatever
infer requests they drew. -/
theorem sequence_state_replays
    (h : Reachable rt requests (World.init rt maxSequenceNumber nireq threads) w) (o : Nat)
    (hlive : o ∉ w.shared.destroyed) (hfree : ∀ j, w.holds j (.sequence o) = false) :
    w.shared.sequences.getD o {} = replay rt requests (w.shared.takers o) :=
  (linear_of_reachable h).free o hlive hfree

/-- A model whose variable `h` counts the inferences of its sequence, and
whose output `y` is the count before. -/
def tallyRuntime : Runtime Nat :=
  { counterRuntime with
    performInference := fun _ state =>
      (.ofCode .OK, [("y", (state.lookup "h").getD 0)], fun _ => (state.lookup "h").getD 0 + 1) }

/-- Where `continueAfterEndSchedule` leaves the model `tallyRuntime`: the
START and the CONTINUE, which took the Sequence after the END, returned, and
the END waits at line 285 to remove the id. No object is destroyed. -/
def continueAfterEndWorld : World Nat :=
  scheduled tallyRuntime lateRemovalRequests (World.init tallyRuntime 4 2 3)
    continueAfterEndSchedule

theorem sequence_state_replays_continueAfterEnd :
    Reachable tallyRuntime lateRemovalRequests (World.init tallyRuntime 4 2 3)
        continueAfterEndWorld ∧
      0 ∉ continueAfterEndWorld.shared.destroyed ∧
      (∀ j, continueAfterEndWorld.holds j (.sequence 0) = false) ∧
      continueAfterEndWorld.shared.sequences.getD 0 {} =
        replay tallyRuntime lateRemovalRequests (continueAfterEndWorld.shared.takers 0) :=
  have h : Reachable tallyRuntime lateRemovalRequests (World.init tallyRuntime 4 2 3)
      continueAfterEndWorld := reachable_scheduled (by decide)
  have hlive : 0 ∉ continueAfterEndWorld.shared.destroyed := by decide
  have hfree : ∀ j, continueAfterEndWorld.holds j (.sequence 0) = false :=
    World.holds_eq_false_of_available (by simp) (by decide)
  ⟨h, hlive, hfree, sequence_state_replays h 0 hlive hfree⟩

end OvmsStateful
