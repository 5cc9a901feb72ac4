import OvmsStateful.Infer
import Mathlib.Data.Option.Defs
/-!
# Interleaved calls of `infer`

Any number of threads run `StatefulModelInstance::infer` on one model
version, each on its own request, and their steps interleave. A thread's
place in `infer` is its `Pc`; between two blocking points everything it does
is one atomic step (`advance`), built from the same functions as the
sequential `infer`: `validate`, `processRequestedSpec`,
`preInferenceProcessing`, `runInference` and `postInferenceProcessing`.

The three kinds of resource the code blocks on are the manager's mutex
(`sequenceManagerLock`, lines 218 and 285), a Sequence's mutex
(`sequenceLock`, line 227), and an infer request of the pool
(`ExecutingStreamIdGuard`, line 231). Who holds what is read off the
threads' program counters (`Pc.holds`), so a lock has no state of its own
that could disagree with its holder; a step that takes a resource is only
enabled while it is `Available`.

Sequences are objects: the manager maps each live id to an index into
`Shared.sequences`, and a thread that looked one up keeps the index after
the manager has dropped it, as the code keeps its `Sequence&`. Dropping an
id destroys its object (`removeSequence` erases it from the map, line 286):
the index goes to `Shared.destroyed`, and a thread that then reads, writes or
unlocks the object has reached undefined behaviour (`Pc.undefinedBehavior`),
where the model stops following it.
-/

namespace OvmsStateful

/-- Where a thread is in `infer`, with the locals it has computed. -/
inductive Pc where
  /-- Not yet validated. -/
  | start
  /-- Line 218: validated, waiting for the manager's mutex. -/
  | lockManager (spec : SequenceProcessingSpec)
  /-- Line 227: holding the manager's mutex, waiting for the mutex of the
  Sequence object `sequence`. -/
  | lockSequence (spec : SequenceProcessingSpec) (sequence : Nat)
  /-- Line 231: holding the Sequence, waiting for an infer request. -/
  | acquireStream (spec : SequenceProcessingSpec) (sequence : Nat)
  /-- Line 248: holding the Sequence and the infer request `stream`, its
  state loaded. -/
  | inference (spec : SequenceProcessingSpec) (sequence stream : Nat)
  /-- Line 276: the outputs serialized into `response`. -/
  | postprocess (spec : SequenceProcessingSpec) (sequence stream : Nat) (response : TensorMap)
  /-- Line 285: an END that released its Sequence, still holding `stream`,
  waiting for the manager's mutex to remove the sequence. -/
  | relockManager (spec : SequenceProcessingSpec) (stream : Nat) (response : TensorMap)
  /-- Returned `status`, with `response`. -/
  | done (status : Status) (response : TensorMap)
  /-- Used a Sequence object that `removeSequence` destroyed: read it in
  pre-inference (line 241), unlocked it on an early return, or wrote it in
  post-inference (line 276). What the code does from here is undefined, and
  the model follows the thread no further. -/
  | undefinedBehavior
  deriving DecidableEq, Repr

/-- What a thread can block on. -/
inductive Resource where
  | manager
  | sequence (index : Nat)
  | pool
  deriving DecidableEq, Repr

namespace Pc

/-- The resource a thread at this point waits for. -/
def waitsFor : Pc → Option Resource
  | lockManager _ | relockManager _ _ _ => some .manager
  | lockSequence _ o => some (.sequence o)
  | acquireStream _ _ => some .pool
  | _ => none

/-- The infer request a thread at this point holds. -/
def heldStream : Pc → Option Nat
  | inference _ _ k | postprocess _ _ k _ | relockManager _ k _ => some k
  | _ => none

/-- The Sequence object a thread at this point holds. -/
def heldSequence : Pc → Option Nat
  | acquireStream _ o | inference _ o _ | postprocess _ o _ _ => some o
  | _ => none

/-- Whether a thread at this point holds `r`: the manager's mutex from
`lockManager` to the hand-off, a Sequence from the hand-off to post-inference,
and an infer request from its acquisition to the return. -/
def holds : Pc → Resource → Bool
  | lockSequence _ _, .manager => true
  | pc, .sequence o => pc.heldSequence == some o
  | pc, .pool => pc.heldStream.isSome
  | _, _ => false

end Pc

/-- Ghost state: the thread `thread` took the mutex of the Sequence object
`sequence` for `spec`. -/
structure Acquisition where
  thread : Nat
  sequence : Nat
  spec : SequenceProcessingSpec
  deriving DecidableEq, Repr

/-- The state the threads share. -/
structure Shared (Tensor : Type) where
  /-- The manager: each live id's Sequence object. -/
  manager : SequenceManager Nat
  /-- Every Sequence object created so far, live or destroyed. -/
  sequences : List (Sequence Tensor)
  /-- The pool's infer requests. -/
  streams : List (InferRequest Tensor)
  /-- Every Sequence mutex acquisition, in order. -/
  log : List Acquisition
  /-- The Sequence objects `removeSequence` destroyed, in order. -/
  destroyed : List Nat

/-- The shared state and each thread's program counter. -/
structure World (Tensor : Type) where
  shared : Shared Tensor
  pcs : List Pc

variable {Tensor : Type} (rt : Runtime Tensor)

/-- A freshly loaded version (`loadModelImpl`'s new manager, a pool of
`nireq` fresh infer requests) and `threads` requests not yet started. -/
def World.init (maxSequenceNumber : UInt32) (nireq threads : Nat) : World Tensor :=
  ⟨⟨.empty maxSequenceNumber, [], List.replicate nireq rt.freshInferRequest, [], []⟩,
    List.replicate threads .start⟩

namespace World

variable (w : World Tensor)

/-- Whether thread `j` holds `r`. -/
def holds (j : Nat) (r : Resource) : Bool := (w.pcs[j]?).any (·.holds r)

/-- The resource thread `i` waits for. -/
def waitOf (i : Nat) : Option Resource := (w.pcs[i]?).bind Pc.waitsFor

/-- The infer request thread `j` holds. -/
def streamOf (j : Nat) : Option Nat := (w.pcs[j]?).bind Pc.heldStream

/-- No thread holds the infer request `k`. -/
def StreamFree (k : Nat) : Prop := ∀ j < w.pcs.length, w.streamOf j ≠ some k

/-- `r` can be taken now: a mutex when no thread holds it, the pool when
one of its infer requests is free. -/
def Available : Resource → Prop
  | .manager => ∀ j < w.pcs.length, w.holds j .manager = false
  | .sequence o => ∀ j < w.pcs.length, w.holds j (.sequence o) = false
  | .pool => ∃ k < w.shared.streams.length, w.StreamFree k

instance (k : Nat) : Decidable (w.StreamFree k) := inferInstanceAs (Decidable (∀ j < _, _))

instance : (r : Resource) → Decidable (w.Available r)
  | .manager => inferInstanceAs (Decidable (∀ j < _, _))
  | .sequence _ => inferInstanceAs (Decidable (∀ j < _, _))
  | .pool => inferInstanceAs (Decidable (∃ k < _, _))

end World

/-- One atomic step of a thread at `pc` serving `request`, as thread `i` of
`w`: the shared state after it and the thread's next program counter, or
`none` while the resource it waits for is taken, and once it has returned.
A thread that takes an infer request takes the free entry `slot`. Every
early return releases what the thread holds, as the scoped locks and the
guard do on leaving `infer`; a thread whose Sequence object was destroyed
reaches `undefinedBehavior` at its next use of it. -/
def advance (request : PredictRequest) (w : World Tensor) (i slot : Nat) :
    Pc → Option (Shared Tensor × Pc)
  | .start =>
    let v := validate rt request {}
    some (w.shared, if !v.1.ok then .done v.1 [] else .lockManager v.2)
  | .lockManager spec =>
    if ¬ w.Available .manager then none else
    let p := w.shared.manager.processRequestedSpec w.shared.sequences.length spec
    if !p.1.ok then some (w.shared, .done p.1 []) else
    let shared := { w.shared with
      manager := p.2.1
      sequences := if spec.sequenceControlInput = SEQUENCE_START then
        w.shared.sequences ++ [{}] else w.shared.sequences }
    match p.2.1.getSequence p.2.2.sequenceId with
    | none => some (shared, .done (.ofCode .INTERNAL_ERROR) [])
    | some o => some (shared, .lockSequence p.2.2 o)
  | .lockSequence spec o =>
    if ¬ w.Available (.sequence o) then none else
    some ({ w.shared with log := w.shared.log ++ [⟨i, o, spec⟩] }, .acquireStream spec o)
  | .acquireStream spec o =>
    if ¬ (slot < w.shared.streams.length ∧ w.StreamFree slot) then none else
    if o ∈ w.shared.destroyed then some (w.shared, .undefinedBehavior) else
    let pre := preInferenceProcessing rt (w.shared.streams.getD slot ⟨[]⟩)
      (w.shared.sequences.getD o {}) spec
    some ({ w.shared with streams := w.shared.streams.set slot pre.2 },
      if !pre.1.ok then .done pre.1 [] else .inference spec o slot)
  | .inference spec o k =>
    let run := runInference rt request (w.shared.streams.getD k ⟨[]⟩) []
    some ({ w.shared with streams := w.shared.streams.set k run.2.1 },
      if !run.1.ok then (if o ∈ w.shared.destroyed then .undefinedBehavior else .done run.1 run.2.2)
      else .postprocess spec o k run.2.2)
  | .postprocess spec o k response =>
    if o ∈ w.shared.destroyed then some (w.shared, .undefinedBehavior) else
    let post := postInferenceProcessing rt response (w.shared.streams.getD k ⟨[]⟩)
      (w.shared.sequences.getD o {}) spec
    some ({ w.shared with
        streams := w.shared.streams.set k post.2.2.1
        sequences := w.shared.sequences.set o post.2.2.2 },
      if !post.1.ok then .done post.1 post.2.1
      else if spec.sequenceControlInput = SEQUENCE_END then .relockManager spec k post.2.1
      else .done (.ofCode .OK) post.2.1)
  | .relockManager spec _ response =>
    if ¬ w.Available .manager then none else
    let removed := w.shared.manager.removeSequence spec.sequenceId
    some ({ w.shared with
        manager := removed.2
        destroyed := w.shared.destroyed ++ (w.shared.manager.getSequence spec.sequenceId).toList },
      .done removed.1 response)
  | .done _ _ | .undefinedBehavior => none

/-- Thread `i`, serving `requests[i]`, takes one step. -/
def stepThread (requests : List PredictRequest) (w : World Tensor) (i slot : Nat) :
    Option (World Tensor) :=
  match requests[i]?, w.pcs[i]? with
  | some request, some pc =>
    (advance rt request w i slot pc).map fun next => ⟨next.1, w.pcs.set i next.2⟩
  | _, _ => none

/-- The worlds some interleaving of the threads' steps reaches from `w₀`. -/
inductive Reachable (requests : List PredictRequest) (w₀ : World Tensor) : World Tensor → Prop
  | init : Reachable requests w₀ w₀
  | step {w w' : World Tensor} (i slot : Nat) :
    Reachable requests w₀ w → stepThread rt requests w i slot = some w' →
      Reachable requests w₀ w'

/-- The steps `(thread, slot)` of a schedule, in order; `none` if one of them
is not enabled. -/
def runSchedule (requests : List PredictRequest) (w : World Tensor) :
    List (Nat × Nat) → Option (World Tensor)
  | [] => some w
  | (i, slot) :: rest => (stepThread rt requests w i slot).bind fun w' =>
    runSchedule requests w' rest

/-! ## The control flow -/

/-- The edges of `infer`'s control flow between its blocking points, each
with the resource it takes: a thread leaves a wait only while the resource is
`Available`, and it may return, or reach undefined behaviour, from any point. -/
inductive Pc.Next (w : World Tensor) (slot : Nat) : Pc → Pc → Prop
  | validate {spec : SequenceProcessingSpec} : Next w slot .start (.lockManager spec)
  | lockManager {spec spec' : SequenceProcessingSpec} {o : Nat} :
    w.Available .manager → Next w slot (.lockManager spec) (.lockSequence spec' o)
  | lockSequence {spec : SequenceProcessingSpec} {o : Nat} :
    w.Available (.sequence o) → Next w slot (.lockSequence spec o) (.acquireStream spec o)
  | acquireStream {spec : SequenceProcessingSpec} {o : Nat} :
    slot < w.shared.streams.length → w.StreamFree slot →
      Next w slot (.acquireStream spec o) (.inference spec o slot)
  | inference {spec : SequenceProcessingSpec} {o k : Nat} {response : TensorMap} :
    Next w slot (.inference spec o k) (.postprocess spec o k response)
  | postprocess {spec : SequenceProcessingSpec} {o k : Nat} {response response' : TensorMap} :
    Next w slot (.postprocess spec o k response) (.relockManager spec k response')
  | returns {pc : Pc} {status : Status} {response : TensorMap} :
    (∀ r ∈ pc.waitsFor, w.Available r) → Next w slot pc (.done status response)
  | undefined {pc : Pc} :
    (∀ r ∈ pc.waitsFor, w.Available r) → Next w slot pc .undefinedBehavior

/-- The world a schedule reaches (or `w`, if one of its steps is not
enabled). -/
def scheduled (requests : List PredictRequest) (w : World Tensor) (schedule : List (Nat × Nat)) :
    World Tensor :=
  (runSchedule rt requests w schedule).getD w

variable {rt} {requests : List PredictRequest}

namespace Pc.Next

variable {w : World Tensor} {slot : Nat} {pc pc' : Pc}

/-- A thread leaves a wait only while its resource is available. -/
theorem available_of_waitsFor (h : Next w slot pc pc') {r : Resource} (hr : r ∈ pc.waitsFor) :
    w.Available r := by
  cases h with
  | returns hw | undefined hw => exact hw r hr
  | acquireStream hlt hfree => cases hr; exact ⟨slot, hlt, hfree⟩
  | _ => cases hr <;> assumption

/-- What a thread holds after a step it held before, or took while it was
available. -/
theorem holds_or_available (h : Next w slot pc pc') {r : Resource} (hr : pc'.holds r = true) :
    pc.holds r = true ∨ w.Available r := by
  cases h with
  | lockManager hm => cases r <;> simp_all [holds, heldSequence, heldStream]
  | lockSequence hm => cases r <;> simp_all [holds, heldSequence, heldStream]
  | acquireStream hlt hfree =>
    cases r <;> simp_all [holds, heldSequence, heldStream]
    exact ⟨slot, hlt, hfree⟩
  | returns | undefined => cases r <;> simp [holds, heldSequence, heldStream] at hr
  | _ => cases r <;> simp_all [holds, heldSequence, heldStream]

/-- The infer request a thread holds after a step it held before, or took
while no thread held it. -/
theorem heldStream_or_free (h : Next w slot pc pc') {k : Nat} (hk : pc'.heldStream = some k) :
    pc.heldStream = some k ∨ w.StreamFree k := by
  cases h with
  | acquireStream hlt hfree => cases hk; exact .inr hfree
  | returns | undefined => cases hk
  | _ => simp_all [heldStream]

end Pc.Next

/-- **What a step does to the shared state.** Nothing; or a new manager,
with a new empty Sequence object for a START, or with the objects it no
longer names destroyed; or an entry of the ghost log;
or a new value of one infer request, naming the same variables; or
post-inference's writes to an infer request and a Sequence object, which
keeps its state or takes the infer request's. -/
theorem advance_shared {request : PredictRequest} {w : World Tensor} {i slot : Nat} {pc : Pc}
    {next : Shared Tensor × Pc} (h : advance rt request w i slot pc = some next) :
    next.1 = w.shared ∨
    (∃ manager, next.1 = { w.shared with manager, sequences := w.shared.sequences ++ [{}] } ∨
      next.1 = { w.shared with manager } ∨
      ∃ d, next.1 = { w.shared with manager, destroyed := w.shared.destroyed ++ d }) ∨
    (∃ a, next.1 = { w.shared with log := w.shared.log ++ [a] }) ∨
    (∃ k r, next.1 = { w.shared with streams := w.shared.streams.set k r } ∧
      r.memoryState.map Prod.fst = (w.shared.streams.getD k ⟨[]⟩).memoryState.map Prod.fst) ∨
    (∃ k r o q, next.1 = { w.shared with
        streams := w.shared.streams.set k r
        sequences := w.shared.sequences.set o q } ∧
      r.memoryState.map Prod.fst = (w.shared.streams.getD k ⟨[]⟩).memoryState.map Prod.fst ∧
      (q = w.shared.sequences.getD o {} ∨ q.memoryState = r.memoryState)) := by
  cases pc <;> simp only [advance] at h
  case start => split at h <;> cases h <;> exact .inl rfl
  case lockManager spec =>
    split_ifs at h <;> (try split at h) <;> cases h
    all_goals first
      | exact .inl rfl | exact .inr (.inl ⟨_, .inl rfl⟩) | exact .inr (.inl ⟨_, .inr (.inl rfl)⟩)
  case lockSequence spec o =>
    split_ifs at h
    cases h; exact .inr (.inr (.inl ⟨_, rfl⟩))
  case acquireStream spec o =>
    split_ifs at h <;> cases h
    · exact .inl rfl
    all_goals exact .inr (.inr (.inr (.inl ⟨_, _, rfl, names_preInferenceProcessing rt _ _ _⟩)))
  case inference spec o k =>
    cases h; exact .inr (.inr (.inr (.inl ⟨_, _, rfl, names_runInference rt _ _ _⟩)))
  case postprocess spec o k response =>
    split at h <;> cases h
    · exact .inl rfl
    · exact .inr (.inr (.inr (.inr ⟨_, _, _, _, rfl,
        postInferenceProcessing_state rt response _ _ spec⟩)))
  case relockManager spec k response =>
    split_ifs at h
    cases h; exact .inr (.inl ⟨_, .inr (.inr ⟨_, rfl⟩)⟩)
  case done | undefinedBehavior => cases h

theorem advance_streams_length {request : PredictRequest} {w : World Tensor} {i slot : Nat}
    {pc : Pc} {next : Shared Tensor × Pc} (h : advance rt request w i slot pc = some next) :
    next.1.streams.length = w.shared.streams.length := by
  rcases advance_shared h with h | ⟨_, h | h | ⟨_, h⟩⟩ | ⟨_, h⟩ | ⟨_, _, h, -⟩ |
    ⟨_, _, _, _, h, -⟩ <;> simp [h]

/-! ## Frames: a step changes one thread's program counter -/

section Frame

variable {w : World Tensor} {s : Shared Tensor} {i : Nat} {pc' : Pc}

@[simp] theorem length_pcs_set : (⟨s, w.pcs.set i pc'⟩ : World Tensor).pcs.length = w.pcs.length :=
  List.length_set ..

@[simp] theorem waitOf_set_of_ne {j : Nat} (h : j ≠ i) :
    World.waitOf ⟨s, w.pcs.set i pc'⟩ j = w.waitOf j := by
  simp [World.waitOf, List.getElem?_set_ne (Ne.symm h)]

@[simp] theorem holds_set_of_ne {j : Nat} (h : j ≠ i) (r : Resource) :
    World.holds ⟨s, w.pcs.set i pc'⟩ j r = w.holds j r := by
  simp [World.holds, List.getElem?_set_ne (Ne.symm h)]

theorem holds_set_self (hi : i < w.pcs.length) (r : Resource) :
    World.holds ⟨s, w.pcs.set i pc'⟩ i r = pc'.holds r := by
  simp [World.holds, hi]

variable {r : Resource}

/-- Where thread `i` held `r` neither before nor after, every thread holds
`r` as it did. -/
theorem holds_set_eq (hi : w.holds i r = false) (hi' : pc'.holds r = false) (j : Nat) :
    World.holds ⟨s, w.pcs.set i pc'⟩ j r = w.holds j r := by
  by_cases hj : j = i
  · subst hj
    simp only [World.holds] at hi ⊢
    rw [List.getElem?_set]
    split_ifs <;> simp_all
  · exact holds_set_of_ne hj r

theorem streamOf_set_eq (hi : w.holds i .pool = false) (hi' : pc'.holds .pool = false) (j : Nat) :
    World.streamOf ⟨s, w.pcs.set i pc'⟩ j = w.streamOf j := by
  by_cases hj : j = i
  · subst hj
    simp only [World.holds, World.streamOf, Pc.holds] at hi hi' ⊢
    rw [List.getElem?_set]
    cases hpc : w.pcs[j]? <;> split_ifs <;> simp_all
  · simp [World.streamOf, List.getElem?_set_ne (Ne.symm hj)]

/-- **A step that does not touch `r` leaves its availability alone.** -/
theorem available_set_iff (hlen : s.streams.length = w.shared.streams.length)
    (hi : w.holds i r = false) (hi' : pc'.holds r = false) :
    World.Available ⟨s, w.pcs.set i pc'⟩ r ↔ w.Available r := by
  cases r
  all_goals simp only [World.Available, World.StreamFree, List.length_set, hlen]
  · simp only [holds_set_eq hi hi']
  · simp only [holds_set_eq hi hi']
  · simp only [streamOf_set_eq hi hi']

end Frame

theorem reachable_of_runSchedule {w₀ w w' : World Tensor} {schedule : List (Nat × Nat)}
    (hw : Reachable rt requests w₀ w) (h : runSchedule rt requests w schedule = some w') :
    Reachable rt requests w₀ w' := by
  induction schedule generalizing w with
  | nil => cases h; exact hw
  | cons step rest ih =>
    obtain ⟨i, slot⟩ := step
    simp only [runSchedule, Option.bind_eq_some] at h
    obtain ⟨w₁, h₁, h⟩ := h
    exact ih (.step i slot hw h₁) h

theorem reachable_scheduled {w : World Tensor} {schedule : List (Nat × Nat)}
    (h : (runSchedule rt requests w schedule).isSome) :
    Reachable rt requests w (scheduled rt requests w schedule) := by
  obtain ⟨w', hw'⟩ := Option.isSome_iff_exists.1 h
  rw [scheduled, hw']
  exact reachable_of_runSchedule .init hw'

/-- Every step follows an edge of the control flow. -/
theorem next_of_advance {request : PredictRequest} {w : World Tensor} {i slot : Nat} {pc : Pc}
    {next : Shared Tensor × Pc} (h : advance rt request w i slot pc = some next) :
    Pc.Next w slot pc next.2 := by
  cases pc <;> simp only [advance] at h
  case start => split at h <;> cases h; exacts [.returns (by simp [Pc.waitsFor]), .validate]
  case lockManager spec =>
    split_ifs at h with hm <;> (try split at h) <;> cases h
    all_goals first | exact .lockManager hm | exact .returns (by simpa [Pc.waitsFor] using hm)
  case lockSequence spec o =>
    split_ifs at h with hm
    cases h; exact .lockSequence hm
  case acquireStream spec o =>
    split_ifs at h with hs <;> cases h
    exacts [.undefined (by simpa [Pc.waitsFor, World.Available] using ⟨slot, hs⟩),
      .returns (by simpa [Pc.waitsFor, World.Available] using ⟨slot, hs⟩), .acquireStream hs.1 hs.2]
  case inference spec o k =>
    cases h; dsimp only; split_ifs
    exacts [.undefined (by simp [Pc.waitsFor]), .returns (by simp [Pc.waitsFor]), .inference]
  case postprocess spec o k response =>
    split at h <;> cases h
    · exact .undefined (by simp [Pc.waitsFor])
    dsimp only; split_ifs
    exacts [.returns (by simp [Pc.waitsFor]), .postprocess, .returns (by simp [Pc.waitsFor])]
  case relockManager spec k response =>
    split_ifs at h with hm
    cases h; exact .returns (by simpa [Pc.waitsFor] using hm)
  case done | undefinedBehavior => cases h

theorem World.lt_of_holds {w : World Tensor} {j : Nat} {r : Resource}
    (h : w.holds j r = true) : j < w.pcs.length := by
  by_contra hj
  simp [World.holds, List.getElem?_eq_none (Nat.le_of_not_lt hj)] at h

theorem World.lt_of_streamOf {w : World Tensor} {j k : Nat} (h : w.streamOf j = some k) :
    j < w.pcs.length := by
  by_contra hj
  simp [World.streamOf, List.getElem?_eq_none (Nat.le_of_not_lt hj)] at h

/-- **What a step is.** Thread `i`, at `pc` and serving `request`, advances;
the shared state is the one it leaves and only `i`'s program counter
changes. -/
theorem stepThread_eq_some {w w' : World Tensor} {i slot : Nat}
    (h : stepThread rt requests w i slot = some w') :
    ∃ request pc next, requests[i]? = some request ∧ w.pcs[i]? = some pc ∧
      advance rt request w i slot pc = some next ∧ w' = ⟨next.1, w.pcs.set i next.2⟩ := by
  unfold stepThread at h
  split at h
  · obtain ⟨next, hnext, rfl⟩ := Option.map_eq_some'.1 h
    exact ⟨_, _, next, ‹_›, ‹_›, hnext, rfl⟩
  · cases h

/-- After a step, a thread holds what it held before, or it is the thread
that stepped and took the resource while it was available. -/
theorem holds_of_stepThread {w w' : World Tensor} {i slot : Nat}
    (h : stepThread rt requests w i slot = some w') {j : Nat} {r : Resource}
    (hj : w'.holds j r = true) : w.holds j r = true ∨ (j = i ∧ w.Available r) := by
  obtain ⟨request, pc, next, -, hpc, hadv, rfl⟩ := stepThread_eq_some h
  by_cases hji : j = i
  · subst hji
    rw [holds_set_self (List.getElem?_eq_some_iff.1 hpc).1] at hj
    rcases (next_of_advance hadv).holds_or_available hj with h' | h'
    · exact .inl (by simp [World.holds, hpc, h'])
    · exact .inr ⟨rfl, h'⟩
  · exact .inl (by rwa [holds_set_of_ne hji] at hj)

/-- After a step, a thread holds the infer request it held before, or it is
the thread that stepped and took it while it was free. -/
theorem streamOf_of_stepThread {w w' : World Tensor} {i slot : Nat}
    (h : stepThread rt requests w i slot = some w') {j k : Nat}
    (hj : w'.streamOf j = some k) : w.streamOf j = some k ∨ (j = i ∧ w.StreamFree k) := by
  obtain ⟨request, pc, next, -, hpc, hadv, rfl⟩ := stepThread_eq_some h
  by_cases hji : j = i
  · subst hji
    have hk : next.2.heldStream = some k := by
      simpa [World.streamOf, (List.getElem?_eq_some_iff.1 hpc).1] using hj
    rcases (next_of_advance hadv).heldStream_or_free hk with h' | h'
    · exact .inl (by simp [World.streamOf, hpc, h'])
    · exact .inr ⟨rfl, h'⟩
  · exact .inl (by simpa [World.streamOf, List.getElem?_set_ne (Ne.symm hji)] using hj)

/-- A run keeps the threads and the pool's size. -/
theorem length_of_reachable {w₀ w : World Tensor} (h : Reachable rt requests w₀ w) :
    w.pcs.length = w₀.pcs.length ∧ w.shared.streams.length = w₀.shared.streams.length := by
  induction h with
  | init => exact ⟨rfl, rfl⟩
  | step i slot _ hs ih =>
    obtain ⟨request, pc, next, -, -, hadv, rfl⟩ := stepThread_eq_some hs
    exact ⟨(List.length_set ..).trans ih.1, (advance_streams_length hadv).trans ih.2⟩

theorem length_of_reachable_init {maxSequenceNumber : UInt32} {nireq threads : Nat}
    {w : World Tensor} (h : Reachable rt requests (World.init rt maxSequenceNumber nireq threads) w) :
    w.pcs.length = threads ∧ w.shared.streams.length = nireq := by
  simpa [World.init] using length_of_reachable h

end OvmsStateful
