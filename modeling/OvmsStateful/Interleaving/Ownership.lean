import OvmsStateful.Interleaving.History
/-!
# Each Sequence object serves one sequence

A Sequence object is made by the START that creates its id, and the manager
maps the id to it until an END removes the id; a START never reuses an
object. The START keeps the manager's mutex from creating the object to
taking the object's mutex, so it takes it first; every request after it
resolved the id while the id was live. So in every reachable world the
requests that took an object's mutex, in the order they took it, are a START
and then requests that are not STARTs, all on the START's id, and while an id
is live every request that took its object named it (`takers_serve_one_sequence`).
With `sequence_state_replays`, an object's state is the locked part run over
one START and then CONTINUEs and ENDs of its id, also when a CONTINUE that
resolved the id takes the mutex after an END released it. A request that
returns OK took an object's mutex, and the `sequence_id` it answers is the
id of that object's START (`answered_sequence_id`).
-/

namespace OvmsStateful

variable {Tensor : Type} {rt : Runtime Tensor} {requests : List PredictRequest}

/-- **Each object serves one sequence**: the invariant, with what a request
between resolving its id and taking the object's mutex knows. -/
structure World.Owned (w : World Tensor) : Prop where
  /-- A request waiting for an object's mutex resolved a live id to it, and
  it is a START exactly when no request took the object yet. -/
  waiting : ∀ (j : Nat) spec o, w.pcs[j]? = some (Pc.lockSequence spec o) →
    (spec.sequenceId, o) ∈ w.shared.manager.sequences ∧
      (spec.sequenceControlInput = SEQUENCE_START ↔ w.shared.takers o = [])
  /-- A live id's object that no request took yet waits for its START. -/
  started : ∀ p ∈ w.shared.manager.sequences, w.shared.takers p.2 = [] →
    ∃ (j : Nat) (spec : SequenceProcessingSpec), w.pcs[j]? = some (Pc.lockSequence spec p.2)
  /-- Every request that took a live id's object named the id. -/
  live : ∀ p ∈ w.shared.manager.sequences, ∀ a ∈ w.shared.takers p.2, a.spec.sequenceId = p.1
  /-- An object's takers are a START, then requests on its id that are not
  STARTs. -/
  history : ∀ o a rest, w.shared.takers o = a :: rest →
    a.spec.sequenceControlInput = SEQUENCE_START ∧
      ∀ b ∈ rest, b.spec.sequenceId = a.spec.sequenceId ∧
        b.spec.sequenceControlInput ≠ SEQUENCE_START
  /-- Every mutex taken is of an object made so far. -/
  logged_lt : ∀ a ∈ w.shared.log, a.sequence < w.shared.sequences.length

theorem owned_init (maxSequenceNumber : UInt32) (nireq threads : Nat) :
    (World.init rt maxSequenceNumber nireq threads).Owned where
  waiting j _ _ h := by simp [World.init, List.getElem?_replicate] at h
  started p hp := by simp [World.init, SequenceManager.empty] at hp
  live p hp := by simp [World.init, SequenceManager.empty] at hp
  history o a rest h := by simp [World.init, Shared.takers] at h
  logged_lt _ ha := absurd ha (List.not_mem_nil _)

/-! ## Who waits for an object -/

section Waiting

variable {w : World Tensor}

/-- At most one request waits for an object's mutex. -/
theorem World.Exclusive.lockSequence_unique (hex : w.Exclusive) {j k : Nat}
    {spec spec' : SequenceProcessingSpec} {o o' : Nat} (hj : w.pcs[j]? = some (.lockSequence spec o))
    (hk : w.pcs[k]? = some (.lockSequence spec' o')) : j = k :=
  hex.1 _ _ _ (by simp) (World.holds_manager_of_lockSequence hj)
    (World.holds_manager_of_lockSequence hk)

end Waiting

/-! ## What one step does to it -/

section Step

variable {w : World Tensor} {i slot : Nat} {request : PredictRequest} {next : Shared Tensor × Pc}

/-- A step that neither waits for an object's mutex nor takes one, keeps the
log, and keeps the live ids (or drops some while no request waits for an
object) keeps the invariant. -/
theorem World.Owned.quiet (ho : w.Owned) {pc pc' : Pc} {s : Shared Tensor}
    (hpc : w.pcs[i]? = some pc) (hne : ∀ spec o, pc ≠ .lockSequence spec o)
    (hne' : ∀ spec o, pc' ≠ .lockSequence spec o)
    (hm : s.manager.sequences = w.shared.manager.sequences ∨
      w.Available .manager ∧ s.manager.sequences.Sublist w.shared.manager.sequences)
    (hlog : s.log = w.shared.log) (hlen : w.shared.sequences.length ≤ s.sequences.length) :
    World.Owned ⟨s, w.pcs.set i pc'⟩ := by
  have ht : ∀ o, s.takers o = w.shared.takers o := fun o => by simp only [Shared.takers, hlog]
  -- the same requests wait for an object's mutex
  have hwait : ∀ (j : Nat) spec o, (w.pcs.set i pc')[j]? = some (Pc.lockSequence spec o) →
      w.pcs[j]? = some (Pc.lockSequence spec o) := fun j spec o hj => by
    rcases pcs_set_eq_some hj with ⟨-, rfl⟩ | ⟨-, hj⟩
    exacts [absurd rfl (hne' spec o), hj]
  have hsub : ∀ p ∈ s.manager.sequences, p ∈ w.shared.manager.sequences := by
    rcases hm with hm | ⟨-, hm⟩
    exacts [fun p hp => hm ▸ hp, fun p hp => hm.subset hp]
  refine ⟨fun j spec o hj => ?_, fun p hp hp' => ?_, fun p hp a ha => ?_,
    fun o a rest h => ho.history o a rest (ht o ▸ h),
    fun a ha => (ho.logged_lt a (hlog ▸ ha)).trans_le hlen⟩
  · obtain ⟨hmem, hiff⟩ := ho.waiting j spec o (hwait j spec o hj)
    rcases hm with hm | ⟨hav, -⟩
    · exact ⟨hm ▸ hmem, ht o ▸ hiff⟩
    · exact absurd (hwait j spec o hj) (World.not_lockSequence_of_available hav j spec o)
  · obtain ⟨j, spec, hj⟩ := ho.started p (hsub p hp) (ht p.2 ▸ hp')
    refine ⟨j, spec, ?_⟩
    by_cases hji : j = i
    · subst hji; exact absurd (hpc.symm.trans hj) fun h => hne spec p.2 (Option.some_inj.1 h)
    · rwa [List.getElem?_set_ne (Ne.symm hji)]
  · exact ho.live p (hsub p hp) a (ht p.2 ▸ ha)

/-- While the manager's mutex is free, a request took every live id's object. -/
theorem World.Owned.taken (ho : w.Owned) (hav : w.Available .manager) :
    ∀ p ∈ w.shared.manager.sequences, w.shared.takers p.2 ≠ [] := fun p hp ht => by
  obtain ⟨j, spec, hj⟩ := ho.started p hp ht
  exact World.not_lockSequence_of_available hav j spec p.2 hj

/-- An object made after every logged acquisition has no takers. -/
theorem World.Owned.takers_length (ho : w.Owned) :
    w.shared.takers w.shared.sequences.length = [] :=
  List.filter_eq_nil_iff.2 fun a ha => by simpa using (ho.logged_lt a ha).ne

/-- **Resolving an id keeps the invariant**: a START makes a new object for a
new id and then waits for it, and no request took it; any other request
resolves a live id, whose object a request took already, as no request waits
for an object while the manager's mutex is free. -/
theorem owned_step_lockManager {spec : SequenceProcessingSpec} (ho : w.Owned)
    (hpc : w.pcs[i]? = some (.lockManager spec))
    (hadv : advance rt request w i slot (.lockManager spec) = some next) :
    World.Owned ⟨next.1, w.pcs.set i next.2⟩ := by
  have hi : i < w.pcs.length := (List.getElem?_eq_some_iff.1 hpc).1
  simp only [advance] at hadv
  generalize hpp : w.shared.manager.processRequestedSpec w.shared.sequences.length spec = p
    at hadv
  obtain ⟨status, m', spec'⟩ := p
  split_ifs at hadv with hav hp hs
  · cases hadv
    exact ho.quiet hpc (fun _ _ h => by cases h) (fun _ _ h => by cases h) (.inl rfl) rfl le_rfl
  all_goals have hok : status.code = .OK := by simpa [Status.ok] using hp
  · -- a START: a new object for a new id, which no request took
    rcases w.shared.manager.processRequestedSpec_cases hpp with ⟨hne, -⟩ |
      ⟨-, -, hspec, -, _, _, _, rfl⟩ | ⟨-, hst, -⟩
    · exact absurd hok hne
    swap; · exact absurd hs hst
    simp only [SequenceManager.getSequence_createSequence] at hadv
    cases hadv
    have hnew := ho.takers_length
    have hst' : spec'.sequenceControlInput = SEQUENCE_START := by rw [hspec]; exact hs
    refine ⟨fun j spec'' o hj => ?_, fun p hp hp' => ?_, fun p hp a ha => ?_,
      ho.history, fun a ha => (ho.logged_lt a ha).trans (by simp)⟩
    · rcases pcs_set_eq_some hj with ⟨-, h⟩ | ⟨-, hj⟩
      · cases h
        exact ⟨by simp [SequenceManager.createSequence], iff_of_true hst' hnew⟩
      · exact absurd hj (World.not_lockSequence_of_available hav j spec'' o)
    · simp only [SequenceManager.createSequence, List.mem_append, List.mem_singleton] at hp
      rcases hp with hp | rfl
      · exact absurd hp' (ho.taken hav p hp)
      · exact ⟨i, spec', List.getElem?_set_self hi⟩
    · simp only [SequenceManager.createSequence, List.mem_append, List.mem_singleton] at hp
      rcases hp with hp | rfl
      · exact ho.live p hp a ha
      · exact absurd (show a ∈ w.shared.takers _ from ha) (by rw [hnew]; exact List.not_mem_nil _)
  · -- any other request resolves a live id, whose object a request took
    rcases w.shared.manager.processRequestedSpec_cases hpp with ⟨hne, -⟩ |
      ⟨-, hst, -⟩ | ⟨-, hst, rfl, rfl, hmem⟩
    · exact absurd hok hne
    · exact absurd hst hs
    obtain ⟨o, ho'⟩ := w.shared.manager.getSequence_of_mem hmem
    simp only [ho'] at hadv
    cases hadv
    refine ⟨fun j spec'' o' hj => ?_, fun p hp hp' => absurd hp' (ho.taken hav p hp), ho.live,
      ho.history, ho.logged_lt⟩
    rcases pcs_set_eq_some hj with ⟨-, h⟩ | ⟨-, hj⟩
    · cases h
      have hp := w.shared.manager.mem_of_getSequence ho'
      exact ⟨hp, iff_of_false hst (ho.taken hav _ hp)⟩
    · exact absurd hj (World.not_lockSequence_of_available hav j spec'' o')
/-- **Taking an object's mutex keeps the invariant**: the request waiting for
it is the only one, and it is a START exactly when it takes the object first;
it named the live id that maps to the object, and so did every request that
took it before. -/
theorem owned_step_lockSequence {spec : SequenceProcessingSpec} {o : Nat} (ho : w.Owned)
    (hex : w.Exclusive) (hidx : w.shared.Indexed) (hpc : w.pcs[i]? = some (.lockSequence spec o))
    (hadv : advance rt request w i slot (.lockSequence spec o) = some next) :
    World.Owned ⟨next.1, w.pcs.set i next.2⟩ := by
  obtain ⟨-, rfl⟩ := advance_lockSequence hadv
  obtain ⟨hmem, hiff⟩ := ho.waiting i spec o hpc
  -- no request waits for an object's mutex after the step
  have hnone : ∀ (j : Nat) spec' o',
      (w.pcs.set i (.acquireStream spec o))[j]? ≠ some (Pc.lockSequence spec' o') :=
    fun j spec' o' hj => by
      rcases pcs_set_eq_some hj with ⟨-, h⟩ | ⟨hji, hj⟩
      exacts [(by cases h), hji (hex.lockSequence_unique hj hpc)]
  -- the live id that maps to the object is the one the request named
  have hid : ∀ p ∈ w.shared.manager.sequences, p.2 = o → p.1 = spec.sequenceId :=
    fun p hp hpo => by rw [List.inj_on_of_nodup_map hidx.nodup hp hmem hpo]
  refine ⟨fun j spec' o' hj => absurd hj (hnone j spec' o'), fun p hp hp' => ?_,
    fun p hp a ha => ?_, fun o' a rest h => ?_, fun a ha => ?_⟩
  · -- an object no request took still has no takers, and its START waits
    simp only [Shared.takers_log_append] at hp'
    obtain ⟨j, spec', hj⟩ := ho.started p hp (List.append_eq_nil.1 hp').1
    have hji := hex.lockSequence_unique hj hpc
    subst hji
    rw [hpc, Option.some_inj, Pc.lockSequence.injEq] at hj
    simp [hj.2] at hp'
  · simp only [Shared.takers_log_append] at ha
    rcases List.mem_append.1 ha with ha | ha
    · exact ho.live p hp a ha
    · split_ifs at ha with hpo
      · rw [List.mem_singleton.1 ha]
        exact (hid p hp hpo.symm).symm
      · cases ha
  · simp only [Shared.takers_log_append] at h
    by_cases hoo : o = o'
    swap
    · rw [if_neg hoo, List.append_nil] at h
      exact ho.history o' a rest h
    subst hoo
    rw [if_pos rfl] at h
    cases htk : w.shared.takers o with
    | nil =>
      -- the object's first taker is its START
      rw [htk, List.nil_append, List.cons.injEq] at h
      obtain ⟨rfl, rfl⟩ := h
      exact ⟨hiff.2 htk, fun b hb => absurd hb (List.not_mem_nil b)⟩
    | cons a₀ rest₀ =>
      -- a later taker named the id its START did, and is no START
      rw [htk, List.cons_append, List.cons.injEq] at h
      obtain ⟨rfl, rfl⟩ := h
      obtain ⟨hs₀, hrest⟩ := ho.history o a₀ rest₀ htk
      refine ⟨hs₀, fun b hb => ?_⟩
      rcases List.mem_append.1 hb with hb | hb
      · exact hrest b hb
      · rw [List.mem_singleton.1 hb]
        exact ⟨(ho.live _ hmem a₀ (by simp [htk])).symm,
          fun hs => absurd (hiff.1 hs) (by simp [htk])⟩
  · rcases List.mem_append.1 ha with ha | ha
    · exact ho.logged_lt a ha
    · rw [List.mem_singleton.1 ha]
      exact hidx.lt _ hmem

/-- **Every step keeps the invariant**: resolving an id and taking an
object's mutex as above; every other step keeps the log and the live ids, or,
removing an id, drops one while no request waits for an object. -/
theorem owned_step {w' : World Tensor} (ho : w.Owned) (hex : w.Exclusive)
    (hidx : w.shared.Indexed) (h : stepThread rt requests w i slot = some w') : w'.Owned := by
  obtain ⟨request, pc, next, -, hpc, hadv, rfl⟩ := stepThread_eq_some h
  cases pc
  case lockManager spec => exact owned_step_lockManager ho hpc hadv
  case lockSequence spec o => exact owned_step_lockSequence ho hex hidx hpc hadv
  case relockManager spec k response =>
    simp only [advance] at hadv
    split_ifs at hadv with hm
    cases hadv
    exact ho.quiet hpc (fun _ _ h => by cases h) (fun _ _ h => by cases h)
      (.inr ⟨hm, w.shared.manager.removeSequence_sublist _⟩) rfl le_rfl
  all_goals
    simp only [advance] at hadv
    (try split_ifs at hadv) <;> cases hadv <;>
      exact ho.quiet hpc (fun _ _ h => by cases h) (fun _ _ h => by cases h) (.inl rfl) rfl
        (by simp)

end Step

variable {maxSequenceNumber : UInt32} {nireq threads : Nat} {w : World Tensor}

theorem owned_of_reachable
    (h : Reachable rt requests (World.init rt maxSequenceNumber nireq threads) w) : w.Owned := by
  induction h with
  | init => exact owned_init _ _ _
  | step i slot hr hs ih =>
    exact owned_step ih (exclusive_of_reachable (exclusive_init _ _ _) hr)
      (indexed_of_reachable (indexed_init _ _ _) hr) hs

/-! ## One sequence per object -/

/-- **Each Sequence object serves one sequence.** In every world an
interleaving of `infer` calls reaches from a freshly loaded version, the
requests that took a Sequence object's mutex, in the order they took it, are a
START and then requests on the START's id that are not STARTs; and while an id
is live, every request that took its object named it. -/
theorem takers_serve_one_sequence
    (h : Reachable rt requests (World.init rt maxSequenceNumber nireq threads) w) :
    (∀ o a rest, w.shared.takers o = a :: rest →
      a.spec.sequenceControlInput = SEQUENCE_START ∧
        ∀ b ∈ rest, b.spec.sequenceId = a.spec.sequenceId ∧
          b.spec.sequenceControlInput ≠ SEQUENCE_START) ∧
      ∀ p ∈ w.shared.manager.sequences, ∀ a ∈ w.shared.takers p.2, a.spec.sequenceId = p.1 :=
  ⟨(owned_of_reachable h).history, (owned_of_reachable h).live⟩

theorem takers_serve_one_sequence_continueAfterEnd :
    Reachable tallyRuntime lateRemovalRequests (World.init tallyRuntime 4 2 3)
        continueAfterEndWorld ∧
      (∀ o a rest, continueAfterEndWorld.shared.takers o = a :: rest →
        a.spec.sequenceControlInput = SEQUENCE_START ∧
          ∀ b ∈ rest, b.spec.sequenceId = a.spec.sequenceId ∧
            b.spec.sequenceControlInput ≠ SEQUENCE_START) ∧
        ∀ p ∈ continueAfterEndWorld.shared.manager.sequences,
          ∀ a ∈ continueAfterEndWorld.shared.takers p.2, a.spec.sequenceId = p.1 :=
  have h : Reachable tallyRuntime lateRemovalRequests (World.init tallyRuntime 4 2 3)
      continueAfterEndWorld := reachable_scheduled (by decide)
  ⟨h, takers_serve_one_sequence h⟩

/-! ## What a successful answer carries -/

section Answers

variable {i slot : Nat} {request : PredictRequest} {pc : Pc} {next : Shared Tensor × Pc}

/-- A step that returns OK is post-inference or the END's removal: a
request past the hand-off. -/
theorem locked_of_advance_ok {status : Status} {response : TensorMap}
    (h : advance rt request w i slot pc = some next) (hnext : next.2 = .done status response)
    (hok : status.code = .OK) : pc.locked = true := by
  obtain ⟨s, pc'⟩ := next
  dsimp only at hnext
  subst hnext
  cases pc <;> simp only [advance] at h <;> try rfl
  case done | undefinedBehavior => cases h
  all_goals
    split_ifs at h <;> (try split at h) <;>
      simp only [Option.some_inj, Prod.mk.injEq, Pc.done.injEq, reduceCtorEq, false_and,
        and_false] at h
  -- the remaining returns are failures
  all_goals
    obtain ⟨-, rfl, -⟩ := h
    first | cases hok | simp_all [Status.ok]

/-- A step only appends to the log. -/
theorem advance_log_prefix (h : advance rt request w i slot pc = some next) :
    w.shared.log <+: next.1.log := by
  by_cases hls : ∃ spec o, pc = .lockSequence spec o
  · obtain ⟨spec, o, rfl⟩ := hls
    obtain ⟨-, rfl⟩ := advance_lockSequence h
    exact List.prefix_append _ _
  · push_neg at hls
    exact advance_log h hls ▸ List.prefix_refl _

/-- A request that answered OK took a Sequence's mutex. -/
def World.AnsweredTaken (w : World Tensor) : Prop :=
  ∀ (j : Nat) status response, w.pcs[j]? = some (Pc.done status response) →
    status.code = .OK → ∃ a ∈ w.shared.log, a.thread = j

theorem answeredTaken_step {w' : World Tensor} (ht : w.AnsweredTaken)
    (hl : w.Linear rt requests) (h : stepThread rt requests w i slot = some w') :
    w'.AnsweredTaken := by
  obtain ⟨request, pc, next, -, hpc, hadv, rfl⟩ := stepThread_eq_some h
  have hlog := advance_log_prefix hadv
  intro j status response hj hok
  obtain ⟨a, ha, haj⟩ : ∃ a ∈ w.shared.log, a.thread = j := by
    rcases pcs_set_eq_some hj with ⟨rfl, hnext⟩ | ⟨-, hj⟩
    · -- the request that steps answers OK only from past the hand-off
      exact hl.taken j pc hpc (locked_of_advance_ok hadv hnext hok)
    · exact ht j status response hj hok
  exact ⟨a, hlog.subset ha, haj⟩

end Answers

variable {maxSequenceNumber : UInt32} {nireq threads : Nat}

theorem answeredTaken_of_reachable
    (h : Reachable rt requests (World.init rt maxSequenceNumber nireq threads) w) :
    w.AnsweredTaken := by
  induction h with
  | init => intro j _ _ hj; simp [World.init, List.getElem?_replicate] at hj
  | step i slot hr hs ih => exact answeredTaken_step ih (linear_of_reachable hr) hs

/-- **Every successful answer carries its sequence's id.** In every world an
interleaving of `infer` calls reaches from a freshly loaded version, a
request that returned OK took the mutex of a Sequence object whose first
taker is a START, and, where no model output is named `sequence_id`, its
response's `sequence_id` output is that START's id and nothing else: also
for a CONTINUE that took the Sequence after an END released it. A request
whose object was destroyed under it does not return. -/
theorem answered_sequence_id
    (h : Reachable rt requests (World.init rt maxSequenceNumber nireq threads) w)
    (hno : ∀ outputs, "sequence_id" ∉ (rt.serializePredictResponse outputs []).2.keys)
    {j : Nat} {status : Status} {response : TensorMap}
    (hdone : w.pcs[j]? = some (.done status response)) (hok : status.code = .OK) :
    ∃ a ∈ w.shared.log, a.thread = j ∧ ∃ start rest, w.shared.takers a.sequence = start :: rest ∧
      start.spec.sequenceControlInput = SEQUENCE_START ∧
      response.find "sequence_id" =
        some { dtype := DT_UINT64, tensorShape := [1], uint64Val := [start.spec.sequenceId] } := by
  obtain ⟨a, ha, rfl⟩ := answeredTaken_of_reachable h j status response hdone hok
  obtain ⟨F, G, pc, hF, hpc, hf⟩ := (linear_of_reachable h).follows a ha
  rw [hdone, Option.some_inj] at hpc
  subst hpc
  obtain ⟨hresp, hst⟩ := hf
  -- the locked part succeeded, so it answered the request's id
  obtain ⟨outputs, hL⟩ := lockedPart_response_of_ok rt (hst.elim (· ▸ hok) (·.2.1))
  have hhist := (owned_of_reachable h).history
  refine ⟨a, ha, rfl, ?_⟩
  rw [hF, hresp, hL, find_addSequenceIdOutput (hno outputs)]
  cases F with
  | nil => exact ⟨a, G, rfl, (hhist _ a G hF).1, rfl⟩
  | cons f F =>
    -- a later taker named its START's id
    obtain ⟨hs, hrest⟩ := hhist _ f (F ++ a :: G) hF
    exact ⟨f, _, rfl, hs, by rw [(hrest a (by simp)).1]⟩

theorem answered_sequence_id_continueAfterEnd :
    Reachable tallyRuntime lateRemovalRequests (World.init tallyRuntime 4 2 3)
        continueAfterEndWorld ∧
      (∀ outputs, "sequence_id" ∉ (tallyRuntime.serializePredictResponse outputs []).2.keys) ∧
      ∃ status response, continueAfterEndWorld.pcs[2]? = some (.done status response) ∧
        status.code = .OK ∧
        ∃ a ∈ continueAfterEndWorld.shared.log, a.thread = 2 ∧
          ∃ start rest, continueAfterEndWorld.shared.takers a.sequence = start :: rest ∧
            start.spec.sequenceControlInput = SEQUENCE_START ∧
            response.find "sequence_id" =
              some { dtype := DT_UINT64, tensorShape := [1], uint64Val := [start.spec.sequenceId] } :=
  have h : Reachable tallyRuntime lateRemovalRequests (World.init tallyRuntime 4 2 3)
      continueAfterEndWorld := reachable_scheduled (by decide)
  have hno : ∀ outputs,
      "sequence_id" ∉ (tallyRuntime.serializePredictResponse outputs []).2.keys := fun _ => by
    simp [tallyRuntime, counterRuntime, TensorMap.modify, TensorMap.keys]
  ⟨h, hno, _, _, rfl, by decide, answered_sequence_id h hno rfl (by decide)⟩

end OvmsStateful
