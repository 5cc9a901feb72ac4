import OvmsStateful.Interleaving.World
import Mathlib.Data.List.GetD
/-!
# A request alone is the sequential `infer`

The interleaved model is built from the same functions as the sequential
one; this file proves that the two agree. `Shared.view` reads the manager of
ids and Sequence objects as the sequential model's manager of Sequences. In
every reachable world each live id names an object of its own, which
`removeSequence` has not destroyed (`indexed_of_reachable`), so a write
through the object an id resolved to is a write to that id. A thread that steps while no other thread holds anything
then goes from `start` to `done` in steps of its own, returns the status and
response `infer` gives, and leaves the manager and the infer request `infer`
leaves (`runs_alone_as_infer`). The simulation follows `infer`'s stages:
validation (`runsTo_infer`), the manager's mutex (`runsTo_of_lockManager`),
and the locked part from the hand-off on (`runsTo_of_acquireStream`).
-/

namespace OvmsStateful

variable {Tensor : Type}

namespace Shared

/-- The manager as the sequential model has it: each live id's Sequence. -/
def view (s : Shared Tensor) : SequenceManager (Sequence Tensor) :=
  s.manager.map fun o => s.sequences.getD o {}

/-- Each live id names an object of `sequences` that is not destroyed, and no
two ids the same one. -/
structure Indexed (s : Shared Tensor) : Prop where
  lt : ∀ p ∈ s.manager.sequences, p.2 < s.sequences.length
  nodup : (s.manager.sequences.map Prod.snd).Nodup
  /-- No live id names a destroyed object: no dangling reference. -/
  not_destroyed : ∀ p ∈ s.manager.sequences, p.2 ∉ s.destroyed
  /-- Only created objects are destroyed. -/
  destroyed_lt : ∀ o ∈ s.destroyed, o < s.sequences.length

end Shared

/-! ## Each live id names an object of its own -/

variable {rt : Runtime Tensor} {requests : List PredictRequest}

/-- **What a step does to the manager and the objects.** It keeps the manager,
the number of objects and the destroyed ones; or `processRequestedSpec`
succeeded, adding an object for a START; or it is `removeSequence`, which
destroys the object the id named. -/
theorem advance_manager {request : PredictRequest} {w : World Tensor} {i slot : Nat} {pc : Pc}
    {next : Shared Tensor × Pc} (h : advance rt request w i slot pc = some next) :
    (next.1.manager = w.shared.manager ∧ next.1.sequences.length = w.shared.sequences.length ∧
      next.1.destroyed = w.shared.destroyed) ∨
    (∃ spec, (w.shared.manager.processRequestedSpec w.shared.sequences.length spec).1.code = .OK ∧
      next.1.manager = (w.shared.manager.processRequestedSpec w.shared.sequences.length spec).2.1 ∧
      next.1.sequences = (if spec.sequenceControlInput = SEQUENCE_START then
        w.shared.sequences ++ [({} : Sequence Tensor)] else w.shared.sequences) ∧
      next.1.destroyed = w.shared.destroyed) ∨
    (∃ sequenceId, w.Available .manager ∧
      next.1.manager = (w.shared.manager.removeSequence sequenceId).2 ∧
      next.1.sequences = w.shared.sequences ∧
      next.1.destroyed = w.shared.destroyed ++ (w.shared.manager.getSequence sequenceId).toList) := by
  cases pc <;> simp only [advance] at h
  case lockManager spec =>
    split_ifs at h with hm hp <;> (try split at h) <;> cases h
    · exact .inl ⟨rfl, rfl, rfl⟩
    all_goals exact .inr (.inl ⟨spec, by simpa [Status.ok] using hp, rfl, by simp [*], rfl⟩)
  case relockManager spec k response =>
    split_ifs at h with hm
    cases h; exact .inr (.inr ⟨_, hm, rfl, rfl, rfl⟩)
  case postprocess =>
    split at h <;> cases h
    exacts [.inl ⟨rfl, rfl, rfl⟩, .inl ⟨rfl, List.length_set .., rfl⟩]
  case done | undefinedBehavior => cases h
  all_goals (try split_ifs at h) <;> cases h <;> exact .inl ⟨rfl, rfl, rfl⟩

/-- Objects are destroyed for good, and only under the manager's mutex. -/
theorem advance_destroyed {request : PredictRequest} {w : World Tensor} {i slot : Nat} {pc : Pc}
    {next : Shared Tensor × Pc} (h : advance rt request w i slot pc = some next) :
    ∃ d, next.1.destroyed = w.shared.destroyed ++ d ∧ (d = [] ∨ w.Available .manager) := by
  rcases advance_manager h with ⟨-, -, hd⟩ | ⟨-, -, -, -, hd⟩ | ⟨_, hm, -, -, hd⟩
  exacts [⟨[], by rw [hd, List.append_nil], .inl rfl⟩,
    ⟨[], by rw [hd, List.append_nil], .inl rfl⟩, ⟨_, hd, .inr hm⟩]

theorem Shared.Indexed.of_eq {s s' : Shared Tensor} (hs : s.Indexed)
    (hm : s'.manager = s.manager) (hl : s'.sequences.length = s.sequences.length)
    (hd : s'.destroyed = s.destroyed) : s'.Indexed :=
  ⟨fun p hp => hl ▸ hs.lt p (hm ▸ hp), hm ▸ hs.nodup,
    fun p hp => hd ▸ hs.not_destroyed p (hm ▸ hp), fun o ho => hl ▸ hs.destroyed_lt o (hd ▸ ho)⟩

/-- Removing an id destroys the object it named and no other live id's. -/
theorem Shared.Indexed.removeSequence {s : Shared Tensor} (hs : s.Indexed) (sequenceId : UInt64) :
    ∀ p ∈ (s.manager.removeSequence sequenceId).2.sequences,
      p.2 ∉ s.destroyed ++ (s.manager.getSequence sequenceId).toList := by
  intro p hp
  unfold SequenceManager.removeSequence at hp
  split_ifs at hp with hmem
  · obtain ⟨hp, hne⟩ := List.mem_filter.1 hp
    obtain ⟨o, ho⟩ := s.manager.getSequence_of_mem hmem
    rw [ho, Option.toList_some, List.mem_append, List.mem_singleton, not_or]
    refine ⟨hs.not_destroyed p hp, fun hpo => ?_⟩
    have := List.inj_on_of_nodup_map hs.nodup hp (s.manager.mem_of_getSequence ho) hpo
    simp [this] at hne
  · have hnone : s.manager.getSequence sequenceId = none :=
      Option.not_isSome_iff_eq_none.1 (mt (s.manager.getSequence_isSome_iff _).1 hmem)
    rw [hnone, Option.toList_none, List.append_nil]
    exact hs.not_destroyed p hp

/-- **Every step keeps each live id naming an object of its own**: a START's
id names the object it adds, and removal only drops ids. -/
theorem indexed_step {w w' : World Tensor} {i slot : Nat} (hs : w.shared.Indexed)
    (h : stepThread rt requests w i slot = some w') : w'.shared.Indexed := by
  obtain ⟨request, pc, next, -, -, hadv, rfl⟩ := stepThread_eq_some h
  show next.1.Indexed
  rcases advance_manager hadv with ⟨hm, hl, hd⟩ | ⟨spec, hok, hm, hseq, hd⟩ |
    ⟨sequenceId, -, hm, hseq, hd⟩
  · exact hs.of_eq hm hl hd
  · generalize hp : w.shared.manager.processRequestedSpec w.shared.sequences.length spec = p
      at hok hm
    obtain ⟨status, m', spec'⟩ := p
    rcases w.shared.manager.processRequestedSpec_cases hp with ⟨hne, -⟩ |
      ⟨-, hst, -, -, _, _, _, rfl⟩ | ⟨-, hst, -, rfl, -⟩
    · exact absurd hok hne
    · -- a START: the new id names the new object, past every old one
      rw [if_pos hst] at hseq
      have hlen : next.1.sequences.length = w.shared.sequences.length + 1 := by simp [hseq]
      have hmem : ∀ p ∈ next.1.manager.sequences,
          p ∈ w.shared.manager.sequences ∨ p = (spec'.sequenceId, w.shared.sequences.length) := by
        simp [hm, SequenceManager.createSequence]
      refine ⟨fun p hp => ?_, ?_, fun p hp => ?_, fun o ho => ?_⟩
      · rcases hmem p hp with hp | rfl
        exacts [hlen ▸ Nat.lt_succ_of_lt (hs.lt p hp), hlen ▸ Nat.lt_succ_self _]
      · simp only [hm, SequenceManager.createSequence, List.map_append, List.map_cons, List.map_nil]
        refine hs.nodup.append (List.nodup_singleton _) (List.disjoint_singleton.2 fun hmem => ?_)
        obtain ⟨p, hp, he⟩ := List.mem_map.1 hmem
        exact absurd (he ▸ hs.lt p hp) (Nat.lt_irrefl _)
      · rcases hmem p hp with hp | rfl
        exacts [hd ▸ hs.not_destroyed p hp, hd ▸ fun ho => Nat.lt_irrefl _ (hs.destroyed_lt _ ho)]
      · exact hlen ▸ Nat.lt_succ_of_lt (hs.destroyed_lt o (hd ▸ ho))
    · rw [if_neg hst] at hseq
      exact hs.of_eq hm (by rw [hseq]) hd
  · have hsub := w.shared.manager.removeSequence_sublist sequenceId
    rw [← hm] at hsub
    refine ⟨fun p hp => hseq ▸ hs.lt p (hsub.subset hp), hs.nodup.sublist (hsub.map _),
      fun p hp => hd ▸ hs.removeSequence sequenceId p (hm ▸ hp), fun o ho => ?_⟩
    rw [hd, List.mem_append] at ho
    rcases ho with ho | ho
    · exact hseq ▸ hs.destroyed_lt o ho
    · exact hseq ▸ hs.lt _ (w.shared.manager.mem_of_getSequence (Option.mem_toList.1 ho))

theorem indexed_init (maxSequenceNumber : UInt32) (nireq threads : Nat) :
    (World.init rt maxSequenceNumber nireq threads).shared.Indexed :=
  ⟨fun p hp => by simp [World.init, SequenceManager.empty] at hp,
    by simp [World.init, SequenceManager.empty],
    fun p hp => by simp [World.init, SequenceManager.empty] at hp,
    fun o ho => by simp [World.init] at ho⟩

theorem indexed_of_reachable {w₀ w : World Tensor} (h₀ : w₀.shared.Indexed)
    (h : Reachable rt requests w₀ w) : w.shared.Indexed := by
  induction h with
  | init => exact h₀
  | step i slot _ hs ih => exact indexed_step ih hs

/-! ## Reading the objects through the view -/

theorem getD_set_self {α : Type} {l : List α} {k : Nat} (hk : k < l.length) (a d : α) :
    (l.set k a).getD k d = a := by
  simp [hk]

theorem set_getD_self {α : Type} {l : List α} {k : Nat} (hk : k < l.length) (d : α) :
    l.set k (l.getD k d) = l := by
  refine List.ext_getElem (by simp) fun j _ _ => ?_
  by_cases hj : j = k
  · subst hj; simp [hk]
  · simp [List.getElem_set_ne (Ne.symm hj)]

theorem getD_set_eq_update {α : Type} {l : List α} {o : Nat} (ho : o < l.length) (q d : α) :
    (fun x => (l.set o q).getD x d) = Function.update (fun x => l.getD x d) o q := by
  funext x
  by_cases hx : x = o
  · subst hx; simp [ho]
  · simp [hx, List.getElem?_set_ne (Ne.symm hx)]

/-- An object added at the end reads as the default, as a missing one does. -/
theorem getD_append_default {α : Type} (l : List α) (d : α) :
    (fun x => (l ++ [d]).getD x d) = fun x => l.getD x d := by
  funext x
  rcases Nat.lt_or_ge x l.length with hx | hx
  · exact List.getD_append _ _ _ _ hx
  · rw [List.getD_append_right _ _ _ _ hx, List.getD_eq_default _ _ hx]
    simp

/-- A write to the object a live id names is a write to that id's Sequence. -/
theorem Shared.view_set {s : Shared Tensor} (hs : s.Indexed) {sequenceId : UInt64} {o : Nat}
    (hseq : s.manager.getSequence sequenceId = some o) (q : Sequence Tensor) :
    s.manager.map (fun x => (s.sequences.set o q).getD x {}) =
      s.view.updateSequence sequenceId fun _ => q := by
  rw [getD_set_eq_update (hs.lt _ (s.manager.mem_of_getSequence hseq)),
    s.manager.map_update hseq hs.nodup]
  rfl

/-- **`processRequestedSpec` reads alike through the view**: the object a
START adds is read as the empty Sequence the sequential model inserts. -/
theorem Shared.view_processRequestedSpec (s : Shared Tensor) (spec : SequenceProcessingSpec) :
    s.view.processRequestedSpec {} spec =
      ((s.manager.processRequestedSpec s.sequences.length spec).1,
        (s.manager.processRequestedSpec s.sequences.length spec).2.1.map
          fun o => s.sequences.getD o {},
        (s.manager.processRequestedSpec s.sequences.length spec).2.2) := by
  have h := s.manager.map_processRequestedSpec (fun o => s.sequences.getD o {})
    s.sequences.length spec
  rwa [List.getD_eq_default _ _ (le_refl _)] at h

/-! ## A thread alone -/

namespace World

/-- No thread but `i` holds anything. -/
def Alone (w : World Tensor) (i : Nat) : Prop := ∀ j, j ≠ i → ∀ r, w.holds j r = false

variable {w : World Tensor} {i : Nat}

theorem Alone.holds_eq_false (h : w.Alone i) {r : Resource} (hi : w.holds i r = false)
    (j : Nat) : w.holds j r = false := by
  by_cases hj : j = i
  · exact hj ▸ hi
  · exact h j hj r

theorem Alone.available (h : w.Alone i) {r : Resource} (hr : r ≠ .pool)
    (hi : w.holds i r = false) : w.Available r := by
  cases r
  · exact fun j _ => h.holds_eq_false hi j
  · exact fun j _ => h.holds_eq_false hi j
  · exact absurd rfl hr

theorem Alone.streamFree (h : w.Alone i) (hi : w.holds i .pool = false) (k : Nat) :
    w.StreamFree k := fun j _ hj => by
  have := h.holds_eq_false hi j
  simp only [World.holds, World.streamOf, Option.bind_eq_some] at this hj
  obtain ⟨pc, hpc, hk⟩ := hj
  simp [hpc, Pc.holds, hk] at this

theorem Alone.set (h : w.Alone i) (s : Shared Tensor) (pc : Pc) :
    (⟨s, w.pcs.set i pc⟩ : World Tensor).Alone i := fun j hj r => by
  rw [holds_set_of_ne hj]; exact h j hj r

/-- Before any request has started, no thread holds anything. -/
theorem holds_init (maxSequenceNumber : UInt32) (nireq threads j : Nat) (r : Resource) :
    (World.init rt maxSequenceNumber nireq threads).holds j r = false := by
  simp only [World.holds, World.init, List.getElem?_replicate]
  split_ifs <;> cases r <;> rfl

theorem alone_init (maxSequenceNumber : UInt32) (nireq threads i : Nat) :
    (World.init rt maxSequenceNumber nireq threads).Alone i := fun j _ r =>
  holds_init maxSequenceNumber nireq threads j r

end World

variable (rt requests)

/-- Thread `i` alone takes steps from `w` to `w'`, each in the pool entry `slot`. -/
def RunsTo (i slot : Nat) (w w' : World Tensor) : Prop :=
  ∃ n, runSchedule rt requests w (List.replicate n (i, slot)) = some w'

theorem stepThread_of_advance (w : World Tensor) (slot : Nat) {i : Nat} {request : PredictRequest}
    {pc : Pc} {next : Shared Tensor × Pc} (hreq : requests[i]? = some request)
    (hpc : w.pcs[i]? = some pc) (h : advance rt request w i slot pc = some next) :
    stepThread rt requests w i slot = some ⟨next.1, w.pcs.set i next.2⟩ := by
  simp [stepThread, hreq, hpc, h]

variable {rt requests}

theorem RunsTo.refl {i slot : Nat} (w : World Tensor) : RunsTo rt requests i slot w w := ⟨0, rfl⟩

theorem RunsTo.head {i slot : Nat} {w w₁ w' : World Tensor}
    (h : stepThread rt requests w i slot = some w₁) (h' : RunsTo rt requests i slot w₁ w') :
    RunsTo rt requests i slot w w' := by
  obtain ⟨n, hn⟩ := h'
  exact ⟨n + 1, by simp [List.replicate_succ, runSchedule, h, hn]⟩

theorem RunsTo.reachable {w₀ w w' : World Tensor} {i slot : Nat}
    (hw : Reachable rt requests w₀ w) (h : RunsTo rt requests i slot w w') :
    Reachable rt requests w₀ w' :=
  reachable_of_runSchedule hw h.choose_spec

/-! ## The steps of a thread alone -/

section Steps

variable {request : PredictRequest} {w : World Tensor} {i k : Nat}
  {spec : SequenceProcessingSpec} {o : Nat}

variable (rt requests) in
/-- Alone, a thread gets the free infer request `k` and runs pre-inference. -/
theorem stepThread_acquireStream (hreq : requests[i]? = some request)
    (hpc : w.pcs[i]? = some (.acquireStream spec o)) (halone : w.Alone i)
    (hk : k < w.shared.streams.length) (hlive : o ∉ w.shared.destroyed) :
    let pre := preInferenceProcessing rt (w.shared.streams.getD k ⟨[]⟩)
      (w.shared.sequences.getD o {}) spec
    stepThread rt requests w i k = some ⟨{ w.shared with streams := w.shared.streams.set k pre.2 },
      w.pcs.set i (if pre.1.code = .OK then .inference spec o k else .done pre.1 [])⟩ := by
  have hfree : ¬¬(k < w.shared.streams.length ∧ w.StreamFree k) :=
    not_not.2 ⟨hk, halone.streamFree (by simp [World.holds, hpc, Pc.holds, Pc.heldStream]) k⟩
  rw [stepThread_of_advance rt requests w k hreq hpc
    (by simp only [advance, if_neg hfree, if_neg hlive, Status.ite_not_ok]; rfl)]

variable (rt requests) in
/-- Alone, an END takes the manager's mutex back and removes its id. -/
theorem stepThread_relockManager {s : Shared Tensor} {response : TensorMap}
    (hreq : requests[i]? = some request) (hi : i < w.pcs.length) (halone : w.Alone i) :
    stepThread rt requests ⟨s, w.pcs.set i (.relockManager spec k response)⟩ i k =
      some ⟨{ s with
          manager := (s.manager.removeSequence spec.sequenceId).2
          destroyed := s.destroyed ++ (s.manager.getSequence spec.sequenceId).toList },
        w.pcs.set i (.done (s.manager.removeSequence spec.sequenceId).1 response)⟩ := by
  have hm : ¬¬World.Available ⟨s, w.pcs.set i (.relockManager spec k response)⟩ .manager :=
    not_not.2 ((halone.set _ _).available (by simp) (by simp [World.holds, hi, Pc.holds]))
  rw [stepThread_of_advance rt requests _ k hreq (List.getElem?_set_self hi)
    (by simp only [advance, if_neg hm]; rfl), List.set_set]

variable (rt requests) in
/-- Alone, a thread takes the mutex of the Sequence object its id resolved to. -/
theorem stepThread_lockSequence {s : Shared Tensor} (hreq : requests[i]? = some request)
    (hi : i < w.pcs.length) (halone : w.Alone i) :
    stepThread rt requests ⟨s, w.pcs.set i (.lockSequence spec o)⟩ i k =
      some ⟨{ s with log := s.log ++ [⟨i, o, spec⟩] }, w.pcs.set i (.acquireStream spec o)⟩ := by
  have hs : ¬¬World.Available ⟨s, w.pcs.set i (.lockSequence spec o)⟩ (.sequence o) :=
    not_not.2 ((halone.set _ _).available (by simp)
      (by simp [World.holds, hi, Pc.holds, Pc.heldSequence]))
  rw [stepThread_of_advance rt requests _ k hreq (List.getElem?_set_self hi)
    (by simp only [advance, if_neg hs]; rfl), List.set_set]

end Steps

/-! ## The simulation -/

section Simulation

variable {request : PredictRequest} {w : World Tensor} {i k : Nat}

variable (rt) in
/-- **From the hand-off on, a thread alone runs the locked part of `infer`**
on the Sequence its id resolved to and the infer request it took. -/
theorem runsTo_of_acquireStream {spec : SequenceProcessingSpec} {o : Nat}
    {manager : SequenceManager (Sequence Tensor)} {sequence : Sequence Tensor}
    (hreq : requests[i]? = some request) (hpc : w.pcs[i]? = some (.acquireStream spec o))
    (halone : w.Alone i) (hidx : w.shared.Indexed)
    (hseq : w.shared.manager.getSequence spec.sequenceId = some o)
    (hk : k < w.shared.streams.length) (hmanager : w.shared.view = manager)
    (hsequence : w.shared.sequences.getD o {} = sequence) :
    let res := inferSequence rt request [] manager sequence spec (w.shared.streams.getD k ⟨[]⟩)
    ∃ w', RunsTo rt requests i k w w' ∧ w'.pcs = w.pcs.set i (.done res.status res.response) ∧
      w'.shared.view = res.manager ∧
      w'.shared.streams = w.shared.streams.set k res.inferRequest := by
  subst hmanager hsequence
  intro res
  have hi : i < w.pcs.length := (List.getElem?_eq_some_iff.1 hpc).1
  have hlive := hidx.not_destroyed _ (w.shared.manager.mem_of_getSequence hseq)
  have h1 := stepThread_acquireStream rt requests hreq hpc halone hk hlive
  dsimp only at h1
  set pre := preInferenceProcessing rt (w.shared.streams.getD k ⟨[]⟩)
    (w.shared.sequences.getD o {}) spec
  by_cases hpre : pre.1.code = .OK
  swap
  · -- pre-inference fails
    rw [if_neg hpre] at h1
    have hres : res = _ := inferSequence_of_pre_fail rt hpre
    exact ⟨_, .head h1 (.refl _), by rw [hres], by rw [hres]; rfl, by rw [hres]⟩
  rw [if_pos hpre] at h1
  set run := runInference rt request pre.2 []
  have h2 := stepThread_of_advance rt requests ⟨{ w.shared with
    streams := w.shared.streams.set k pre.2 }, w.pcs.set i (.inference spec o k)⟩ k hreq
    (List.getElem?_set_self hi) rfl
  simp only [getD_set_self hk, List.set_set, Status.ite_not_ok, hlive, ↓reduceIte] at h2
  by_cases hrun : run.1.code = .OK
  swap
  · -- inference fails
    rw [if_neg hrun] at h2
    have hres : res = _ := inferSequence_of_run_fail rt hpre hrun
    exact ⟨_, .head h1 (.head h2 (.refl _)), by rw [hres], by rw [hres]; rfl, by rw [hres]⟩
  rw [if_pos hrun] at h2
  have hres : res = _ := inferSequence_of_run_ok rt (by simp [Shared.view, hseq]) hpre hrun
  have h3 := stepThread_of_advance rt requests ⟨{ w.shared with
    streams := w.shared.streams.set k run.2.1 }, w.pcs.set i (.postprocess spec o k run.2.2)⟩ k hreq
    (List.getElem?_set_self hi) (by simp only [advance, hlive, ↓reduceIte]; rfl)
  simp only [getD_set_self hk, List.set_set, postInferenceProcessing, apply_ite Prod.fst,
    apply_ite Prod.snd, ite_self, Status.ite_not_ok, Status.ofCode_code, eq_self_iff_true,
    ↓reduceIte] at h3
  by_cases hend : spec.sequenceControlInput = SEQUENCE_END
  swap
  · -- post-inference saves the state into the Sequence
    simp only [if_neg hend] at h3 hres
    refine ⟨_, .head h1 (.head h2 (.head h3 (.refl _))), by rw [hres], ?_, by rw [hres]⟩
    rw [hres]; exact Shared.view_set hidx hseq _
  -- an END resets the infer request, then removes its id under the manager's mutex
  simp only [if_pos hend] at h3 hres
  have hmem := w.shared.manager.mem_ids_of_getSequence hseq
  refine ⟨_, .head h1 (.head h2 (.head h3
    (.head (stepThread_relockManager rt requests hreq hi halone) (.refl _)))), ?_, ?_, by rw [hres]⟩
  · rw [hres]; simp only [SequenceManager.removeSequence, if_pos hmem]
  · rw [hres]
    show (w.shared.manager.removeSequence spec.sequenceId).2.map
      (fun x => (w.shared.sequences.set o (w.shared.sequences.getD o {})).getD x {}) = _
    rw [getD_set_eq_update (hidx.lt _ (w.shared.manager.mem_of_getSequence hseq)),
      Function.update_eq_self]
    simp only [SequenceManager.removeSequence, if_pos hmem, SequenceManager.map_eraseSequence]
    rfl

variable (rt) in
/-- **From the manager's mutex on, a thread alone runs `infer` past its
validation**: `processRequestedSpec` on the view, the lookup of the id, and
the locked part on the object it names. -/
theorem runsTo_of_lockManager (hreq : requests[i]? = some request)
    (hv : (validate rt request {}).1.code = .OK)
    (hpc : w.pcs[i]? = some (.lockManager (validate rt request {}).2))
    (halone : w.Alone i) (hidx : w.shared.Indexed) (hk : k < w.shared.streams.length) :
    let res := infer rt request [] w.shared.view (w.shared.streams.getD k ⟨[]⟩)
    ∃ w', RunsTo rt requests i k w w' ∧ w'.pcs = w.pcs.set i (.done res.status res.response) ∧
      w'.shared.view = res.manager ∧
      w'.shared.streams = w.shared.streams.set k res.inferRequest := by
  intro res
  set v := validate rt request {}
  have hi : i < w.pcs.length := (List.getElem?_eq_some_iff.1 hpc).1
  have hm : ¬¬w.Available .manager :=
    not_not.2 (halone.available (by simp) (by simp [World.holds, hpc, Pc.holds]))
  -- processRequestedSpec, which the view reads alike
  rcases hp : w.shared.manager.processRequestedSpec w.shared.sequences.length v.2 with
    ⟨status, m', spec'⟩
  have hp' : w.shared.view.processRequestedSpec {} v.2 =
      (status, m'.map fun o => w.shared.sequences.getD o {}, spec') := by
    rw [Shared.view_processRequestedSpec, hp]
  by_cases hst : status.code = .OK
  swap
  · -- processRequestedSpec fails
    have hres : res = _ := infer_of_process_fail rt hv (by rw [hp']; exact hst)
    rw [hp'] at hres
    have h2 := stepThread_of_advance rt requests w k hreq hpc (by
      simp only [advance, if_neg hm, hp, Status.ite_not_ok, if_neg hst]
      rfl)
    obtain ⟨rfl, -⟩ := w.shared.manager.processRequestedSpec_of_fail hp hst
    exact ⟨_, .head h2 (.refl _), by rw [hres], by rw [hres]; rfl,
      by rw [hres, set_getD_self hk]⟩
  -- the id resolves to an object; take its mutex, then an infer request
  obtain ⟨sequence, hgs, hres⟩ :=
    @infer_of_process_ok _ rt _ [] _ (w.shared.streams.getD k ⟨[]⟩) hv _ _ _ hp' hst
  obtain ⟨o, hgo, rfl⟩ := Option.map_eq_some'.1 ((m'.getSequence_map _ _).symm.trans hgs)
  have h2 := stepThread_of_advance rt requests w k hreq hpc (by
    simp only [advance, if_neg hm, hp, Status.ite_not_ok, if_pos hst, hgo]
    rfl)
  set s₂ : Shared Tensor := { w.shared with
    manager := m'
    sequences := if v.2.sequenceControlInput = SEQUENCE_START then
      w.shared.sequences ++ [{}] else w.shared.sequences } with hs₂
  have h3 : stepThread rt requests ⟨s₂, w.pcs.set i (.lockSequence spec' o)⟩ i k = _ :=
    stepThread_lockSequence rt requests hreq hi halone
  have hread : (fun x => s₂.sequences.getD x {}) = fun x => w.shared.sequences.getD x {} := by
    simp only [hs₂]
    split_ifs
    exacts [getD_append_default _ _, rfl]
  obtain ⟨w', hrun, hpcs, hview, hstreams⟩ :=
    runsTo_of_acquireStream rt hreq (List.getElem?_set_self hi) (halone.set _ _)
      (indexed_step (indexed_step hidx h2) h3) hgo hk (congrArg m'.map hread) (congrFun hread o)
  have hres' : res = _ := hres
  refine ⟨w', .head h2 (.head h3 hrun), ?_, ?_, ?_⟩ <;> rw [hres']
  exacts [hpcs.trans (List.set_set _ _ _ _), hview, hstreams]

variable (rt) in
/-- **A request alone runs as the sequential `infer`**, from any world whose
live ids name objects of their own: on the manager the world holds and the
infer request `k`, with an empty response. -/
theorem runsTo_infer (hreq : requests[i]? = some request) (hpc : w.pcs[i]? = some .start)
    (halone : w.Alone i) (hidx : w.shared.Indexed) (hk : k < w.shared.streams.length) :
    let res := infer rt request [] w.shared.view (w.shared.streams.getD k ⟨[]⟩)
    ∃ w', RunsTo rt requests i k w w' ∧ w'.pcs = w.pcs.set i (.done res.status res.response) ∧
      w'.shared.view = res.manager ∧
      w'.shared.streams = w.shared.streams.set k res.inferRequest := by
  intro res
  have hi : i < w.pcs.length := (List.getElem?_eq_some_iff.1 hpc).1
  have h1 := stepThread_of_advance rt requests w k hreq hpc rfl
  simp only [Status.ite_not_ok] at h1
  by_cases hv : (validate rt request {}).1.code = .OK
  swap
  · -- validation fails
    rw [if_neg hv] at h1
    have hres : res = _ := infer_of_validate_fail rt hv
    exact ⟨_, .head h1 (.refl _), by rw [hres], by rw [hres], by rw [hres, set_getD_self hk]⟩
  rw [if_pos hv] at h1
  obtain ⟨w', hrun, hpcs, hview, hstreams⟩ := runsTo_of_lockManager rt hreq hv
    (List.getElem?_set_self hi) (halone.set _ _) (indexed_step hidx h1) hk
  exact ⟨w', .head h1 hrun, hpcs.trans (List.set_set ..), hview, hstreams⟩

end Simulation

variable {request : PredictRequest} {w : World Tensor} {i k : Nat}

/-- **A request that runs alone is the sequential `infer`.** In any world an
interleaving reaches from a freshly loaded version, a request that has not
started, stepping while no other request holds anything and taking the free
infer request `k`, returns in steps of its own the status and response
`infer` gives on the world's manager and that infer request; the manager and
the infer request it leaves are the ones `infer` leaves. -/
theorem runs_alone_as_infer (rt : Runtime Tensor) {maxSequenceNumber : UInt32}
    {nireq threads : Nat}
    (hr : Reachable rt requests (World.init rt maxSequenceNumber nireq threads) w)
    (hreq : requests[i]? = some request) (hpc : w.pcs[i]? = some .start) (halone : w.Alone i)
    (hk : k < nireq) :
    let res := infer rt request [] w.shared.view (w.shared.streams.getD k ⟨[]⟩)
    ∃ w', RunsTo rt requests i k w w' ∧ w'.pcs = w.pcs.set i (.done res.status res.response) ∧
      w'.shared.view = res.manager ∧
      w'.shared.streams = w.shared.streams.set k res.inferRequest :=
  runsTo_infer rt hreq hpc halone (indexed_of_reachable (indexed_init _ _ _) hr)
    (by rwa [(length_of_reachable_init hr).2])

theorem runs_alone_as_infer_start :
    (World.init counterRuntime 4 1 2).Alone 1 ∧
    let w := World.init counterRuntime 4 1 2
    let res := infer counterRuntime startRequest [] w.shared.view (w.shared.streams.getD 0 ⟨[]⟩)
    ∃ w', RunsTo counterRuntime [startRequest, startRequest] 1 0 w w' ∧
      w'.pcs = w.pcs.set 1 (.done res.status res.response) ∧ w'.shared.view = res.manager ∧
      w'.shared.streams = w.shared.streams.set 0 res.inferRequest :=
  ⟨World.alone_init 4 1 2 1,
    runs_alone_as_infer counterRuntime .init rfl rfl (World.alone_init 4 1 2 1) (by decide)⟩

end OvmsStateful
