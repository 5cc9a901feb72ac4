import OvmsStateful.Interleaving.Alone
import OvmsStateful.Refinement
import Mathlib.Data.List.OfFn
/-!
# Serial runs are the sequential server's runs

When requests do not overlap, each running alone from its start to its
return, the interleaved model serves them as the sequential server
`serveAll` does. `World.Matches` relates a world to a server between calls:
the world's manager, read through the view, is the server's, and its pool is
the server's pool. One request run alone is one `Served.serve`
(`serve_of_alone`, from `runsTo_infer`), so a serial run is `serveAll`, in
the order the requests ran (`serial_runs_as_serveAll`).
-/

namespace OvmsStateful

variable {Tensor : Type} {rt : Runtime Tensor} {requests : List PredictRequest} {nireq : Nat}

/-! ## The pool as a list -/

theorem getD_ofFn {α : Type} {n : Nat} (f : Fin n → α) (k : Fin n) (d : α) :
    (List.ofFn f).getD k d = f k := by
  simp [List.getD_eq_getElem?_getD, List.getElem?_ofFn, List.ofFnNthVal, k.2]

theorem set_ofFn {α : Type} {n : Nat} (f : Fin n → α) (k : Fin n) (a : α) :
    (List.ofFn f).set k a = List.ofFn (Function.update f k a) := by
  refine List.ext_getElem (by simp) fun j h₁ h₂ => ?_
  by_cases hj : j = k
  · subst hj; simp
  · have : (⟨j, by simpa using h₂⟩ : Fin n) ≠ k := fun e => hj (congrArg Fin.val e)
    simp [List.getElem_set_ne (Ne.symm hj), Function.update_noteq this]

/-! ## One request -/

/-- The world holds what a server between calls holds: its manager, read
through the view, and its pool. -/
def World.Matches (w : World Tensor) (s : Served Tensor nireq) : Prop :=
  w.shared.view = s.manager ∧ w.shared.streams = List.ofFn s.pool

variable {w : World Tensor} {s : Served Tensor nireq} {i : Nat} {request : PredictRequest}

variable (rt) in
/-- **A request alone is one call of the server.** -/
theorem serve_of_alone (hm : w.Matches s) (hidx : w.shared.Indexed) (halone : w.Alone i)
    (hpc : w.pcs[i]? = some .start) (hreq : requests[i]? = some request) (slot : Fin nireq) :
    ∃ w', RunsTo rt requests i slot w w' ∧
      w'.pcs = w.pcs.set i (.done (s.serve rt request slot).1.1 (s.serve rt request slot).1.2) ∧
      w'.Matches (s.serve rt request slot).2 := by
  obtain ⟨w', hrun, hpcs, hview, hstreams⟩ :=
    runsTo_infer rt hreq hpc halone hidx (show (slot : Nat) < _ by simp [hm.2])
  simp only [hm.1, hm.2, getD_ofFn] at hpcs hview hstreams
  exact ⟨w', hrun, hpcs, hview, hstreams.trans (set_ofFn _ _ _)⟩

/-! ## Serial runs -/

variable (rt requests) in
/-- The threads of `order` run one after another, each alone in its pool
entry, from where it stands to its return. -/
inductive SerialRun : List (Nat × Nat) → World Tensor → World Tensor → Prop
  | nil (w : World Tensor) : SerialRun [] w w
  | cons {i k : Nat} {rest : List (Nat × Nat)} {w w₁ w' : World Tensor} {status : Status}
      {response : TensorMap} :
      RunsTo rt requests i k w w₁ → w₁.pcs[i]? = some (.done status response) →
      SerialRun rest w₁ w' → SerialRun ((i, k) :: rest) w w'

theorem SerialRun.reachable {w₀ w w' : World Tensor} {order : List (Nat × Nat)}
    (hw : Reachable rt requests w₀ w) (h : SerialRun rt requests order w w') :
    Reachable rt requests w₀ w' := by
  induction h with
  | nil => exact hw
  | cons hrun _ _ ih => exact ih (hrun.reachable hw)

variable (rt) in
/-- **Serial runs are the server's runs**, from any world that holds what the
server holds and in which no thread holds anything. -/
theorem serialRun_serveAll (order : List (Nat × Fin nireq)) (w : World Tensor)
    (s : Served Tensor nireq) (hm : w.Matches s) (hidx : w.shared.Indexed)
    (hquiet : ∀ j r, w.holds j r = false)
    (hstart : ∀ p ∈ order, w.pcs[p.1]? = some .start ∧ p.1 < requests.length)
    (hnd : (order.map Prod.fst).Nodup) :
    let served := order.map fun p => (requests.getD p.1 ⟨[]⟩, p.2)
    ∃ w', SerialRun rt requests (order.map fun p => (p.1, (p.2 : Nat))) w w' ∧
      order.map (fun p => w'.pcs[p.1]?) =
        (serveAll rt served s).1.map (fun r => some (.done r.1 r.2)) ∧
      w'.Matches (serveAll rt served s).2 ∧
      ∀ j, j ∉ order.map Prod.fst → w'.pcs[j]? = w.pcs[j]? := by
  induction order generalizing w s with
  | nil => exact ⟨w, .nil w, rfl, hm, fun _ _ => rfl⟩
  | cons step rest ih =>
    obtain ⟨i, slot⟩ := step
    obtain ⟨hpc, hlt⟩ := hstart (i, slot) (List.mem_cons_self _ _)
    obtain ⟨hi, hnd⟩ := List.nodup_cons.1 hnd
    dsimp only at hpc hlt hi
    have hreq : requests[i]? = some (requests.getD i ⟨[]⟩) := by simp [hlt]
    obtain ⟨w₁, hrun, hpcs, hm₁⟩ :=
      serve_of_alone rt hm hidx (fun j _ r => hquiet j r) hpc hreq slot
    have hpc₁ : ∀ j, j ≠ i → w₁.pcs[j]? = w.pcs[j]? := fun j hj => by
      rw [hpcs, List.getElem?_set_ne (Ne.symm hj)]
    have hquiet₁ : ∀ j r, w₁.holds j r = false := fun j r => by
      by_cases hj : j = i
      · subst hj
        simp only [World.holds, hpcs, List.getElem?_set_self (List.getElem?_eq_some_iff.1 hpc).1]
        cases r <;> rfl
      · simpa [World.holds, hpc₁ j hj] using hquiet j r
    obtain ⟨w', hser, hresp, hm', hframe⟩ := ih w₁ _ hm₁
      (indexed_of_reachable hidx (hrun.reachable .init)) hquiet₁
      (fun p hp => ⟨(hpc₁ p.1 fun e => hi (e ▸ List.mem_map.2 ⟨p, hp, rfl⟩)).trans
        (hstart p (List.mem_cons_of_mem _ hp)).1, (hstart p (List.mem_cons_of_mem _ hp)).2⟩) hnd
    have hdone : w'.pcs[i]? = some (.done (s.serve rt (requests.getD i ⟨[]⟩) slot).1.1
        (s.serve rt (requests.getD i ⟨[]⟩) slot).1.2) := by
      rw [hframe i hi, hpcs, List.getElem?_set_self (List.getElem?_eq_some_iff.1 hpc).1]
    refine ⟨w', .cons hrun ((hframe i hi).symm.trans hdone) hser, ?_, hm', fun j hj => ?_⟩
    · simp only [List.map_cons, serveAll, hdone, hresp]
    · simp only [List.map_cons, List.mem_cons, not_or] at hj
      rw [hframe j hj.2, hpc₁ j hj.1]


/-- **Serial runs of `infer` are the sequential server's runs.** From a
freshly loaded version, let distinct requests run one after another, each
alone in the pool entry `order` gives it, from its start to its return. Each
returns the status and response `serveAll` gives it, and the manager (read
through the view) and the pool end as `serveAll` leaves them. -/
theorem serial_runs_as_serveAll (rt : Runtime Tensor) {maxSequenceNumber : UInt32}
    {threads : Nat} (order : List (Nat × Fin nireq)) (hnd : (order.map Prod.fst).Nodup)
    (hlt : ∀ p ∈ order, p.1 < threads ∧ p.1 < requests.length) :
    let served := order.map fun p => (requests.getD p.1 ⟨[]⟩, p.2)
    let s₀ : Served Tensor nireq := ⟨.empty maxSequenceNumber, fun _ => rt.freshInferRequest⟩
    ∃ w', SerialRun rt requests (order.map fun p => (p.1, (p.2 : Nat)))
        (World.init rt maxSequenceNumber nireq threads) w' ∧
      order.map (fun p => w'.pcs[p.1]?) =
        (serveAll rt served s₀).1.map (fun r => some (.done r.1 r.2)) ∧
      w'.shared.view = (serveAll rt served s₀).2.manager ∧
      w'.shared.streams = List.ofFn (serveAll rt served s₀).2.pool := by
  intro served s₀
  obtain ⟨w', hser, hresp, hm, -⟩ :=
    serialRun_serveAll rt order (World.init rt maxSequenceNumber nireq threads) s₀
    ⟨rfl, (List.ofFn_const _ _).symm⟩ (indexed_init _ _ _) (World.holds_init _ _ _)
    (fun p hp => ⟨by simp [World.init, List.getElem?_replicate, (hlt p hp).1], (hlt p hp).2⟩) hnd
  exact ⟨w', hser, hresp, hm⟩

theorem serial_runs_as_serveAll_counter :
    let order : List (Nat × Fin 2) := [(0, 0), (1, 1), (2, 0)]
    let requests := [startRequest, sequenceRequest 1 NO_CONTROL_INPUT,
      sequenceRequest 1 SEQUENCE_END]
    let served := order.map fun p => (requests.getD p.1 ⟨[]⟩, p.2)
    let s₀ : Served Nat 2 := ⟨.empty 4, fun _ => counterRuntime.freshInferRequest⟩
    (order.map Prod.fst).Nodup ∧ (∀ p ∈ order, p.1 < 3 ∧ p.1 < requests.length) ∧
    ∃ w', SerialRun counterRuntime requests (order.map fun p => (p.1, (p.2 : Nat)))
        (World.init counterRuntime 4 2 3) w' ∧
      order.map (fun p => w'.pcs[p.1]?) =
        (serveAll counterRuntime served s₀).1.map (fun r => some (.done r.1 r.2)) ∧
      w'.shared.view = (serveAll counterRuntime served s₀).2.manager ∧
      w'.shared.streams = List.ofFn (serveAll counterRuntime served s₀).2.pool :=
  ⟨by decide, by decide, serial_runs_as_serveAll counterRuntime _ (by decide) (by decide)⟩

end OvmsStateful
