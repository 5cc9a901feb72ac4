import OvmsStateful.SpecialInputs
import Mathlib.Data.List.Permutation
/-!
# The sequence manager

`SequenceManager` and `Sequence` are declared outside `statefulmodelinstance.cpp`;
this file models them from the spec (§3, §4.B, §4.C). The manager is
generic in what it stores for a sequence: the sequential pipeline stores
the `Sequence` itself, the interleaving model a reference to one.

The spec's invariants of a manager (§3: ids are non-zero and unique, and
the population never exceeds `maxSequenceNumber`) are fields, so every
operation must keep them to be defined at all. `processRequestedSpec_cases`
says once everything `processRequestedSpec` can do; later files read its
effects off that lemma and never unfold it.
-/

namespace OvmsStateful

/-- A key is found exactly when it is one of the list's keys. -/
theorem lookup_isSome_iff {α β : Type} [DecidableEq α] (l : List (α × β)) (a : α) :
    (l.lookup a).isSome ↔ a ∈ l.map Prod.fst := by
  induction l with
  | nil => simp
  | cons p rest ih =>
    obtain ⟨k, v⟩ := p
    by_cases h : a = k
    · simp [List.lookup_cons, h]
    · simp [List.lookup_cons, beq_false_of_ne h, h, ← ih]

/-- In a map with unique names, each entry is what its name looks up. -/
theorem lookup_of_mem {α β : Type} [DecidableEq α] {l : List (α × β)} (hnd : (l.map Prod.fst).Nodup)
    {p : α × β} (hp : p ∈ l) : l.lookup p.1 = some p.2 := by
  induction l with
  | nil => simp at hp
  | cons q rest ih =>
    obtain ⟨k, v⟩ := q
    simp only [List.map_cons, List.nodup_cons] at hnd
    rcases List.mem_cons.1 hp with rfl | hp
    · simp [List.lookup_cons]
    · have hk : p.1 ≠ k := fun h => hnd.1 (h ▸ List.mem_map_of_mem Prod.fst hp)
      simp [List.lookup_cons, beq_false_of_ne hk, ih hnd.2 hp]

/-- What a key looks up is an entry of the list. -/
theorem mem_of_lookup {α β : Type} [DecidableEq α] {l : List (α × β)} {a : α} {b : β}
    (h : l.lookup a = some b) : (a, b) ∈ l := by
  induction l with
  | nil => simp at h
  | cons q rest ih =>
    obtain ⟨k, v⟩ := q
    by_cases hk : a = k
    · subst hk; simp_all [List.lookup_cons]
    · simp only [List.lookup_cons, beq_false_of_ne hk] at h
      exact List.mem_cons_of_mem _ (ih h)

/-- Modelled from the spec: a `Sequence` (§3, §4.B), as the memory state it
saved. Its mutex is the interleaving model's concern; its idle flag, read
only by the reaper, is not modelled. -/
structure Sequence (Tensor : Type) where
  memoryState : List (String × Tensor) := []
  deriving DecidableEq, Repr

/-- Modelled from the spec: `Sequence::updateMemoryState`, which replaces the
saved map wholesale with the pairs `query_state` listed (§4.B). -/
def Sequence.updateMemoryState {Tensor : Type} (_ : Sequence Tensor)
    (modelState : List (String × Tensor)) : Sequence Tensor :=
  ⟨modelState⟩

/-- Modelled from the spec: a `SequenceManager` (§3, §4.C), holding a value
of `σ` for each live id. -/
@[ext]
structure SequenceManager (σ : Type) where
  sequences : List (UInt64 × σ)
  maxSequenceNumber : UInt32
  ids_nodup : (sequences.map Prod.fst).Nodup
  id_ne_zero : ∀ p ∈ sequences, p.1 ≠ 0
  length_le : sequences.length ≤ maxSequenceNumber.toNat

namespace SequenceManager

variable {σ τ : Type} (m : SequenceManager σ)

/-- A fresh manager, as `loadModelImpl` creates it. -/
def empty (maxSequenceNumber : UInt32) : SequenceManager σ :=
  ⟨[], maxSequenceNumber, List.nodup_nil, fun _ h => absurd h (List.not_mem_nil _),
    Nat.zero_le _⟩

/-- The live ids. -/
def ids : List UInt64 := m.sequences.map Prod.fst

/-- `sequenceExists`. -/
def sequenceExists (sequenceId : UInt64) : Bool := m.ids.contains sequenceId

/-- `getSequence`: the value held for an id. -/
def getSequence (sequenceId : UInt64) : Option σ := m.sequences.lookup sequenceId

/-- Modelled from the spec: the id `processRequestedSpec` gives a START
without one, "a fresh id not currently in use" found by a scan: the least
non-zero id that no live sequence holds. -/
def uniqueSequenceId (ids : List UInt64) : UInt64 :=
  (((List.range (ids.length + 1)).map fun n => UInt64.ofNat (n + 1)).find?
    fun c => !ids.contains c).getD 0

/-- The scan's candidates `1 … n + 1` are distinct ids, none of them `0`. -/
theorem candidates_nodup {n : Nat} (h : n < UInt32.size) :
    ((List.range (n + 1)).map fun k => UInt64.ofNat (k + 1)).Nodup := by
  refine List.Nodup.map_on (fun a ha b hb hab => ?_) (List.nodup_range _)
  simp only [List.mem_range] at ha hb
  have := congrArg UInt64.toNat hab
  rwa [UInt64.toNat_ofNat_of_lt (by simp [UInt64.size, UInt32.size] at *; omega),
    UInt64.toNat_ofNat_of_lt (by simp [UInt64.size, UInt32.size] at *; omega),
    Nat.add_right_cancel_iff] at this

/-- **The generated id is fresh.** Among the `n + 1` distinct candidates at
most `n` are live, so the scan stops at a free one, and no candidate is `0`. -/
theorem uniqueSequenceId_fresh {ids : List UInt64} (h : ids.length < UInt32.size) :
    uniqueSequenceId ids ∉ ids ∧ uniqueSequenceId ids ≠ 0 := by
  unfold uniqueSequenceId
  cases hf : ((List.range (ids.length + 1)).map fun n => UInt64.ofNat (n + 1)).find?
    fun c => !ids.contains c with
  | none =>
    exfalso
    have hsub := List.subperm_of_subset (candidates_nodup h) fun c hc => by
      simpa using List.find?_eq_none.1 hf c hc
    have := hsub.length_le
    simp only [List.length_map, List.length_range] at this
    omega
  | some c =>
    have hfree := List.find?_some hf
    obtain ⟨k, hk, rfl⟩ := List.mem_map.1 (List.mem_of_find?_eq_some hf)
    simp only [List.mem_range] at hk
    refine ⟨by simpa using hfree, fun h0 => ?_⟩
    have := congrArg UInt64.toNat h0
    rw [Option.getD_some, UInt64.toNat_ofNat_of_lt (by simp [UInt64.size, UInt32.size] at *; omega)] at this
    simp at this

theorem length_lt_size : m.ids.length < UInt32.size := by
  have := m.maxSequenceNumber.toNat_lt_size
  have := m.length_le
  simp only [ids, List.length_map, UInt32.size] at *
  omega

/-- `createSequence`: inserts a new sequence under an id that is free,
non-zero, and below the bound. -/
def createSequence (sequenceId : UInt64) (v : σ) (hfree : sequenceId ∉ m.ids)
    (hne : sequenceId ≠ 0) (hlt : m.sequences.length < m.maxSequenceNumber.toNat) :
    SequenceManager σ where
  sequences := m.sequences ++ [(sequenceId, v)]
  maxSequenceNumber := m.maxSequenceNumber
  ids_nodup := by
    simpa [List.map_append] using m.ids_nodup.append (List.nodup_singleton _)
      (List.disjoint_singleton.2 hfree)
  id_ne_zero := by
    simp only [List.mem_append, List.mem_singleton]
    rintro p (hp | rfl)
    exacts [m.id_ne_zero p hp, hne]
  length_le := by simp; omega

/-- Modelled from the spec: `processRequestedSpec` (§4.C's table), called with
the manager's mutex held. `fresh` is what a new sequence starts as. It
returns the status, the manager, and the spec with the id it resolved to. -/
def processRequestedSpec (fresh : σ) (spec : SequenceProcessingSpec) :
    Status × SequenceManager σ × SequenceProcessingSpec :=
  if spec.sequenceControlInput = SEQUENCE_START then
    if h0 : spec.sequenceId = 0 then
      if hlt : m.sequences.length < m.maxSequenceNumber.toNat then
        (.ofCode .OK,
          m.createSequence (uniqueSequenceId m.ids) fresh
            (uniqueSequenceId_fresh m.length_lt_size).1
            (uniqueSequenceId_fresh m.length_lt_size).2 hlt,
          { spec with sequenceId := uniqueSequenceId m.ids })
      else (.ofCode .MAX_SEQUENCES_REACHED, m, spec)
    else if hfree : spec.sequenceId ∈ m.ids then (.ofCode .SEQUENCE_ALREADY_EXISTS, m, spec)
    else if hlt : m.sequences.length < m.maxSequenceNumber.toNat then
      (.ofCode .OK, m.createSequence spec.sequenceId fresh hfree h0 hlt, spec)
    else (.ofCode .MAX_SEQUENCES_REACHED, m, spec)
  else if spec.sequenceId = 0 then (.ofCode .SEQUENCE_ID_NOT_PROVIDED, m, spec)
  else if spec.sequenceId ∈ m.ids then (.ofCode .OK, m, spec)
  else (.ofCode .SEQUENCE_MISSING, m, spec)

/-- The entries other than `sequenceId`'s. -/
def eraseSequence (sequenceId : UInt64) : SequenceManager σ where
  sequences := m.sequences.filter fun p => p.1 != sequenceId
  maxSequenceNumber := m.maxSequenceNumber
  ids_nodup := m.ids_nodup.sublist ((List.filter_sublist _).map _)
  id_ne_zero p hp := m.id_ne_zero p (List.mem_of_mem_filter hp)
  length_le := (List.length_filter_le _ _).trans m.length_le

/-- Modelled from the spec: `removeSequence`, which deletes the entry, and
fails with `SEQUENCE_MISSING` on an id that is not live. -/
def removeSequence (sequenceId : UInt64) : Status × SequenceManager σ :=
  if sequenceId ∈ m.ids then (.ofCode .OK, m.eraseSequence sequenceId)
  else (.ofCode .SEQUENCE_MISSING, m)

/-- A write through the reference `getSequence` returned: `f` applied to the
value held for `sequenceId`. -/
def updateSequence (sequenceId : UInt64) (f : σ → σ) : SequenceManager σ where
  sequences := m.sequences.map fun p => if p.1 = sequenceId then (p.1, f p.2) else p
  maxSequenceNumber := m.maxSequenceNumber
  ids_nodup := by
    rw [List.map_map]
    convert m.ids_nodup using 2
    funext p; by_cases h : p.1 = sequenceId <;> simp [h]
  id_ne_zero p hp := by
    obtain ⟨q, hq, rfl⟩ := List.mem_map.1 hp
    split <;> exact m.id_ne_zero q hq
  length_le := by simpa using m.length_le

/-- The same manager with `g` applied to every value. -/
def map (g : σ → τ) : SequenceManager τ where
  sequences := m.sequences.map fun p => (p.1, g p.2)
  maxSequenceNumber := m.maxSequenceNumber
  ids_nodup := by simpa [List.map_map, Function.comp_def] using m.ids_nodup
  id_ne_zero p hp := by
    obtain ⟨q, hq, rfl⟩ := List.mem_map.1 hp
    exact m.id_ne_zero q hq
  length_le := by simpa using m.length_le

/-! ## What each operation does -/

@[simp] theorem ids_createSequence {sequenceId : UInt64} {v : σ} {hfree hne hlt} :
    (m.createSequence sequenceId v hfree hne hlt).ids = m.ids ++ [sequenceId] := by
  simp [createSequence, ids]

@[simp] theorem ids_eraseSequence (sequenceId : UInt64) :
    (m.eraseSequence sequenceId).ids = m.ids.filter fun i => i != sequenceId := by
  simp [eraseSequence, ids, List.filter_map, Function.comp_def]

@[simp] theorem ids_updateSequence (sequenceId : UInt64) (f : σ → σ) :
    (m.updateSequence sequenceId f).ids = m.ids := by
  simp only [updateSequence, ids, List.map_map]
  congr 1; funext p; by_cases h : p.1 = sequenceId <;> simp [h]

@[simp] theorem ids_map (g : σ → τ) : (m.map g).ids = m.ids := by
  simp [map, ids, Function.comp_def]

@[simp] theorem sequenceExists_iff (sequenceId : UInt64) :
    m.sequenceExists sequenceId = true ↔ sequenceId ∈ m.ids := by
  simp [sequenceExists]

theorem length_eq : m.sequences.length = m.ids.length := by simp [ids]

theorem ne_zero_of_mem {sequenceId : UInt64} (h : sequenceId ∈ m.ids) : sequenceId ≠ 0 := by
  obtain ⟨p, hp, rfl⟩ := List.mem_map.1 h
  exact m.id_ne_zero p hp

theorem getSequence_isSome_iff (sequenceId : UInt64) :
    (m.getSequence sequenceId).isSome ↔ sequenceId ∈ m.ids :=
  lookup_isSome_iff _ _

theorem getSequence_of_mem {sequenceId : UInt64} (h : sequenceId ∈ m.ids) :
    ∃ v, m.getSequence sequenceId = some v :=
  Option.isSome_iff_exists.1 ((m.getSequence_isSome_iff _).2 h)

theorem mem_ids_of_getSequence {sequenceId : UInt64} {v : σ}
    (h : m.getSequence sequenceId = some v) : sequenceId ∈ m.ids :=
  (m.getSequence_isSome_iff _).1 (by simp [h])

theorem mem_of_getSequence {sequenceId : UInt64} {v : σ}
    (h : m.getSequence sequenceId = some v) : (sequenceId, v) ∈ m.sequences :=
  mem_of_lookup h

@[simp] theorem getSequence_createSequence {sequenceId : UInt64} {v : σ} {hfree hne hlt} :
    (m.createSequence sequenceId v hfree hne hlt).getSequence sequenceId = some v := by
  have hnd := (m.createSequence sequenceId v hfree hne hlt).ids_nodup
  exact lookup_of_mem hnd (p := (sequenceId, v)) (by simp [createSequence])

theorem getSequence_updateSequence (sequenceId : UInt64) (f : σ → σ) :
    (m.updateSequence sequenceId f).getSequence sequenceId = (m.getSequence sequenceId).map f := by
  simp only [getSequence, updateSequence]
  induction m.sequences with
  | nil => rfl
  | cons p rest ih =>
    obtain ⟨k, v⟩ := p
    by_cases h : k = sequenceId
    · subst h; simp [List.lookup_cons]
    · simp [List.lookup_cons, h, beq_false_of_ne (Ne.symm h), ih]

@[simp] theorem getSequence_map (g : σ → τ) (sequenceId : UInt64) :
    (m.map g).getSequence sequenceId = (m.getSequence sequenceId).map g := by
  simp only [getSequence, map]
  induction m.sequences with
  | nil => rfl
  | cons p rest ih =>
    obtain ⟨k, v⟩ := p
    by_cases h : sequenceId = k
    · subst h; simp [List.lookup_cons]
    · simp [List.lookup_cons, beq_false_of_ne h, ih]

@[simp] theorem maxSequenceNumber_map (g : σ → τ) :
    (m.map g).maxSequenceNumber = m.maxSequenceNumber := rfl

/-- Writing back the value a sequence already holds changes nothing. -/
theorem updateSequence_of_getSequence {sequenceId : UInt64} {v : σ}
    (h : m.getSequence sequenceId = some v) : m.updateSequence sequenceId (fun _ => v) = m := by
  ext1
  · refine (List.map_congr_left fun p hp => ?_).trans (List.map_id _)
    split
    · next hk =>
      have := lookup_of_mem m.ids_nodup hp
      rw [hk] at this
      simp only [getSequence] at h
      rw [h, Option.some_inj] at this
      simp [this]
    · rfl
  · rfl

/-- A write to the sequence just created is the creation of the written value. -/
theorem updateSequence_createSequence {sequenceId : UInt64} {v w : σ} {hfree hne hlt} :
    (m.createSequence sequenceId v hfree hne hlt).updateSequence sequenceId (fun _ => w) =
      m.createSequence sequenceId w hfree hne hlt := by
  ext1
  · simp only [updateSequence, createSequence, List.map_append, List.map_cons, List.map_nil,
      if_true]
    congr 1
    refine (List.map_congr_left fun p hp => ?_).trans (List.map_id _)
    have : p.1 ≠ sequenceId := fun h => hfree (h ▸ List.mem_map_of_mem Prod.fst hp)
    simp [this]
  · rfl

theorem map_createSequence (g : σ → τ) {sequenceId : UInt64} {v : σ} {hfree hne hlt} :
    (m.createSequence sequenceId v hfree hne hlt).map g =
      (m.map g).createSequence sequenceId (g v) (by simpa using hfree) hne
        (by simpa [map] using hlt) := by
  ext1 <;> simp [map, createSequence]

theorem map_updateSequence (g : σ → τ) (sequenceId : UInt64) (v : σ) :
    (m.updateSequence sequenceId fun _ => v).map g =
      (m.map g).updateSequence sequenceId fun _ => g v := by
  ext1
  · simp only [map, updateSequence, List.map_map]
    congr 1; funext p; by_cases h : p.1 = sequenceId <;> simp [h]
  · rfl

theorem map_eraseSequence (g : σ → τ) (sequenceId : UInt64) :
    (m.eraseSequence sequenceId).map g = (m.map g).eraseSequence sequenceId := by
  ext1
  · simp [map, eraseSequence, List.filter_map, Function.comp_def]
  · rfl

@[simp] theorem length_map_sequences (g : σ → τ) :
    (m.map g).sequences.length = m.sequences.length := by
  simp [map]

theorem map_congr {g g' : σ → τ} (h : ∀ p ∈ m.sequences, g p.2 = g' p.2) : m.map g = m.map g' := by
  ext1
  · exact List.map_congr_left fun p hp => by rw [h p hp]
  · rfl

/-- **The manager's operations commute with `map`.** They read only the ids,
so relabelling what the manager stores changes no verdict. -/
theorem map_processRequestedSpec (g : σ → τ) (fresh : σ) (spec : SequenceProcessingSpec) :
    (m.map g).processRequestedSpec (g fresh) spec =
      ((m.processRequestedSpec fresh spec).1, (m.processRequestedSpec fresh spec).2.1.map g,
        (m.processRequestedSpec fresh spec).2.2) := by
  unfold processRequestedSpec
  simp only [ids_map, length_map_sequences, maxSequenceNumber_map]
  split_ifs <;> simp [map_createSequence]

theorem map_removeSequence (g : σ → τ) (sequenceId : UInt64) :
    (m.map g).removeSequence sequenceId =
      ((m.removeSequence sequenceId).1, (m.removeSequence sequenceId).2.map g) := by
  unfold removeSequence
  split_ifs <;> simp_all [map_eraseSequence]

/-- Where no two ids hold the same value, changing `g` at the value
`sequenceId` holds is a write to that sequence alone. -/
theorem map_update [DecidableEq σ] {sequenceId : UInt64} {v : σ}
    (hv : m.getSequence sequenceId = some v) (hinj : (m.sequences.map Prod.snd).Nodup)
    (g : σ → τ) (t : τ) :
    m.map (Function.update g v t) = (m.map g).updateSequence sequenceId fun _ => t := by
  have hmem := m.mem_of_getSequence hv
  ext1
  · simp only [map, updateSequence, List.map_map]
    refine List.map_congr_left fun p hp => ?_
    by_cases h : p.1 = sequenceId
    · obtain rfl := List.inj_on_of_nodup_map m.ids_nodup hp hmem h
      simp
    · have : p.2 ≠ v := fun he => h (congrArg Prod.fst (List.inj_on_of_nodup_map hinj hp hmem he))
      simp [h, Function.update_noteq this]
  · rfl

theorem removeSequence_sublist (sequenceId : UInt64) :
    (m.removeSequence sequenceId).2.sequences.Sublist m.sequences := by
  unfold removeSequence
  split_ifs
  exacts [List.filter_sublist _, List.Sublist.refl _]

/-- **Everything `processRequestedSpec` can do.** It fails and changes
nothing; or a START inserts a fresh sequence under a free non-zero id, the
client's or the generated one, and writes it into the spec; or a CONTINUE or
END finds its id live and changes nothing. -/
theorem processRequestedSpec_cases {fresh : σ} {spec spec' : SequenceProcessingSpec}
    {status : Status} {m' : SequenceManager σ}
    (h : m.processRequestedSpec fresh spec = (status, m', spec')) :
    (status.code ≠ .OK ∧ m' = m ∧ spec' = spec) ∨
    (status.code = .OK ∧ spec.sequenceControlInput = SEQUENCE_START ∧
      spec' = { spec with sequenceId := spec'.sequenceId } ∧
      (spec.sequenceId = 0 ∧ spec'.sequenceId = uniqueSequenceId m.ids ∨
        spec.sequenceId = spec'.sequenceId) ∧
      ∃ hfree hne hlt, m' = m.createSequence spec'.sequenceId fresh hfree hne hlt) ∨
    (status.code = .OK ∧ spec.sequenceControlInput ≠ SEQUENCE_START ∧ spec' = spec ∧ m' = m ∧
      spec.sequenceId ∈ m.ids) := by
  unfold processRequestedSpec at h
  split_ifs at h with hs h0 hlt hfree hlt <;> simp only [Prod.mk.injEq] at h <;>
    obtain ⟨rfl, rfl, rfl⟩ := h
  · exact .inr (.inl ⟨rfl, hs, rfl, .inl ⟨h0, rfl⟩, _, _, _, rfl⟩)
  · exact .inl ⟨by simp, rfl, rfl⟩
  · exact .inl ⟨by simp, rfl, rfl⟩
  · exact .inr (.inl ⟨rfl, hs, rfl, .inr rfl, _, _, _, rfl⟩)
  · exact .inl ⟨by simp, rfl, rfl⟩
  · exact .inl ⟨by simp, rfl, rfl⟩
  · exact .inr (.inr ⟨rfl, hs, rfl, rfl, ‹_›⟩)
  · exact .inl ⟨by simp, rfl, rfl⟩

/-- A failed `processRequestedSpec` changes nothing. -/
theorem processRequestedSpec_of_fail {fresh : σ} {spec spec' : SequenceProcessingSpec}
    {status : Status} {m' : SequenceManager σ}
    (h : m.processRequestedSpec fresh spec = (status, m', spec')) (hst : status.code ≠ .OK) :
    m' = m ∧ spec' = spec := by
  rcases m.processRequestedSpec_cases h with ⟨-, h1, h2⟩ | ⟨hok, -⟩ | ⟨hok, -⟩
  exacts [⟨h1, h2⟩, absurd hok hst, absurd hok hst]

/-- **The verdict reads only the live ids.** Two managers with the same ids
and bound give the same status and resolved spec, whatever they store. -/
theorem processRequestedSpec_congr {m₁ : SequenceManager σ} {m₂ : SequenceManager τ}
    (hids : m₁.ids = m₂.ids) (hmax : m₁.maxSequenceNumber = m₂.maxSequenceNumber)
    (f₁ : σ) (f₂ : τ) (spec : SequenceProcessingSpec) :
    (m₁.processRequestedSpec f₁ spec).1 = (m₂.processRequestedSpec f₂ spec).1 ∧
      (m₁.processRequestedSpec f₁ spec).2.2 = (m₂.processRequestedSpec f₂ spec).2.2 := by
  have hlen : m₁.sequences.length = m₂.sequences.length := by
    rw [length_eq, length_eq, hids]
  unfold processRequestedSpec
  simp only [hids, hmax, hlen]
  split_ifs <;> exact ⟨rfl, rfl⟩

end SequenceManager

end OvmsStateful
