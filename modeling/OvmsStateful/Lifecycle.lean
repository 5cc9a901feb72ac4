import OvmsStateful.Proto
/-!
# Registration for idle-sequence cleanup

`loadModel`, `reloadModel`, `retireModel`, `cleanupFailedLoad` and
`loadModelImpl` (lines 76–132) keep the global sequences viewer's
registration of this version in step with its SequenceManager. A
SequenceManager is an object: `loadModelImpl` makes a new one (line 130), and
`retireModel` and `cleanupFailedLoad` drop it (lines 119, 125). The calls the
code makes into the base class and into the viewer may succeed or fail; their
outcomes are the arguments of a `LifecycleCall`.

A registration refers to the current manager, with cleanup enabled and the
version available (`Registered`), as long as no call drops or replaces the
manager behind the registration's back: `loadModel`, `retireModel(false)` or
`cleanupFailedLoad` while registered, or a `retireModel(true)` whose
unregistration fails (`registration_consistent`). A non-permanent retirement
keeps the registration of the manager it drops, and the next load registers
again over it (`retire_keeps_registration`).

`loadOVCompiledModel` (lines 134–148) runs the low latency transformation
that `loadModelImpl` asked for before the base class compiles the model; a
load succeeds only with the model transformed as the config asks
(`loadOVCompiledModel_ok`).
-/

namespace OvmsStateful

/-- What the base class's `loadModel` or `reloadModel` did: fail before
calling `loadModelImpl`, or call it and then fail or succeed. -/
inductive BaseLoad where
  | failsEarly
  | failsAfterImpl
  | succeeds
  deriving DecidableEq, Repr

/-- The part of a `StatefulModelInstance` its lifecycle reads and writes,
and the viewer's registration of its (name, version). A SequenceManager is
named by the number of managers made before it. -/
structure StatefulModelInstance where
  /-- `autoCleanupEnabled`. -/
  autoCleanupEnabled : Bool
  /-- Whether the version's state is `AVAILABLE`. -/
  available : Bool
  /-- `sequenceManager`; `none` once reset. -/
  sequenceManager : Option Nat
  /-- How many SequenceManagers `loadModelImpl` has made. -/
  managersMade : Nat
  /-- The viewer's registration of this version: the manager it refers to. -/
  registration : Option Nat
  /-- Ghost: `registerForCleanup` was called while a registration existed. -/
  registeredTwice : Bool
  deriving DecidableEq, Repr

/-- Modelled from the spec: the viewer's `registerForCleanup` for this
version, which succeeds when `ok`. Registration is idempotent (§4.D), so a
registration already there stays. -/
def registerForCleanup (registration manager : Option Nat) (ok : Bool) : Status × Option Nat :=
  if ok then (.ofCode .OK, registration.or manager) else (.ofCode .INTERNAL_ERROR, registration)

/-- Modelled from the spec: the viewer's `unregisterFromCleanup` for this
version, which succeeds when `ok` and then leaves no registration. -/
def unregisterFromCleanup (registration : Option Nat) (ok : Bool) : Status × Option Nat :=
  if ok then (.ofCode .OK, none) else (.ofCode .INTERNAL_ERROR, registration)

namespace StatefulModelInstance

variable (s : StatefulModelInstance)

/-- `loadModelImpl`: a new SequenceManager (line 130). -/
def loadModelImpl : StatefulModelInstance :=
  { s with sequenceManager := some s.managersMade, managersMade := s.managersMade + 1 }

/-- The base class's load or reload; the version is available after it
exactly when it succeeded. A failure's code is not read. -/
def baseLoad : BaseLoad → Status × StatefulModelInstance
  | .failsEarly => (.ofCode (.other 0), { s with available := false })
  | .failsAfterImpl => (.ofCode (.other 0), { s.loadModelImpl with available := false })
  | .succeeds => (.ofCode .OK, { s.loadModelImpl with available := true })

/-- `registerForCleanup(getName(), getVersion(), sequenceManager)`, at lines
85 and 106. -/
def register (ok : Bool) : Status × StatefulModelInstance :=
  let registered := registerForCleanup s.registration s.sequenceManager ok
  (registered.1, { s with
    registration := registered.2
    registeredTwice := s.registeredTwice || s.registration.isSome })

/-- `loadModel` (lines 76–91). -/
def loadModel (idleSequenceCleanup : Bool) (base : BaseLoad) (registerOk : Bool) :
    Status × StatefulModelInstance :=
  let loaded := { s with autoCleanupEnabled := idleSequenceCleanup }.baseLoad base
  if !loaded.1.ok then loaded else
  if loaded.2.autoCleanupEnabled then loaded.2.register registerOk else (.ofCode .OK, loaded.2)

/-- `reloadModel` (lines 93–111). -/
def reloadModel (idleSequenceCleanup unregisterOk : Bool) (base : BaseLoad) (registerOk : Bool) :
    Status × StatefulModelInstance :=
  let unregistered := unregisterFromCleanup s.registration unregisterOk
  if s.autoCleanupEnabled && s.available && !unregistered.1.ok then (unregistered.1, s) else
  let s := if s.autoCleanupEnabled && s.available then
    { s with registration := unregistered.2 } else s
  let loaded := s.baseLoad base
  if !loaded.1.ok then loaded else
  let s := { loaded.2 with autoCleanupEnabled := idleSequenceCleanup }
  if s.autoCleanupEnabled then s.register registerOk else (.ofCode .OK, s)

/-- `retireModel` (lines 113–120); the base class's retirement leaves the
version unavailable. The status of the unregistration is not read. -/
def retireModel (isPermanent unregisterOk : Bool) : StatefulModelInstance :=
  let s := if isPermanent && s.autoCleanupEnabled then
    { s with registration := (unregisterFromCleanup s.registration unregisterOk).2 } else s
  { s with available := false, sequenceManager := none }

/-- `cleanupFailedLoad` (lines 122–126). -/
def cleanupFailedLoad : StatefulModelInstance :=
  { s with available := false, sequenceManager := none }

end StatefulModelInstance

/-- A call on the instance, with the outcomes of the calls it makes. -/
inductive LifecycleCall where
  | loadModel (idleSequenceCleanup : Bool) (base : BaseLoad) (registerOk : Bool)
  | reloadModel (idleSequenceCleanup unregisterOk : Bool) (base : BaseLoad) (registerOk : Bool)
  | retireModel (isPermanent unregisterOk : Bool)
  | cleanupFailedLoad
  deriving DecidableEq, Repr

namespace StatefulModelInstance

variable (s : StatefulModelInstance)

/-- One call: its status and the instance after it. -/
def call : LifecycleCall → Status × StatefulModelInstance
  | .loadModel idle base registerOk => s.loadModel idle base registerOk
  | .reloadModel idle unregisterOk base registerOk => s.reloadModel idle unregisterOk base registerOk
  | .retireModel isPermanent unregisterOk => (.ofCode .OK, s.retireModel isPermanent unregisterOk)
  | .cleanupFailedLoad => (.ofCode .OK, s.cleanupFailedLoad)

/-- Each call of a sequence, with its status and the instance after it. -/
def trace : StatefulModelInstance → List LifecycleCall →
    List (LifecycleCall × Status × StatefulModelInstance)
  | _, [] => []
  | s, c :: rest => (c, s.call c) :: trace (s.call c).2 rest

/-- **A registration is consistent**: it refers to the current manager, and
cleanup is enabled on an available version. -/
def Registered : Prop :=
  ∀ m ∈ s.registration, s.sequenceManager = some m ∧ s.autoCleanupEnabled = true ∧
    s.available = true

instance : Decidable s.Registered := inferInstanceAs (Decidable (∀ m ∈ s.registration, _))

end StatefulModelInstance

/-- The calls that leave the manager alone while a registration refers to
it: `loadModel`, `retireModel(false)` and `cleanupFailedLoad` made only while
no registration exists, and `retireModel(true)` only when its unregistration
succeeds. -/
def LifecycleCall.Allowed : LifecycleCall → StatefulModelInstance → Prop
  | .loadModel _ _ _, s => s.registration = none
  | .reloadModel _ _ _ _, _ => True
  | .retireModel isPermanent unregisterOk, s =>
    if isPermanent then unregisterOk = true else s.registration = none
  | .cleanupFailedLoad, s => s.registration = none

instance : (c : LifecycleCall) → (s : StatefulModelInstance) → Decidable (c.Allowed s)
  | .loadModel _ _ _, _ => inferInstanceAs (Decidable (_ = _))
  | .reloadModel _ _ _ _, _ => inferInstanceAs (Decidable True)
  | .retireModel _ _, _ => inferInstanceAs (Decidable (ite _ _ _))
  | .cleanupFailedLoad, _ => inferInstanceAs (Decidable (_ = _))

/-- Every call of the sequence is `Allowed` where it is made. -/
def Admissible : StatefulModelInstance → List LifecycleCall → Prop
  | _, [] => True
  | s, c :: rest => c.Allowed s ∧ Admissible (s.call c).2 rest

instance decAdmissible : (s : StatefulModelInstance) → (calls : List LifecycleCall) →
    Decidable (Admissible s calls)
  | _, [] => isTrue trivial
  | s, c :: rest =>
    haveI := decAdmissible (s.call c).2 rest
    inferInstanceAs (Decidable (_ ∧ _))

/-- What a call leaves once it returns: after a successful load or reload, a
registration exactly when the loaded config enables cleanup; after a
permanent retirement, none. -/
def LifecycleCall.Post : LifecycleCall → Status → StatefulModelInstance → Prop
  | .loadModel idle _ _, status, s => status.code = .OK → s.registration.isSome = idle
  | .reloadModel idle _ _ _, status, s => status.code = .OK → s.registration.isSome = idle
  | .retireModel isPermanent _, _, s => isPermanent = true → s.registration = none
  | .cleanupFailedLoad, _, _ => True

namespace StatefulModelInstance

variable {s : StatefulModelInstance}

theorem registered_of_none (h : s.registration = none) : s.Registered := by
  simp [Registered, h]

/-- Where cleanup is off or the version is unavailable, a consistent
registration is none. -/
theorem registration_eq_none (hs : s.Registered)
    (h : (s.autoCleanupEnabled && s.available) = false) : s.registration = none :=
  Option.eq_none_iff_forall_not_mem.2 fun m hm => by simp [(hs m hm).2.1, (hs m hm).2.2] at h

/-- **One call keeps the registration consistent**, when it is allowed:
`registerForCleanup` then meets no registration, a successful load leaves a
registration exactly when cleanup is enabled, and a permanent retirement
leaves none. -/
theorem call_consistent {c : LifecycleCall} (hs : s.Registered) (hg : s.registeredTwice = false)
    (hc : c.Allowed s) :
    (s.call c).2.Registered ∧ (s.call c).2.registeredTwice = false ∧
      c.Post (s.call c).1 (s.call c).2 := by
  cases c with
  | loadModel idle base registerOk =>
    simp only [LifecycleCall.Allowed] at hc
    cases base <;> cases idle <;> cases registerOk <;>
      simp [Registered, LifecycleCall.Post, call, loadModel, baseLoad, loadModelImpl, register,
        registerForCleanup, Status.ok, Status.ofCode, hc, hg]
  | reloadModel idle unregisterOk base registerOk =>
    by_cases hu : (s.autoCleanupEnabled && s.available) = true
    · cases unregisterOk
      · -- the unregistration fails, and the call returns
        simp [call, reloadModel, hu, unregisterFromCleanup, LifecycleCall.Post, hs, hg, Status.ok,
          Status.ofCode]
      · cases base <;> cases idle <;> cases registerOk <;>
          simp [Registered, LifecycleCall.Post, call, reloadModel, hu, unregisterFromCleanup,
            baseLoad, loadModelImpl, register, registerForCleanup, Status.ok, Status.ofCode, hg]
    · have hnone := registration_eq_none hs (by simpa using hu)
      cases base <;> cases idle <;> cases registerOk <;>
        simp [Registered, LifecycleCall.Post, call, reloadModel, hu, baseLoad, loadModelImpl,
          register, registerForCleanup, Status.ok, Status.ofCode, hg, hnone]
  | retireModel isPermanent unregisterOk =>
    cases isPermanent
    · simp [LifecycleCall.Allowed] at hc
      simp [Registered, LifecycleCall.Post, call, retireModel, hc, hg]
    · cases hauto : s.autoCleanupEnabled
      · simp [Registered, LifecycleCall.Post, call, retireModel, hauto, hg,
          registration_eq_none hs (by simp [hauto])]
      · simp [LifecycleCall.Allowed] at hc
        simp [Registered, LifecycleCall.Post, call, retireModel, hauto, hg, hc,
          unregisterFromCleanup]
  | cleanupFailedLoad =>
    simp only [LifecycleCall.Allowed] at hc
    simp [Registered, LifecycleCall.Post, call, cleanupFailedLoad, hc, hg]

/-- **Registration stays consistent with the SequenceManager** along every
sequence of allowed calls from an instance whose registration is consistent
(one without a registration is), whatever the base class and the viewer do:
(1) a registration refers to the current manager, and cleanup is enabled on
an available version (`Registered`); (2) `registerForCleanup`
never meets a registration; (3) a successful load or reload leaves a
registration exactly when the loaded config enables cleanup; (4) a
permanent retirement leaves none. -/
theorem registration_consistent (s : StatefulModelInstance) (hs : s.Registered)
    (hg : s.registeredTwice = false) (calls : List LifecycleCall) (hadm : Admissible s calls) :
    ∀ e ∈ s.trace calls, e.2.2.Registered ∧ e.2.2.registeredTwice = false ∧
      e.1.Post e.2.1 e.2.2 := by
  induction calls generalizing s with
  | nil => simp [trace]
  | cons c rest ih =>
    obtain ⟨hc, hrest⟩ := hadm
    obtain ⟨hs', hg', hpost⟩ := call_consistent hs hg hc
    intro e he
    rcases List.mem_cons.1 he with rfl | he
    · exact ⟨hs', hg', hpost⟩
    · exact ih _ hs' hg' hrest e he

/-- An instance before its first load. -/
def unloaded : StatefulModelInstance := ⟨false, false, none, 0, none, false⟩

/-- A load with cleanup, a reload without it, a reload with it, and a
permanent retirement. -/
def reloadCalls : List LifecycleCall :=
  [.loadModel true .succeeds true, .reloadModel false true .succeeds true,
    .reloadModel true true .succeeds true, .retireModel true true]

theorem registration_consistent_reloadCalls :
    unloaded.Registered ∧ unloaded.registeredTwice = false ∧ Admissible unloaded reloadCalls ∧
      ∀ e ∈ unloaded.trace reloadCalls,
        e.2.2.Registered ∧ e.2.2.registeredTwice = false ∧ e.1.Post e.2.1 e.2.2 :=
  have hs : unloaded.Registered := by decide
  have hadm : Admissible unloaded reloadCalls := by decide
  ⟨hs, rfl, hadm, registration_consistent unloaded hs rfl reloadCalls hadm⟩

/-- **A non-permanent retirement keeps the registration of the manager it
drops.** After a load with cleanup enabled and `retireModel(false)`, the
registration refers to manager `0` while the instance has none; a second
load makes manager `1` and calls `registerForCleanup` over the registration,
which still refers to manager `0`. -/
theorem retire_keeps_registration :
    (unloaded.trace [.loadModel true .succeeds true, .retireModel false true,
        .loadModel true .succeeds true]).map
      (fun e => (e.2.2.registration, e.2.2.sequenceManager, e.2.2.registeredTwice)) =
      [(some 0, some 0, false), (some 0, none, false), (some 0, some 1, true)] := by
  decide

/-! ## The low latency transformation -/

/-- What `ov::pass::LowLatency2().run_on_model(model)` did: transform the
model in place, or throw an `ov::Exception` or another `std::exception`. -/
inductive LowLatency2 where
  | transformed
  | ovException
  | stdException
  deriving DecidableEq, Repr

/-- `loadOVCompiledModel` (lines 134–148): where `loadModelImpl` set
`performLowLatencyTransformation` from the config (line 129), the LowLatency2
pass runs on the model first, and an exception from it fails the load with
`INTERNAL_ERROR`; then the base class compiles the model, told whether it was
transformed. -/
def loadOVCompiledModel (performLowLatencyTransformation : Bool) (pass : LowLatency2)
    (compile : Bool → Status) : Status :=
  if performLowLatencyTransformation then
    match pass with
    | .transformed => compile true
    | .ovException | .stdException => .ofCode .INTERNAL_ERROR
  else compile false

/-- A version loads only with its model compiled as the config asks:
transformed exactly when the config uses the low latency transformation, and
then only if the pass did not throw. -/
theorem loadOVCompiledModel_ok {performLowLatencyTransformation : Bool} {pass : LowLatency2}
    {compile : Bool → Status}
    (h : (loadOVCompiledModel performLowLatencyTransformation pass compile).code = .OK) :
    (performLowLatencyTransformation = true → pass = .transformed) ∧
      (compile performLowLatencyTransformation).code = .OK := by
  cases performLowLatencyTransformation <;> cases pass <;>
    simp_all [loadOVCompiledModel, Status.ofCode]

end StatefulModelInstance

end OvmsStateful
