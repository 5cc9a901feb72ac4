import OvmsStateful.Proto
/-!
# The special inputs

`validateSpecialKeys` reads the two reserved inputs of a request through
`extractSequenceId` and `extractSequenceControlInput`, then checks the
control value and the cross-field rule, and writes the pair it read into the
`SequenceProcessingSpec` it was handed. The two extractors make the same
four checks on their own value field, code and message, so they are one
definition, `extractSpecialInput`, applied to each input's values.

The spec (§4.E) lists the checks in their priority order.
`specialInputChecks` is that list, read in the spec's words, and
`validateSpecialKeys_eq_reference` shows the code returns the first failing
check's code, and on success writes exactly the pair read, for every request.
-/

namespace OvmsStateful

/-- `NO_CONTROL_INPUT`: the wire value of CONTINUE, and of an absent control input. -/
def NO_CONTROL_INPUT : UInt32 := 0

/-- `SEQUENCE_START`. -/
def SEQUENCE_START : UInt32 := 1

/-- `SEQUENCE_END`. -/
def SEQUENCE_END : UInt32 := 2

/-- A `SequenceProcessingSpec`: the sequence id and the control value a
request resolves to. `infer` default-constructs one and reads it only after
`validate` has succeeded, so its defaults are never read. -/
structure SequenceProcessingSpec where
  sequenceId : UInt64 := 0
  sequenceControlInput : UInt32 := 0
  deriving DecidableEq, Repr

/-- The checks `extractSequenceId` and `extractSequenceControlInput` make, in
their order: shape information, one dimension, a dimension of size one, and
exactly one value in the input's typed field `vals`. Both shape errors carry
`shapeMessage`; a missing or extra value fails with `badType`. -/
def extractSpecialInput {α : Type} (shapeMessage : String) (badType : StatusCode)
    (vals : TensorProto → List α) (proto : TensorProto) : Except Status α :=
  match proto.tensorShape with
  | [] => .error (.ofCode .SPECIAL_INPUT_NO_TENSOR_SHAPE)
  | [size] =>
    if size ≠ 1 then .error ⟨.INVALID_SHAPE, shapeMessage⟩
    else match vals proto with
      | [v] => .ok v
      | _ => .error (.ofCode badType)
  | _ :: _ :: _ => .error ⟨.INVALID_NO_OF_SHAPE_DIMENSIONS, shapeMessage⟩

/-- `extractSequenceId`. -/
def extractSequenceId : TensorProto → Except Status UInt64 :=
  extractSpecialInput "Required shape for sequence_id is: (1)" .SEQUENCE_ID_BAD_TYPE
    TensorProto.uint64Val

/-- `extractSequenceControlInput`. -/
def extractSequenceControlInput : TensorProto → Except Status UInt32 :=
  extractSpecialInput "Required shape for sequence_control_input is: (1)"
    .SEQUENCE_CONTROL_INPUT_BAD_TYPE TensorProto.uint32Val

/-- One special input as `validateSpecialKeys` reads it: extracted when the
request carries it, `0` when it does not. -/
def readSpecialInput {α : Type} [OfNat α 0] (extract : TensorProto → Except Status α) :
    Option TensorProto → Except Status α
  | none => .ok 0
  | some proto => extract proto

/-- `validateSpecialKeys<PredictRequest>`: the status, and the spec as the
call leaves it. -/
def validateSpecialKeys (request : PredictRequest) (spec : SequenceProcessingSpec) :
    Status × SequenceProcessingSpec :=
  match readSpecialInput extractSequenceId (request.inputs.find "sequence_id"),
    readSpecialInput extractSequenceControlInput (request.inputs.find "sequence_control_input") with
  | .error status, _ => (status, spec)
  | .ok _, .error status => (status, spec)
  | .ok sequenceId, .ok sequenceControlInput =>
    if sequenceControlInput ≠ SEQUENCE_END ∧ sequenceControlInput ≠ NO_CONTROL_INPUT ∧
        sequenceControlInput ≠ SEQUENCE_START then
      (.ofCode .INVALID_SEQUENCE_CONTROL_INPUT, spec)
    else if (sequenceControlInput = SEQUENCE_END ∨ sequenceControlInput = NO_CONTROL_INPUT) ∧
        sequenceId = 0 then
      (.ofCode .SEQUENCE_ID_NOT_PROVIDED, spec)
    else (.ofCode .OK, { spec with sequenceId, sequenceControlInput })

/-! ## The reference check of §4.E -/

/-- The code of the first failing check of a list, if one fails. -/
def firstFailure (checks : List (Bool × StatusCode)) : Option StatusCode :=
  (checks.find? fun c => !c.1).map Prod.snd

/-- The spec's four checks of one special input, in its priority order, and
none when the request does not carry it: shape information, rank one,
dimension 0 of size one, one value of the input's type. -/
def tensorChecks (input : Option TensorProto) (valueCount : TensorProto → Nat)
    (badType : StatusCode) : List (Bool × StatusCode) :=
  match input with
  | none => []
  | some t =>
    [(t.tensorShape ≠ [], .SPECIAL_INPUT_NO_TENSOR_SHAPE),
     (t.tensorShape.length = 1, .INVALID_NO_OF_SHAPE_DIMENSIONS),
     (t.tensorShape.head? = some 1, .INVALID_SHAPE),
     (valueCount t = 1, badType)]

/-- The id a request asks for: its `sequence_id` value, `0` when absent. -/
def requestedId (request : PredictRequest) : UInt64 :=
  ((request.inputs.find "sequence_id").bind fun t => t.uint64Val.head?).getD 0

/-- The control value a request asks for, `0` (CONTINUE) when absent. -/
def requestedControl (request : PredictRequest) : UInt32 :=
  ((request.inputs.find "sequence_control_input").bind fun t => t.uint32Val.head?).getD 0

/-- The spec's checks of a request, in priority order: both special inputs'
shape and type, then the control value, then the id a CONTINUE or END needs. -/
def specialInputChecks (request : PredictRequest) : List (Bool × StatusCode) :=
  tensorChecks (request.inputs.find "sequence_id") (fun t => t.uint64Val.length)
      .SEQUENCE_ID_BAD_TYPE ++
    tensorChecks (request.inputs.find "sequence_control_input") (fun t => t.uint32Val.length)
      .SEQUENCE_CONTROL_INPUT_BAD_TYPE ++
    [(decide (requestedControl request ∈ [0, 1, 2]), .INVALID_SEQUENCE_CONTROL_INPUT),
     (decide (requestedControl request ∉ [0, 2] ∨ requestedId request ≠ 0),
       .SEQUENCE_ID_NOT_PROVIDED)]

theorem firstFailure_append (l₁ l₂ : List (Bool × StatusCode)) :
    firstFailure (l₁ ++ l₂) = (firstFailure l₁).orElse fun _ => firstFailure l₂ := by
  simp only [firstFailure, List.find?_append]
  cases l₁.find? fun c => !c.1 <;> rfl

/-- No check fails exactly when every check passes. -/
theorem firstFailure_eq_none_iff (checks : List (Bool × StatusCode)) :
    firstFailure checks = none ↔ ∀ c ∈ checks, c.1 = true := by
  simp [firstFailure]

/-- **One special input, against its four checks.** Reading an input fails
with the code of its first failing check; when none fails it yields the
input's first value, `0` for an absent one. -/
theorem readSpecialInput_extract {α : Type} [OfNat α 0] (msg : String) (badType : StatusCode)
    (vals : TensorProto → List α) (input : Option TensorProto) :
    (readSpecialInput (extractSpecialInput msg badType vals) input).mapError Status.code =
      match firstFailure (tensorChecks input (fun t => (vals t).length) badType) with
      | some code => .error code
      | none => .ok ((input.bind fun t => (vals t).head?).getD 0) := by
  cases input with
  | none => rfl
  | some t =>
    simp only [readSpecialInput, extractSpecialInput, tensorChecks, firstFailure]
    split
    · next h => simp [h, Except.mapError]
    · next size h =>
      split
      · simp_all [Except.mapError]
      · split <;> simp_all [Except.mapError, List.length_eq_one]
    · next h => simp [h, Except.mapError]

/-- An extraction's outcome, read off its image under `mapError`. -/
theorem outcome_of_mapError {α : Type} {r : Except Status α} {f : Option StatusCode} {v : α}
    (h : r.mapError Status.code = match f with | some c => .error c | none => .ok v) :
    (∃ s, r = .error s ∧ f = some s.code) ∨ (r = .ok v ∧ f = none) := by
  cases r <;> cases f <;> simp_all [Except.mapError]

/-- **`validateSpecialKeys` is the spec's reference check**, on every
request and every spec it is handed: it returns the code of the first
failing check of §4.E's priority order, `OK` when all pass; on `OK` the spec
is set to exactly the id and control value the request carries (`0` for an
absent input), and on a failure it is left as it was. -/
theorem validateSpecialKeys_eq_reference (request : PredictRequest)
    (spec : SequenceProcessingSpec) :
    (validateSpecialKeys request spec).1.code = (firstFailure (specialInputChecks request)).getD .OK ∧
      (validateSpecialKeys request spec).2 =
        if firstFailure (specialInputChecks request) = none then
          ⟨requestedId request, requestedControl request⟩
        else spec := by
  have hid := readSpecialInput_extract "Required shape for sequence_id is: (1)"
    .SEQUENCE_ID_BAD_TYPE TensorProto.uint64Val (request.inputs.find "sequence_id")
  have hc := readSpecialInput_extract "Required shape for sequence_control_input is: (1)"
    .SEQUENCE_CONTROL_INPUT_BAD_TYPE TensorProto.uint32Val
    (request.inputs.find "sequence_control_input")
  rw [← requestedId] at hid
  rw [← requestedControl] at hc
  simp only [validateSpecialKeys, specialInputChecks, firstFailure_append, extractSequenceId,
    extractSequenceControlInput]
  rcases outcome_of_mapError hid with ⟨s, h1, hf1⟩ | ⟨h1, hf1⟩ <;>
    rcases outcome_of_mapError hc with ⟨s', h2, hf2⟩ | ⟨h2, hf2⟩ <;>
    simp only [h1, h2, hf1, hf2, Option.orElse] <;>
    simp [firstFailure, SEQUENCE_END, NO_CONTROL_INPUT, SEQUENCE_START]
  -- both inputs read: the control value, then the cross-field rule
  generalize requestedControl request = c
  generalize requestedId request = i
  by_cases h0 : c = 0 <;> by_cases h1 : c = 1 <;> by_cases h2 : c = 2 <;> by_cases hi : i = 0 <;>
    simp_all

/-- A failed read never reports `OK`. -/
theorem readSpecialInput_error_code {α : Type} [OfNat α 0] {msg : String} {badType : StatusCode}
    {vals : TensorProto → List α} {input : Option TensorProto} {s : Status}
    (hbad : badType ≠ .OK) (h : readSpecialInput (extractSpecialInput msg badType vals) input = .error s) :
    s.code ≠ .OK := by
  cases input with
  | none => cases h
  | some t =>
    simp only [readSpecialInput, extractSpecialInput] at h
    split at h
    · cases h; simp
    · split at h
      · cases h; simp
      · split at h <;> cases h; simpa using hbad
    · cases h; simp

/-- A successful read yields the input's first value, `0` for an absent one. -/
theorem readSpecialInput_ok {α : Type} [OfNat α 0] {msg : String} {badType : StatusCode}
    {vals : TensorProto → List α} {input : Option TensorProto} {v : α}
    (h : readSpecialInput (extractSpecialInput msg badType vals) input = .ok v) :
    v = (input.bind fun t => (vals t).head?).getD 0 := by
  rcases outcome_of_mapError (readSpecialInput_extract msg badType vals input) with
    ⟨s, h', -⟩ | ⟨h', -⟩ <;> rw [h'] at h <;> cases h
  rfl

/-- **On `OK`, the spec holds the request's own id and control value.** -/
theorem validateSpecialKeys_of_ok {request : PredictRequest} {spec : SequenceProcessingSpec}
    (h : (validateSpecialKeys request spec).1.code = .OK) :
    (validateSpecialKeys request spec).2 = ⟨requestedId request, requestedControl request⟩ := by
  unfold validateSpecialKeys at *
  simp only [extractSequenceId, extractSequenceControlInput] at *
  split at h
  · next _ _ _ hs => exact absurd h (readSpecialInput_error_code (by decide) hs)
  · next _ _ _ _ hs => exact absurd h (readSpecialInput_error_code (by decide) hs)
  · next v c hv hc =>
    obtain rfl : v = requestedId request := readSpecialInput_ok hv
    obtain rfl : c = requestedControl request := readSpecialInput_ok hc
    split_ifs at h ⊢ <;> first | rfl | simp [Status.ofCode] at h

end OvmsStateful
