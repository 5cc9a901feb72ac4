import Mathlib.Data.List.Nodup
/-!
# Statuses, tensor protos and the request envelope

The data `StatefulModelInstance` reads and writes: the `Status` every
step returns, the `TensorProto`s of a `PredictRequest`'s inputs and of a
`PredictResponse`'s outputs, and the protobuf map that holds them by name.
A protobuf map is a list of entries with distinct keys; `TensorMap.modify`
is `operator[]` followed by a mutation, inserting a default-constructed
proto where the key is absent, and `modify_nodup` keeps the keys distinct.
-/

namespace OvmsStateful

/-- The status codes the modelled code names. `other` stands for a code
only a collaborator returns (request validation, deserialization, the
runtime, serialization). -/
inductive StatusCode where
  | OK
  | SPECIAL_INPUT_NO_TENSOR_SHAPE
  | INVALID_NO_OF_SHAPE_DIMENSIONS
  | INVALID_SHAPE
  | SEQUENCE_ID_BAD_TYPE
  | SEQUENCE_CONTROL_INPUT_BAD_TYPE
  | INVALID_SEQUENCE_CONTROL_INPUT
  | SEQUENCE_ID_NOT_PROVIDED
  | SEQUENCE_MISSING
  | SEQUENCE_ALREADY_EXISTS
  | MAX_SEQUENCES_REACHED
  | INTERNAL_ERROR
  | other (code : Nat)
  deriving DecidableEq, Repr

/-- A `Status`: its code and the details string a `Status(code, details)`
constructor attaches (empty when built from a bare code). -/
structure Status where
  code : StatusCode
  message : String := ""
  deriving DecidableEq, Repr

namespace Status

/-- `Status::ok()`. -/
def ok (s : Status) : Bool := s.code == .OK

/-- A `Status` built from a bare code, as `return StatusCode::X;` does. -/
def ofCode (c : StatusCode) : Status := ⟨c, ""⟩

instance : Coe StatusCode Status := ⟨ofCode⟩

@[simp] theorem ok_iff (s : Status) : s.ok = true ↔ s.code = .OK := by
  simp [ok]

/-- An early return on `!s.ok`, as a branch on the code. -/
theorem ite_not_ok {α : Type} (s : Status) (a b : α) :
    (if (!s.ok) = true then a else b) = if s.code = .OK then b else a := by
  by_cases h : s.code = .OK <;> simp [ok, h]

@[simp] theorem ofCode_code (c : StatusCode) : (ofCode c).code = c := rfl

end Status

/-- `tensorflow::DataType::DT_INVALID`, the dtype of a default-constructed proto. -/
def DT_INVALID : Nat := 0

/-- `tensorflow::DataType::DT_UINT64`. -/
def DT_UINT64 : Nat := 23

/-- A `tensorflow::TensorProto`: its dtype, the sizes of its shape's
dimensions, the two typed value fields the special inputs and the
`sequence_id` output use, and `tensorContent` for every other payload
field. -/
structure TensorProto where
  dtype : Nat := DT_INVALID
  tensorShape : List Int := []
  uint64Val : List UInt64 := []
  uint32Val : List UInt32 := []
  tensorContent : List UInt8 := []
  deriving DecidableEq, Repr

instance : Inhabited TensorProto := ⟨{}⟩

/-- A protobuf `Map<string, TensorProto>`, as its entries. -/
abbrev TensorMap := List (String × TensorProto)

namespace TensorMap

/-- `map.find(key)`. -/
def find (m : TensorMap) (k : String) : Option TensorProto := m.lookup k

/-- `map[key]` followed by a mutation `f` of the referenced proto: the entry
is changed in place, or a default proto is inserted and changed. -/
def modify : TensorMap → String → (TensorProto → TensorProto) → TensorMap
  | [], k, f => [(k, f {})]
  | (k', t) :: rest, k, f => if k' = k then (k', f t) :: rest else (k', t) :: modify rest k f

/-- The keys of a map. -/
def keys (m : TensorMap) : List String := m.map Prod.fst

@[simp] theorem find_nil (k : String) : find [] k = none := rfl

theorem find_cons (k' k : String) (t : TensorProto) (rest : TensorMap) :
    find ((k', t) :: rest) k = if k = k' then some t else find rest k := by
  simp only [find, List.lookup_cons, beq_iff_eq]
  split <;> simp_all

@[simp] theorem find_modify_self (m : TensorMap) (k : String) (f : TensorProto → TensorProto) :
    (m.modify k f).find k = some (f ((m.find k).getD {})) := by
  induction m with
  | nil => simp [modify, find_cons]
  | cons e rest ih =>
    obtain ⟨k', t⟩ := e
    by_cases h : k' = k
    · subst h; simp [modify, find_cons]
    · simp [modify, find_cons, h, Ne.symm h, ih]

@[simp] theorem find_modify_ne (m : TensorMap) {k j : String} (f : TensorProto → TensorProto)
    (h : j ≠ k) : (m.modify k f).find j = m.find j := by
  induction m with
  | nil => simp [modify, find_cons, h]
  | cons e rest ih =>
    obtain ⟨k', t⟩ := e
    by_cases hk : k' = k
    · subst hk; simp [modify, find_cons, h]
    · simp only [modify, hk, if_false, find_cons, ih]

theorem find_eq_none {m : TensorMap} {k : String} (h : k ∉ m.keys) : m.find k = none := by
  induction m with
  | nil => rfl
  | cons e rest ih =>
    obtain ⟨k', t⟩ := e
    simp only [keys, List.map_cons, List.mem_cons, not_or] at h
    rw [find_cons, if_neg h.1]
    exact ih h.2

theorem keys_modify (m : TensorMap) (k : String) (f : TensorProto → TensorProto) :
    (m.modify k f).keys = if k ∈ m.keys then m.keys else m.keys ++ [k] := by
  induction m with
  | nil => simp [modify, keys]
  | cons e rest ih =>
    obtain ⟨k', t⟩ := e
    by_cases hk : k' = k
    · subst hk; simp [modify, keys]
    · simp only [keys] at ih
      by_cases hr : k ∈ rest.map Prod.fst <;> simp_all [modify, keys, Ne.symm hk]

/-- `operator[]` keeps the keys of a protobuf map distinct. -/
theorem modify_nodup {m : TensorMap} (h : m.keys.Nodup) (k : String)
    (f : TensorProto → TensorProto) : (m.modify k f).keys.Nodup := by
  rw [keys_modify]
  split
  · exact h
  · exact h.append (List.nodup_singleton k) (List.disjoint_singleton.2 ‹_›)

end TensorMap

/-- A `tensorflow::serving::PredictRequest`: its named input tensors. The
model spec it also carries is read only for logging. -/
structure PredictRequest where
  inputs : TensorMap
  deriving DecidableEq, Repr

end OvmsStateful
