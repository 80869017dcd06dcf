import Mathlib.Data.List.Nodup
import SigningSchema.Proofs.Wire.Standard

-- Messages as a native encoder of the wire format holds and writes them. Such an encoder is known
-- by what it promises alone.

namespace SigningSchema

open Wire Standard

-- What a field of a message holds. A scalar that is always present has no way to be left out; one
-- that is declared `optional` may be absent. A singular message field holds at most one message.
inductive Held where
  | implicit (kind : ScalarKind) (value : Value)
  | optional (kind : ScalarKind) (value : Option Value)
  | repeated (kind : ScalarKind) (values : List Value)
  | messages (values : List (List (UInt32 × Held)))

-- The fields of a message with their numbers.
abbrev Struct := List (UInt32 × Held)

def scalarRecord (number : UInt32) (kind : ScalarKind) (value : Value) : Bytes :=
  key number.toNat (code kind) ++ payload kind value

def bodyRecord (number : UInt32) (body : Bytes) : Bytes := key number.toNat 2 ++ delimited body

-- A scalar that is always present is left off where it is zero. Lists of numbers are one run.
def Held.bytes (message : Struct → Bytes) (number : UInt32) : Held → Bytes
  | .implicit kind value => if isZero kind value then [] else scalarRecord number kind value
  | .optional kind value => value.toList.flatMap (scalarRecord number kind)
  | .repeated kind values =>
    if code kind = 2 then values.flatMap (scalarRecord number kind)
    else if values = [] then []
    else bodyRecord number (values.flatMap (payload kind))
  | .messages values => values.flatMap fun value => bodyRecord number (message value)

namespace Struct

-- The promise of a native encoder: fields are written by ascending number, in every message.
def WritesAscending (native : Struct → Bytes) : Prop :=
  ∀ struct fields : Struct, fields.Perm struct → fields.Pairwise (fun a b => a.1 < b.1) →
    native struct = fields.flatMap fun field => field.2.bytes native field.1

-- The records of every message arranged in some way.
def bytesBy (arrange : List (UInt32 × Bytes) → List (UInt32 × Bytes)) (struct : Struct) : Bytes :=
  (arrange (struct.attach.map fun field => (field.1.1,
    match _held : field.1.2 with
    | .messages values =>
      values.attach.flatMap fun value => bodyRecord field.1.1 (bytesBy arrange value.1)
    | other => other.bytes (fun _ => []) field.1.1))).flatMap Prod.snd
termination_by sizeOf struct
decreasing_by
  have inner := List.sizeOf_lt_of_mem value.2
  have outer := List.sizeOf_lt_of_mem field.2
  obtain ⟨⟨number, held⟩, member⟩ := field
  simp only at _held
  simp only [_held, Prod.mk.sizeOf_spec, Held.messages.sizeOf_spec] at outer
  omega

theorem bytesBy_eq (arrange : List (UInt32 × Bytes) → List (UInt32 × Bytes)) (struct : Struct) :
    bytesBy arrange struct
      = (arrange (struct.map fun field => (field.1, field.2.bytes (bytesBy arrange) field.1))).flatMap
          Prod.snd := by
  rw [bytesBy]
  refine congrArg (fun records => (arrange records).flatMap Prod.snd) ?_
  conv => rhs; rw [← List.attach_map_subtype_val struct, List.map_map]
  refine List.map_congr_left ?_
  rintro ⟨⟨number, held⟩, member⟩ _
  refine congrArg (Prod.mk number) ?_
  cases held with
  | messages values =>
    show values.attach.flatMap _ = values.flatMap _
    rw [List.flatMap_subtype (g := fun value => bodyRecord number (bytesBy arrange value)) (by simp),
      List.unattach_attach]
  | _ => rfl

-- The records in the order in which the fields come.
def bytes (struct : Struct) : Bytes := bytesBy id struct

theorem bytes_eq (struct : Struct) :
    bytes struct = struct.flatMap fun field => field.2.bytes bytes field.1 := by
  rw [bytes, bytesBy_eq, id, List.flatMap_map]
  rfl

-- An encoder that keeps the promise.
def notAbove (a b : UInt32 × Bytes) : Bool := decide (a.1 ≤ b.1)

def ascendingBytes (struct : Struct) : Bytes := bytesBy (·.mergeSort notAbove) struct

theorem mergeSort_ascending {records fields : List (UInt32 × Bytes)} (perm : fields.Perm records)
    (ascending : fields.Pairwise fun a b => a.1 < b.1) : records.mergeSort notAbove = fields := by
  have sorted : (records.mergeSort notAbove).Pairwise fun a b => a.1 ≤ b.1 := by
    refine (List.pairwise_mergeSort (fun a b c => ?_) (fun a b => ?_) records).imp of_decide_eq_true
    · simpa [notAbove] using fun ab bc => UInt32.le_trans ab bc
    · simpa [notAbove] using UInt32.le_total a.1 b.1
  have same := (List.mergeSort_perm records notAbove).trans perm.symm
  have distinct : (fields.map Prod.fst).Nodup :=
    List.pairwise_map.mpr (ascending.imp fun below => UInt32.ne_of_lt below)
  refine same.eq_of_pairwise (fun a b inSorted inFields ab ba => ?_) sorted
    (ascending.imp fun below => UInt32.le_of_lt below)
  exact List.inj_on_of_nodup_map distinct (same.subset inSorted) inFields (UInt32.le_antisymm ab ba)

theorem ascendingBytes_writes : WritesAscending ascendingBytes := by
  intro struct fields perm ascending
  have records := mergeSort_ascending (perm.map fun field => (field.1, field.2.bytes ascendingBytes field.1))
    (List.pairwise_map.mpr ascending)
  show bytesBy (·.mergeSort notAbove) struct = _
  rw [bytesBy_eq]
  show List.flatMap Prod.snd (List.mergeSort
    (struct.map fun field => (field.1, field.2.bytes ascendingBytes field.1)) notAbove) = _
  rw [records, List.flatMap_map]

end Struct

end SigningSchema
