import SigningSchema.Corpus.Closure
import SigningSchema.Registry.Basic

-- Deriving the descriptors of a corpus. The walk through the fields of a message goes
-- depth first. A field whose message is still being walked is put off until its shape
-- is known. Every shape is compared with the one already known under its field's name,
-- for all payload messages together.

namespace SigningSchema

structure Expansion where
  -- The first message and shape found under each field name; kept from walk to walk.
  known : Table (String × Shape)
  expanded : Table Shape
  nested : Table Shape
  durations : NameSet
  pending : List (String × String)

namespace Expansion

def start (known : Table (String × Shape)) : Expansion := ⟨known, [], [], [], []⟩

def register (state : Expansion) (field fullName : String) (shape : Shape) :
    Except GenerationError Expansion :=
  match state.known.get? field with
  | some (firstName, first) =>
    if first = shape then .ok { state with nested := state.nested.insert field shape }
    else .error (.nestedCollision field firstName first.text fullName shape.text)
  | none =>
    .ok { state with
      known := state.known.insert field (fullName, shape)
      nested := state.nested.insert field shape }

def noteDuration (state : Expansion) (kind : ScalarKind) (field : String) : Expansion :=
  if kind.isDuration then { state with durations := state.durations.insert field } else state

def putOff (state : Expansion) (field fullName : String) : Expansion :=
  { state with pending := state.pending ++ [(field, fullName)] }

def typeText (field : ResolvedField) : String :=
  (match field.type with
    | .scalar kind => kind.signingType
    | .message _ => field.camelName)
  ++ (if field.repeated then "[]" else "")

mutual

def expand (corpus : Corpus) (stack : List String) (state : Expansion) (fullName : String)
    (_new : stack.contains fullName = false) : Except GenerationError (Shape × Expansion) :=
  match state.expanded.get? fullName with
  | some shape => .ok (shape, state)
  | none =>
    match _resolved : corpus.resolvedFields fullName with
    | .error error => .error error
    | .ok fields =>
      match expandFields corpus (fullName :: stack) state fields with
      | .error error => .error error
      | .ok (shape, state) =>
        let shape := Shape.canonical shape
        .ok (shape, { state with expanded := state.expanded.insert fullName shape })
termination_by (corpus.unseen stack, 0)
decreasing_by
  refine Prod.Lex.left _ _
    (Corpus.unseen_lt (Corpus.declares_of_resolvedFields _resolved) _new ?_ ?_)
  · exact List.mem_cons_self
  · exact fun other member => List.mem_cons_of_mem _ member

def expandFields (corpus : Corpus) (stack : List String) (state : Expansion)
    (fields : List ResolvedField) : Except GenerationError (Shape × Expansion) :=
  match fields with
  | [] => .ok ([], state)
  | field :: rest =>
    let visited : Except GenerationError Expansion :=
      match field.type with
      | .scalar kind => .ok (state.noteDuration kind field.camelName)
      | .message fullName =>
        if open_ : stack.contains fullName then .ok (state.putOff field.camelName fullName)
        else
          match expand corpus stack state fullName (by simpa using open_) with
          | .error error => .error error
          | .ok (shape, state) => state.register field.camelName fullName shape
    match visited with
    | .error error => .error error
    | .ok state =>
      match expandFields corpus stack state rest with
      | .error error => .error error
      | .ok (shape, state) => .ok (⟨field.camelName, typeText field⟩ :: shape, state)
termination_by (corpus.unseen stack, fields.length)
decreasing_by
  · exact Prod.Lex.right _ (by simp)
  · exact Prod.Lex.right _ (by simp)

end

def backfill (state : Expansion) : List (String × String) → Except GenerationError Expansion
  | [] => .ok state
  | (field, fullName) :: rest =>
    match state.expanded.get? fullName with
    | none => .error (.missingMessage fullName)
    | some shape =>
      match state.register field fullName shape with
      | .error error => .error error
      | .ok state => backfill state rest

def walk (corpus : Corpus) (known : Table (String × Shape)) (fullName : String) :
    Except GenerationError (Shape × Expansion) := do
  let (shape, state) ← expand corpus [] (start known) fullName rfl
  let state ← state.backfill state.pending
  return (shape, state)

end Expansion

namespace Registry

def describeAll (corpus : Corpus) (config : Config) (known : Table (String × Shape))
    (entries : Table RegistryEntry) : List String → Except GenerationError (Table RegistryEntry)
  | [] => .ok entries
  | request :: rest => do
    let message ← corpus.message request
    let (shape, state) ← Expansion.walk corpus known request
    let url := Package.typeUrl request
    describeAll corpus config state.known
      (entries.insert url
        { legacyName := message.legacyNameIn config
          typeUrl := url
          valueFields := shape
          nestedTypes := state.nested
          durationFields := state.durations
          exclude := false })
      rest

def applyOverride (entry : RegistryEntry) (override : TypeOverride) : RegistryEntry :=
  { entry with
    legacyName := override.legacyName.getD entry.legacyName
    exclude := override.exclude.getD entry.exclude }

-- Overrides of types that are no payload messages have no effect.
def applyOverrides (overrides : Table TypeOverride) (entries : Table RegistryEntry) :
    Table RegistryEntry :=
  entries.map fun (url, entry) =>
    (url, match overrides.get? url with
      | some override => applyOverride entry override
      | none => entry)

def ofCorpus (corpus : Corpus) (config : Config) : Except GenerationError Registry := do
  let entries ← describeAll corpus config [] [] corpus.requestTypes
  return ⟨applyOverrides config.typeOverrides entries⟩

end Registry

end SigningSchema
