import SigningSchema.Proofs.Registry.Independence

-- Shapes are compared one level deep, yet they stand for whole structures: a member that holds a
-- structure has its own name for a type, so equal shapes lead to members of equal names, whose
-- shapes are equal again. All of it rests on the text of a type telling structures from scalars,
-- which it does unless a structured member is called like the type of a scalar.

namespace SigningSchema

-- What is signed of a message, down to some depth: its members in canonical order.
inductive SigningTree where
  | cut
  | leaf (type : String)
  | node (members : List (String × Bool × SigningTree))

namespace Corpus

def canonicalFields (fields : List ResolvedField) : List ResolvedField :=
  fields.mergeSort fun a b => !decide (a.camelName < b.camelName)

def treeBelow (tree : String → SigningTree) : TypeClass → SigningTree
  | .scalar kind => .leaf kind.signingType
  | .message target => tree target

def unfold (corpus : Corpus) : Nat → String → SigningTree
  | 0, _ => .cut
  | depth + 1, message =>
    match corpus.resolvedFields message with
    | .error _ => .cut
    | .ok fields => .node ((canonicalFields fields).map fun field =>
        (field.camelName, field.repeated, treeBelow (unfold corpus depth) field.type))

-- A structured member called so would be written as a scalar of this kind is, or as a list of such.
def CalledLike (name : String) (kind : ScalarKind) : Prop :=
  name = kind.signingType ∨ name = kind.signingType ++ "[]"

instance (name : String) (kind : ScalarKind) : Decidable (CalledLike name kind) :=
  inferInstanceAs (Decidable (_ ∨ _))

-- No name stands for a structure in one message and for a scalar of just that type in another.
def TellsApart (corpus : Corpus) : Prop :=
  ∀ message other name target kind, corpus.Reachable message → corpus.Reachable other →
    corpus.HasMember message name (.message target) → corpus.HasMember other name (.scalar kind) →
    ¬ CalledLike name kind

variable {corpus : Corpus} {message : String} {fields : List ResolvedField}

theorem unfold_succ (resolved : corpus.resolvedFields message = .ok fields) (depth : Nat) :
    corpus.unfold (depth + 1) message = .node ((canonicalFields fields).map fun field =>
      (field.camelName, field.repeated, treeBelow (corpus.unfold depth) field.type)) := by
  rw [unfold, resolved]

theorem mem_canonicalFields {field : ResolvedField} :
    field ∈ canonicalFields fields ↔ field ∈ fields :=
  (List.mergeSort_perm fields _).mem_iff

theorem canonical_signingField (fields : List ResolvedField) :
    Shape.canonical (fields.map signingField) = (canonicalFields fields).map signingField :=
  (List.map_mergeSort (f := signingField) fun _ _ _ _ => rfl).symm

theorem SignsAs.eq_map {shape : Shape} (signs : corpus.SignsAs message shape) :
    ∃ fields, corpus.resolvedFields message = .ok fields ∧
      shape = (canonicalFields fields).map signingField := by
  obtain ⟨fields, resolved, ordered⟩ := signs
  exact ⟨fields, resolved,
    (ordered.unique (Shape.canonical_ordered _)).trans (canonical_signingField fields)⟩

end Corpus

def brackets (repeated : Bool) : String := if repeated then "[]" else ""

theorem brackets_cases {one other : String} {repeated listed : Bool}
    (same : one ++ brackets repeated = other ++ brackets listed) :
    (one = other ∧ repeated = listed) ∨ one = other ++ "[]" ∨ other = one ++ "[]" := by
  cases repeated <;> cases listed <;>
    simp only [brackets, if_true, Bool.false_eq_true, if_false, String.append_empty] at same
  · exact .inl ⟨same, rfl⟩
  · exact .inr (.inl same)
  · exact .inr (.inr same.symm)
  · exact .inl ⟨(String.append_left_inj "[]").mp same, rfl⟩

theorem ScalarKind.signingType_ne_list (kind : ScalarKind) (text : String) :
    kind.signingType ≠ text ++ "[]" := by
  intro same
  have last := congrArg (fun text => text.toList.getLast?) same
  simp only [String.toList_append] at last
  cases kind <;> simp [signingType] at last

namespace Expansion

theorem typeText_scalar {field : ResolvedField} {kind : ScalarKind} (type : field.type = .scalar kind) :
    typeText field = kind.signingType ++ brackets field.repeated := by
  rw [typeText, type]
  rfl

theorem typeText_message {field : ResolvedField} {target : String}
    (type : field.type = .message target) :
    typeText field = field.camelName ++ brackets field.repeated := by
  rw [typeText, type]
  rfl

end Expansion

namespace Corpus

open Expansion (typeText typeText_scalar typeText_message)

variable {corpus : Corpus} {message : String}

-- The text of a scalar's type reads as a structure of that name, or a list of such, only where the
-- name is called like the type.
theorem calledLike_of_text {name : String} {kind : ScalarKind} {repeated listed : Bool}
    (same : kind.signingType ++ brackets repeated = name ++ brackets listed) : CalledLike name kind := by
  rcases brackets_cases same with ⟨equal, _⟩ | list | named
  · exact .inl equal.symm
  · exact absurd list (kind.signingType_ne_list name)
  · exact .inr named

-- Two members that sign alike hold the same scalar type, or both a structure.
inductive Alike : ResolvedField → ResolvedField → Prop where
  | scalar {one other : ResolvedField} {kind another : ScalarKind} (name : one.camelName = other.camelName)
      (repeated : one.repeated = other.repeated) (type : one.type = .scalar kind)
      (typeToo : other.type = .scalar another) (same : kind.signingType = another.signingType) :
      Alike one other
  | message {one other : ResolvedField} {target another : String} (name : one.camelName = other.camelName)
      (repeated : one.repeated = other.repeated) (type : one.type = .message target)
      (typeToo : other.type = .message another) : Alike one other

theorem alike_of_signingField {one other : ResolvedField} (same : signingField one = signingField other)
    (apart : ∀ target kind, one.type = .message target → other.type = .scalar kind →
      ¬ CalledLike one.camelName kind)
    (apartToo : ∀ target kind, other.type = .message target → one.type = .scalar kind →
      ¬ CalledLike other.camelName kind) : Alike one other := by
  have name : one.camelName = other.camelName := congrArg SigningField.name same
  have text : typeText one = typeText other := congrArg SigningField.type same
  cases type : one.type with
  | scalar kind =>
    rw [typeText_scalar type] at text
    cases typeToo : other.type with
    | scalar another =>
      rw [typeText_scalar typeToo] at text
      rcases brackets_cases text with ⟨equal, repeated⟩ | list | list
      · exact .scalar name repeated type typeToo equal
      · exact absurd list (kind.signingType_ne_list _)
      · exact absurd list (another.signingType_ne_list _)
    | message target =>
      rw [typeText_message typeToo] at text
      exact absurd (calledLike_of_text text) (apartToo target kind typeToo type)
  | message target =>
    rw [typeText_message type] at text
    cases typeToo : other.type with
    | scalar kind =>
      rw [typeText_scalar typeToo] at text
      exact absurd (calledLike_of_text text.symm) (apart target kind type typeToo)
    | message another =>
      rw [typeText_message typeToo, name] at text
      rcases brackets_cases text with ⟨_, repeated⟩ | list | list
      · exact .message name repeated type typeToo
      all_goals
        have lengths := congrArg (fun text => text.toList.length) list
        simp at lengths

theorem HasMember.known {holder name target : String} (held : corpus.Reachable holder)
    (member : corpus.HasMember holder name (.message target))
    (resolves : ∀ request ∈ corpus.requestTypes, corpus.Resolves request) :
    corpus.Reachable target ∧ ∃ fields, corpus.resolvedFields target = .ok fields ∧
      corpus.Known name target ((canonicalFields fields).map signingField) := by
  obtain ⟨request, requested, path⟩ := held
  have reached := path.tail member.refers
  obtain ⟨fields, resolved⟩ := resolves request requested target reached
  refine ⟨⟨request, requested, reached⟩, fields, resolved,
    ⟨request, requested, holder, path, member⟩, ?_⟩
  rw [← canonical_signingField]
  exact signsAs_canonical resolved

-- By induction on the depth: members of one name have equal shapes, so below them are members of
-- equal names again.
theorem unfold_eq (apart : corpus.TellsApart)
    (agree : ∀ {name first second one other}, corpus.Known name first one →
      corpus.Known name second other → one = other)
    (resolves : ∀ request ∈ corpus.requestTypes, corpus.Resolves request) (depth : Nat)
    {name first second holder another : String}
    (held : corpus.Reachable holder) (left : corpus.HasMember holder name (.message first))
    (heldToo : corpus.Reachable another) (right : corpus.HasMember another name (.message second)) :
    corpus.unfold depth first = corpus.unfold depth second := by
  induction depth generalizing name first second holder another with
  | zero => rfl
  | succ depth ih =>
    obtain ⟨reached, fields, resolved, one⟩ := left.known held resolves
    obtain ⟨reachedToo, others, resolvedToo, other⟩ := right.known heldToo resolves
    have shapes := agree one other
    rw [← List.forall₂_eq_eq_eq, List.forall₂_map_left_iff, List.forall₂_map_right_iff] at shapes
    rw [unfold_succ resolved, unfold_succ resolvedToo]
    refine congrArg SigningTree.node (map_eq_of_forall₂ ?_)
    refine (forall₂_with_mem (forall₂_with_mem shapes).flip).flip.imp ?_
    rintro field twin ⟨inOthers, inFields, same⟩
    have member : ∀ {type}, field.type = type → corpus.HasMember first field.camelName type :=
      fun type => ⟨fields, resolved, field, mem_canonicalFields.mp inFields, rfl, type⟩
    have memberToo : ∀ {type}, twin.type = type → corpus.HasMember second twin.camelName type :=
      fun type => ⟨others, resolvedToo, twin, mem_canonicalFields.mp inOthers, rfl, type⟩
    have name : field.camelName = twin.camelName := congrArg SigningField.name same
    have alike : Alike field twin := by
      refine alike_of_signingField same (fun target kind type typeToo => ?_)
        (fun target kind typeToo type => ?_)
      · exact apart first second _ target kind reached reachedToo (member type) (name ▸ memberToo typeToo)
      · exact apart second first _ target kind reachedToo reached (memberToo typeToo) (name ▸ member type)
    cases alike with
    | scalar name repeated type typeToo same =>
      rw [name, repeated, type, typeToo, treeBelow, treeBelow, same]
    | message name repeated type typeToo =>
      have deeper := ih reached (member type) reachedToo (name ▸ memberToo typeToo)
      rw [name, repeated, type, typeToo, treeBelow, treeBelow, deeper]

end Corpus

namespace Shape

-- The structure that a member holds, and whether in a list, where a table has one under its name.
def structureOf? (nested : Table Shape) (field : SigningField) : Option (Bool × Shape) :=
  if field.type = field.name then (nested.get? field.name).map (Prod.mk false)
  else if field.type = field.name ++ "[]" then (nested.get? field.name).map (Prod.mk true)
  else none

def scalarOf (type : String) : Bool × String :=
  if Text.endsWith "[]" type then (true, String.ofList (type.toList.take (type.toList.length - 2)))
  else (false, type)

-- A shape as a signer reads it, who knows no more than the table.
def read (nested : Table Shape) : Nat → Shape → SigningTree
  | 0, _ => .cut
  | depth + 1, shape => .node (shape.map fun field =>
      match structureOf? nested field with
      | some (repeated, inner) => (field.name, repeated, read nested depth inner)
      | none => (field.name, (scalarOf field.type).1, .leaf (scalarOf field.type).2))

open Corpus (signingField)

theorem structureOf?_message {nested : Table Shape} {field : ResolvedField} {target : String}
    {shape : Shape} (type : field.type = .message target)
    (found : nested.get? field.camelName = some shape) :
    structureOf? nested (signingField field) = some (field.repeated, shape) := by
  rw [structureOf?, signingField, Expansion.typeText_message type]
  cases field.repeated with
  | false => simp [brackets, found]
  | true =>
    have longer : field.camelName ++ "[]" ≠ field.camelName := by
      intro same
      have lengths := congrArg (fun text => text.toList.length) same
      simp at lengths
    simp [brackets, found, longer]

theorem structureOf?_scalar {nested : Table Shape} {field : ResolvedField} {kind : ScalarKind}
    (type : field.type = .scalar kind)
    (free : Corpus.CalledLike field.camelName kind → nested.get? field.camelName = none) :
    structureOf? nested (signingField field) = none := by
  rw [structureOf?, signingField, Expansion.typeText_scalar type]
  split
  · rename_i same
    have read : kind.signingType ++ brackets field.repeated = field.camelName ++ brackets false :=
      same.trans String.append_empty.symm
    rw [free (Corpus.calledLike_of_text read)]
    rfl
  · split
    · rename_i same
      have read : kind.signingType ++ brackets field.repeated = field.camelName ++ brackets true := same
      rw [free (Corpus.calledLike_of_text read)]
      rfl
    · rfl

theorem scalarOf_signingType (kind : ScalarKind) (repeated : Bool) :
    scalarOf (kind.signingType ++ brackets repeated) = (repeated, kind.signingType) := by
  cases kind <;> cases repeated <;> rfl

-- An entry holds, for every message below its payload, the shapes to read it with.
theorem read_eq {corpus : Corpus} {request : String} {entry : RegistryEntry}
    (requested : request ∈ corpus.requestTypes) (apart : corpus.TellsApart)
    (describes : Registry.Describes corpus request entry) (depth : Nat) {message : String}
    {shape : Shape} (path : corpus.Reaches request message) (signs : corpus.SignsAs message shape) :
    shape.read entry.nestedTypes depth = corpus.unfold depth message := by
  induction depth generalizing message shape with
  | zero => rfl
  | succ depth ih =>
    obtain ⟨fields, resolved, rfl⟩ := signs.eq_map
    rw [read, Corpus.unfold_succ resolved, List.map_map]
    refine congrArg SigningTree.node (List.map_congr_left fun field inside => ?_)
    have member : ∀ {type}, field.type = type → corpus.HasMember message field.camelName type :=
      fun type => ⟨fields, resolved, field, Corpus.mem_canonicalFields.mp inside, rfl, type⟩
    rw [Function.comp_apply]
    cases type : field.type with
    | scalar kind =>
      have free : Corpus.CalledLike field.camelName kind →
          entry.nestedTypes.get? field.camelName = none := by
        intro called
        cases found : entry.nestedTypes.get? field.camelName with
        | none => rfl
        | some held =>
          obtain ⟨target, ⟨holder, pathToo, structured⟩, _⟩ := describes.traced _ held found
          exact absurd called (apart holder message _ target kind ⟨request, requested, pathToo⟩
            ⟨request, requested, path⟩ structured (member type))
      rw [structureOf?_scalar type free]
      simp only [signingField, Expansion.typeText_scalar type, scalarOf_signingType, Corpus.treeBelow]
    | message target =>
      obtain ⟨inner, signsToo, found⟩ := describes.noted _ target ⟨message, path, member type⟩
      rw [structureOf?_message type found]
      simp only [ih (path.tail (member type).refers) signsToo, signingField, Corpus.treeBelow]

end Shape

namespace Registry

variable {corpus : Corpus} {config : Config} {registry : Registry}

-- Where names tell structures from scalars, members of one name hold messages that are signed alike
-- to every depth, wherever payloads reach them; and an entry is enough to read its payload to every
-- depth.
theorem ofCorpus_unfolds (derived : ofCorpus corpus config = .ok registry) (apart : corpus.TellsApart) :
    (∀ name first second,
      (∃ message, corpus.Reachable message ∧ corpus.HasMember message name (.message first)) →
      (∃ message, corpus.Reachable message ∧ corpus.HasMember message name (.message second)) →
      ∀ depth, corpus.unfold depth first = corpus.unfold depth second) ∧
    ∀ request ∈ corpus.requestTypes, ∃ entry,
      registry.get? (Package.typeUrl request) = some entry ∧
      ∀ depth, entry.valueFields.read entry.nestedTypes depth = corpus.unfold depth request := by
  have ends := ofCorpus_ends corpus config
  rw [derived] at ends
  obtain ⟨final, entries, derivation, _⟩ := ends
  constructor
  · rintro name first second ⟨message, reached, left⟩ ⟨other, reachedToo, right⟩ depth
    exact Corpus.unfold_eq apart derivation.agree derivation.resolves depth reached left reachedToo right
  · intro request requested
    obtain ⟨entry, found, describes⟩ := entry_of_ofCorpus derived request requested
    exact ⟨entry, found, fun depth =>
      Shape.read_eq requested apart describes depth .refl describes.shape⟩

-- Two payload messages with a member of one name, for messages whose own member is called `string`:
-- the first is a string, and the other is one too or else a structure.
def memoCorpus (words : Bool) : Corpus where
  messages := [
    ("pay.v1.Label", ⟨"pay.v1", "Label", [⟨"string", "string", false, 1⟩], "pay.proto", none⟩),
    ("pay.v1.MsgPay", ⟨"pay.v1", "MsgPay", [⟨"memo", "Label", false, 1⟩], "pay.proto", none⟩),
    ("pay.v1.MsgTip", ⟨"pay.v1", "MsgTip", [⟨"memo", "Note", false, 1⟩], "pay.proto", none⟩),
    ("pay.v1.Note", ⟨"pay.v1", "Note",
      [⟨"string", if words then "Words" else "string", false, 1⟩], "pay.proto", none⟩),
    ("pay.v1.Words", ⟨"pay.v1", "Words", [⟨"loud", "bool", false, 1⟩], "pay.proto", none⟩)]
  enums := []
  requestTypes := ["pay.v1.MsgPay", "pay.v1.MsgTip"]

def memoClass (words : Bool) : TypeClass := if words then .message "pay.v1.Words" else .scalar .string

-- The only member of each message.
def memoField (words : Bool) : String → Option ResolvedField
  | "pay.v1.Label" => some ⟨"string", "string", .scalar .string, false, 1⟩
  | "pay.v1.MsgPay" => some ⟨"memo", "memo", .message "pay.v1.Label", false, 1⟩
  | "pay.v1.MsgTip" => some ⟨"memo", "memo", .message "pay.v1.Note", false, 1⟩
  | "pay.v1.Note" => some ⟨"string", "string", memoClass words, false, 1⟩
  | "pay.v1.Words" => some ⟨"loud", "loud", .scalar .bool, false, 1⟩
  | _ => none

theorem resolvedFields_memo (words : Bool) {message : String} {field : ResolvedField}
    (held : memoField words message = some field) :
    (memoCorpus words).resolvedFields message = .ok [field] := by
  unfold memoField at held
  cases words <;> split at held <;> cases held <;> rfl

theorem memoField_of_resolved (words : Bool) {message : String} {fields : List ResolvedField}
    (resolved : (memoCorpus words).resolvedFields message = .ok fields) :
    ∃ field, memoField words message = some field ∧ fields = [field] := by
  have declared := Corpus.mem_keys_of_declares (Corpus.declares_of_resolvedFields resolved)
  simp only [memoCorpus, Table.keys, List.map_cons, List.map_nil, List.mem_cons, List.not_mem_nil,
    or_false] at declared
  have held : ∃ field, memoField words message = some field := by
    rcases declared with rfl | rfl | rfl | rfl | rfl <;> exact ⟨_, rfl⟩
  obtain ⟨field, held⟩ := held
  rw [resolvedFields_memo words held] at resolved
  exact ⟨field, held, (Except.ok.inj resolved).symm⟩

theorem member_memo {words : Bool} {message name : String} {type : TypeClass}
    (member : (memoCorpus words).HasMember message name type) :
    ∃ field, memoField words message = some field ∧ field.camelName = name ∧ field.type = type := by
  obtain ⟨fields, resolved, field, inside, same, holds⟩ := member
  obtain ⟨only, held, rfl⟩ := memoField_of_resolved words resolved
  rw [List.mem_singleton.mp inside] at same holds
  exact ⟨only, held, same, holds⟩

theorem structure_memo {words : Bool} {message name target : String}
    (member : (memoCorpus words).HasMember message name (.message target)) :
    (name = "memo" ∧ (target = "pay.v1.Label" ∨ target = "pay.v1.Note")) ∨
      (name = "string" ∧ target = "pay.v1.Words" ∧ words = true) := by
  obtain ⟨field, held, rfl, holds⟩ := member_memo member
  unfold memoField at held
  cases words <;> split at held <;> cases held <;> cases holds <;> simp

theorem signsAs_memo {words : Bool} {target : String} {shape : Shape}
    (member : target = "pay.v1.Label" ∨ target = "pay.v1.Note")
    (signs : (memoCorpus words).SignsAs target shape) : shape = [⟨"string", "string"⟩] := by
  obtain ⟨fields, resolved, rfl⟩ := signs.eq_map
  obtain ⟨field, held, rfl⟩ := memoField_of_resolved words resolved
  rw [Corpus.canonicalFields, List.mergeSort_singleton]
  rcases member with rfl | rfl <;> cases words <;> cases held <;> rfl

theorem resolves_memo {words : Bool} {request message : String}
    (requested : request ∈ (memoCorpus words).requestTypes)
    (path : (memoCorpus words).Reaches request message) :
    ∃ field, memoField words message = some field := by
  rcases Relation.ReflTransGen.cases_tail path with rfl | ⟨holder, _, fields, resolved, field, inside, type⟩
  · rcases List.mem_pair.mp requested with rfl | rfl <;> exact ⟨_, rfl⟩
  · obtain ⟨_, rfl | rfl⟩ | ⟨_, rfl, _⟩ := structure_memo ⟨fields, resolved, field, inside, rfl, type⟩ <;>
      exact ⟨_, rfl⟩

-- Nothing clashes in either corpus: the two messages are of one shape.
theorem ofCorpus_memo (words : Bool) :
    ∃ registry, ofCorpus (memoCorpus words) .standard = .ok registry := by
  have ends := ofCorpus_ends (memoCorpus words) .standard
  cases derivation : ofCorpus (memoCorpus words) .standard with
  | ok registry => exact ⟨registry, rfl⟩
  | error error =>
    rw [derivation] at ends
    obtain ⟨request, requested, collision | ⟨message, path, unresolved⟩⟩ := ends
    · obtain ⟨name, first, one, second, other, _, left, right, differ⟩ := collision
      obtain ⟨⟨_, _, _, _, member⟩, signs⟩ := left
      obtain ⟨⟨_, _, _, _, memberToo⟩, signsToo⟩ := right
      obtain ⟨rfl, known⟩ | ⟨rfl, rfl, _⟩ := structure_memo member <;>
        obtain ⟨same, knownToo⟩ | ⟨same, rfl, _⟩ := structure_memo memberToo
      · exact absurd ((signsAs_memo known signs).trans (signsAs_memo knownToo signsToo).symm) differ
      · exact absurd same (by decide)
      · exact absurd same (by decide)
      · exact absurd (signs.unique signsToo) differ
    · obtain ⟨field, held⟩ := resolves_memo requested path
      rw [resolvedFields_memo words held] at unresolved
      cases unresolved

theorem memo_reached (words : Bool) :
    (∃ message, (memoCorpus words).Reachable message ∧
      (memoCorpus words).HasMember message "memo" (.message "pay.v1.Label")) ∧
    ∃ message, (memoCorpus words).Reachable message ∧
      (memoCorpus words).HasMember message "memo" (.message "pay.v1.Note") := by
  refine ⟨⟨"pay.v1.MsgPay", ⟨"pay.v1.MsgPay", List.mem_pair.mpr (.inl rfl), .refl⟩, ?_⟩,
    ⟨"pay.v1.MsgTip", ⟨"pay.v1.MsgTip", List.mem_pair.mpr (.inr rfl), .refl⟩, ?_⟩⟩
  · exact ⟨_, resolvedFields_memo words rfl, _, List.mem_singleton.mpr rfl, rfl, rfl⟩
  · exact ⟨_, resolvedFields_memo words rfl, _, List.mem_singleton.mpr rfl, rfl, rfl⟩

theorem unfold_memo (words : Bool) {message : String} {field : ResolvedField}
    (held : memoField words message = some field) (depth : Nat) :
    (memoCorpus words).unfold (depth + 1) message = .node [(field.camelName, field.repeated,
      Corpus.treeBelow ((memoCorpus words).unfold depth) field.type)] := by
  rw [Corpus.unfold_succ (resolvedFields_memo words held), Corpus.canonicalFields,
    List.mergeSort_singleton]
  rfl

-- A structure called `string` is taken for a string: the registry is derived, though the two messages
-- under one name are not signed alike.
theorem unfold_differs_words : ∃ registry, ofCorpus (memoCorpus true) .standard = .ok registry ∧
    (∃ message, (memoCorpus true).Reachable message ∧
      (memoCorpus true).HasMember message "memo" (.message "pay.v1.Label")) ∧
    (∃ message, (memoCorpus true).Reachable message ∧
      (memoCorpus true).HasMember message "memo" (.message "pay.v1.Note")) ∧
    (memoCorpus true).unfold 2 "pay.v1.Label" ≠ (memoCorpus true).unfold 2 "pay.v1.Note" := by
  obtain ⟨registry, derived⟩ := ofCorpus_memo true
  obtain ⟨label, note⟩ := memo_reached true
  refine ⟨registry, derived, label, note, ?_⟩
  rw [unfold_memo true rfl 1, unfold_memo true rfl 1]
  intro same
  change _ = SigningTree.node [(_, _, (memoCorpus true).unfold 1 "pay.v1.Words")] at same
  rw [unfold_memo true rfl 0] at same
  cases same

theorem ofCorpus_unfolds_memo : ∃ registry,
    ofCorpus (memoCorpus false) .standard = .ok registry ∧ (memoCorpus false).TellsApart ∧
    (∀ depth, (memoCorpus false).unfold depth "pay.v1.Label"
      = (memoCorpus false).unfold depth "pay.v1.Note") ∧
    ∃ entry, registry.get? "/pay.v1.MsgTip" = some entry ∧
      ∀ depth, entry.valueFields.read entry.nestedTypes depth
        = (memoCorpus false).unfold depth "pay.v1.MsgTip" := by
  obtain ⟨registry, derived⟩ := ofCorpus_memo false
  have apart : (memoCorpus false).TellsApart := by
    intro message other name target kind _ _ member _
    obtain ⟨rfl, _⟩ | ⟨_, _, words⟩ := structure_memo member
    · cases kind <;> decide
    · cases words
  obtain ⟨alike, read⟩ := ofCorpus_unfolds derived apart
  obtain ⟨label, note⟩ := memo_reached false
  exact ⟨registry, derived, apart, alike "memo" _ _ label note,
    read "pay.v1.MsgTip" (List.mem_pair.mpr (.inr rfl))⟩

end Registry

end SigningSchema
