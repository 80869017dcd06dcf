import SigningSchema.Json.Decode
import SigningSchema.Json.Printer
import SigningSchema.Registry.Basic

-- The registry as a document.

namespace SigningSchema

def SigningField.toJson (field : SigningField) : Json :=
  .object [("name", .string field.name), ("type", .string field.type)]

namespace Shape

def toJson (shape : Shape) : Json := .array (List.map SigningField.toJson shape)

def ofTree? : Json.Tree → Option Shape :=
  Json.Tree.list? fun tree => do
    match ← tree.record? ["name", "type"] with
    | [name, type] =>
      return ⟨← name.bind Json.Tree.string?, ← type.bind Json.Tree.string?⟩
    | _ => none

end Shape

namespace RegistryEntry

def toJson (entry : RegistryEntry) : Json :=
  .object
    ([("legacyName", .string entry.legacyName),
      ("typeUrl", .string entry.typeUrl),
      ("valueFields", Shape.toJson entry.valueFields),
      ("nestedTypes", .object (entry.nestedTypes.map fun (name, shape) => (name, shape.toJson))),
      ("durationFields", .array (entry.durationFields.map .string))]
    ++ if entry.exclude then [("excludeFromLegacyRegistry", .bool true)] else [])

def ofTree? (tree : Json.Tree) : Option RegistryEntry := do
  let fields ← tree.record?
    ["legacyName", "typeUrl", "valueFields", "nestedTypes", "durationFields",
      "excludeFromLegacyRegistry"]
  match fields with
  | [legacyName, typeUrl, valueFields, nestedTypes, durationFields, exclude] =>
    return {
      legacyName := ← Json.Tree.required? Json.Tree.string? legacyName
      typeUrl := ← Json.Tree.required? Json.Tree.string? typeUrl
      valueFields := ← Json.Tree.required? Shape.ofTree? valueFields
      nestedTypes := ← Json.Tree.required? (Json.Tree.table? Shape.ofTree?) nestedTypes
      durationFields :=
        NameSet.ofList (← Json.Tree.required? (Json.Tree.list? Json.Tree.string?) durationFields)
      exclude := ← Json.Tree.optional? Json.Tree.bool? false exclude }
  | _ => none

end RegistryEntry

namespace Registry

def toJson (registry : Registry) : Json :=
  .object (registry.entries.map fun (url, entry) => (url, entry.toJson))

def text (registry : Registry) : String := registry.toJson.pretty 0 ++ "\n"

def ofText? (text : String) : Option Registry := do
  let tree ← Json.Tree.ofText? text
  let entries ← tree.table? RegistryEntry.ofTree?
  return ⟨entries⟩

end Registry

end SigningSchema
