import SigningSchema.GenerationError
import SigningSchema.Json.Decode

-- Configurations as documents.

namespace SigningSchema

open Json.Tree

namespace TypeOverride

def toJson (override : TypeOverride) : Json :=
  .object
    [("legacyName", (override.legacyName.map Json.string).getD .null),
      ("excludeFromLegacyRegistry", (override.exclude.map Json.bool).getD .null)]

def ofTree? (tree : Json.Tree) : Option TypeOverride := do
  match ← tree.record? ["legacyName", "excludeFromLegacyRegistry"] with
  | [legacyName, exclude] =>
    return ⟨← optional? (nullable? string?) none legacyName,
      ← optional? (nullable? bool?) none exclude⟩
  | _ => none

end TypeOverride

namespace Config

def toJson (config : Config) : Json :=
  .object
    [("messagePrefix", .string config.messagePrefix),
      ("rootNamespaces", .array (config.rootNamespaces.map .string)),
      ("legacyNameOption", .string config.legacyNameOption),
      ("paramsSuffix", .string config.paramsSuffix),
      ("protoRoot", .string config.protoRoot),
      ("runtimeCrate", .string config.runtimeCrate),
      ("extensions", .array (config.extensions.map .string)),
      ("typeOverrides",
        .object (config.typeOverrides.map fun (url, override) => (url, override.toJson))),
      ("fieldDefaults", .array (config.fieldDefaults.map .string))]

def ofTree? (tree : Json.Tree) : Option Config := do
  let fields ← tree.record?
    ["messagePrefix", "rootNamespaces", "legacyNameOption", "paramsSuffix", "protoRoot",
      "runtimeCrate", "extensions", "typeOverrides", "fieldDefaults"]
  match fields with
  | [messagePrefix, rootNamespaces, legacyNameOption, paramsSuffix, protoRoot, runtimeCrate,
      extensions, typeOverrides, fieldDefaults] =>
    return {
      messagePrefix := ← optional? string? standard.messagePrefix messagePrefix
      rootNamespaces := ← optional? (list? string?) standard.rootNamespaces rootNamespaces
      legacyNameOption := ← optional? string? standard.legacyNameOption legacyNameOption
      paramsSuffix := ← optional? string? standard.paramsSuffix paramsSuffix
      protoRoot := ← optional? string? standard.protoRoot protoRoot
      runtimeCrate := ← optional? string? standard.runtimeCrate runtimeCrate
      extensions := ← optional? (list? string?) standard.extensions extensions
      typeOverrides := ← optional? (table? TypeOverride.ofTree?) [] typeOverrides
      fieldDefaults :=
        NameSet.ofList (← optional? (list? string?) standard.fieldDefaults fieldDefaults) }
  | _ => none

def ofText (text : String) : Except GenerationError Config :=
  match (Json.Tree.ofText? text).bind ofTree? with
  | none => .error .json
  | some config => (config.validate.mapError .config).map fun _ => config

def addOverrides (config : Config) (overrides : Table TypeOverride) : Config :=
  { config with
    typeOverrides := overrides.foldl
      (fun table (url, override) => table.insert url override) config.typeOverrides }

-- The merged configuration is answered also when it turns out to be unusable.
def loadTypeOverrides (config : Config) (text : String) : Config × Except GenerationError Unit :=
  match (Json.Tree.ofText? text).bind (table? TypeOverride.ofTree?) with
  | none => (config, .error .json)
  | some overrides =>
    let merged := config.addOverrides overrides
    (merged, merged.validate.mapError .config)

-- The whole text has to be sound before its type matters.
def fieldDefaultsOf? (text : String) : Option (List String) := do
  let tree ← Json.Tree.ofText? text
  let _ ← tree.toJson? Json.depthLimit
  let listed := list? string? tree
  let switched := (table? bool? tree).map fun table => (table.filter (·.2)).map (·.1)
  listed.or switched

def loadFieldDefaults (config : Config) (text : String) : Config × Except GenerationError Unit :=
  match fieldDefaultsOf? text with
  | none => (config, .error .json)
  | some names =>
    ({ config with fieldDefaults := NameSet.union config.fieldDefaults names }, .ok ())

end Config

end SigningSchema
