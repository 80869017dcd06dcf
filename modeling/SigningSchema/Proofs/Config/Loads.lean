import Mathlib
import SigningSchema.Config.Document
import SigningSchema.Generation
import SigningSchema.Proofs.Results
import SigningSchema.Proofs.Table

-- Runs of loads: what a configuration goes through as files are loaded into it one after another.
-- A table of overrides is merged before it is looked at, so a bad key in it stays behind although
-- the load fails, until a whole configuration takes its place.

namespace SigningSchema

-- A file that is loaded, by what it is taken for.
inductive ConfigLoad where
  | whole (text : String)
  | typeOverrides (text : String)
  | fieldDefaults (text : String)

namespace Config

def load (config : Config) : ConfigLoad → Config × Except GenerationError Unit
  | .whole text =>
    match ofText text with
    | .ok loaded => (loaded, .ok ())
    | .error error => (config, .error error)
  | .typeOverrides text => config.loadTypeOverrides text
  | .fieldDefaults text => config.loadFieldDefaults text

def loaded (config : Config) (loads : List ConfigLoad) : Config :=
  loads.foldl (fun current load => (current.load load).1) config

def Valid (config : Config) : Prop := config.validate = .ok ()

-- What no load but that of a whole configuration touches.
structure Sound (config : Config) : Prop where
  messagePrefix : config.messagePrefix ≠ ""
  extensions : config.extensions.isEmpty = false

end Config

def IsAddress (key : String) : Prop := Text.beginsWith "/" key = true

def Table.ByAddress (table : Table α) : Prop := ∀ key ∈ table.keys, IsAddress key

namespace ConfigLoad

-- The table that a load of overrides finds in its text.
def overrides? : ConfigLoad → Option (Table TypeOverride)
  | typeOverrides text => (Json.Tree.ofText? text).bind (Json.Tree.table? TypeOverride.ofTree?)
  | _ => none

def Replaces (load : ConfigLoad) : Prop :=
  ∃ text config, load = .whole text ∧ Config.ofText text = .ok config

def Spoils (load : ConfigLoad) : Prop :=
  ∃ overrides, load.overrides? = some overrides ∧ ¬ overrides.ByAddress

end ConfigLoad

-- Whatever spoiled the configuration was followed by a whole new one.
def Repaired (loads : List ConfigLoad) : Prop :=
  ∀ before load after, loads = before ++ load :: after → load.Spoils →
    ∃ later ∈ after, later.Replaces

namespace Config

variable {config : Config}

theorem mem_keys_addOverrides {overrides : Table TypeOverride} {key : String} :
    key ∈ (config.addOverrides overrides).typeOverrides.keys
      ↔ key ∈ overrides.keys ∨ key ∈ config.typeOverrides.keys := by
  show key ∈ (overrides.foldl (fun table pair => table.insert pair.1 pair.2) config.typeOverrides).keys ↔ _
  generalize config.typeOverrides = table
  induction overrides generalizing table with
  | nil => simp [Table.keys]
  | cons pair rest ih =>
    rw [List.foldl_cons, ih (table.insert pair.1 pair.2), Table.mem_keys_insert]
    simp only [Table.keys, List.map_cons, List.mem_cons]
    tauto

theorem byAddress_addOverrides {overrides : Table TypeOverride} :
    (config.addOverrides overrides).typeOverrides.ByAddress
      ↔ overrides.ByAddress ∧ config.typeOverrides.ByAddress := by
  constructor
  · intro all
    exact ⟨fun key inside => all key (mem_keys_addOverrides.mpr (.inl inside)),
      fun key inside => all key (mem_keys_addOverrides.mpr (.inr inside))⟩
  · rintro ⟨new, old⟩ key inside
    exact (mem_keys_addOverrides.mp inside).elim (new key) (old key)

-- A sound configuration is invalid for one reason only.
theorem Sound.validate (sound : config.Sound) :
    (config.Valid ∧ config.typeOverrides.ByAddress) ∨
      ∃ key ∈ config.typeOverrides.keys, ¬ IsAddress key ∧
        config.validate = .error (.overrideKey key) := by
  rw [Valid, Config.validate, if_neg sound.messagePrefix, sound.extensions, if_neg Bool.false_ne_true]
  cases found : config.typeOverrides.keys.find? fun key => !Text.beginsWith "/" key with
  | none =>
    refine .inl ⟨rfl, fun key inside => ?_⟩
    simpa [IsAddress] using List.find?_eq_none.mp found key inside
  | some key =>
    refine .inr ⟨key, List.mem_of_find?_eq_some found, ?_, rfl⟩
    simpa [IsAddress] using List.find?_some found

theorem Sound.valid_iff (sound : config.Sound) : config.Valid ↔ config.typeOverrides.ByAddress := by
  rcases sound.validate with ⟨valid, addressed⟩ | ⟨key, inside, notAddress, refused⟩
  · exact iff_of_true valid addressed
  · refine iff_of_false (fun valid => ?_) fun addressed => notAddress (addressed key inside)
    rw [Valid, refused] at valid
    cases valid

theorem Valid.sound (valid : config.Valid) : config.Sound := by
  unfold Valid Config.validate at valid
  split at valid
  · cases valid
  · rename_i notEmpty
    split at valid
    · cases valid
    · rename_i given
      exact ⟨notEmpty, Bool.eq_false_of_not_eq_true given⟩

theorem standard_valid : standard.Valid := rfl

theorem valid_of_ofText {text : String} (read : ofText text = .ok config) : config.Valid := by
  unfold ofText at read
  split at read
  · cases read
  · rename_i found _
    obtain ⟨checked, valid, rfl⟩ := map_ok read
    cases outcome : found.validate with
    | error error => rw [outcome] at valid; cases valid
    | ok checked => exact outcome

-- All that a load can do. Only a load that finds a table of overrides can change the configuration
-- and fail nevertheless.
inductive LoadResult (config : Config) (load : ConfigLoad) :
    Config × Except GenerationError Unit → Prop where
  | replaced {new : Config} (replaces : load.Replaces) (harmless : load.overrides? = none)
      (valid : new.Valid) : LoadResult config load (new, .ok ())
  | refused (error : GenerationError) (keeps : ¬ load.Replaces) (harmless : load.overrides? = none) :
      LoadResult config load (config, .error error)
  | merged {overrides : Table TypeOverride} (keeps : ¬ load.Replaces)
      (found : load.overrides? = some overrides) :
      LoadResult config load
        (config.addOverrides overrides, (config.addOverrides overrides).validate.mapError .config)
  | extended (defaults : NameSet) (keeps : ¬ load.Replaces) (harmless : load.overrides? = none) :
      LoadResult config load ({ config with fieldDefaults := defaults }, .ok ())

theorem load_result (config : Config) (load : ConfigLoad) :
    LoadResult config load (config.load load) := by
  cases load with
  | whole text =>
    cases read : ofText text with
    | ok new =>
      simp only [Config.load, read]
      exact .replaced ⟨text, new, rfl, read⟩ rfl (valid_of_ofText read)
    | error error =>
      simp only [Config.load, read]
      refine .refused error ?_ rfl
      rintro ⟨_, _, same, readToo⟩
      cases same
      rw [read] at readToo
      cases readToo
  | typeOverrides text =>
    have keeps : ¬ (ConfigLoad.typeOverrides text).Replaces := by
      rintro ⟨_, _, same, _⟩
      cases same
    cases found : (Json.Tree.ofText? text).bind (Json.Tree.table? TypeOverride.ofTree?) with
    | none =>
      simp only [Config.load, loadTypeOverrides, found]
      exact .refused .json keeps found
    | some overrides =>
      simp only [Config.load, loadTypeOverrides, found]
      exact .merged keeps found
  | fieldDefaults text =>
    have keeps : ¬ (ConfigLoad.fieldDefaults text).Replaces := by
      rintro ⟨_, _, same, _⟩
      cases same
    cases found : fieldDefaultsOf? text with
    | none =>
      simp only [Config.load, loadFieldDefaults, found]
      exact .refused .json keeps rfl
    | some names =>
      simp only [Config.load, loadFieldDefaults, found]
      exact .extended _ keeps rfl

theorem Sound.load (sound : config.Sound) (load : ConfigLoad) : (config.load load).1.Sound := by
  have result := load_result config load
  generalize config.load load = outcome at result
  cases result with
  | replaced _ _ valid => exact valid.sound
  | refused => exact sound
  | merged => exact ⟨sound.messagePrefix, sound.extensions⟩
  | extended => exact ⟨sound.messagePrefix, sound.extensions⟩

theorem unspoiled_of_harmless {load : ConfigLoad} (harmless : load.overrides? = none) :
    ¬ load.Spoils := by
  rintro ⟨_, found, _⟩
  rw [harmless] at found
  cases found

-- A load leaves a valid configuration where it replaces the one there was, or finds it valid and
-- does not spoil it.
theorem Sound.valid_load (sound : config.Sound) (load : ConfigLoad) :
    (config.load load).1.Valid ↔ load.Replaces ∨ (config.Valid ∧ ¬ load.Spoils) := by
  have after := sound.load load
  have result := load_result config load
  generalize config.load load = outcome at after result
  cases result with
  | replaced replaces _ valid => exact iff_of_true valid (.inl replaces)
  | refused _ keeps harmless =>
    rw [or_iff_right keeps, and_iff_left (unspoiled_of_harmless harmless)]
  | @merged overrides keeps found =>
    have spoils : load.Spoils ↔ ¬ overrides.ByAddress := by
      rw [ConfigLoad.Spoils, found]
      simp only [Option.some.injEq, exists_eq_left']
    rw [or_iff_right keeps, after.valid_iff, byAddress_addOverrides, spoils, not_not, sound.valid_iff,
      and_comm]
  | extended _ keeps harmless =>
    rw [or_iff_right keeps, and_iff_left (unspoiled_of_harmless harmless), after.valid_iff,
      sound.valid_iff]

end Config

theorem repaired_nil : Repaired [] := by
  intro before load after split
  cases before <;> cases split

theorem repaired_concat {loads : List ConfigLoad} {load : ConfigLoad} :
    Repaired (loads ++ [load]) ↔ load.Replaces ∨ (Repaired loads ∧ ¬ load.Spoils) := by
  constructor
  · intro repaired
    by_cases replaces : load.Replaces
    · exact .inl replaces
    · refine .inr ⟨fun before spoiling after split spoils => ?_, fun spoils => ?_⟩
      · obtain ⟨later, inside, replacesToo⟩ :=
          repaired before spoiling (after ++ [load]) (by rw [split]; simp) spoils
        rcases List.mem_append.mp inside with earlier | last
        · exact ⟨later, earlier, replacesToo⟩
        · cases List.mem_singleton.mp last
          exact absurd replacesToo replaces
      · obtain ⟨_, inside, _⟩ := repaired loads load [] rfl spoils
        cases inside
  · rintro known before spoiling after split spoils
    -- The spoiling load is the last one, or the last one comes after it.
    cases after using List.reverseRecOn with
    | nil =>
      obtain ⟨rfl, same⟩ := List.append_inj' split rfl
      cases same
      rcases known with replaces | ⟨_, unspoiled⟩
      · obtain ⟨_, found, _⟩ := spoils
        obtain ⟨_, _, rfl, _⟩ := replaces
        cases found
      · exact absurd spoils unspoiled
    | append_singleton after last =>
      rw [← List.cons_append, ← List.append_assoc] at split
      obtain ⟨rfl, same⟩ := List.append_inj' split rfl
      cases same
      rcases known with replaces | ⟨repaired, _⟩
      · exact ⟨load, by simp, replaces⟩
      · obtain ⟨later, inside, replaces⟩ := repaired before spoiling after rfl spoils
        exact ⟨later, List.mem_append_left _ inside, replaces⟩

namespace Config

theorem loaded_concat (config : Config) (loads : List ConfigLoad) (load : ConfigLoad) :
    config.loaded (loads ++ [load]) = ((config.loaded loads).load load).1 := by
  simp [loaded]

theorem Sound.loaded {config : Config} (sound : config.Sound) (loads : List ConfigLoad) :
    (config.loaded loads).Sound := by
  induction loads generalizing config with
  | nil => exact sound
  | cons load rest ih => exact ih (sound.load load)

-- By induction on the run: soundness carries over every load, so keys alone decide.
theorem valid_loaded {config : Config} (valid : config.Valid) (loads : List ConfigLoad) :
    (config.loaded loads).Valid ↔ Repaired loads := by
  induction loads using List.reverseRecOn with
  | nil => exact iff_of_true valid repaired_nil
  | append_singleton loads load ih =>
    rw [loaded_concat, (valid.sound.loaded loads).valid_load, ih, repaired_concat]

-- A load that fails leaves everything as it was, or has merged a table of overrides and then met a
-- key that is no address.
theorem Sound.load_failed {config : Config} (sound : config.Sound) {load : ConfigLoad}
    {error : GenerationError} (failed : (config.load load).2 = .error error) :
    (config.load load).1 = config ∨
      ∃ overrides, load.overrides? = some overrides ∧
        (config.load load).1 = config.addOverrides overrides ∧
        ∃ key ∈ (config.load load).1.typeOverrides.keys, ¬ IsAddress key ∧
          error = .config (.overrideKey key) := by
  have after := sound.load load
  have result := load_result config load
  generalize config.load load = outcome at failed after result
  cases result with
  | replaced => cases failed
  | refused => exact .inl rfl
  | @merged overrides _ found =>
    refine .inr ⟨overrides, found, rfl, ?_⟩
    rcases after.validate with ⟨valid, _⟩ | ⟨key, inside, notAddress, refused⟩
    · simp only [Valid] at valid
      simp only [valid, Except.mapError] at failed
      cases failed
    · simp only [refused, Except.mapError, Except.error.injEq] at failed
      exact ⟨key, inside, notAddress, failed.symm⟩
  | extended => cases failed

theorem Sound.ofCorpus_invalid {config : Config} (sound : config.Sound) (invalid : ¬ config.Valid)
    (corpus : Corpus) : ∃ key ∈ config.typeOverrides.keys, ¬ IsAddress key ∧
      Generation.ofCorpus corpus config = .error (.config (.overrideKey key)) := by
  rcases sound.validate with ⟨valid, _⟩ | ⟨key, inside, notAddress, refused⟩
  · exact absurd valid invalid
  · refine ⟨key, inside, notAddress, ?_⟩
    rw [Generation.ofCorpus, refused]
    rfl

-- After any run of loads from the standard configuration the configuration is valid just where
-- every table of overrides with a key that is no address was followed by a whole configuration that
-- could be read. Until then everything that is derived fails by such a key. A load that fails leaves
-- the configuration as it was, except that a table of overrides has been merged. Runs without such
-- keys never leave the valid configurations, and there a load that fails changes nothing.
theorem loads_valid_iff (loads : List ConfigLoad) (load : ConfigLoad) :
    let config := standard.loaded loads
    (config.Valid ↔ Repaired loads) ∧
      (¬ config.Valid → ∀ corpus, ∃ key ∈ config.typeOverrides.keys, ¬ IsAddress key ∧
        Generation.ofCorpus corpus config = .error (.config (.overrideKey key))) ∧
      (∀ error, (config.load load).2 = .error error →
        (config.load load).1 = config ∨
          ∃ overrides, load.overrides? = some overrides ∧
            (config.load load).1 = config.addOverrides overrides ∧
            ∃ key ∈ (config.load load).1.typeOverrides.keys, ¬ IsAddress key ∧
              error = .config (.overrideKey key)) ∧
      ((∀ each ∈ loads ++ [load], ¬ each.Spoils) →
        config.Valid ∧ (config.load load).1.Valid ∧
          ∀ error, (config.load load).2 = .error error → (config.load load).1 = config) := by
  intro config
  have sound : config.Sound := standard_valid.sound.loaded loads
  have valid_iff : config.Valid ↔ Repaired loads := valid_loaded standard_valid loads
  refine ⟨valid_iff, sound.ofCorpus_invalid, fun error => sound.load_failed, fun unspoiled => ?_⟩
  have valid : config.Valid := by
    refine valid_iff.mpr fun before spoiling after split spoils => absurd spoils (unspoiled spoiling ?_)
    rw [split]
    simp
  have unspoiledLast : ¬ load.Spoils := unspoiled load (by simp)
  have after : (config.load load).1.Valid := (sound.valid_load load).mpr (.inr ⟨valid, unspoiledLast⟩)
  refine ⟨valid, after, fun error failed => ?_⟩
  rcases sound.load_failed failed with same | ⟨_, _, _, key, inside, notAddress, _⟩
  · exact same
  · exact absurd (((sound.load load).valid_iff.mp after) key inside) notAddress

theorem overrides_excluded :
    (ConfigLoad.typeOverrides "\x7b\"/x.v1.TxA\": \x7b\"excludeFromLegacyRegistry\": true\x7d\x7d").overrides?
      = some [("/x.v1.TxA", ⟨none, some true⟩)] := by
  cbv

theorem load_truncated (config : Config) :
    config.load (.typeOverrides "\x7b\"/x.v1.TxA\": ") = (config, .error .json) := by
  cbv

-- After a whole configuration and a table of overrides a table that breaks off fails, and nothing
-- has changed.
theorem loads_valid_iff_excluded :
    let loads : List ConfigLoad :=
      [.whole "\x7b\"messagePrefix\": \"Tx\"\x7d",
        .typeOverrides "\x7b\"/x.v1.TxA\": \x7b\"excludeFromLegacyRegistry\": true\x7d\x7d"]
    let load : ConfigLoad := .typeOverrides "\x7b\"/x.v1.TxA\": "
    (∀ each ∈ loads ++ [load], ¬ each.Spoils) ∧ (standard.loaded loads).Valid ∧
      (standard.loaded loads).messagePrefix = "Tx" ∧
      (standard.loaded loads).typeOverrides = [("/x.v1.TxA", ⟨none, some true⟩)] ∧
      ((standard.loaded loads).load load).2 = .error .json ∧
      ((standard.loaded loads).load load).1 = standard.loaded loads := by
  intro loads load
  have unspoiled : ∀ each ∈ loads ++ [load], ¬ each.Spoils := by
    intro each inside
    simp only [loads, load, List.cons_append, List.nil_append, List.mem_cons, List.not_mem_nil,
      or_false] at inside
    rcases inside with rfl | rfl | rfl
    · exact unspoiled_of_harmless rfl
    · rintro ⟨overrides, found, notAddresses⟩
      rw [overrides_excluded] at found
      cases found
      exact notAddresses (by simp [Table.ByAddress, Table.keys, IsAddress, Text.beginsWith])
    · rintro ⟨overrides, found, _⟩
      have nothing : load.overrides? = none := by cbv
      rw [nothing] at found
      cases found
  have known := (loads_valid_iff loads load).2.2.2 unspoiled
  have fails : ((standard.loaded loads).load load).2 = .error .json := by rw [load_truncated]
  exact ⟨unspoiled, known.1, by cbv, by cbv, fails, known.2.2 .json fails⟩

-- A table of overrides whose key lacks the slash is reported and merged all the same: the
-- configuration has changed, is not valid any more, and lets even an empty table fail.
theorem loads_spoiled_relative :
    let spoiled : Config := { standard with typeOverrides := [("x.v1.MsgA", .empty)] }
    standard.load (.typeOverrides "\x7b\"x.v1.MsgA\": \x7b\x7d\x7d")
        = (spoiled, .error (.config (.overrideKey "x.v1.MsgA"))) ∧
      spoiled ≠ standard ∧ ¬ spoiled.Valid ∧
      spoiled.load (.typeOverrides "\x7b\x7d")
        = (spoiled, .error (.config (.overrideKey "x.v1.MsgA"))) := by
  intro spoiled
  refine ⟨by cbv, by decide, fun valid => ?_, by cbv⟩
  cases valid

end Config

end SigningSchema
