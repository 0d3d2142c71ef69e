import FlorenceServer.Lib.IpAddr
import FlorenceServer.Lib.Numerals
import FlorenceServer.Types.ModelVariant
import FlorenceServer.Types.Settings

/-!
# The configuration file and the settings

`config/file.rs` and `config/settings.rs`: the sections of the configuration file, where
it is looked for, and how each kind of setting is read.  A variable of the environment
goes before the value of the file, and the value of the file before the default.  Paths
stand here as the texts that spell them, and what `toml` makes of a text is a parameter.
-/

namespace FlorenceServer

section Sections

structure ServerConfig where
  bindAddr : Option String := none
  dataDir : Option String := none
  allowLocalPaths : Option Bool := none
  localPathRoots : Option (List String) := none
  corsAllowedOrigins : Option (List String) := none
  apiKeys : Option (List String) := none
  rateLimitRequestsPerMinute : Option UInt64 := none
deriving DecidableEq, Repr

structure ModelConfig where
  variant : Option String := none
  path : Option String := none
deriving DecidableEq, Repr

structure QueueConfig where
  modelPoolSize : Option UInt64 := none
  queueSize : Option UInt64 := none
  bodyLimitBytes : Option UInt64 := none
  requestTimeoutSeconds : Option UInt64 := none
deriving DecidableEq, Repr

structure GenerationConfig where
  maxNewTokens : Option UInt64 := none
  jobTimeoutSeconds : Option UInt64 := none
  webhookTimeoutSeconds : Option UInt64 := none
  webhookConnectTimeoutSeconds : Option UInt64 := none
  webhookMaxAttempts : Option UInt64 := none
  webhookInitialBackoffMs : Option UInt64 := none
  webhookSigningSecret : Option String := none
  allowPrivateWebhookUrls : Option Bool := none
deriving DecidableEq, Repr

structure RuntimeConfig where
  executionProviders : Option (List String) := none
deriving DecidableEq, Repr

structure LoggingConfig where
  rustLog : Option String := none
deriving DecidableEq, Repr

structure RetentionConfig where
  jobRetentionLimit : Option UInt64 := none
  metadataRetentionLimit : Option UInt64 := none
deriving DecidableEq, Repr

structure ValidationConfig where
  maxImageWidth : Option UInt32 := none
  maxImageHeight : Option UInt32 := none
deriving DecidableEq, Repr

structure FileConfig where
  server : Option ServerConfig := none
  model : Option ModelConfig := none
  queue : Option QueueConfig := none
  generation : Option GenerationConfig := none
  runtime : Option RuntimeConfig := none
  logging : Option LoggingConfig := none
  retention : Option RetentionConfig := none
  validation : Option ValidationConfig := none
deriving DecidableEq, Repr

/-- What `FileConfig::load` finds under a path. -/
inductive ConfigFileRead where
  | missing
  | unreadable
  | contents (text : String)
deriving DecidableEq, Repr

/-- The path that `FileConfig::load` reads. -/
def configFilePath (env : Environment) (configPath : Option String) : String :=
  (configPath.or (env "CONFIG_PATH")).getD "config.toml"

/-- `FileConfig::load`: only the default file may be missing. -/
def FileConfig.load (files : String → ConfigFileRead) (toml : String → Option FileConfig)
    (env : Environment) (configPath : Option String) : Except String FileConfig :=
  let path := configFilePath env configPath
  let hasExplicitPath := configPath.isSome || (env "CONFIG_PATH").isSome
  match files path with
  | .missing =>
      if hasExplicitPath then .error ("config file does not exist: " ++ path) else .ok {}
  | .unreadable => .error ("failed to read config file " ++ path)
  | .contents text =>
      match toml text with
      | some file => .ok file
      | none => .error ("failed to parse TOML config " ++ path)

/-- A file that was read, or the empty one in place of a default file that is missing. -/
inductive FileConfig.Found (files : String → ConfigFileRead) (toml : String → Option FileConfig)
    (env : Environment) (configPath : Option String) : FileConfig → Prop where
  | read (text : String) (file : FileConfig)
      (hread : files (configFilePath env configPath) = .contents text)
      (hparsed : toml text = some file) :
      Found files toml env configPath file
  | default
      (hcli : configPath = none)
      (hvariable : env "CONFIG_PATH" = none)
      (hmissing : files "config.toml" = .missing) :
      Found files toml env configPath {}

theorem FileConfig.load_eq_ok_iff
    {files : String → ConfigFileRead} {toml : String → Option FileConfig}
    {env : Environment} {configPath : Option String} {file : FileConfig} :
    FileConfig.load files toml env configPath = .ok file ↔
      FileConfig.Found files toml env configPath file := by
  constructor
  · intro hload
    unfold FileConfig.load at hload
    dsimp only at hload
    split at hload
    · rename_i hmissing
      cases hcli : configPath with
      | some path =>
          rw [hcli] at hload
          cases hload
      | none =>
          cases hvariable : env "CONFIG_PATH" with
          | some path =>
              rw [hcli, hvariable] at hload
              cases hload
          | none =>
              rw [hcli, hvariable] at hload
              cases hload
              rw [configFilePath, hcli, hvariable] at hmissing
              exact .default rfl hvariable hmissing
    · cases hload
    · rename_i text hread
      split at hload
      · rename_i file hparsed
        cases hload
        exact .read text _ hread hparsed
      · cases hload
  · intro hfound
    cases hfound with
    | read text file hread hparsed => simp [FileConfig.load, hread, hparsed]
    | default hcli hvariable hmissing =>
        simp [FileConfig.load, configFilePath, hcli, hvariable, hmissing]

end Sections

section Readers

/-- `PathBuf::from`: empty components are dropped, and `.` unless it comes first. -/
def pathOfText (text : String) : PathBuf :=
  let components := ((text.toList.splitOn '/').map String.ofList).filter
    (fun component => !component.isEmpty)
  if text.toList.head? = some '/' then
    "/" :: components.filter (fun component => component != ".")
  else
    components.take 1 ++ (components.drop 1).filter (fun component => component != ".")

/-- `str::parse::<u64>`; a `usize` has 64 bits as well. -/
def parseU64 (text : String) : Except ParseIntError UInt64 :=
  (parseUnsigned (2 ^ 64) text.toList).map UInt64.ofNat

def parseU32 (text : String) : Except ParseIntError UInt32 :=
  (parseUnsigned (2 ^ 32) text.toList).map UInt32.ofNat

/-- The name of a variable, and the value of the file. -/
structure SettingSource (α : Type) where
  key : String
  fileValue : Option α

variable {α : Type} (env : Environment)

/-- `path_setting`. -/
def pathSetting (source : SettingSource String) (default : String) : PathBuf :=
  pathOfText (((env source.key).or source.fileValue).getD default)

/-- `string_setting`. -/
def stringSetting (source : SettingSource String) (default : String) : String :=
  ((env source.key).or source.fileValue).getD default

/-- A variable has to hold a number. -/
def numberSetting (parse : String → Except ParseIntError α) (source : SettingSource α)
    (default : α) : Except String α :=
  match env source.key with
  | some value =>
      (parse value).mapError
        (fun err => source.key ++ " has invalid value `" ++ value ++ "`: " ++ err.message)
  | none => .ok (source.fileValue.getD default)

def usizeSetting : SettingSource UInt64 → UInt64 → Except String UInt64 :=
  numberSetting env parseU64

def u64Setting : SettingSource UInt64 → UInt64 → Except String UInt64 :=
  numberSetting env parseU64

def u32Setting : SettingSource UInt32 → UInt32 → Except String UInt32 :=
  numberSetting env parseU32

/-- The words for a flag. -/
def parseFlag (value : String) : Option Bool :=
  match String.ofList ((trim value).toList.map Char.toLower) with
  | "1" | "true" | "yes" | "on" => some true
  | "0" | "false" | "no" | "off" => some false
  | _ => none

/-- `bool_setting`. -/
def boolSetting (source : SettingSource Bool) (default : Bool) : Except String Bool :=
  match env source.key with
  | some value =>
      match parseFlag value with
      | some flag => .ok flag
      | none =>
          .error (source.key ++ " has invalid value `" ++ value ++ "`; expected true or false")
  | none => .ok (source.fileValue.getD default)

/-- `env::split_paths`. -/
def splitPaths (value : String) : List String :=
  (value.toList.splitOn ':').map String.ofList

/-- `path_list_setting`: only the entries of a variable are filtered. -/
def pathListSetting (key : String) (fileValue : Option (List String)) : List PathBuf :=
  ((((env key).map (fun value => (splitPaths value).filter (fun path => !path.isEmpty))).or
    fileValue).getD []).map pathOfText

/-- `secret_setting`. -/
def secretSetting (key : String) (fileValue : Option String) : Option String :=
  (((env key).or fileValue).map trim).filter (fun value => !value.isEmpty)

/-- `execution_providers_setting`. -/
def executionProvidersSetting (fileValue : Option (List String)) : List String :=
  let values := (((env "EXECUTION_PROVIDERS").map splitComma).or fileValue).getD ["auto"]
  let normalized := (values.map normalizedName).filter (fun value => !value.isEmpty)
  if normalized.isEmpty then ["auto"] else normalized

/-- `parse_model_variant`. -/
def parseModelVariant (fileValue : Option String) (modelPathSelection : ModelPathSelection) :
    Except String ModelVariant :=
  match (env "MODEL_VARIANT").or fileValue with
  | some raw => parseModelVariantValue raw
  | none =>
      match modelPathSelection with
      | .explicitPath => .ok .custom
      | .variantDefaultPath => .ok .fp32

end Readers

end FlorenceServer
