import Mathlib
import FlorenceServer.Lib.Fallible
import FlorenceServer.Types.CanonicalTask
import FlorenceServer.Types.Config
import FlorenceServer.Types.FileConfig

/-!
# Loading the configuration

`Config::load` of `config.rs`: all settings, from the environment, the configuration
file and the defaults.

* `file_settings_as_variables`: what the file says could be said by variables instead.
  Only entries of lists that a variable cannot spell have to stay in the file.
* `config_loads_iff`: when the settings are accepted.
* `loaded_config_iff`: the configurations that come out of `Config::load`.
-/

namespace FlorenceServer

section Loading

/-- `Config`, of which the model of the jobs reads a part. -/
structure AppConfig where
  addr : SocketAddr
  modelPath : PathBuf
  modelVariant : ModelVariant
  dataDir : PathBuf
  imagesDir : PathBuf
  metadataDir : PathBuf
  submissionsJsonl : PathBuf
  resultsJsonl : PathBuf
  allowLocalPaths : Bool
  localPathRoots : List PathBuf
  corsAllowedOrigins : List String
  apiKeys : List String
  rateLimitRequestsPerMinute : UInt64
  jobRetentionLimit : UInt64
  metadataRetentionLimit : UInt64
  maxImageWidth : UInt32
  maxImageHeight : UInt32
  workers : UInt64
  queueSize : UInt64
  bodyLimitBytes : UInt64
  rustLog : String
  maxNewTokens : UInt64
  jobTimeoutSeconds : UInt64
  requestTimeoutSeconds : UInt64
  webhookTimeoutSeconds : UInt64
  webhookConnectTimeoutSeconds : UInt64
  webhookMaxAttempts : UInt64
  webhookInitialBackoffMs : UInt64
  webhookSigningSecret : Option String
  webhooksDeadLetterJsonl : PathBuf
  allowPrivateWebhookUrls : Bool
  executionProviders : List String
deriving DecidableEq, Repr

/-- The part of the configuration that the jobs read. -/
def AppConfig.toConfig (cfg : AppConfig) : Config where
  imagesDir := cfg.imagesDir
  jobRetentionLimit := cfg.jobRetentionLimit.toNat
  metadataRetentionLimit := cfg.metadataRetentionLimit.toNat
  workers := cfg.workers.toNat
  queueSize := cfg.queueSize.toNat
  jobTimeoutSeconds := cfg.jobTimeoutSeconds.toNat
  webhookMaxAttempts := cfg.webhookMaxAttempts.toNat
  webhookInitialBackoffMs := cfg.webhookInitialBackoffMs.toNat

/-- `default_worker_count`, on a machine with that many cores. -/
def defaultWorkerCount (cores : Option UInt64) : UInt64 :=
  min (max (cores.getD 1) 1) 4

/-- Local paths need a root. -/
def checkLocalPathRoots (allowLocalPaths : Bool) (localPathRoots : List PathBuf) :
    Except String Unit :=
  if allowLocalPaths && localPathRoots.isEmpty then
    .error "local path inference requires at least one configured local_path_roots entry"
  else .ok ()

def selectModelPath (modelPathOverride : Option PathBuf) : ModelPathSelection :=
  if modelPathOverride.isSome then .explicitPath else .variantDefaultPath

/-- The address to listen on. -/
def parseBindAddr (text : String) : Except String SocketAddr :=
  match parseSocketAddr text.toList with
  | some addr => .ok addr
  | none => .error "BIND_ADDR must be a socket address, for example 127.0.0.1:3000"

/-- `Config::load`, once the file has been read. -/
def AppConfig.ofFile (env : Environment) (cores : Option UInt64) (file : FileConfig) :
    Except String AppConfig := do
  let server := file.server.getD {}
  let model := file.model.getD {}
  let queue := file.queue.getD {}
  let generation := file.generation.getD {}
  let runtime := file.runtime.getD {}
  let logging := file.logging.getD {}
  let retention := file.retention.getD {}
  let validation := file.validation.getD {}
  let dataDir := pathSetting env ⟨"DATA_DIR", server.dataDir⟩ "data"
  let metadataDir := dataDir ++ ["metadata"]
  let allowLocalPaths ← boolSetting env ⟨"ALLOW_LOCAL_PATHS", server.allowLocalPaths⟩ false
  let localPathRoots := pathListSetting env "LOCAL_PATH_ROOTS" server.localPathRoots
  checkLocalPathRoots allowLocalPaths localPathRoots
  let modelPathOverride := ((env "MODEL_PATH").or model.path).map pathOfText
  let modelVariant ← parseModelVariant env model.variant (selectModelPath modelPathOverride)
  let addr ← parseBindAddr (stringSetting env ⟨"BIND_ADDR", server.bindAddr⟩ "127.0.0.1:3000")
  let rateLimitRequestsPerMinute ← u64Setting env
    ⟨"RATE_LIMIT_REQUESTS_PER_MINUTE", server.rateLimitRequestsPerMinute⟩ 0
  let jobRetentionLimit ← usizeSetting env
    ⟨"JOB_RETENTION_LIMIT", retention.jobRetentionLimit⟩ 1000
  let metadataRetentionLimit ← usizeSetting env
    ⟨"METADATA_RETENTION_LIMIT", retention.metadataRetentionLimit⟩ 10000
  let maxImageWidth ← u32Setting env ⟨"MAX_IMAGE_WIDTH", validation.maxImageWidth⟩ 8192
  let maxImageHeight ← u32Setting env ⟨"MAX_IMAGE_HEIGHT", validation.maxImageHeight⟩ 8192
  let workers ← usizeSetting env
    ⟨"MODEL_POOL_SIZE", queue.modelPoolSize⟩ (defaultWorkerCount cores)
  let queueSize ← usizeSetting env ⟨"QUEUE_SIZE", queue.queueSize⟩ 128
  let bodyLimitBytes ← usizeSetting env
    ⟨"BODY_LIMIT_BYTES", queue.bodyLimitBytes⟩ (32 * 1024 * 1024)
  let requestTimeoutSeconds ← u64Setting env
    ⟨"REQUEST_TIMEOUT_SECONDS", queue.requestTimeoutSeconds⟩ 60
  let maxNewTokens ← usizeSetting env ⟨"MAX_NEW_TOKENS", generation.maxNewTokens⟩ 256
  let jobTimeoutSeconds ← u64Setting env
    ⟨"JOB_TIMEOUT_SECONDS", generation.jobTimeoutSeconds⟩ 300
  let webhookTimeoutSeconds ← u64Setting env
    ⟨"WEBHOOK_TIMEOUT_SECONDS", generation.webhookTimeoutSeconds⟩ 10
  let webhookConnectTimeoutSeconds ← u64Setting env
    ⟨"WEBHOOK_CONNECT_TIMEOUT_SECONDS", generation.webhookConnectTimeoutSeconds⟩ 5
  let webhookMaxAttempts ← usizeSetting env
    ⟨"WEBHOOK_MAX_ATTEMPTS", generation.webhookMaxAttempts⟩ 1
  let webhookInitialBackoffMs ← u64Setting env
    ⟨"WEBHOOK_INITIAL_BACKOFF_MS", generation.webhookInitialBackoffMs⟩ 500
  let allowPrivateWebhookUrls ← boolSetting env
    ⟨"ALLOW_PRIVATE_WEBHOOK_URLS", generation.allowPrivateWebhookUrls⟩ false
  pure {
    addr := addr
    modelPath := modelPathOverride.getD modelVariant.defaultModelPath
    modelVariant := modelVariant
    dataDir := dataDir
    imagesDir := dataDir ++ ["images"]
    metadataDir := metadataDir
    submissionsJsonl := metadataDir ++ ["submissions.jsonl"]
    resultsJsonl := metadataDir ++ ["results.jsonl"]
    allowLocalPaths := allowLocalPaths
    localPathRoots := localPathRoots
    corsAllowedOrigins := stringListSetting env "CORS_ALLOWED_ORIGINS" server.corsAllowedOrigins
    apiKeys := loadApiKeys env server.apiKeys
    rateLimitRequestsPerMinute := rateLimitRequestsPerMinute
    jobRetentionLimit := jobRetentionLimit
    metadataRetentionLimit := metadataRetentionLimit
    maxImageWidth := maxImageWidth
    maxImageHeight := maxImageHeight
    workers := max workers 1
    queueSize := queueSize
    bodyLimitBytes := bodyLimitBytes
    rustLog := stringSetting env ⟨"RUST_LOG", logging.rustLog⟩ "info,ort=warn"
    maxNewTokens := max maxNewTokens 1
    jobTimeoutSeconds := jobTimeoutSeconds
    requestTimeoutSeconds := requestTimeoutSeconds
    webhookTimeoutSeconds := webhookTimeoutSeconds
    webhookConnectTimeoutSeconds := webhookConnectTimeoutSeconds
    webhookMaxAttempts := max webhookMaxAttempts 1
    webhookInitialBackoffMs := webhookInitialBackoffMs
    webhookSigningSecret := secretSetting env "WEBHOOK_SIGNING_SECRET"
      generation.webhookSigningSecret
    webhooksDeadLetterJsonl := metadataDir ++ ["webhooks_dead_letter.jsonl"]
    allowPrivateWebhookUrls := allowPrivateWebhookUrls
    executionProviders := executionProvidersSetting env runtime.executionProviders }

/-- `Config::load`. -/
def AppConfig.load (files : String → ConfigFileRead) (toml : String → Option FileConfig)
    (env : Environment) (cores : Option UInt64) (configPath : Option String) :
    Except String AppConfig := do
  let file ← FileConfig.load files toml env configPath
  AppConfig.ofFile env cores file

/-- Without a file and without variables the defaults are used. -/
example : (AppConfig.load (fun _ => .missing) (fun _ => none) (fun _ => none) (some 1) none).map
    AppConfig.toConfig = .ok Config.default := by
  decide +kernel

end Loading

section Variables

/-- The decimal text of a number. -/
def numeralText (n : Nat) : String :=
  String.ofList (Nat.toDigits 10 n)

def flagText (flag : Bool) : String :=
  if flag then "true" else "false"

/-- The variable that says the same as the file. -/
def FileConfig.variable (file : FileConfig) : String → Option String
  | "BIND_ADDR" => (file.server.getD {}).bindAddr
  | "DATA_DIR" => (file.server.getD {}).dataDir
  | "ALLOW_LOCAL_PATHS" => (file.server.getD {}).allowLocalPaths.map flagText
  | "LOCAL_PATH_ROOTS" => (file.server.getD {}).localPathRoots.map ":".intercalate
  | "CORS_ALLOWED_ORIGINS" => (file.server.getD {}).corsAllowedOrigins.map ",".intercalate
  | "API_KEYS" => (file.server.getD {}).apiKeys.map ",".intercalate
  | "RATE_LIMIT_REQUESTS_PER_MINUTE" =>
      (file.server.getD {}).rateLimitRequestsPerMinute.map (fun n => numeralText n.toNat)
  | "MODEL_VARIANT" => (file.model.getD {}).variant
  | "MODEL_PATH" => (file.model.getD {}).path
  | "MODEL_POOL_SIZE" => (file.queue.getD {}).modelPoolSize.map (fun n => numeralText n.toNat)
  | "QUEUE_SIZE" => (file.queue.getD {}).queueSize.map (fun n => numeralText n.toNat)
  | "BODY_LIMIT_BYTES" =>
      (file.queue.getD {}).bodyLimitBytes.map (fun n => numeralText n.toNat)
  | "REQUEST_TIMEOUT_SECONDS" =>
      (file.queue.getD {}).requestTimeoutSeconds.map (fun n => numeralText n.toNat)
  | "MAX_NEW_TOKENS" =>
      (file.generation.getD {}).maxNewTokens.map (fun n => numeralText n.toNat)
  | "JOB_TIMEOUT_SECONDS" =>
      (file.generation.getD {}).jobTimeoutSeconds.map (fun n => numeralText n.toNat)
  | "WEBHOOK_TIMEOUT_SECONDS" =>
      (file.generation.getD {}).webhookTimeoutSeconds.map (fun n => numeralText n.toNat)
  | "WEBHOOK_CONNECT_TIMEOUT_SECONDS" =>
      (file.generation.getD {}).webhookConnectTimeoutSeconds.map
        (fun n => numeralText n.toNat)
  | "WEBHOOK_MAX_ATTEMPTS" =>
      (file.generation.getD {}).webhookMaxAttempts.map (fun n => numeralText n.toNat)
  | "WEBHOOK_INITIAL_BACKOFF_MS" =>
      (file.generation.getD {}).webhookInitialBackoffMs.map (fun n => numeralText n.toNat)
  | "WEBHOOK_SIGNING_SECRET" => (file.generation.getD {}).webhookSigningSecret
  | "ALLOW_PRIVATE_WEBHOOK_URLS" =>
      (file.generation.getD {}).allowPrivateWebhookUrls.map flagText
  | "EXECUTION_PROVIDERS" => (file.runtime.getD {}).executionProviders.map ",".intercalate
  | "RUST_LOG" => (file.logging.getD {}).rustLog
  | "JOB_RETENTION_LIMIT" =>
      (file.retention.getD {}).jobRetentionLimit.map (fun n => numeralText n.toNat)
  | "METADATA_RETENTION_LIMIT" =>
      (file.retention.getD {}).metadataRetentionLimit.map (fun n => numeralText n.toNat)
  | "MAX_IMAGE_WIDTH" =>
      (file.validation.getD {}).maxImageWidth.map (fun n => numeralText n.toNat)
  | "MAX_IMAGE_HEIGHT" =>
      (file.validation.getD {}).maxImageHeight.map (fun n => numeralText n.toNat)
  | _ => none

/-- The environment with these variables, where it has none of its own. -/
def FileConfig.asVariables (file : FileConfig) (env : Environment) : Environment :=
  fun key => (env key).or (file.variable key)

/-- The environment without the name of a configuration file. -/
def Environment.withoutConfigPath (env : Environment) : Environment
  | "CONFIG_PATH" => none
  | key => env key

/-- The entry of a list that a variable can spell. -/
structure IsListEntry (entry : String) : Prop where
  trimmed : trim entry = entry
  nonempty : entry ≠ ""
  commaFree : ',' ∉ entry.toList

/-- The lists of the file have entries that variables can spell. -/
structure FileConfig.Portable (file : FileConfig) : Prop where
  corsAllowedOrigins : ∀ origins ∈ (file.server.getD {}).corsAllowedOrigins,
    ∀ origin ∈ origins, IsListEntry origin
  apiKeys : ∀ keys ∈ (file.server.getD {}).apiKeys, ∀ key ∈ keys, IsListEntry key
  localPathRoots : ∀ roots ∈ (file.server.getD {}).localPathRoots,
    ∀ root ∈ roots, root ≠ "" ∧ ':' ∉ root.toList
  executionProviders : ∀ providers ∈ (file.runtime.getD {}).executionProviders,
    ∀ provider ∈ providers, ',' ∉ provider.toList

theorem parseU64_numeralText (n : UInt64) :
    parseU64 (numeralText n.toNat) = .ok n := by
  rw [parseU64, numeralText, String.toList_ofList, parseUnsigned_toDigits n.toNat_lt]
  exact congrArg Except.ok (UInt64.ofNat_toNat)

theorem parseU32_numeralText (n : UInt32) :
    parseU32 (numeralText n.toNat) = .ok n := by
  rw [parseU32, numeralText, String.toList_ofList, parseUnsigned_toDigits n.toNat_lt]
  exact congrArg Except.ok (UInt32.ofNat_toNat)

theorem parseFlag_flagText (flag : Bool) :
    parseFlag (flagText flag) = some flag := by
  cases flag <;> decide +kernel

theorem variableEntries_joined
    {values : List String}
    (hentries : ∀ value ∈ values, IsListEntry value) :
    variableEntries (",".intercalate values) = values := by
  by_cases hnil : values = []
  · rw [hnil]
    decide
  · rw [variableEntries, splitComma_intercalate hnil fun value h => (hentries value h).commaFree]
    have htrim : values.map trim = values := by
      refine (List.map_congr_left fun value h => (hentries value h).trimmed).trans ?_
      exact List.map_id values
    rw [htrim]
    exact List.filter_eq_self.mpr fun value h => by simpa using (hentries value h).nonempty

theorem splitPaths_joined
    {roots : List String}
    (hroots : ∀ root ∈ roots, root ≠ "" ∧ ':' ∉ root.toList) :
    (splitPaths (":".intercalate roots)).filter (fun path => !path.isEmpty) = roots := by
  by_cases hnil : roots = []
  · rw [hnil]
    decide
  · rw [splitPaths, splitOn_joined rfl hnil fun root h => (hroots root h).2]
    exact List.filter_eq_self.mpr fun root h => by simpa using (hroots root h).1

namespace FileConfig

variable (file : FileConfig) {env : Environment} (key : String)

theorem asVariables_apply :
    file.asVariables env key = (env key).or (file.variable key) :=
  rfl

variable {file key}

/-- A number is read from the variable as from the file. -/
theorem numberSetting_asVariables
    {α : Type} {parse : String → Except ParseIntError α} {render : α → String}
    {fileValue : Option α}
    (hkey : file.variable key = fileValue.map render)
    (hparse : ∀ value, parse (render value) = .ok value)
    (default : α) :
    numberSetting (file.asVariables env) parse ⟨key, none⟩ default =
      numberSetting env parse ⟨key, fileValue⟩ default := by
  unfold numberSetting
  dsimp only
  rw [asVariables_apply, hkey]
  cases env key with
  | some value => rfl
  | none =>
      cases fileValue with
      | none => rfl
      | some value =>
          simp only [Option.map_some, Option.none_or, hparse]
          rfl

theorem u64_asVariables
    (key : String) {fileValue : Option UInt64} {default : UInt64}
    (hkey : file.variable key = fileValue.map (fun n => numeralText n.toNat)) :
    numberSetting (file.asVariables env) parseU64 ⟨key, none⟩ default =
      numberSetting env parseU64 ⟨key, fileValue⟩ default :=
  numberSetting_asVariables hkey parseU64_numeralText default

theorem u32_asVariables
    (key : String) {fileValue : Option UInt32} {default : UInt32}
    (hkey : file.variable key = fileValue.map (fun n => numeralText n.toNat)) :
    numberSetting (file.asVariables env) parseU32 ⟨key, none⟩ default =
      numberSetting env parseU32 ⟨key, fileValue⟩ default :=
  numberSetting_asVariables hkey parseU32_numeralText default

theorem flag_asVariables
    (key : String) {fileValue : Option Bool} {default : Bool}
    (hkey : file.variable key = fileValue.map flagText) :
    boolSetting (file.asVariables env) ⟨key, none⟩ default =
      boolSetting env ⟨key, fileValue⟩ default := by
  unfold boolSetting
  dsimp only
  rw [asVariables_apply, hkey]
  cases env key with
  | some value => rfl
  | none =>
      cases fileValue with
      | none => rfl
      | some value =>
          simp only [Option.map_some, Option.none_or, parseFlag_flagText]
          rfl

theorem stringList_asVariables
    (key : String) {fileValue : Option (List String)}
    (hkey : file.variable key = fileValue.map ",".intercalate)
    (hentries : ∀ values ∈ fileValue, ∀ value ∈ values, IsListEntry value) :
    stringListSetting (file.asVariables env) key none = stringListSetting env key fileValue := by
  unfold stringListSetting
  rw [asVariables_apply, hkey]
  cases env key with
  | some value => rfl
  | none =>
      cases fileValue with
      | none => rfl
      | some values =>
          simp only [Option.map_some, Option.none_or, Option.map_none, Option.some_or,
            variableEntries_joined (hentries values rfl)]

theorem pathList_asVariables
    (key : String) {fileValue : Option (List String)}
    (hkey : file.variable key = fileValue.map ":".intercalate)
    (hroots : ∀ roots ∈ fileValue, ∀ root ∈ roots, root ≠ "" ∧ ':' ∉ root.toList) :
    pathListSetting (file.asVariables env) key none = pathListSetting env key fileValue := by
  unfold pathListSetting
  rw [asVariables_apply, hkey]
  cases env key with
  | some value => rfl
  | none =>
      cases fileValue with
      | none => rfl
      | some roots =>
          simp only [Option.map_some, Option.none_or, Option.map_none, Option.some_or,
            splitPaths_joined (hroots roots rfl)]

/-- An empty list of providers and a variable without text both mean the default. -/
theorem executionProviders_asVariables
    {fileValue : Option (List String)}
    (hkey : file.variable "EXECUTION_PROVIDERS" = fileValue.map ",".intercalate)
    (hproviders : ∀ providers ∈ fileValue, ∀ provider ∈ providers, ',' ∉ provider.toList) :
    executionProvidersSetting (file.asVariables env) none =
      executionProvidersSetting env fileValue := by
  unfold executionProvidersSetting
  rw [asVariables_apply, hkey]
  cases env "EXECUTION_PROVIDERS" with
  | some value => rfl
  | none =>
      cases fileValue with
      | none => rfl
      | some providers =>
          by_cases hnil : providers = []
          · rw [hnil]
            decide
          · simp only [Option.map_some, Option.none_or, Option.map_none, Option.some_or,
              splitComma_intercalate hnil (hproviders providers rfl)]
            rfl

end FileConfig

open FileConfig

theorem ofFile_asVariables
    (hportable : file.Portable)
    (env : Environment) (cores : Option UInt64) :
    AppConfig.ofFile (file.asVariables env) cores {} = AppConfig.ofFile env cores file := by
  unfold AppConfig.ofFile
  simp only [Option.getD_none, u64Setting, usizeSetting, u32Setting, pathSetting, stringSetting,
    secretSetting, parseModelVariant, loadApiKeys, Option.or_none, asVariables_apply]
  rw [flag_asVariables "ALLOW_LOCAL_PATHS" rfl,
    flag_asVariables "ALLOW_PRIVATE_WEBHOOK_URLS" rfl,
    u64_asVariables "RATE_LIMIT_REQUESTS_PER_MINUTE" rfl,
    u64_asVariables "JOB_RETENTION_LIMIT" rfl,
    u64_asVariables "METADATA_RETENTION_LIMIT" rfl,
    u32_asVariables "MAX_IMAGE_WIDTH" rfl,
    u32_asVariables "MAX_IMAGE_HEIGHT" rfl,
    u64_asVariables "MODEL_POOL_SIZE" rfl,
    u64_asVariables "QUEUE_SIZE" rfl,
    u64_asVariables "BODY_LIMIT_BYTES" rfl,
    u64_asVariables "REQUEST_TIMEOUT_SECONDS" rfl,
    u64_asVariables "MAX_NEW_TOKENS" rfl,
    u64_asVariables "JOB_TIMEOUT_SECONDS" rfl,
    u64_asVariables "WEBHOOK_TIMEOUT_SECONDS" rfl,
    u64_asVariables "WEBHOOK_CONNECT_TIMEOUT_SECONDS" rfl,
    u64_asVariables "WEBHOOK_MAX_ATTEMPTS" rfl,
    u64_asVariables "WEBHOOK_INITIAL_BACKOFF_MS" rfl,
    pathList_asVariables "LOCAL_PATH_ROOTS" rfl hportable.localPathRoots,
    stringList_asVariables "CORS_ALLOWED_ORIGINS" rfl hportable.corsAllowedOrigins,
    stringList_asVariables "API_KEYS" rfl hportable.apiKeys,
    executionProviders_asVariables rfl hportable.executionProviders]
  rfl

/-- Once the file has been read its name does not matter. -/
theorem ofFile_withoutConfigPath (env : Environment) (cores : Option UInt64) :
    AppConfig.ofFile env.withoutConfigPath cores file = AppConfig.ofFile env cores file :=
  rfl

/--
A configuration file whose list entries variables can spell may be turned into
variables: with them and without the file the configuration, or the error, is the same
as with the file, whatever variables are set besides and however the file was named.
-/
theorem file_settings_as_variables
    {files files' : String → ConfigFileRead} {toml : String → Option FileConfig}
    {env : Environment} {configPath : Option String}
    (hfound : FileConfig.Found files toml env configPath file)
    (hportable : file.Portable)
    (hmissing : files' "config.toml" = .missing)
    (cores : Option UInt64) :
    AppConfig.load files' toml (file.asVariables env.withoutConfigPath) cores none =
      AppConfig.load files toml env cores configPath := by
  have hunset : file.asVariables env.withoutConfigPath "CONFIG_PATH" = none := rfl
  rw [AppConfig.load, AppConfig.load, FileConfig.load_eq_ok_iff.mpr hfound,
    FileConfig.load_eq_ok_iff.mpr (.default rfl hunset hmissing), ok_bind, ok_bind,
    ofFile_asVariables hportable, ofFile_withoutConfigPath]

/-- A configuration file, and what it says. -/
def sampleFileText : String :=
  "[server]\nallow_local_paths = true\nlocal_path_roots = [\"/srv/images\", \"pictures\"]\n" ++
    "api_keys = [\"first key\", \"second\"]\n[model]\nvariant = \"q4-f16\"\n" ++
    "[queue]\nmodel_pool_size = 2\n[runtime]\nexecution_providers = [\" CoreML-GPU \"]\n"

def sampleFile : FileConfig where
  server := some {
    allowLocalPaths := some true
    localPathRoots := some ["/srv/images", "pictures"]
    apiKeys := some ["first key", "second"] }
  model := some { variant := some "q4-f16" }
  queue := some { modelPoolSize := some 2 }
  runtime := some { executionProviders := some [" CoreML-GPU "] }

theorem sampleFile_portable : sampleFile.Portable where
  corsAllowedOrigins := by simp [sampleFile]
  apiKeys := by
    intro keys hkeys key hkey
    cases hkeys
    simp only [List.mem_cons, List.not_mem_nil, or_false] at hkey
    rcases hkey with rfl | rfl
    · exact ⟨by decide +kernel, by decide, by decide⟩
    · exact ⟨by decide +kernel, by decide, by decide⟩
  localPathRoots := by
    intro roots hroots root hroot
    cases hroots
    simp only [List.mem_cons, List.not_mem_nil, or_false] at hroot
    rcases hroot with rfl | rfl <;> decide
  executionProviders := by
    intro providers hproviders provider hprovider
    cases hproviders
    simp only [List.mem_cons, List.not_mem_nil, or_false] at hprovider
    rw [hprovider]
    decide

/-- The variables of `sampleFile`, with a queue size that is set besides; the file itself
is named by a variable. -/
theorem file_settings_as_variables_sample :
    let toml := fun text => if text = sampleFileText then some sampleFile else none
    let env : Environment := fun key =>
      if key = "QUEUE_SIZE" then some "8"
      else if key = "CONFIG_PATH" then some "server.toml"
      else none
    AppConfig.load (fun _ => .missing) toml (sampleFile.asVariables env.withoutConfigPath)
        none none =
      AppConfig.load (fun path => if path = "server.toml" then .contents sampleFileText
        else .missing) toml env none none :=
  file_settings_as_variables (.read sampleFileText sampleFile rfl (if_pos rfl))
    sampleFile_portable rfl none

end Variables

section Acceptance

variable {env : Environment} {file : FileConfig} {cores : Option UInt64}

/-- The variables that hold a `u64` or a `usize`. -/
def numberVariables : List String :=
  ["RATE_LIMIT_REQUESTS_PER_MINUTE", "JOB_RETENTION_LIMIT", "METADATA_RETENTION_LIMIT",
    "MODEL_POOL_SIZE", "QUEUE_SIZE", "BODY_LIMIT_BYTES", "REQUEST_TIMEOUT_SECONDS",
    "MAX_NEW_TOKENS", "JOB_TIMEOUT_SECONDS", "WEBHOOK_TIMEOUT_SECONDS",
    "WEBHOOK_CONNECT_TIMEOUT_SECONDS", "WEBHOOK_MAX_ATTEMPTS", "WEBHOOK_INITIAL_BACKOFF_MS"]

/-- The variables that hold a `u32`. -/
def sizeVariables : List String :=
  ["MAX_IMAGE_WIDTH", "MAX_IMAGE_HEIGHT"]

def flagVariables : List String :=
  ["ALLOW_LOCAL_PATHS", "ALLOW_PRIVATE_WEBHOOK_URLS"]

/-- Every variable that is set has a value of its kind, and what the file says fits. -/
structure SettingsFit (env : Environment) (file : FileConfig) : Prop where
  numbers : ∀ key ∈ numberVariables, ∀ text ∈ env key, ∃ n, parseU64 text = .ok n
  sizes : ∀ key ∈ sizeVariables, ∀ text ∈ env key, ∃ n, parseU32 text = .ok n
  flags : ∀ key ∈ flagVariables, ∀ text ∈ env key, ∃ flag, parseFlag text = some flag
  roots : boolSetting env ⟨"ALLOW_LOCAL_PATHS", (file.server.getD {}).allowLocalPaths⟩ false =
      .ok true →
    pathListSetting env "LOCAL_PATH_ROOTS" (file.server.getD {}).localPathRoots ≠ []
  variant : ∀ name ∈ (env "MODEL_VARIANT").or (file.model.getD {}).variant,
    ∃ variant : ModelVariant, normalizedName name ∈ variant.aliases
  addr : ∃ addr, parseSocketAddr
    (stringSetting env ⟨"BIND_ADDR", (file.server.getD {}).bindAddr⟩ "127.0.0.1:3000").toList =
      some addr

theorem exists_numberSetting_iff
    {α : Type} {parse : String → Except ParseIntError α} {source : SettingSource α}
    {default : α} :
    (∃ value, numberSetting env parse source default = .ok value) ↔
      ∀ text ∈ env source.key, ∃ value, parse text = .ok value := by
  unfold numberSetting
  cases env source.key with
  | none => simp
  | some text => cases hparse : parse text <;> simp [Except.mapError, hparse]

theorem exists_boolSetting_iff
    {source : SettingSource Bool} {default : Bool} :
    (∃ flag, boolSetting env source default = .ok flag) ↔
      ∀ text ∈ env source.key, ∃ flag, parseFlag text = some flag := by
  unfold boolSetting
  cases env source.key with
  | none => simp
  | some text => cases hparse : parseFlag text <;> simp [hparse]

theorem exists_parseModelVariant_iff
    {fileValue : Option String} {modelPathSelection : ModelPathSelection} :
    (∃ variant, parseModelVariant env fileValue modelPathSelection = .ok variant) ↔
      ∀ name ∈ (env "MODEL_VARIANT").or fileValue,
        ∃ variant : ModelVariant, normalizedName name ∈ variant.aliases := by
  unfold parseModelVariant
  cases (env "MODEL_VARIANT").or fileValue with
  | none => cases modelPathSelection <;> simp
  | some name => simp [parseModelVariantValue_eq_ok_iff]

theorem exists_parseBindAddr_iff
    {text : String} :
    (∃ addr, parseBindAddr text = .ok addr) ↔ ∃ addr, parseSocketAddr text.toList = some addr := by
  unfold parseBindAddr
  cases parseSocketAddr text.toList <;> simp

theorem checkLocalPathRoots_eq_ok
    {allowLocalPaths : Bool} {localPathRoots : List PathBuf} {u : Unit} :
    checkLocalPathRoots allowLocalPaths localPathRoots = .ok u ↔
      (allowLocalPaths = true → localPathRoots ≠ []) := by
  unfold checkLocalPathRoots
  cases allowLocalPaths <;> cases localPathRoots <;> simp

theorem ofFile_returns_iff :
    (∃ cfg, AppConfig.ofFile env cores file = .ok cfg) ↔ SettingsFit env file := by
  constructor
  · rintro ⟨cfg, hload⟩
    simp only [AppConfig.ofFile, bind_eq_ok] at hload
    obtain ⟨allowLocalPaths, hallow, _, hroots, variant, hvariant, addr, haddr, rate, hrate,
      jobs, hjobs, metadata, hmetadata, width, hwidth, height, hheight, workers, hworkers,
      queue, hqueue, body, hbody, request, hrequest, tokens, htokens, job, hjob,
      webhook, hwebhook, connect, hconnect, attempts, hattempts, backoff, hbackoff,
      privateUrls, hprivateUrls, -⟩ := hload
    refine ⟨?_, ?_, ?_, ?_, exists_parseModelVariant_iff.mp ⟨variant, hvariant⟩,
      exists_parseBindAddr_iff.mp ⟨addr, haddr⟩⟩
    · simp only [numberVariables, List.forall_mem_cons]
      exact ⟨exists_numberSetting_iff.mp ⟨_, hrate⟩, exists_numberSetting_iff.mp ⟨_, hjobs⟩,
        exists_numberSetting_iff.mp ⟨_, hmetadata⟩, exists_numberSetting_iff.mp ⟨_, hworkers⟩,
        exists_numberSetting_iff.mp ⟨_, hqueue⟩, exists_numberSetting_iff.mp ⟨_, hbody⟩,
        exists_numberSetting_iff.mp ⟨_, hrequest⟩, exists_numberSetting_iff.mp ⟨_, htokens⟩,
        exists_numberSetting_iff.mp ⟨_, hjob⟩, exists_numberSetting_iff.mp ⟨_, hwebhook⟩,
        exists_numberSetting_iff.mp ⟨_, hconnect⟩, exists_numberSetting_iff.mp ⟨_, hattempts⟩,
        exists_numberSetting_iff.mp ⟨_, hbackoff⟩, by simp⟩
    · simp only [sizeVariables, List.forall_mem_cons]
      exact ⟨exists_numberSetting_iff.mp ⟨_, hwidth⟩, exists_numberSetting_iff.mp ⟨_, hheight⟩,
        by simp⟩
    · simp only [flagVariables, List.forall_mem_cons]
      exact ⟨exists_boolSetting_iff.mp ⟨_, hallow⟩, exists_boolSetting_iff.mp ⟨_, hprivateUrls⟩,
        by simp⟩
    · intro hallowed
      rw [hallow] at hallowed
      cases hallowed
      exact checkLocalPathRoots_eq_ok.mp hroots rfl
  · intro hfit
    have hnumbers := hfit.numbers
    have hsizes := hfit.sizes
    have hflags := hfit.flags
    simp only [numberVariables, List.forall_mem_cons] at hnumbers
    simp only [sizeVariables, List.forall_mem_cons] at hsizes
    simp only [flagVariables, List.forall_mem_cons] at hflags
    obtain ⟨hrate, hjobs, hmetadata, hworkers, hqueue, hbody, hrequest, htokens, hjob, hwebhook,
      hconnect, hattempts, hbackoff, -⟩ := hnumbers
    obtain ⟨hwidth, hheight, -⟩ := hsizes
    obtain ⟨hallow, hprivateUrls, -⟩ := hflags
    simp only [AppConfig.ofFile]
    refine exists_bind_eq_ok (exists_boolSetting_iff.mpr hallow) fun allowLocalPaths hset => ?_
    have hroots : allowLocalPaths = true →
        pathListSetting env "LOCAL_PATH_ROOTS" (file.server.getD {}).localPathRoots ≠ [] := by
      rintro rfl
      exact hfit.roots hset
    refine exists_bind_eq_ok ⟨(), checkLocalPathRoots_eq_ok.mpr hroots⟩ fun _ _ => ?_
    refine exists_bind_eq_ok (exists_parseModelVariant_iff.mpr hfit.variant) fun _ _ => ?_
    refine exists_bind_eq_ok (exists_parseBindAddr_iff.mpr hfit.addr) fun _ _ => ?_
    refine exists_bind_eq_ok (exists_numberSetting_iff.mpr hrate) fun _ _ => ?_
    refine exists_bind_eq_ok (exists_numberSetting_iff.mpr hjobs) fun _ _ => ?_
    refine exists_bind_eq_ok (exists_numberSetting_iff.mpr hmetadata) fun _ _ => ?_
    refine exists_bind_eq_ok (exists_numberSetting_iff.mpr hwidth) fun _ _ => ?_
    refine exists_bind_eq_ok (exists_numberSetting_iff.mpr hheight) fun _ _ => ?_
    refine exists_bind_eq_ok (exists_numberSetting_iff.mpr hworkers) fun _ _ => ?_
    refine exists_bind_eq_ok (exists_numberSetting_iff.mpr hqueue) fun _ _ => ?_
    refine exists_bind_eq_ok (exists_numberSetting_iff.mpr hbody) fun _ _ => ?_
    refine exists_bind_eq_ok (exists_numberSetting_iff.mpr hrequest) fun _ _ => ?_
    refine exists_bind_eq_ok (exists_numberSetting_iff.mpr htokens) fun _ _ => ?_
    refine exists_bind_eq_ok (exists_numberSetting_iff.mpr hjob) fun _ _ => ?_
    refine exists_bind_eq_ok (exists_numberSetting_iff.mpr hwebhook) fun _ _ => ?_
    refine exists_bind_eq_ok (exists_numberSetting_iff.mpr hconnect) fun _ _ => ?_
    refine exists_bind_eq_ok (exists_numberSetting_iff.mpr hattempts) fun _ _ => ?_
    refine exists_bind_eq_ok (exists_numberSetting_iff.mpr hbackoff) fun _ _ => ?_
    exact exists_bind_eq_ok (exists_boolSetting_iff.mpr hprivateUrls) fun _ _ => ⟨_, rfl⟩

/--
A configuration is loaded exactly when the file was read, or is missing under its default
name, each variable that is set to text has a value of its kind, the variant has a known name, the
address can be parsed, and local paths are not allowed without a root.
-/
theorem config_loads_iff
    {files : String → ConfigFileRead} {toml : String → Option FileConfig}
    {configPath : Option String} :
    (∃ cfg, AppConfig.load files toml env cores configPath = .ok cfg) ↔
      ∃ file, FileConfig.Found files toml env configPath file ∧ SettingsFit env file := by
  constructor
  · rintro ⟨cfg, hload⟩
    obtain ⟨file, hfile, hcfg⟩ := bind_eq_ok.mp hload
    exact ⟨file, FileConfig.load_eq_ok_iff.mp hfile, ofFile_returns_iff.mp ⟨cfg, hcfg⟩⟩
  · rintro ⟨file, hfound, hfit⟩
    exact exists_bind_eq_ok ⟨file, FileConfig.load_eq_ok_iff.mpr hfound⟩ fun other hother => by
      rw [FileConfig.load_eq_ok_iff.mpr hfound] at hother
      cases hother
      exact ofFile_returns_iff.mpr hfit

end Acceptance

section Results

variable {cfg : AppConfig}

/-- Some text spells the path. -/
def Spelled (path : PathBuf) : Prop :=
  ∃ text, pathOfText text = path

/-- A character that `execution_providers_setting` leaves in a name. -/
def isProviderChar (c : Char) : Bool :=
  c != '-' && c != '_' && c.toLower == c

/-- What `Config::load` guarantees. -/
structure AppConfig.WellFormed (cfg : AppConfig) : Prop where
  addr : ∃ text, parseSocketAddr text = some cfg.addr
  modelPath : Spelled cfg.modelPath
  dataDir : Spelled cfg.dataDir
  imagesDir : cfg.imagesDir = cfg.dataDir ++ ["images"]
  metadataDir : cfg.metadataDir = cfg.dataDir ++ ["metadata"]
  submissionsJsonl : cfg.submissionsJsonl = cfg.metadataDir ++ ["submissions.jsonl"]
  resultsJsonl : cfg.resultsJsonl = cfg.metadataDir ++ ["results.jsonl"]
  webhooksDeadLetterJsonl :
    cfg.webhooksDeadLetterJsonl = cfg.metadataDir ++ ["webhooks_dead_letter.jsonl"]
  localPathRoots : ∀ root ∈ cfg.localPathRoots, Spelled root
  rooted : cfg.allowLocalPaths = true → cfg.localPathRoots ≠ []
  workers : 1 ≤ cfg.workers
  maxNewTokens : 1 ≤ cfg.maxNewTokens
  webhookMaxAttempts : 1 ≤ cfg.webhookMaxAttempts
  secret : ∀ secret ∈ cfg.webhookSigningSecret, trim secret = secret ∧ secret ≠ ""
  providers : cfg.executionProviders ≠ []
  provider : ∀ provider ∈ cfg.executionProviders,
    provider ≠ "" ∧ provider.toList.all isProviderChar = true

theorem uint64_max_eq_ite (m n : UInt64) : max m n = if m ≤ n then n else m :=
  rfl

theorem one_le_max_one (n : UInt64) : 1 ≤ max n 1 := by
  rw [uint64_max_eq_ite]
  split
  · exact UInt64.le_refl 1
  · exact (UInt64.le_total n 1).resolve_left ‹_›

theorem max_one_of_le {n : UInt64} (hn : 1 ≤ n) : max n 1 = n := by
  rw [uint64_max_eq_ite]
  split
  · exact UInt64.le_antisymm hn ‹_›
  · rfl

theorem secretSetting_spec
    {env : Environment} {key : String} {fileValue : Option String} :
    ∀ secret ∈ secretSetting env key fileValue, trim secret = secret ∧ secret ≠ "" := by
  intro secret hsecret
  obtain ⟨hmap, hne⟩ := Option.filter_eq_some_iff.mp hsecret
  obtain ⟨value, -, rfl⟩ := Option.map_eq_some_iff.mp hmap
  exact ⟨trim_trim value, by simpa using hne⟩

theorem isProviderChar_of_mem_normalizedName
    {raw : String} :
    (normalizedName raw).toList.all isProviderChar = true := by
  rw [normalizedName, String.toList_ofList, List.all_eq_true]
  intro c hc
  obtain ⟨hc, hkept⟩ := List.mem_filter.mp hc
  obtain ⟨d, -, rfl⟩ := List.mem_map.mp hc
  simpa [isProviderChar] using hkept

theorem executionProvidersSetting_spec
    {env : Environment} {fileValue : Option (List String)} :
    executionProvidersSetting env fileValue ≠ [] ∧
      ∀ provider ∈ executionProvidersSetting env fileValue,
        provider ≠ "" ∧ provider.toList.all isProviderChar = true := by
  unfold executionProvidersSetting
  dsimp only
  split
  · exact ⟨List.cons_ne_nil _ _, by simp; decide⟩
  · rename_i hsome
    refine ⟨by simpa using hsome, fun provider hprovider => ?_⟩
    obtain ⟨hmem, hne⟩ := List.mem_filter.mp hprovider
    obtain ⟨raw, -, rfl⟩ := List.mem_map.mp hmem
    exact ⟨by simpa using hne, isProviderChar_of_mem_normalizedName⟩

/-- A name between separators is normalised to the name. -/
theorem normalizedName_between
    {provider : String}
    (hprovider : provider.toList.all isProviderChar = true) :
    normalizedName ("-" ++ provider ++ "-") = provider := by
  have htext : ("-" ++ provider ++ "-").toList = '-' :: (provider.toList ++ ['-']) := by
    simp
  have hspace : isWhitespace '-' = false := by decide
  have htrim : trimChars ('-' :: (provider.toList ++ ['-'])) =
      '-' :: (provider.toList ++ ['-']) := by
    simp [trimChars, hspace]
  have hkept : ∀ c ∈ provider.toList, c.toLower = c ∧ (c != '-' && c != '_') = true := by
    intro c hc
    have hchar := List.all_eq_true.mp hprovider c hc
    simp only [isProviderChar, Bool.and_eq_true, beq_iff_eq] at hchar
    exact ⟨hchar.2, Bool.and_eq_true_iff.mpr hchar.1⟩
  have hlower : provider.toList.map Char.toLower = provider.toList :=
    (List.map_congr_left fun c hc => (hkept c hc).1).trans (List.map_id _)
  have hfilter : provider.toList.filter (fun c => c != '-' && c != '_') = provider.toList :=
    List.filter_eq_self.mpr fun c hc => (hkept c hc).2
  have hdash : Char.toLower '-' = '-' := by decide
  rw [normalizedName, trim, htext, htrim, String.toList_ofList]
  simp [hlower, hfilter, hdash]

theorem spelled_defaultModelPath (variant : ModelVariant) :
    Spelled variant.defaultModelPath := by
  exact ⟨displayPath variant.defaultModelPath, by cases variant <;> decide +kernel⟩

/-- The settings of the configuration, as a file. -/
def AppConfig.toFile (cfg : AppConfig) (bindAddr dataDir modelPath : String)
    (localPathRoots : List String) : FileConfig where
  server := some {
    bindAddr := some bindAddr
    dataDir := some dataDir
    allowLocalPaths := some cfg.allowLocalPaths
    localPathRoots := some localPathRoots
    corsAllowedOrigins := some cfg.corsAllowedOrigins
    apiKeys := some cfg.apiKeys
    rateLimitRequestsPerMinute := some cfg.rateLimitRequestsPerMinute }
  model := some { variant := some cfg.modelVariant.asStr, path := some modelPath }
  queue := some {
    modelPoolSize := some cfg.workers
    queueSize := some cfg.queueSize
    bodyLimitBytes := some cfg.bodyLimitBytes
    requestTimeoutSeconds := some cfg.requestTimeoutSeconds }
  generation := some {
    maxNewTokens := some cfg.maxNewTokens
    jobTimeoutSeconds := some cfg.jobTimeoutSeconds
    webhookTimeoutSeconds := some cfg.webhookTimeoutSeconds
    webhookConnectTimeoutSeconds := some cfg.webhookConnectTimeoutSeconds
    webhookMaxAttempts := some cfg.webhookMaxAttempts
    webhookInitialBackoffMs := some cfg.webhookInitialBackoffMs
    webhookSigningSecret := cfg.webhookSigningSecret
    allowPrivateWebhookUrls := some cfg.allowPrivateWebhookUrls }
  runtime := some {
    executionProviders :=
      some (cfg.executionProviders.map (fun provider => "-" ++ provider ++ "-")) }
  logging := some { rustLog := some cfg.rustLog }
  retention := some {
    jobRetentionLimit := some cfg.jobRetentionLimit
    metadataRetentionLimit := some cfg.metadataRetentionLimit }
  validation := some {
    maxImageWidth := some cfg.maxImageWidth
    maxImageHeight := some cfg.maxImageHeight }

theorem AppConfig.WellFormed.of_ofFile
    {env : Environment} {cores : Option UInt64} {file : FileConfig}
    (hload : AppConfig.ofFile env cores file = .ok cfg) :
    cfg.WellFormed := by
  simp only [AppConfig.ofFile, bind_eq_ok] at hload
  obtain ⟨allowLocalPaths, hallow, _, hroots, variant, hvariant, addr, haddr, rate, hrate,
    jobs, hjobs, metadata, hmetadata, width, hwidth, height, hheight, workers, hworkers,
    queue, hqueue, body, hbody, request, hrequest, tokens, htokens, job, hjob,
    webhook, hwebhook, connect, hconnect, attempts, hattempts, backoff, hbackoff,
    privateUrls, hprivateUrls, hcfg⟩ := hload
  cases hcfg
  exact
    { addr := by
        unfold parseBindAddr at haddr
        split at haddr
        · rename_i read hread
          cases haddr
          exact ⟨_, hread⟩
        · cases haddr
      modelPath := by
        cases ((env "MODEL_PATH").or (file.model.getD {}).path) with
        | none => exact spelled_defaultModelPath variant
        | some text => exact ⟨text, rfl⟩
      dataDir := ⟨_, rfl⟩
      imagesDir := rfl
      metadataDir := rfl
      submissionsJsonl := rfl
      resultsJsonl := rfl
      webhooksDeadLetterJsonl := rfl
      localPathRoots := by
        intro root hroot
        obtain ⟨text, -, rfl⟩ := List.mem_map.mp hroot
        exact ⟨text, rfl⟩
      rooted := checkLocalPathRoots_eq_ok.mp hroots
      workers := one_le_max_one workers
      maxNewTokens := one_le_max_one tokens
      webhookMaxAttempts := one_le_max_one attempts
      secret := secretSetting_spec
      providers := executionProvidersSetting_spec.1
      provider := executionProvidersSetting_spec.2 }

/-- Each of a list of spelled paths has a text. -/
theorem exists_texts
    {paths : List PathBuf}
    (hspelled : ∀ path ∈ paths, Spelled path) :
    ∃ texts : List String, texts.map pathOfText = paths := by
  induction paths with
  | nil => exact ⟨[], rfl⟩
  | cons path paths ih =>
      obtain ⟨text, htext⟩ := hspelled path List.mem_cons_self
      obtain ⟨texts, htexts⟩ := ih fun other hother =>
        hspelled other (List.mem_cons_of_mem path hother)
      exact ⟨text :: texts, by rw [List.map_cons, htext, htexts]⟩

/-- Without variables the providers are those of the file. -/
theorem executionProvidersSetting_between
    {providers : List String}
    (hne : providers ≠ [])
    (hprovider : ∀ provider ∈ providers,
      provider ≠ "" ∧ provider.toList.all isProviderChar = true) :
    executionProvidersSetting (fun _ => none)
      (some (providers.map (fun provider => "-" ++ provider ++ "-"))) = providers := by
  have hnormalized : (providers.map (fun provider => "-" ++ provider ++ "-")).map normalizedName =
      providers := by
    rw [List.map_map]
    have heach : ∀ provider ∈ providers,
        normalizedName ("-" ++ provider ++ "-") = provider :=
      fun provider h => normalizedName_between (hprovider provider h).2
    exact (List.map_congr_left heach).trans (List.map_id _)
  have hkept : providers.filter (fun value => !value.isEmpty) = providers :=
    List.filter_eq_self.mpr fun provider h => by simpa using (hprovider provider h).1
  unfold executionProvidersSetting
  simp only [Option.map_none, Option.none_or, Option.getD_some, hnormalized, hkept]
  exact if_neg (by simpa using hne)

theorem secretSetting_of_file
    {fileValue : Option String} {key : String}
    (hsecret : ∀ secret ∈ fileValue, trim secret = secret ∧ secret ≠ "") :
    secretSetting (fun _ => none) key fileValue = fileValue := by
  cases fileValue with
  | none => rfl
  | some secret =>
      obtain ⟨htrim, hne⟩ := hsecret secret rfl
      simp [secretSetting, htrim, hne]

/--
The configurations that `Config::load` returns are exactly the well-formed ones: there
are no other guarantees, so that a queue without room, say, is accepted.  Each of them is
the result of some environment and some file; numbers above the range of TOML come from
variables.
-/
theorem loaded_config_iff :
    (∃ env cores file, AppConfig.ofFile env cores file = .ok cfg) ↔ cfg.WellFormed := by
  constructor
  · rintro ⟨env, cores, file, hload⟩
    exact .of_ofFile hload
  · intro hcfg
    obtain ⟨bindAddr, hbindAddr⟩ := hcfg.addr
    obtain ⟨dataDir, hdataDir⟩ := hcfg.dataDir
    obtain ⟨modelPath, hmodelPath⟩ := hcfg.modelPath
    obtain ⟨roots, hroots⟩ := exists_texts hcfg.localPathRoots
    refine ⟨fun _ => none, none, cfg.toFile (String.ofList bindAddr) dataDir modelPath roots, ?_⟩
    have haddr : parseBindAddr (String.ofList bindAddr) = .ok cfg.addr := by
      rw [parseBindAddr, String.toList_ofList, hbindAddr]
    have hrooted : checkLocalPathRoots cfg.allowLocalPaths cfg.localPathRoots = .ok () :=
      checkLocalPathRoots_eq_ok.mpr hcfg.rooted
    simp only [AppConfig.ofFile, AppConfig.toFile, Option.getD_some, numberSetting, u64Setting,
      usizeSetting, u32Setting, boolSetting, pathSetting, stringSetting, pathListSetting,
      stringListSetting, loadApiKeys, parseModelVariant, Option.map_none, Option.none_or,
      Option.map_some, ok_bind, hdataDir, hmodelPath, hroots, hrooted, haddr,
      parseModelVariantValue_asStr, max_one_of_le hcfg.workers, max_one_of_le hcfg.maxNewTokens,
      max_one_of_le hcfg.webhookMaxAttempts, secretSetting_of_file hcfg.secret,
      executionProvidersSetting_between hcfg.providers hcfg.provider, ← hcfg.imagesDir,
      ← hcfg.metadataDir, ← hcfg.submissionsJsonl, ← hcfg.resultsJsonl,
      ← hcfg.webhooksDeadLetterJsonl]
    rfl

end Results

end FlorenceServer
