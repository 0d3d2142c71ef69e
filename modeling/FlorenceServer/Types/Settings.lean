import FlorenceServer.Types.TaskSpec

/-!
# List settings

`string_list_setting` of `config/settings.rs`: a variable of the environment goes
before the value of the configuration file.
-/

namespace FlorenceServer

/-- `env::var(..).ok()`: the variables that are set to text. -/
abbrev Environment := String → Option String

/-- `value.split(',')`. -/
def splitComma (value : String) : List String :=
  (value.toList.splitOn ',').map String.ofList

/-- The entries of a variable that holds a list. -/
def variableEntries (value : String) : List String :=
  ((splitComma value).map trim).filter (fun value => !value.isEmpty)

/-- `string_list_setting`: only the entries of a variable are trimmed and filtered. -/
def stringListSetting
    (env : Environment)
    (key : String)
    (fileValue : Option (List String)) : List String :=
  (((env key).map variableEntries).or fileValue).getD []

/-- `Config::load`: the API keys. -/
def loadApiKeys (env : Environment) (serverApiKeys : Option (List String)) :
    List String :=
  stringListSetting env "API_KEYS" serverApiKeys

/-- A text that is split at its joints is the list of its parts again. -/
theorem splitOn_joined
    {c : Char} {separator : String} {values : List String}
    (hseparator : separator.toList = [c])
    (hne : values ≠ [])
    (hfree : ∀ value ∈ values, c ∉ value.toList) :
    ((separator.intercalate values).toList.splitOn c).map String.ofList = values := by
  have hlines : ∀ line ∈ values.map String.toList, c ∉ line := by
    intro line hline
    obtain ⟨value, hvalue, rfl⟩ := List.mem_map.mp hline
    exact hfree value hvalue
  rw [String.toList_intercalate, hseparator,
    List.splitOn_intercalate c hlines (by simpa using hne), List.map_map]
  simp

theorem splitComma_intercalate
    {values : List String}
    (hne : values ≠ [])
    (hcomma : ∀ value ∈ values, ',' ∉ value.toList) :
    splitComma (",".intercalate values) = values :=
  splitOn_joined rfl hne hcomma

theorem loadApiKeys_of_unset
    {env : Environment}
    (hunset : env "API_KEYS" = none)
    (keys : List String) :
    loadApiKeys env (some keys) = keys := by
  rw [loadApiKeys, stringListSetting, hunset]
  rfl

/-- Values that are not blank come out of a joined variable trimmed. -/
theorem loadApiKeys_of_joined
    {env : Environment}
    {keys : List String}
    (hjoined : env "API_KEYS" = some (",".intercalate keys))
    (hcomma : ∀ key ∈ keys, ',' ∉ key.toList)
    (hblank : ∀ key ∈ keys, trim key ≠ "")
    (serverApiKeys : Option (List String)) :
    loadApiKeys env serverApiKeys = keys.map trim := by
  rw [loadApiKeys, stringListSetting, hjoined]
  change variableEntries (",".intercalate keys) = keys.map trim
  by_cases hnil : keys = []
  · rw [hnil]
    decide
  · rw [variableEntries, splitComma_intercalate hnil hcomma]
    refine List.filter_eq_self.mpr fun value hvalue => ?_
    obtain ⟨key, hkey, rfl⟩ := List.mem_map.mp hvalue
    simpa using hblank key hkey

end FlorenceServer
