import TestInfra.Lib.Dict
import TestInfra.Lib.PyText
import Mathlib.Data.List.Infix
import Mathlib.Data.List.Forall2
import Mathlib.Logic.Function.Basic

set_option autoImplicit false

/-! # Ini files

`TestInputParser.parse_from_file` makes servers from the sections of an ini file: those that `[servers]` and
`[cluster..]` list by the names of their sections, and `[bkrs_client]`. `get_server` and `get_bkrs_client_config` read
the section of the server; `get_server_options` fills in from `[global]` and `[membase]` what is empty then.

`getServer_text`, `getServerOption_spec` and `getBkrsClientConfig_eq_some_iff` say what each of them puts into each
attribute. -/

namespace TestInfra.Ini

open PyText

/-! ## Servers -/

/-- The attributes of a server that are texts, `''` at first. -/
inductive Field where
  | ip | internalIp | sshUsername | sshPassword | sshKey | restUsername | restPassword | services | port | cliPath
  | dataPath | indexPath | cbasPath | n1qlPort | indexPort | ftsPort | eventingPort | esUsername | esPassword
deriving DecidableEq, Repr

/-- `TestInputServer`. -/
structure TestInputServer where
  text : Field → Text
  collectionsMap : Dict Text (Dict Text Text)
  profile : Option Text
  cbVersion : Option Text
  bkrsClient : Bool

/-- `TestInputServer()`. -/
def TestInputServer.new : TestInputServer := ⟨fun _ => [], ∅, none, none, false⟩

/-- `server.field = value`. -/
def TestInputServer.set (server : TestInputServer) (field : Field) (value : Text) : TestInputServer :=
  { server with text := Function.update server.text field value }

/-- `TestInputMembaseSetting`. -/
structure MembaseSetting where
  restUsername : Text
  restPassword : Text

/-- The options of each section, in their order. -/
abbrev Config := Dict Text (Dict Text Text)

/-! ## The section of a server -/

/-- `get_collection_config`. -/
def getCollectionConfig (collection : Text) (config : Config) : Dict Text Text :=
  ((config.get? collection).getD ∅).items.foldl (fun collectionConfig entry =>
    if entry.1 = "bucket".toList then collectionConfig.set "bucket".toList entry.2
    else if entry.1 = "scope".toList then collectionConfig.set "scope".toList entry.2
    else if entry.1.map Char.toLower = "maxttl".toList then collectionConfig.set "maxTTL".toList entry.2
    else collectionConfig) ∅

/-- The options that `get_server` puts into an attribute as they are. -/
def serverOptions : List (Text × Field) :=
  [("username".toList, .sshUsername), ("password".toList, .sshPassword), ("cli".toList, .cliPath),
    ("ssh_key".toList, .sshKey), ("port".toList, .port), ("ip".toList, .ip), ("internal_ip".toList, .internalIp),
    ("services".toList, .services), ("n1ql_port".toList, .n1qlPort), ("index_port".toList, .indexPort),
    ("fts_port".toList, .ftsPort), ("eventing_port".toList, .eventingPort)]

/-- The body of the loop over the options. -/
def readOption (config : Config) (server : TestInputServer) (entry : Text × Text) : TestInputServer :=
  match Assoc.find entry.1 serverOptions with
  | some field => server.set field entry.2
  | none =>
      if entry.1 = "collections".toList then
        let collectionsMap := (entry.2.splitOn ',').foldl (fun collectionsMap collection =>
          collectionsMap.set collection (getCollectionConfig collection config)) server.collectionsMap
        { server with collectionsMap := collectionsMap }
      else if entry.1 = "profile".toList then { server with profile := some entry.2 }
      else if entry.1 = "version".toList then { server with cbVersion := some entry.2 }
      else server

/-- `get_server`. -/
def getServer (config : Config) (ip : Text) : TestInputServer :=
  ((config.get? ip).getD ∅).items.foldl (readOption config) (TestInputServer.new.set .ip ip)

/-! ## What is empty then -/

/-- `if server.field == '' and ..: server.field = value`. -/
def TestInputServer.fill (server : TestInputServer) (field : Field) (value : Option Text) : TestInputServer :=
  match value with
  | some value => if server.text field = [] then server.set field value else server
  | none => server

/-- The same from the settings; `none` is the `AttributeError` when there are none. -/
def TestInputServer.fillMembase (server : TestInputServer) (field : Field) (membaseSettings : Option MembaseSetting)
    (value : MembaseSetting → Text) : Option TestInputServer :=
  if server.text field = [] then
    membaseSettings.map fun settings => if value settings ≠ [] then server.set field (value settings) else server
  else some server

/-- The body of the loop of `get_server_options`; `expanduser` is the one of `os.path`. -/
def getServerOption (expanduser : Text → Text) (membaseSettings : Option MembaseSetting)
    (globalProperties : Dict Text Text) (server : TestInputServer) : Option TestInputServer := do
  let server := server.fill .sshUsername (globalProperties.get? "username".toList)
  let server := server.fill .sshPassword (globalProperties.get? "password".toList)
  let server := server.fill .sshKey ((globalProperties.get? "ssh_key".toList).map expanduser)
  let server := server.fill .port (globalProperties.get? "port".toList)
  let server := server.fill .cliPath (globalProperties.get? "cli".toList)
  let server ← server.fillMembase .restUsername membaseSettings MembaseSetting.restUsername
  let server ← server.fillMembase .restPassword membaseSettings MembaseSetting.restPassword
  let server := server.fill .dataPath (globalProperties.get? "data_path".toList)
  let server := server.fill .indexPath (globalProperties.get? "index_path".toList)
  let server := server.fill .cbasPath (globalProperties.get? "cbas_path".toList)
  let server := server.fill .services (globalProperties.get? "services".toList)
  let server := server.fill .n1qlPort (globalProperties.get? "n1ql_port".toList)
  let server := server.fill .indexPort (globalProperties.get? "index_port".toList)
  let server := server.fill .eventingPort (globalProperties.get? "eventing_port".toList)
  let server := server.fill .esUsername (globalProperties.get? "es_username".toList)
  let server := server.fill .esPassword (globalProperties.get? "es_password".toList)
  return server

/-- `get_server_options`. -/
def getServerOptions (expanduser : Text → Text) (servers : List TestInputServer)
    (membaseSettings : Option MembaseSetting) (globalProperties : Dict Text Text) : Option (List TestInputServer) :=
  servers.mapM (getServerOption expanduser membaseSettings globalProperties)

/-! ## Other sections -/

/-- `get_server_ips`. -/
def getServerIps (config : Config) (sectionName : Text) : List Text :=
  ((config.get? sectionName).getD ∅).items.map Prod.snd

/-- `get_membase_settings`; `none` is the error for a section that is not there. -/
def getMembaseSettings (config : Config) (sectionName : Text) : Option MembaseSetting :=
  (config.get? sectionName).map fun options => options.items.foldl (fun settings entry =>
    if entry.1 = "rest_username".toList then { settings with restUsername := entry.2 }
    else if entry.1 = "rest_password".toList then { settings with restPassword := entry.2 }
    else settings) ⟨[], []⟩

/-- The options that `get_bkrs_client_config` puts into an attribute. -/
def bkrsOptions : List (Text × Field) :=
  [("ip".toList, .ip), ("password".toList, .sshPassword), ("port".toList, .port)]

/-- The body of the loop over the options. -/
def readBkrsOption (server : TestInputServer) (entry : Text × Text) : TestInputServer :=
  match Assoc.find entry.1 bkrsOptions with
  | some field => server.set field entry.2
  | none => server

/-- `if not given: server.field = global_properties[..]`; `none` is the `KeyError`. -/
def TestInputServer.setGlobal (server : TestInputServer) (field : Field) (given : Bool) (value : Option Text) :
    Option TestInputServer :=
  if given then some server else value.map (server.set field)

/-- `get_bkrs_client_config`; `none` is an error. -/
def getBkrsClientConfig (config : Config) (sectionName : Text) (globalProperties : Dict Text Text)
    (uiSettings : Option MembaseSetting) : Option TestInputServer := do
  let options := (config.get? sectionName).getD ∅
  let server := options.items.foldl readBkrsOption TestInputServer.new
  let server ← server.setGlobal .sshUsername ("username".toList ∈ options.keys)
    (globalProperties.get? "username".toList)
  let server ← server.setGlobal .sshPassword ("password".toList ∈ options.keys)
    (globalProperties.get? "password".toList)
  -- the variable of the loop: the text is looked for in the name of the last option
  let option ← options.keys.getLast?
  let server ← server.setGlobal .port ("port".toList <:+: option) (globalProperties.get? "port".toList)
  let uiSettings ← uiSettings.or (getMembaseSettings config "membase".toList)
  let server := server.set .restUsername uiSettings.restUsername
  let server := server.set .restPassword uiSettings.restPassword
  return { server with bkrsClient := true }

/-! ## The file -/

/-- What the loop over the sections fills. -/
structure ParseState where
  ips : List Text
  membaseSettings : Option MembaseSetting
  globalProperties : Dict Text Text
  clusterIps : List Text
  clusters : Dict ℕ ℕ
  count : ℕ
  bkrsClient : Option TestInputServer

def ParseState.new : ParseState := ⟨[], none, ∅, [], ∅, 0, none⟩

def serversSection : Text := "servers".toList

def membaseSection : Text := "membase".toList

def globalSection : Text := "global".toList

def bkrsSection : Text := "bkrs_client".toList

/-- `re.search('^cluster', section)`. -/
def isCluster (sectionName : Text) : Bool := "cluster".toList.isPrefixOf sectionName

/-- The body of the loop over the sections. -/
def parseSection (config : Config) (state : ParseState) (sectionName : Text) : Option ParseState :=
  if sectionName = serversSection then some { state with ips := getServerIps config sectionName }
  else if sectionName = membaseSection then
    (getMembaseSettings config sectionName).map fun settings => { state with membaseSettings := some settings }
  else if sectionName = globalSection then
    let globalProperties := ((config.get? sectionName).getD ∅).items.foldl
      (fun globalProperties entry => globalProperties.set entry.1 entry.2) state.globalProperties
    some { state with globalProperties := globalProperties }
  else if sectionName = bkrsSection then
    (getBkrsClientConfig config sectionName state.globalProperties state.membaseSettings).map fun server =>
      { state with bkrsClient := some server }
  else if isCluster sectionName then
    let clusterList := getServerIps config sectionName
    some { state with
      clusterIps := state.clusterIps ++ clusterList
      clusters := state.clusters.set state.count clusterList.length
      count := state.count + 1 }
  -- other sections fill nothing of this
  else some state

/-- The body of the loop over the clusters: the servers of each, with `start` and `end`. -/
def sliceCluster (servers : List TestInputServer) (state : Dict ℕ (List TestInputServer) × ℕ × ℕ) (entry : ℕ × ℕ) :
    Dict ℕ (List TestInputServer) × ℕ × ℕ :=
  let stop := state.2.2 + entry.2
  (state.1.set entry.1 ((servers.take stop).drop state.2.1), state.2.1 + entry.2, stop)

/-- `TestInput`. -/
structure TestInput where
  servers : List TestInputServer
  clusters : Dict ℕ (List TestInputServer)
  membaseSettings : Option MembaseSetting
  bkrsClient : Option TestInputServer

/-- `parse_from_file`, from what `configparser` reads. -/
def parseFromFile (expanduser : Text → Text) (config : Config) : Option TestInput := do
  let state ← config.keys.foldlM (parseSection config) ParseState.new
  let clusterServers ← getServerOptions expanduser (state.clusterIps.map (getServer config)) state.membaseSettings
    state.globalProperties
  let clusters := (state.clusters.items.foldl (sliceCluster clusterServers) (∅, 0, 0)).1
  let servers ← getServerOptions expanduser (state.ips.map (getServer config)) state.membaseSettings
    state.globalProperties
  return ⟨servers, clusters, state.membaseSettings, state.bkrsClient⟩

/-! ## What `get_server` reads -/

section Server

variable {config : Config} {server : TestInputServer} {ip : Text} {field f : Field} {value : Text}

@[simp] theorem TestInputServer.new_text (f : Field) : TestInputServer.new.text f = [] := rfl

@[simp] theorem TestInputServer.set_text (server : TestInputServer) (field : Field) (value : Text) (f : Field) :
    (server.set field value).text f = if f = field then value else server.text f := by
  simp [TestInputServer.set, Function.update_apply]

@[simp] theorem TestInputServer.fill_text (server : TestInputServer) (field : Field) (value : Option Text)
    (f : Field) : (server.fill field value).text f
      = if f = field ∧ server.text field = [] then value.getD [] else server.text f := by
  unfold TestInputServer.fill
  rcases value with _ | value
  · by_cases h : f = field ∧ server.text field = []
    · rw [if_pos h, h.1, h.2]
      rfl
    · rw [if_neg h]
  · by_cases hempty : server.text field = []
    · simp [hempty]
    · simp [hempty]

/-- With settings there is no error. -/
theorem TestInputServer.exists_fillMembase (server : TestInputServer) (field : Field) (settings : MembaseSetting)
    (value : MembaseSetting → Text) : ∃ server', server.fillMembase field (some settings) value = some server' ∧
      ∀ f, server'.text f = if f = field ∧ server.text field = [] then value settings else server.text f := by
  unfold TestInputServer.fillMembase
  by_cases hempty : server.text field = []
  · by_cases hvalue : value settings = []
    · refine ⟨server, by simp [hempty, hvalue], fun f => ?_⟩
      split
      · next h => rw [h.1, h.2, hvalue]
      · rfl
    · exact ⟨server.set field (value settings), by simp [hempty, hvalue], fun f => by simp [hempty]⟩
  · exact ⟨server, by simp [hempty], fun f => by simp [hempty]⟩

/-- The option that `get_server` reads into an attribute. -/
def serverOption : Field → Option Text
  | .sshUsername => some "username".toList
  | .sshPassword => some "password".toList
  | .cliPath => some "cli".toList
  | .sshKey => some "ssh_key".toList
  | .port => some "port".toList
  | .ip => some "ip".toList
  | .internalIp => some "internal_ip".toList
  | .services => some "services".toList
  | .n1qlPort => some "n1ql_port".toList
  | .indexPort => some "index_port".toList
  | .ftsPort => some "fts_port".toList
  | .eventingPort => some "eventing_port".toList
  | _ => none

theorem nodup_serverOptions : (serverOptions.map Prod.fst).Nodup := by decide

theorem find_serverOptions_iff {option : Text} :
    Assoc.find option serverOptions = some f ↔ serverOption f = some option := by
  rw [Assoc.find_eq_some_iff _ _ _ nodup_serverOptions]
  cases f <;> simp [serverOptions, serverOption, eq_comm]

theorem readOption_text (config : Config) (server : TestInputServer) (entry : Text × Text) (f : Field) :
    (readOption config server entry).text f = if serverOption f = some entry.1 then entry.2 else server.text f := by
  simp only [← find_serverOptions_iff]
  unfold readOption
  split
  · next field hfield => simp [hfield, eq_comm]
  · next hnone =>
      simp only [hnone, reduceCtorEq, if_false]
      split
      · rfl
      split
      · rfl
      split <;> rfl

/-- What a server has when its section is read. -/
theorem getServer_text (config : Config) (ip : Text) (f : Field) :
    (getServer config ip).text f
      = ((serverOption f).bind ((config.get? ip).getD ∅).get?).getD (if f = .ip then ip else []) := by
  unfold getServer
  rw [Dict.observe_foldl_items (fun server : TestInputServer => server.text f) (serverOption f)
    fun server entry => readOption_text config server entry f]
  simp

/-! ## What `get_server_options` fills in -/

/-- The value for an attribute that is empty. -/
def filledIn (expanduser : Text → Text) (settings : MembaseSetting) (globals : Text → Option Text) :
    Field → Option Text
  | .sshUsername => globals "username".toList
  | .sshPassword => globals "password".toList
  | .sshKey => (globals "ssh_key".toList).map expanduser
  | .port => globals "port".toList
  | .cliPath => globals "cli".toList
  | .restUsername => some settings.restUsername
  | .restPassword => some settings.restPassword
  | .dataPath => globals "data_path".toList
  | .indexPath => globals "index_path".toList
  | .cbasPath => globals "cbas_path".toList
  | .services => globals "services".toList
  | .n1qlPort => globals "n1ql_port".toList
  | .indexPort => globals "index_port".toList
  | .eventingPort => globals "eventing_port".toList
  | .esUsername => globals "es_username".toList
  | .esPassword => globals "es_password".toList
  | .ip | .internalIp | .ftsPort => none

/-- Some attributes of a server have been filled where they were empty. -/
def Filled (values : Field → Option Text) (fields : List Field) (server server' : TestInputServer) : Prop :=
  ∀ f, server'.text f = if f ∈ fields ∧ server.text f = [] then (values f).getD [] else server.text f

section Filled

variable {values : Field → Option Text} {fields : List Field} {server' : TestInputServer}

theorem filled_nil (values : Field → Option Text) (server : TestInputServer) : Filled values [] server server := by
  intro f
  simp

/-- One more attribute. -/
theorem Filled.cons {server'' : TestInputServer} (h : Filled values fields server server') (hnew : field ∉ fields)
    (hfield : ∀ f, server''.text f
      = if f = field ∧ server'.text field = [] then (values field).getD [] else server'.text f) :
    Filled values (field :: fields) server server'' := by
  intro f
  by_cases hf : f = field
  · subst hf
    have hsame : server'.text f = server.text f := by rw [h f, if_neg fun h => hnew h.1]
    simp [hfield, hsame]
  · simp [hfield, hf, h f]

theorem Filled.fill (h : Filled values fields server server') (field : Field) (hnew : field ∉ fields) :
    Filled values (field :: fields) server (server'.fill field (values field)) :=
  h.cons hnew fun f => server'.fill_text field (values field) f

theorem Filled.fillMembase (h : Filled values fields server server') (field : Field) (hnew : field ∉ fields)
    {settings : MembaseSetting} {value : MembaseSetting → Text} (hvalue : values field = some (value settings)) :
    ∃ server'', server'.fillMembase field (some settings) value = some server'' ∧
      Filled values (field :: fields) server server'' := by
  obtain ⟨server'', hserver, htext⟩ := server'.exists_fillMembase field settings value
  exact ⟨server'', hserver, h.cons hnew fun f => by rw [htext, hvalue]; rfl⟩

end Filled

theorem getServerOption_spec (expanduser : Text → Text) (settings : MembaseSetting)
    (globalProperties : Dict Text Text) (server : TestInputServer) :
    ∃ server', getServerOption expanduser (some settings) globalProperties server = some server' ∧
      ∀ f, server'.text f = if server.text f = []
        then (filledIn expanduser settings globalProperties.get? f).getD [] else server.text f := by
  have hstart := filled_nil (filledIn expanduser settings globalProperties.get?) server
  have hcli := ((((hstart.fill .sshUsername (by decide)).fill .sshPassword (by decide)).fill .sshKey
    (by decide)).fill .port (by decide)).fill .cliPath (by decide)
  obtain ⟨first, hfirst, hrestUsername⟩ := hcli.fillMembase .restUsername (by decide) rfl
  obtain ⟨second, hsecond, hrestPassword⟩ := hrestUsername.fillMembase .restPassword (by decide) rfl
  have hall := ((((((((hrestPassword.fill .dataPath (by decide)).fill .indexPath (by decide)).fill .cbasPath
    (by decide)).fill .services (by decide)).fill .n1qlPort (by decide)).fill .indexPort (by decide)).fill .eventingPort
    (by decide)).fill .esUsername (by decide)).fill .esPassword (by decide)
  refine ⟨_, Option.bind_eq_some_iff.2 ⟨first, hfirst, Option.bind_eq_some_iff.2 ⟨second, hsecond, rfl⟩⟩, fun f => ?_⟩
  refine (hall f).trans ?_
  by_cases hempty : server.text f = []
  · cases f <;> simp [hempty, filledIn]
  · simp [hempty]

/-- Each server is filled. -/
theorem getServerOptions_spec (expanduser : Text → Text) (settings : MembaseSetting)
    (globalProperties : Dict Text Text) (servers : List TestInputServer) :
    ∃ servers', getServerOptions expanduser servers (some settings) globalProperties = some servers' ∧
      List.Forall₂ (fun server server' => ∀ f, server'.text f =
        if server.text f = [] then (filledIn expanduser settings globalProperties.get? f).getD [] else server.text f)
        servers servers' := by
  unfold getServerOptions
  induction servers with
  | nil => exact ⟨[], rfl, .nil⟩
  | cons server servers ih =>
      obtain ⟨servers', hservers, hall⟩ := ih
      obtain ⟨server', hserver, hone⟩ := getServerOption_spec expanduser settings globalProperties server
      refine ⟨server' :: servers', ?_, .cons hone hall⟩
      rw [List.mapM_cons, hserver, hservers]
      rfl

end Server

/-! ## What `get_bkrs_client_config` reads -/

section Bkrs

variable {config : Config} {sectionName : Text}

theorem getMembaseSettings_eq_some {options : Dict Text Text} (h : config.get? sectionName = some options) :
    getMembaseSettings config sectionName
      = some ⟨(options.get? "rest_username".toList).getD [], (options.get? "rest_password".toList).getD []⟩ := by
  rw [getMembaseSettings, h, Option.map_some, Option.some.injEq]
  refine congrArg₂ MembaseSetting.mk ?_ ?_
  · refine Dict.observe_foldl_items MembaseSetting.restUsername (some "rest_username".toList)
      (fun settings entry => ?_) options ⟨[], []⟩
    by_cases husername : entry.1 = "rest_username".toList
    · rw [if_pos husername, husername, if_pos rfl]
    · rw [if_neg husername, if_neg fun heq => husername (Option.some.inj heq).symm]
      split <;> rfl
  · refine Dict.observe_foldl_items MembaseSetting.restPassword (some "rest_password".toList)
      (fun settings entry => ?_) options ⟨[], []⟩
    by_cases husername : entry.1 = "rest_username".toList
    · rw [if_pos husername, husername, if_neg (by decide)]
    · rw [if_neg husername]
      by_cases hpassword : entry.1 = "rest_password".toList
      · rw [if_pos hpassword, hpassword, if_pos rfl]
      · rw [if_neg hpassword, if_neg fun heq => hpassword (Option.some.inj heq).symm]

/-- The option that `get_bkrs_client_config` reads into an attribute. -/
def bkrsOption : Field → Option Text
  | .ip => some "ip".toList
  | .sshPassword => some "password".toList
  | .port => some "port".toList
  | _ => none

theorem find_bkrsOptions_iff {option : Text} {f : Field} :
    Assoc.find option bkrsOptions = some f ↔ bkrsOption f = some option := by
  rw [Assoc.find_eq_some_iff _ _ _ (by decide)]
  cases f <;> simp [bkrsOptions, bkrsOption, @eq_comm Text option]

theorem readBkrsOption_text (server : TestInputServer) (entry : Text × Text) (f : Field) :
    (readBkrsOption server entry).text f = if bkrsOption f = some entry.1 then entry.2 else server.text f := by
  simp only [← find_bkrsOptions_iff]
  unfold readBkrsOption
  split
  · next field hfield => simp [hfield, eq_comm]
  · next hnone => simp [hnone]

/-- `port` is found in the name of the last option. -/
def PortTested (options : Dict Text Text) : Prop := ∃ option ∈ options.keys.getLast?, "port".toList <:+: option

instance (options : Dict Text Text) : Decidable (PortTested options) := by
  unfold PortTested
  infer_instance

/-- There is an option, and those that are taken from `[global]` are there. -/
structure Readable (options : Dict Text Text) (globals : Text → Option Text) : Prop where
  nonempty : options.keys ≠ []
  username : "username".toList ∈ options.keys ∨ (globals "username".toList).isSome
  password : "password".toList ∈ options.keys ∨ (globals "password".toList).isSome
  port : PortTested options ∨ (globals "port".toList).isSome

/-- What the attributes are. -/
def bkrsText (options : Dict Text Text) (globals : Text → Option Text) (settings : MembaseSetting) : Field → Text
  | .ip => (options.get? "ip".toList).getD []
  | .sshUsername => if "username".toList ∈ options.keys then [] else (globals "username".toList).getD []
  | .sshPassword => ((options.get? "password".toList).or (globals "password".toList)).getD []
  | .port => if PortTested options then (options.get? "port".toList).getD [] else (globals "port".toList).getD []
  | .restUsername => settings.restUsername
  | .restPassword => settings.restPassword
  | _ => []

section SetGlobal

variable {server server' : TestInputServer} {field : Field} {given : Bool} {value : Option Text}

theorem TestInputServer.exists_setGlobal_iff :
    (∃ server', server.setGlobal field given value = some server') ↔ given = true ∨ value.isSome := by
  unfold TestInputServer.setGlobal
  rcases given with _ | _
  · rcases value with _ | value <;> simp
  · simp

theorem TestInputServer.setGlobal_text (h : server.setGlobal field given value = some server') (f : Field) :
    server'.text f = if f = field ∧ given = false then value.getD [] else server.text f := by
  unfold TestInputServer.setGlobal at h
  rcases given with _ | _
  · rcases value with _ | value
    · cases h
    · obtain rfl := Option.some.inj h
      simp
  · obtain rfl := Option.some.inj h
    simp

end SetGlobal

/-- There is no error exactly when the section is readable. -/
theorem exists_getBkrsClientConfig_iff (config : Config) (sectionName : Text) (globalProperties : Dict Text Text)
    (settings : MembaseSetting) :
    (∃ server, getBkrsClientConfig config sectionName globalProperties (some settings) = some server) ↔
      Readable ((config.get? sectionName).getD ∅) globalProperties.get? := by
  unfold getBkrsClientConfig
  simp only [Option.bind_eq_bind, Option.bind_eq_some_iff, Option.some_or, Option.some.injEq, Option.pure_def]
  constructor
  · rintro ⟨_, _, husername, _, hpassword, option, hoption, _, hport, _⟩
    refine ⟨?_, ?_, ?_, ?_⟩
    · rintro hnil
      rw [hnil] at hoption
      cases hoption
    · exact (TestInputServer.exists_setGlobal_iff.1 ⟨_, husername⟩).imp_left of_decide_eq_true
    · exact (TestInputServer.exists_setGlobal_iff.1 ⟨_, hpassword⟩).imp_left of_decide_eq_true
    · refine (TestInputServer.exists_setGlobal_iff.1 ⟨_, hport⟩).imp_left fun hinfix => ?_
      exact ⟨option, hoption, of_decide_eq_true hinfix⟩
  · rintro ⟨hne, husername, hpassword, hport⟩
    obtain ⟨option, hoption⟩ := Option.isSome_iff_exists.1 (List.getLast?_isSome.2 hne)
    have hport : decide ("port".toList <:+: option) = true ∨ (globalProperties.get? "port".toList).isSome := by
      refine hport.imp_left ?_
      rintro ⟨option', hoption', hinfix⟩
      obtain rfl : option = option' := Option.some.inj (hoption.symm.trans hoption')
      exact decide_eq_true hinfix
    obtain ⟨first, hfirst⟩ := TestInputServer.exists_setGlobal_iff.2 (husername.imp_left decide_eq_true)
    obtain ⟨second, hsecond⟩ := TestInputServer.exists_setGlobal_iff.2 (hpassword.imp_left decide_eq_true)
    obtain ⟨third, hthird⟩ := TestInputServer.exists_setGlobal_iff.2 hport
    exact ⟨_, first, hfirst, second, hsecond, option, hoption, third, hthird, settings, rfl, rfl⟩

/-- What the server has then. -/
theorem getBkrsClientConfig_text {globalProperties : Dict Text Text} {settings : MembaseSetting}
    {server : TestInputServer}
    (h : getBkrsClientConfig config sectionName globalProperties (some settings) = some server) (f : Field) :
    server.text f = bkrsText ((config.get? sectionName).getD ∅) globalProperties.get? settings f := by
  unfold getBkrsClientConfig at h
  simp only [Option.bind_eq_bind, Option.bind_eq_some_iff, Option.some_or, Option.some.injEq, Option.pure_def] at h
  obtain ⟨first, hfirst, second, hsecond, option, hoption, third, hthird, _, rfl, rfl⟩ := h
  generalize (config.get? sectionName).getD ∅ = options at *
  have htested : PortTested options ↔ "port".toList <:+: option := by
    simp [PortTested, hoption]
  have hread : (options.items.foldl readBkrsOption TestInputServer.new).text f
      = ((bkrsOption f).bind options.get?).getD [] :=
    Dict.observe_foldl_items (fun server : TestInputServer => server.text f) (bkrsOption f)
      (fun server entry => readBkrsOption_text server entry f) options TestInputServer.new
  have hfirst := TestInputServer.setGlobal_text hfirst f
  have hsecond := TestInputServer.setGlobal_text hsecond f
  have hthird := TestInputServer.setGlobal_text hthird f
  simp only [TestInputServer.set_text, hthird, hsecond, hfirst, hread, decide_eq_false_iff_not]
  cases f with
  | sshUsername =>
      by_cases husername : "username".toList ∈ options.keys
      · simp only [bkrsText, husername]
        rfl
      · simp only [bkrsText, husername]
        rfl
  | sshPassword =>
      by_cases hpassword : "password".toList ∈ options.keys
      · obtain ⟨value, hvalue⟩ := Dict.mem_keys_iff_exists.1 hpassword
        simp only [bkrsText, bkrsOption, Option.bind_some, hpassword, hvalue]
        rfl
      · simp only [bkrsText, hpassword, (Dict.not_mem_keys_iff _ _).1 hpassword]
        rfl
  | port =>
      by_cases hport : "port".toList <:+: option
      · simp only [bkrsText, htested, hport]
        rfl
      · simp only [bkrsText, htested, hport]
        rfl
  | _ => rfl

end Bkrs

/-! ## The loop over the sections -/

section Sections

variable {config : Config} {state state' state'' : ParseState} {sectionName : Text} {sections : List Text}

/-- The clusters that have come so far: the names of the servers of each. -/
structure ParseState.Has (state : ParseState) (clusterIps : List (List Text)) : Prop where
  flat : state.clusterIps = clusterIps.flatten
  count : state.count = clusterIps.length
  lengths : state.clusters.items = clusterIps.zipIdx.map fun p => (p.2, p.1.length)

/-- What sections do to the state, whatever `[bkrs_client]` does. -/
structure Passed (config : Config) (sections : List Text) (state state' : ParseState) : Prop where
  ips : state'.ips = if serversSection ∈ sections then getServerIps config serversSection else state.ips
  membaseSettings : state'.membaseSettings
    = if membaseSection ∈ sections then getMembaseSettings config membaseSection else state.membaseSettings
  globalProperties : ∀ option, state'.globalProperties.get? option
    = if globalSection ∈ sections
      then (((config.get? globalSection).getD ∅).get? option).or (state.globalProperties.get? option)
      else state.globalProperties.get? option
  clusters : ∀ clusterIps, state.Has clusterIps →
    state'.Has (clusterIps ++ (sections.filter isCluster).map (getServerIps config))

theorem Passed.refl (config : Config) (state : ParseState) : Passed config [] state state :=
  ⟨by simp, by simp, by simp, fun clusterIps h => by simpa using h⟩

theorem Passed.trans {sections' : List Text} (h : Passed config sections state state')
    (h' : Passed config sections' state' state'') : Passed config (sections ++ sections') state state'' := by
  refine ⟨?_, ?_, fun option => ?_, fun clusterIps hhas => ?_⟩
  · rw [h'.ips, h.ips]
    by_cases hlater : serversSection ∈ sections' <;> simp [hlater]
  · rw [h'.membaseSettings, h.membaseSettings]
    by_cases hlater : membaseSection ∈ sections' <;> simp [hlater]
  · rw [h'.globalProperties, h.globalProperties]
    by_cases hlater : globalSection ∈ sections' <;> by_cases hearlier : globalSection ∈ sections
    · simp [hlater, hearlier, ← Option.or_assoc]
    · simp [hlater, hearlier]
    · simp [hlater, hearlier]
    · simp [hlater, hearlier]
  · have := h'.clusters _ (h.clusters clusterIps hhas)
    rwa [List.append_assoc, ← List.map_append, ← List.filter_append] at this

theorem ParseState.Has.concat {clusterIps : List (List Text)} (h : state.Has clusterIps) (clusterList : List Text) :
    ({ state with
      clusterIps := state.clusterIps ++ clusterList
      clusters := state.clusters.set state.count clusterList.length
      count := state.count + 1 } : ParseState).Has (clusterIps ++ [clusterList]) := by
  obtain ⟨hflat, hcount, hlengths⟩ := h
  have hnew : state.count ∉ state.clusters.keys := by
    have hkeys : state.clusters.keys = state.clusters.items.map Prod.fst := rfl
    rw [hkeys, hlengths, hcount, List.map_map]
    intro hmem
    obtain ⟨⟨ips, i⟩, hi, heq⟩ := List.mem_map.1 hmem
    have := List.snd_lt_of_mem_zipIdx hi
    simp only [Function.comp_apply] at heq
    omega
  refine ⟨by simp [hflat], by simp [hcount], ?_⟩
  refine (Dict.items_set_of_not_mem hnew _).trans ?_
  rw [hlengths, hcount, List.zipIdx_append, List.map_append]
  simp

theorem passed_singleton
    (hips : state'.ips = if sectionName = serversSection then getServerIps config sectionName else state.ips)
    (hmembase : state'.membaseSettings
      = if sectionName = membaseSection then getMembaseSettings config sectionName else state.membaseSettings)
    (hglobal : ∀ option, state'.globalProperties.get? option = if sectionName = globalSection
      then (((config.get? sectionName).getD ∅).get? option).or (state.globalProperties.get? option)
      else state.globalProperties.get? option)
    (hclusters : ∀ clusterIps, state.Has clusterIps →
      state'.Has (if isCluster sectionName then clusterIps ++ [getServerIps config sectionName] else clusterIps)) :
    Passed config [sectionName] state state' := by
  refine ⟨?_, ?_, fun option => ?_, fun clusterIps hhas => ?_⟩
  · rw [hips]
    by_cases hs : sectionName = serversSection
    · simp [hs]
    · simp [hs, Ne.symm hs]
  · rw [hmembase]
    by_cases hs : sectionName = membaseSection
    · simp [hs]
    · simp [hs, Ne.symm hs]
  · rw [hglobal]
    by_cases hs : sectionName = globalSection
    · simp [hs]
    · simp [hs, Ne.symm hs]
  · have hone := hclusters clusterIps hhas
    by_cases hs : isCluster sectionName
    · simpa [hs] using hone
    · simpa [hs] using hone

/-- What one section does. -/
theorem parseSection_passed (h : parseSection config state sectionName = some state') :
    Passed config [sectionName] state state' := by
  unfold parseSection at h
  split at h
  · next hs =>
      subst hs
      obtain rfl := Option.some.inj h
      exact passed_singleton (if_pos rfl).symm (if_neg (by decide)).symm (fun _ => (if_neg (by decide)).symm)
        fun clusterIps hhas => ⟨hhas.flat, hhas.count, hhas.lengths⟩
  split at h
  · next hs =>
      subst hs
      obtain ⟨settings, hsettings, rfl⟩ := Option.map_eq_some_iff.1 h
      exact passed_singleton (if_neg (by decide)).symm (hsettings.symm.trans (if_pos rfl).symm)
        (fun _ => (if_neg (by decide)).symm) fun clusterIps hhas => ⟨hhas.flat, hhas.count, hhas.lengths⟩
  split at h
  · next hs =>
      subst hs
      obtain rfl := Option.some.inj h
      refine passed_singleton (if_neg (by decide)).symm (if_neg (by decide)).symm (fun option => ?_)
        fun clusterIps hhas => ⟨hhas.flat, hhas.count, hhas.lengths⟩
      rw [if_pos rfl]
      exact Dict.get?_foldl_set _ (Dict.nodup_keys _) _ _
  split at h
  · next hs =>
      subst hs
      obtain ⟨server, -, rfl⟩ := Option.map_eq_some_iff.1 h
      exact passed_singleton (if_neg (by decide)).symm (if_neg (by decide)).symm
        (fun _ => (if_neg (by decide)).symm) fun clusterIps hhas => ⟨hhas.flat, hhas.count, hhas.lengths⟩
  next hservers hmembase hglobal hbkrs =>
    split at h
    · next hcluster =>
        obtain rfl := Option.some.inj h
        refine passed_singleton (if_neg hservers).symm (if_neg hmembase).symm (fun _ => (if_neg hglobal).symm) ?_
        intro clusterIps hhas
        rw [if_pos hcluster]
        exact hhas.concat _
    · next hcluster =>
        obtain rfl := Option.some.inj h
        refine passed_singleton (if_neg hservers).symm (if_neg hmembase).symm (fun _ => (if_neg hglobal).symm) ?_
        intro clusterIps hhas
        rwa [if_neg hcluster]

/-- What the loop does. -/
theorem foldlM_parseSection_passed (h : sections.foldlM (parseSection config) state = some state') :
    Passed config sections state state' := by
  induction sections generalizing state with
  | nil =>
      obtain rfl := Option.some.inj h
      exact .refl config state
  | cons sectionName sections ih =>
      rw [List.foldlM_cons] at h
      obtain ⟨next, hnext, hrest⟩ := Option.bind_eq_some_iff.1 h
      exact (parseSection_passed hnext).trans (ih hrest)

/-- Only `[bkrs_client]` can fail. -/
theorem exists_foldlM_parseSection (hmem : ∀ sectionName ∈ sections, sectionName ∈ config.keys)
    (hbkrs : bkrsSection ∉ sections) (state : ParseState) :
    ∃ state', sections.foldlM (parseSection config) state = some state' ∧ state'.bkrsClient = state.bkrsClient := by
  induction sections generalizing state with
  | nil => exact ⟨state, rfl, rfl⟩
  | cons sectionName sections ih =>
      rw [List.forall_mem_cons] at hmem
      rw [List.mem_cons, not_or] at hbkrs
      obtain ⟨next, hnext, hsame⟩ : ∃ next, parseSection config state sectionName = some next ∧
          next.bkrsClient = state.bkrsClient := by
        obtain ⟨options, hoptions⟩ := Dict.mem_keys_iff_exists.1 hmem.1
        unfold parseSection
        rw [if_neg (Ne.symm hbkrs.1), getMembaseSettings_eq_some hoptions]
        split
        · exact ⟨_, rfl, rfl⟩
        split
        · exact ⟨_, rfl, rfl⟩
        split
        · exact ⟨_, rfl, rfl⟩
        split
        · exact ⟨_, rfl, rfl⟩
        · exact ⟨_, rfl, rfl⟩
      obtain ⟨last, hlast, hsame'⟩ := ih hmem.2 hbkrs.2 next
      exact ⟨last, by rw [List.foldlM_cons, hnext]; exact hlast, hsame'.trans hsame⟩

end Sections

/-! ## The servers of the clusters -/

section Clusters

variable {R : Text → TestInputServer → Prop}

/-- Each cluster gets its servers, from where the last one ended. -/
theorem foldl_sliceCluster {clusterIps : List (List Text)} {earlier later : List TestInputServer}
    (h : List.Forall₂ R clusterIps.flatten later) {clusters : Dict ℕ (List TestInputServer)} {first : ℕ}
    (hkeys : ∀ i ∈ clusters.keys, i < first) :
    ∃ slices, (((clusterIps.zipIdx first).map fun p => (p.2, p.1.length)).foldl (sliceCluster (earlier ++ later))
        (clusters, earlier.length, earlier.length)).1.items.map Prod.snd = clusters.items.map Prod.snd ++ slices ∧
      List.Forall₂ (List.Forall₂ R) clusterIps slices := by
  induction clusterIps generalizing earlier later clusters first with
  | nil => exact ⟨[], by simp, .nil⟩
  | cons ips clusterIps ih =>
      have hips : List.Forall₂ R ips (later.take ips.length) :=
        (List.forall₂_take_append later ips clusterIps.flatten h.flip).flip
      have hrest : List.Forall₂ R clusterIps.flatten (later.drop ips.length) :=
        (List.forall₂_drop_append later ips clusterIps.flatten h.flip).flip
      have hlength : (later.take ips.length).length = ips.length := hips.length_eq.symm
      have hnew : first ∉ clusters.keys := fun hmem => Nat.lt_irrefl first (hkeys first hmem)
      have hslice : ((earlier ++ later).take (earlier.length + ips.length)).drop earlier.length
          = later.take ips.length := by
        rw [List.take_length_add_append, List.drop_left]
      have hkeys' : ∀ i ∈ (clusters.set first (later.take ips.length)).keys, i < first + 1 := by
        intro i hi
        rcases (Dict.mem_keys_set _ _ _ _).1 hi with rfl | hi
        · exact Nat.lt_succ_self _
        · exact Nat.lt_succ_of_lt (hkeys i hi)
      obtain ⟨slices, hslices, hall⟩ := @ih (earlier ++ later.take ips.length) _ hrest _ _ hkeys'
      refine ⟨later.take ips.length :: slices, ?_, .cons hips hall⟩
      rw [List.length_append, hlength, List.append_assoc, List.take_append_drop,
        Dict.items_set_of_not_mem hnew, List.map_append, List.append_assoc] at hslices
      rw [List.zipIdx_cons, List.map_cons, List.foldl_cons, sliceCluster, hslice]
      exact hslices

end Clusters

end TestInfra.Ini
