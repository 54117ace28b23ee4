import TestInfra.TestInput.Ini

set_option autoImplicit false

/-! # Options of a server and of `[global]`

What a server is to have: the value that its own section gives, and otherwise the value of `[global]` or `[membase]`.
`ServerFieldRight` and `BkrsFieldRight` say for each attribute when it has that value. -/

namespace TestInfra.Ini

open PyText

/-! ## What a server is to have -/

/-- The attributes for user names, passwords, ports, services and paths. -/
def settings : List Field :=
  [.sshUsername, .sshPassword, .restUsername, .restPassword, .services, .port, .cliPath, .dataPath, .indexPath,
    .cbasPath, .n1qlPort, .indexPort, .ftsPort, .eventingPort, .esUsername, .esPassword]

/-- The option for an attribute. -/
def optionName : Field → Text
  | .ip => "ip".toList
  | .internalIp => "internal_ip".toList
  | .sshUsername => "username".toList
  | .sshPassword => "password".toList
  | .sshKey => "ssh_key".toList
  | .restUsername => "rest_username".toList
  | .restPassword => "rest_password".toList
  | .services => "services".toList
  | .port => "port".toList
  | .cliPath => "cli".toList
  | .dataPath => "data_path".toList
  | .indexPath => "index_path".toList
  | .cbasPath => "cbas_path".toList
  | .n1qlPort => "n1ql_port".toList
  | .indexPort => "index_port".toList
  | .ftsPort => "fts_port".toList
  | .eventingPort => "eventing_port".toList
  | .esUsername => "es_username".toList
  | .esPassword => "es_password".toList

/-- The section for those that do not give it. -/
def defaultSection : Field → Text
  | .restUsername | .restPassword => membaseSection
  | _ => globalSection

/-- The options of a section. -/
def optionsOf (config : Config) (sectionName : Text) : Dict Text Text := (config.get? sectionName).getD ∅

/-- What a section gives. -/
def optionValue (config : Config) (sectionName : Text) (f : Field) : Option Text :=
  (optionsOf config sectionName).get? (optionName f)

/-- The value for the section itself, and otherwise the one of `[global]` or `[membase]`. -/
def expected (config : Config) (sectionName : Text) (f : Field) : Text :=
  ((optionValue config sectionName f).or (optionValue config (defaultSection f) f)).getD []

/-- The server has what it is to have. -/
def Precedence (config : Config) (sectionName : Text) (server : TestInputServer) : Prop :=
  ∀ f ∈ settings, server.text f = expected config sectionName f

/-- `[global]` and `[membase]` come before `[bkrs_client]`. -/
structure IniFile where
  config : Config
  first : ∃ before after, config.keys = before ++ after ∧ globalSection ∈ before ∧ membaseSection ∈ before ∧
    bkrsSection ∉ before

/-- The sections of the servers of each cluster. -/
def clusterSections (config : Config) : List (List Text) := (config.keys.filter isCluster).map (getServerIps config)

/-- All servers have what they are to have. -/
structure Right (config : Config) (input : TestInput) : Prop where
  servers : List.Forall₂ (Precedence config) (getServerIps config serversSection) input.servers
  clusters : List.Forall₂ (List.Forall₂ (Precedence config)) (clusterSections config)
    (input.clusters.items.map Prod.snd)
  bkrsClient : bkrsSection ∈ config.keys →
    ∃ server, input.bkrsClient = some server ∧ Precedence config bkrsSection server

/-! ## When they do -/

/-- The attribute of a server is right. -/
def ServerFieldRight (config : Config) (sectionName : Text) (f : Field) : Prop :=
  let own := optionValue config sectionName f
  let given := (optionValue config (defaultSection f) f).getD []
  match f with
  -- `get_server` does not read them
  | .restUsername | .restPassword | .dataPath | .indexPath | .cbasPath | .esUsername | .esPassword =>
      ∀ value, own = some value → value = given
  -- `get_server_options` does not fill it in
  | .ftsPort => own = none → given = []
  -- an empty value is taken for none
  | _ => own = some [] → given = []

/-- The attribute of `[bkrs_client]` is right. -/
def BkrsFieldRight (config : Config) (f : Field) : Prop :=
  let own := optionValue config bkrsSection f
  let given := (optionValue config (defaultSection f) f).getD []
  match f with
  | .sshPassword => True
  -- it is looked for, but not read
  | .sshUsername => ∀ value, own = some value → value = []
  -- looked for in the name of the last option
  | .port => if PortTested (optionsOf config bkrsSection) then own = none → given = []
      else ∀ value, own = some value → value = given
  | .restUsername | .restPassword => ∀ value, own = some value → value = given
  -- neither read nor filled in
  | _ => expected config bkrsSection f = []

/-- Every attribute is right, and `[bkrs_client]` can be read. -/
structure OptionsRight (config : Config) : Prop where
  servers : ∀ sectionName ∈ getServerIps config serversSection, ∀ f ∈ settings, ServerFieldRight config sectionName f
  clusters : ∀ sectionNames ∈ clusterSections config, ∀ sectionName ∈ sectionNames, ∀ f ∈ settings,
    ServerFieldRight config sectionName f
  bkrsClient : bkrsSection ∈ config.keys →
    Readable (optionsOf config bkrsSection) (optionsOf config globalSection).get? ∧
      ∀ f ∈ settings, BkrsFieldRight config f

/-! ## Attributes -/

section Fields

variable {own given : Option Text}

theorem read_eq_iff : (if own.getD [] = [] then given.getD [] else own.getD []) = (own.or given).getD [] ↔
    (own = some [] → given.getD [] = []) := by
  rcases own with _ | value
  · simp
  · by_cases hempty : value = [] <;> simp [hempty]

theorem given_eq_iff : given.getD [] = (own.or given).getD [] ↔ ∀ value, own = some value → value = given.getD [] := by
  rcases own with _ | value
  · simp
  · simp [eq_comm]

theorem own_eq_iff : own.getD [] = (own.or given).getD [] ↔ (own = none → given.getD [] = []) := by
  rcases own with _ | value
  · exact eq_comm.trans ⟨fun h _ => h, fun h => h rfl⟩
  · simp

theorem dropped_eq_iff : (if own.isSome then [] else given.getD []) = (own.or given).getD [] ↔
    ∀ value, own = some value → value = [] := by
  rcases own with _ | value
  · simp
  · simp only [Option.isSome_some, if_true, Option.some_or, Option.getD_some, Option.some.injEq, forall_eq']
    exact eq_comm

end Fields

section Run

variable {config : Config} {sectionName : Text} {f : Field} {ini : IniFile}

/-- The settings of `[membase]`. -/
def settingsOf (config : Config) : MembaseSetting :=
  ⟨((optionsOf config membaseSection).get? "rest_username".toList).getD [],
    ((optionsOf config membaseSection).get? "rest_password".toList).getD []⟩

/-- What an attribute of a server is in the end. -/
def serverText (expanduser : Text → Text) (config : Config) (sectionName : Text) (f : Field) : Text :=
  let own := ((serverOption f).bind (optionsOf config sectionName).get?).getD (if f = .ip then sectionName else [])
  if own = [] then
    (filledIn expanduser (settingsOf config) (optionsOf config globalSection).get? f).getD []
  else own

/-- An attribute of a server is as expected exactly when it is right. -/
theorem serverText_eq_iff (expanduser : Text → Text) (hf : f ∈ settings) :
    serverText expanduser config sectionName f = expected config sectionName f
      ↔ ServerFieldRight config sectionName f := by
  cases f with
  | ip => simp [settings] at hf
  | internalIp => simp [settings] at hf
  | sshKey => simp [settings] at hf
  | restUsername => exact given_eq_iff
  | restPassword => exact given_eq_iff
  | dataPath => exact given_eq_iff
  | indexPath => exact given_eq_iff
  | cbasPath => exact given_eq_iff
  | esUsername => exact given_eq_iff
  | esPassword => exact given_eq_iff
  | ftsPort =>
      refine Iff.trans (Eq.congr_left ?_) own_eq_iff
      exact ite_eq_right_iff.2 fun h => h.symm
  | _ => exact read_eq_iff

/-- The same for `[bkrs_client]`. -/
theorem bkrsText_eq_iff (hf : f ∈ settings) :
    bkrsText (optionsOf config bkrsSection) (optionsOf config globalSection).get? (settingsOf config) f
      = expected config bkrsSection f ↔ BkrsFieldRight config f := by
  cases f with
  | ip => simp [settings] at hf
  | internalIp => simp [settings] at hf
  | sshKey => simp [settings] at hf
  | sshUsername =>
      refine Iff.trans (Eq.congr_left ?_) dropped_eq_iff
      exact ite_congr (propext (Dict.mem_keys_iff _ _)) (fun _ => rfl) fun _ => rfl
  | sshPassword => exact iff_of_true rfl trivial
  | port =>
      unfold BkrsFieldRight bkrsText
      by_cases htested : PortTested (optionsOf config bkrsSection)
      · simp only [htested, if_true]
        exact own_eq_iff
      · simp only [htested, if_false]
        exact given_eq_iff
  | restUsername => exact given_eq_iff
  | restPassword => exact given_eq_iff
  | _ => exact eq_comm

/-- A server is as expected exactly when all that matters is right. -/
theorem precedence_iff {expanduser : Text → Text} {server : TestInputServer}
    (h : ∀ f, server.text f = serverText expanduser config sectionName f) :
    Precedence config sectionName server ↔ ∀ f ∈ settings, ServerFieldRight config sectionName f := by
  refine forall₂_congr fun f hf => ?_
  rw [h, serverText_eq_iff expanduser hf]

/-- Related lists are related in another way exactly when the items of the first are right. -/
theorem forall₂_iff_of_forall₂ {α β : Type} {R S : α → β → Prop} {P : α → Prop} {l : List α} {m : List β}
    (h : List.Forall₂ R l m) (hRS : ∀ a b, R a b → (S a b ↔ P a)) : List.Forall₂ S l m ↔ ∀ a ∈ l, P a := by
  induction h with
  | nil => simp
  | cons hab _ ih => rw [List.forall₂_cons, List.forall_mem_cons, ih, hRS _ _ hab]

/-! ## The run -/

theorem getServer_text_eq (config : Config) (sectionName : Text) (f : Field) :
    (getServer config sectionName).text f
      = ((serverOption f).bind (optionsOf config sectionName).get?).getD (if f = .ip then sectionName else []) :=
  getServer_text config sectionName f

/-- The servers that are read from sections and filled. -/
theorem getServerOptions_getServer (expanduser : Text → Text) {globalProperties : Dict Text Text}
    (hglobal : ∀ option, globalProperties.get? option = (optionsOf config globalSection).get? option)
    (sectionNames : List Text) :
    ∃ servers, getServerOptions expanduser (sectionNames.map (getServer config)) (some (settingsOf config))
        globalProperties = some servers ∧
      List.Forall₂ (fun sectionName server => ∀ f, server.text f = serverText expanduser config sectionName f)
        sectionNames servers := by
  obtain ⟨servers, hservers, hall⟩ := getServerOptions_spec expanduser (settingsOf config) globalProperties
    (sectionNames.map (getServer config))
  refine ⟨servers, hservers, ?_⟩
  rw [List.forall₂_map_left_iff] at hall
  refine hall.imp fun sectionName server h f => ?_
  rw [h, getServer_text_eq, show globalProperties.get? = (optionsOf config globalSection).get? from funext hglobal]
  rfl

theorem IniFile.getMembaseSettings_eq (ini : IniFile) :
    getMembaseSettings ini.config membaseSection = some (settingsOf ini.config) := by
  obtain ⟨before, after, hkeys, -, hmembase, -⟩ := ini.first
  obtain ⟨options, hoptions⟩ := Dict.mem_keys_iff_exists.1 (hkeys ▸ List.mem_append_left after hmembase)
  rw [getMembaseSettings_eq_some hoptions, settingsOf, optionsOf, hoptions]
  rfl

theorem ParseState.new_has : ParseState.new.Has [] := ⟨rfl, rfl, rfl⟩

/-- What sections with `[global]` and `[membase]` among them leave behind. -/
theorem Passed.globals {sections : List Text} {state : ParseState}
    (h : Passed ini.config sections ParseState.new state) (hglobal : globalSection ∈ sections)
    (hmembase : membaseSection ∈ sections) :
    state.membaseSettings = some (settingsOf ini.config) ∧
      ∀ option, state.globalProperties.get? option = (optionsOf ini.config globalSection).get? option := by
  refine ⟨?_, fun option => ?_⟩
  · rw [h.membaseSettings, if_pos hmembase, ini.getMembaseSettings_eq]
  · rw [h.globalProperties, if_pos hglobal]
    exact Option.or_none

/-- When all sections have been read, the file has its servers. -/
theorem exists_parseFromFile (expanduser : Text → Text) (ini : IniFile) {state : ParseState}
    (h : ini.config.keys.foldlM (parseSection ini.config) ParseState.new = some state) :
    ∃ input, parseFromFile expanduser ini.config = some input ∧ input.bkrsClient = state.bkrsClient ∧
      List.Forall₂ (fun sectionName server => ∀ f, server.text f = serverText expanduser ini.config sectionName f)
        (getServerIps ini.config serversSection) input.servers ∧
      List.Forall₂ (List.Forall₂ fun sectionName server => ∀ f,
        server.text f = serverText expanduser ini.config sectionName f) (clusterSections ini.config)
        (input.clusters.items.map Prod.snd) := by
  have hpassed := foldlM_parseSection_passed h
  obtain ⟨before, after, hkeys, hglobal, hmembase, -⟩ := ini.first
  obtain ⟨hsettings, hglobals⟩ := hpassed.globals (hkeys ▸ List.mem_append_left after hglobal)
    (hkeys ▸ List.mem_append_left after hmembase)
  have hhas : state.Has (clusterSections ini.config) := hpassed.clusters [] ParseState.new_has
  have hips : state.ips = getServerIps ini.config serversSection := by
    rw [hpassed.ips]
    split
    · rfl
    · next hnot => rw [getServerIps, (Dict.not_mem_keys_iff _ _).1 hnot]; rfl
  obtain ⟨clusterServers, hclusterServers, hcluster⟩ := getServerOptions_getServer expanduser hglobals state.clusterIps
  obtain ⟨servers, hservers, hserver⟩ := getServerOptions_getServer expanduser hglobals state.ips
  rw [hhas.flat] at hcluster
  obtain ⟨slices, hslices, hall⟩ := @foldl_sliceCluster _ _ [] _ hcluster ∅ 0 (by simp)
  rw [← hhas.lengths] at hslices
  refine ⟨⟨servers, (state.clusters.items.foldl (sliceCluster clusterServers) (∅, 0, 0)).1, state.membaseSettings,
    state.bkrsClient⟩, ?_, rfl, hips ▸ hserver, ?_⟩
  · unfold parseFromFile
    rw [h]
    simp only [Option.bind_eq_bind, Option.bind_some, hsettings, hclusterServers, hservers]
    rfl
  · have hslices : (state.clusters.items.foldl (sliceCluster clusterServers) (∅, 0, 0)).1.items.map Prod.snd = slices :=
      hslices
    exact hslices ▸ hall

/-- Without `[bkrs_client]` all sections can be read. -/
theorem exists_foldlM_keys (ini : IniFile) (h : bkrsSection ∉ ini.config.keys) :
    ∃ state, ini.config.keys.foldlM (parseSection ini.config) ParseState.new = some state := by
  obtain ⟨state, hstate, -⟩ := exists_foldlM_parseSection (fun _ hmem => hmem) h ParseState.new
  exact ⟨state, hstate⟩

/-- With it, all other sections can, and `[global]` and `[membase]` are there when it comes. -/
theorem exists_foldlM_keys_eq (ini : IniFile) (h : bkrsSection ∈ ini.config.keys) :
    ∃ (early : ParseState) (rest : List Text),
      early.globalProperties.get? = (optionsOf ini.config globalSection).get? ∧
      (∀ sectionName ∈ rest, sectionName ∈ ini.config.keys) ∧ bkrsSection ∉ rest ∧
      ini.config.keys.foldlM (parseSection ini.config) ParseState.new
        = (getBkrsClientConfig ini.config bkrsSection early.globalProperties (some (settingsOf ini.config))).bind
            fun server => rest.foldlM (parseSection ini.config) { early with bkrsClient := some server } := by
  obtain ⟨before, after, hkeys, hglobal, hmembase, hbefore⟩ := ini.first
  have hafter : bkrsSection ∈ after := by
    rw [hkeys, List.mem_append] at h
    exact h.resolve_left hbefore
  obtain ⟨mid, rest, rfl⟩ := List.append_of_mem hafter
  rw [← List.append_assoc] at hkeys
  have hnodup := ini.config.nodup_keys
  rw [hkeys, List.nodup_middle, List.nodup_cons, List.mem_append, not_or] at hnodup
  obtain ⟨⟨hearly, hlate⟩, -⟩ := hnodup
  have hearlyKeys : ∀ sectionName ∈ before ++ mid, sectionName ∈ ini.config.keys :=
    fun sectionName hsection => hkeys ▸ List.mem_append_left _ hsection
  have hlateKeys : ∀ sectionName ∈ rest, sectionName ∈ ini.config.keys :=
    fun sectionName hsection => hkeys ▸ List.mem_append_right _ (List.mem_cons_of_mem _ hsection)
  obtain ⟨early, hrun, -⟩ := exists_foldlM_parseSection hearlyKeys hearly ParseState.new
  obtain ⟨hsettings, hglobals⟩ := (foldlM_parseSection_passed hrun).globals (List.mem_append_left mid hglobal)
    (List.mem_append_left mid hmembase)
  refine ⟨early, rest, funext hglobals, hlateKeys, hlate, ?_⟩
  have hstep : parseSection ini.config early bkrsSection = (getBkrsClientConfig ini.config bkrsSection
      early.globalProperties (some (settingsOf ini.config))).map fun server =>
        { early with bkrsClient := some server } := by
    unfold parseSection
    rw [if_neg (by decide), if_neg (by decide), if_neg (by decide), if_pos rfl, hsettings]
  calc ini.config.keys.foldlM (parseSection ini.config) ParseState.new
      _ = (parseSection ini.config early bkrsSection).bind
            fun state => rest.foldlM (parseSection ini.config) state := by
        rw [hkeys, List.foldlM_append, hrun]
        rfl
      _ = _ := by
        rw [hstep, Option.bind_map]
        rfl

/-- They can exactly when it is readable, and then its server is what is read from it. -/
theorem foldlM_keys_of_mem (ini : IniFile) (h : bkrsSection ∈ ini.config.keys) :
    ((∃ state, ini.config.keys.foldlM (parseSection ini.config) ParseState.new = some state) ↔
        Readable (optionsOf ini.config bkrsSection) (optionsOf ini.config globalSection).get?) ∧
      ∀ state, ini.config.keys.foldlM (parseSection ini.config) ParseState.new = some state →
        ∃ server, state.bkrsClient = some server ∧ ∀ f, server.text f = bkrsText (optionsOf ini.config bkrsSection)
          (optionsOf ini.config globalSection).get? (settingsOf ini.config) f := by
  obtain ⟨early, rest, hglobals, hkeys, hnot, hrun⟩ := exists_foldlM_keys_eq ini h
  have hreadable := exists_getBkrsClientConfig_iff ini.config bkrsSection early.globalProperties (settingsOf ini.config)
  rw [hglobals] at hreadable
  have hrest := fun server => exists_foldlM_parseSection hkeys hnot { early with bkrsClient := some server }
  rw [hrun]
  refine ⟨⟨?_, ?_⟩, ?_⟩
  · rintro ⟨state, hstate⟩
    obtain ⟨server, hserver, -⟩ := Option.bind_eq_some_iff.1 hstate
    exact hreadable.1 ⟨server, hserver⟩
  · intro hread
    obtain ⟨server, hserver⟩ := hreadable.2 hread
    obtain ⟨last, hlast, -⟩ := hrest server
    exact ⟨last, Option.bind_eq_some_iff.2 ⟨server, hserver, hlast⟩⟩
  · intro state hstate
    obtain ⟨server, hserver, hlast⟩ := Option.bind_eq_some_iff.1 hstate
    obtain ⟨last, hlast', hsame⟩ := hrest server
    obtain rfl : last = state := Option.some.inj (hlast'.symm.trans hlast)
    refine ⟨server, hsame, fun f => ?_⟩
    rw [getBkrsClientConfig_text hserver f, hglobals]
    rfl

/-- Once all sections have been read, only the values matter. -/
theorem parseFromFile_right_iff_of_state (expanduser : Text → Text) {state : ParseState}
    (h : ini.config.keys.foldlM (parseSection ini.config) ParseState.new = some state) :
    (∃ input, parseFromFile expanduser ini.config = some input ∧ Right ini.config input) ↔
      (∀ sectionName ∈ getServerIps ini.config serversSection, ∀ f ∈ settings,
        ServerFieldRight ini.config sectionName f) ∧
      (∀ sectionNames ∈ clusterSections ini.config, ∀ sectionName ∈ sectionNames, ∀ f ∈ settings,
        ServerFieldRight ini.config sectionName f) ∧
      (bkrsSection ∈ ini.config.keys →
        ∃ server, state.bkrsClient = some server ∧ Precedence ini.config bkrsSection server) := by
  obtain ⟨input, hinput, hclient, hips, hclusters⟩ := exists_parseFromFile expanduser ini h
  have hserver : ∀ sectionName server, (∀ f, server.text f = serverText expanduser ini.config sectionName f) →
      (Precedence ini.config sectionName server ↔ ∀ f ∈ settings, ServerFieldRight ini.config sectionName f) :=
    fun _ _ => precedence_iff
  have hone := forall₂_iff_of_forall₂ hips hserver
  have hmany : List.Forall₂ (List.Forall₂ (Precedence ini.config)) (clusterSections ini.config)
      (input.clusters.items.map Prod.snd) ↔ _ :=
    forall₂_iff_of_forall₂ hclusters fun sectionNames servers hcluster => forall₂_iff_of_forall₂ hcluster hserver
  rw [← hone, ← hmany, ← hclient]
  constructor
  · rintro ⟨input', hinput', hright⟩
    obtain rfl : input = input' := Option.some.inj (hinput.symm.trans hinput')
    exact ⟨hright.servers, hright.clusters, hright.bkrsClient⟩
  · rintro ⟨hservers, hslices, hbkrs⟩
    exact ⟨input, hinput, hservers, hslices, hbkrs⟩

/-- **Every server has what its section gives, and otherwise what `[global]` or `[membase]` give, exactly when** every
attribute is right and `[bkrs_client]` can be read. -/
theorem parseFromFile_right_iff (expanduser : Text → Text) (ini : IniFile) :
    (∃ input, parseFromFile expanduser ini.config = some input ∧ Right ini.config input) ↔ OptionsRight ini.config := by
  rcases hrun : ini.config.keys.foldlM (parseSection ini.config) ParseState.new with _ | state
  · -- `[bkrs_client]` cannot be read
    have hmem : bkrsSection ∈ ini.config.keys := by
      by_contra hnot
      obtain ⟨state, hstate⟩ := exists_foldlM_keys ini hnot
      rw [hrun] at hstate
      cases hstate
    refine iff_of_false ?_ fun hright => ?_
    · rintro ⟨input, hinput, -⟩
      rw [parseFromFile, hrun] at hinput
      cases hinput
    · obtain ⟨state, hstate⟩ := (foldlM_keys_of_mem ini hmem).1.2 (hright.bkrsClient hmem).1
      rw [hrun] at hstate
      cases hstate
  · rw [parseFromFile_right_iff_of_state expanduser hrun]
    have hbkrs : bkrsSection ∈ ini.config.keys →
        ((∃ server, state.bkrsClient = some server ∧ Precedence ini.config bkrsSection server) ↔
          Readable (optionsOf ini.config bkrsSection) (optionsOf ini.config globalSection).get? ∧
            ∀ f ∈ settings, BkrsFieldRight ini.config f) := by
      intro hmem
      obtain ⟨hexists, hserver⟩ := foldlM_keys_of_mem ini hmem
      obtain ⟨server, hclient, htext⟩ := hserver state hrun
      rw [hclient, and_iff_right (hexists.1 ⟨state, hrun⟩)]
      have hfields : Precedence ini.config bkrsSection server ↔ ∀ f ∈ settings, BkrsFieldRight ini.config f := by
        refine forall₂_congr fun f hf => ?_
        rw [htext, bkrsText_eq_iff hf]
      rw [← hfields]
      simp
    constructor
    · rintro ⟨hservers, hclusters, hclient⟩
      exact ⟨hservers, hclusters, fun hmem => (hbkrs hmem).1 (hclient hmem)⟩
    · rintro ⟨hservers, hclusters, hclient⟩
      exact ⟨hservers, hclusters, fun hmem => (hbkrs hmem).2 (hclient hmem)⟩

end Run

/-- The options of a section, in order. -/
def sectionOf (options : List (String × String)) : Dict Text Text :=
  options.foldl (fun dict entry => dict.set entry.1.toList entry.2.toList) ∅

/-- `[global]` and `[membase]`, and a `[bkrs_client]` with a user name of its own. -/
def backupIni : IniFile where
  config := (((∅ : Config).set globalSection (sectionOf [("username", "root"), ("password", "couchbase"),
    ("port", "8091")])).set membaseSection (sectionOf [("rest_username", "Administrator"),
    ("rest_password", "password")])).set bkrsSection (sectionOf [("ip", "10.0.0.1"), ("username", "backup")])
  first := ⟨[globalSection, membaseSection], [bkrsSection], by decide⟩

/-- The user name of `[bkrs_client]` is lost. -/
theorem parseFromFile_bkrsClient : ¬ ∀ (expanduser : Text → Text) (ini : IniFile),
    ∃ input, parseFromFile expanduser ini.config = some input ∧ Right ini.config input := by
  intro h
  obtain ⟨input, hinput, hright⟩ := h id backupIni
  obtain ⟨server, hserver, hprecedence⟩ := hright.bkrsClient (by decide)
  have hexpected := hprecedence .sshUsername (by decide)
  have htext : (parseFromFile id backupIni.config).map (fun input => input.bkrsClient.map fun server =>
      server.text .sshUsername) = some (some []) := by decide
  rw [hinput, Option.map_some, hserver, Option.map_some, hexpected] at htext
  revert htext
  decide

end TestInfra.Ini
