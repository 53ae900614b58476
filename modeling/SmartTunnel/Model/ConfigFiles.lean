import SmartTunnel.Base.Jvm

/-!
# The list of configs and their files

A config is an entry of the list that `PrefsUtil` keeps and a file that `ConfigsUtil` keeps, and
no operation changes both at once. `AddSSHConfigActivity.saveConfig` and its OpenVPN twin, and
`ConfigsFragment.onConvertClicked`, write the file and list the config when they have come back to
`ConfigsFragment`; `processImport` lists it and then writes the file; the delete button takes it
off the list and schedules `DeleteConfigFileService`, which reads the list and then deletes the
files that it does not name, one after the other.

A state is what is stored and how far each operation in progress has come. `PrefsUtil` writes the
list on the main thread only, so each of its calls is one step.
-/

namespace SmartTunnel

open Jvm

namespace ConfigFiles

/-- `sshFolderName` and `openVPNFolderName`. -/
inductive Folder
  | ssh
  | openvpn
  deriving DecidableEq, Repr

/-- `CONFIG_TYPE` of `SSHConfig` and of `OpenVpnConfig`. -/
def Folder.configType : Folder → String
  | ssh => "SSH"
  | openvpn => "OpenVPN"

/-- A file in the configs folder, by its folder and its name. -/
abbrev File := Folder × String

/-- `ConfigListModel`. Two of them are equal for the source if their ids are. The type of an
imported config is what its JSON says. -/
structure ConfigListModel where
  configId : String
  type : String
  deriving DecidableEq, Repr

/-- The file of a config; there is none for a type that `saveConfig` does not know. -/
def configFile (config : ConfigListModel) : Option File :=
  if config.type = Folder.ssh.configType then some (.ssh, config.configId)
  else if config.type = Folder.openvpn.configType then some (.openvpn, config.configId)
  else none

/-- The preferences, the configs folder and the work that `WorkManager` has to do. -/
structure Storage where
  configs : List ConfigListModel := []
  folders : List Folder := []
  files : List File := []
  scheduled : Bool := false
  deriving DecidableEq, Repr

namespace PrefsUtil

/-- An entry with the same id is replaced. -/
def addConfig (model : ConfigListModel) (configs : List ConfigListModel) : List ConfigListModel :=
  if configs.any fun conf => conf.configId = model.configId then
    configs.map fun conf => if conf.configId = model.configId then model else conf
  else configs ++ [model]

def deleteConfig (model : ConfigListModel) (configs : List ConfigListModel) : List ConfigListModel :=
  configs.filter fun config => config.configId ≠ model.configId

end PrefsUtil

/-- How the `FileOutputStream` of `saveConfig` does. One that fails may have made the file. -/
inductive Write
  | written
  | failed (created : Bool)
  deriving DecidableEq, Repr

def saveConfig (write : Write) (config : ConfigListModel) : Java Storage Bool := do
  match configFile config with
  | none => return false
  | some file =>
    modify fun s => { s with folders := s.folders.insert file.1 }
    match write with
    | .written =>
      modify fun s => { s with files := s.files.insert file }
      return true
    | .failed created =>
      if created then modify fun s => { s with files := s.files.insert file }
      throw .ioException

/-- `containConfigFile`: the folder of the file is not looked at. -/
def containConfigFile (configListModels : List ConfigListModel) (name : String) : Bool :=
  configListModels.any fun model => model.configId = name

/-- What an operation in progress does next. -/
inductive Operation
  /-- A save or a conversion writes the file … -/
  | saveConfig (config : ConfigListModel)
  /-- … and then lists the config. -/
  | addConfig (config : ConfigListModel)
  /-- An import that read the list at its beginning checks and lists the config … -/
  | importConfig (currentConfigs : List ConfigListModel) (config : ConfigListModel)
  /-- … and then writes the file. -/
  | importSave (config : ConfigListModel)
  /-- The delete button takes the config off the list … -/
  | deleteConfig (config : ConfigListModel)
  /-- … and schedules the worker. -/
  | scheduleWork
  /-- The worker reads the list, … -/
  | getAllConfigs
  /-- … lists the folders, … -/
  | listFolders (configs : List ConfigListModel)
  /-- … lists the files of the next folder … -/
  | listFiles (configs : List ConfigListModel) (folders : List Folder)
  /-- … and deletes those of them that the list does not name. -/
  | deleteFiles (configs : List ConfigListModel) (folder : Folder) (names : List String) (folders : List Folder)
  deriving DecidableEq, Repr

/-- What the platform decides in a step: how a write does, whether the fragment is still
attached, and the order in which `listFiles` gives what it found. -/
structure Environment where
  write : Write := .written
  attached : Bool := true
  folders : List Folder := []
  names : List String := []
  deriving DecidableEq, Repr

/-- What was found, in the order given if that is an order of it. -/
def arranged {α : Type} [DecidableEq α] (order found : List α) : List α :=
  if order.Perm found then order else found

def filesOf (folder : Folder) (files : List File) : List String :=
  (files.filter fun file => file.1 = folder).map Prod.snd

/-- The next step of an operation, and what is left of the operation. -/
def perform (env : Environment) : Operation → Java Storage (Option Operation)
  | .saveConfig config => do
    let _ ← saveConfig env.write config
    return some (.addConfig config)
  | .addConfig config => do
    if env.attached then modify fun s => { s with configs := PrefsUtil.addConfig config s.configs }
    return none
  | .importConfig currentConfigs config => do
    -- the list may have changed since it was read
    if currentConfigs.any fun model => model.configId = config.configId then return none
    modify fun s => { s with configs := PrefsUtil.addConfig config s.configs }
    return some (.importSave config)
  | .importSave config => do
    let _ ← saveConfig env.write config
    return none
  | .deleteConfig config => do
    modify fun s => { s with configs := PrefsUtil.deleteConfig config s.configs }
    return some .scheduleWork
  | .scheduleWork => do
    modify fun s => { s with scheduled := true }
    return none
  | .getAllConfigs => return some (.listFolders (← get).configs)
  | .listFolders configs => return some (.listFiles configs (arranged env.folders (← get).folders))
  | .listFiles _ [] => return none
  | .listFiles configs (folder :: folders) => do
    let names := arranged env.names (filesOf folder (← get).files)
    return some (.deleteFiles configs folder names folders)
  | .deleteFiles configs _ [] folders => return some (.listFiles configs folders)
  | .deleteFiles configs folder (name :: names) folders => do
    if ¬ containConfigFile configs name then
      modify fun s => { s with files := s.files.filter (· ≠ (folder, name)) }
    return some (.deleteFiles configs folder names folders)

structure State where
  storage : Storage := {}
  running : List Operation := []
  deriving DecidableEq, Repr

inductive Event
  /-- A save or a conversion begins; its config has the type of the activity. -/
  | save (folder : Folder) (configId : String)
  | importConfig (config : ConfigListModel)
  | delete (config : ConfigListModel)
  /-- `WorkManager` starts the worker. One that is replaced while it runs is not interrupted. -/
  | doWork
  /-- An operation in progress takes its next step. -/
  | next (op : Operation) (env : Environment)
  deriving DecidableEq, Repr

/-- An operation that raises is over; its exception has been caught. -/
def step (s : State) : Event → State
  | .save folder configId =>
    { s with running := .saveConfig ⟨configId, folder.configType⟩ :: s.running }
  | .importConfig config =>
    { s with running := .importConfig s.storage.configs config :: s.running }
  | .delete config => { s with running := .deleteConfig config :: s.running }
  | .doWork =>
    if s.storage.scheduled then
      { storage := { s.storage with scheduled := false }, running := .getAllConfigs :: s.running }
    else s
  | .next op env =>
    if op ∈ s.running then
      match Java.exec (perform env op) s.storage with
      | (.ok rest, storage) => { storage := storage, running := rest.toList ++ s.running.erase op }
      | (.error _, storage) => { storage := storage, running := s.running.erase op }
    else s

end ConfigFiles

end SmartTunnel
