import Mathlib
import SmartTunnel.Model.ConfigFiles

/-!
# The configs that the user sees

`ConfigsFragment` shows the models of `ConfigListAdapter`, and `PrefsUtil` keeps their JSON in a set of
strings and the JSON of the selected config beside it. That a model is selected is a flag of the object,
which its JSON does not have. Each operation of the user changes the models, the set and the selected config
by its own rule.
-/

namespace SmartTunnel

namespace ConfigsFragment

/-- `SSHConfig.CONFIG_TYPE` -/
abbrev SSH_TYPE : String := ConfigFiles.Folder.ssh.configType

/-- `OpenVpnConfig.CONFIG_TYPE` -/
abbrev OPEN_VPN_TYPE : String := ConfigFiles.Folder.openvpn.configType

structure ConfigListModel where
  name : Option String
  configId : Option String
  type : String
  timeCreated : ℤ
  note : Option String := none
  /-- transient -/
  selected : Bool := false
  deriving DecidableEq, Repr

/-- Two models are equal for the source if their ids are. -/
def ConfigListModel.equals (a b : ConfigListModel) : Bool := a.configId = b.configId

def ConfigListModel.setSelected (selected : Bool) (model : ConfigListModel) : ConfigListModel :=
  { model with selected := selected }

/-- A model that was written as JSON and read again. -/
def ConfigListModel.json (model : ConfigListModel) : ConfigListModel := model.setSelected false

end ConfigsFragment

open ConfigsFragment

/-- The preferences, the list of the adapter, and the model that the snack bar can bring back. -/
structure ConfigsFragment where
  configs : Finset ConfigListModel := ∅
  selectedConfig : Option ConfigListModel := none
  mModels : List ConfigListModel := []
  mLastDeleted : Option (ConfigListModel × ℕ) := none
  deriving DecidableEq

namespace ConfigsFragment

/-! ## `PrefsUtil` -/

def setSelectedConfig (model : Option ConfigListModel) (s : ConfigsFragment) : ConfigsFragment :=
  { s with selectedConfig := model.map (·.json) }

/-- `PrefsUtil.addConfig` -/
def putConfig (model : ConfigListModel) (s : ConfigsFragment) : ConfigsFragment :=
  let configs :=
    if ∃ conf ∈ s.configs, conf.configId = model.configId then
      s.configs.image fun conf => if conf.configId = model.configId then model.json else conf
    else insert model.json s.configs
  let s := { s with configs := configs }
  if model.selected then s.setSelectedConfig (some model) else s

def deleteConfig (model : ConfigListModel) (s : ConfigsFragment) : ConfigsFragment :=
  let s := if s.selectedConfig.any model.equals then s.setSelectedConfig none else s
  { s with configs := s.configs.filter fun config => ¬ model.equals config }

/-! ## `ConfigListAdapter` -/

def addConfig (config : ConfigListModel) (pos : ℕ) (s : ConfigsFragment) : ConfigsFragment :=
  { s with mModels := s.mModels.insertIdx pos config }

def itemDeleted (position : ℕ) (s : ConfigsFragment) : ConfigsFragment :=
  { s with mModels := s.mModels.eraseIdx position }

/-- The model that takes the place of the one with its id, and the list after it. -/
def configUpdated (config : ConfigListModel) (s : ConfigsFragment) : ConfigListModel × ConfigsFragment :=
  match s.mModels.findIdx? config.equals with
  | none => (config, s)
  | some pos =>
    let config := if (s.mModels[pos]?).any (·.selected) then config.setSelected true else config
    (config, { s with mModels := s.mModels.set pos config })

def select (selected : ConfigListModel) (position : ℕ) (s : ConfigsFragment) : ConfigsFragment :=
  { s with mModels := s.mModels.modify position (·.setSelected true) }.setSelectedConfig (some selected)

/-- `setSelected` of the model at `position`: the first flag in the list is taken away. -/
def setSelected (position : ℕ) (s : ConfigsFragment) : ConfigsFragment :=
  match s.mModels[position]? with
  | none => s
  | some selected =>
    match s.mModels.findIdx? (·.selected) with
    | none => s.select selected position
    | some i =>
      -- the selected model is selected again
      if (s.mModels[i]?).any selected.equals then s
      else { s with mModels := s.mModels.modify i (·.setSelected false) }.select selected position

/-! ## `ConfigsFragment` -/

/-- Behind the last model, if there is no position. -/
def addConfigListModel (model : ConfigListModel) (configPosition : Option ℕ) (s : ConfigsFragment) : ConfigsFragment :=
  let model := if s.mModels.length = 0 then model.setSelected true else model
  let s := if s.mModels.length = 0 then s.setSelectedConfig (some model) else s
  (s.addConfig model (configPosition.getD s.mModels.length)).putConfig model

/-- The model that comes back from an edit. The SSH activity makes a new one of the config that it has saved,
whose id is new if the file of the config could not be loaded. -/
def edited (model : ConfigListModel) (name configId : Option String) (now : ℤ) : Option ConfigListModel :=
  if model.type = SSH_TYPE then some { name := name, configId := configId, type := SSH_TYPE, timeCreated := now }
  else if model.type = OPEN_VPN_TYPE then some { model.json with name := name }
  else none

inductive Event
  | add (model : ConfigListModel)
  | edit (position : ℕ) (name configId : Option String) (now : ℤ)
  | importConfig (model : ConfigListModel)
  /-- The converted config has a new id. -/
  | convert (position : ℕ) (name configId : Option String) (now : ℤ)
  | delete (position : ℕ)
  | undo
  | select (position : ℕ)
  deriving DecidableEq, Repr

def edit (position : ℕ) (name configId : Option String) (now : ℤ) (s : ConfigsFragment) : ConfigsFragment :=
  match (s.mModels[position]?).bind (edited · name configId now) with
  | none => s
  | some listModel =>
    let (listModel, s) := s.configUpdated listModel
    s.putConfig listModel

/-- A config that is in the list already is not imported. -/
def importConfig (model : ConfigListModel) (s : ConfigsFragment) : ConfigsFragment :=
  let model := model.setSelected (s.mModels.length = 0)
  if ∃ conf ∈ s.configs, model.equals conf then s else s.addConfigListModel model none

/-- An OpenVPN config can be converted, which adds an SSH config. -/
def convert (position : ℕ) (name configId : Option String) (now : ℤ) (s : ConfigsFragment) : ConfigsFragment :=
  if (s.mModels[position]?).any (·.type = OPEN_VPN_TYPE) then
    s.addConfigListModel { name := name, configId := configId, type := SSH_TYPE, timeCreated := now } none
  else s

def delete (position : ℕ) (s : ConfigsFragment) : ConfigsFragment :=
  match s.mModels[position]? with
  | none => s
  | some model => { (s.itemDeleted position).deleteConfig model with mLastDeleted := some (model, position) }

/-- The snack bar is gone when its action was taken. -/
def undo (s : ConfigsFragment) : ConfigsFragment :=
  match s.mLastDeleted with
  | none => s
  | some (model, position) => { s.addConfigListModel model (some position) with mLastDeleted := none }

def step (s : ConfigsFragment) : Event → ConfigsFragment
  | .add model => s.addConfigListModel model.json none
  | .edit position name configId now => s.edit position name configId now
  | .importConfig model => s.importConfig model
  | .convert position name configId now => s.convert position name configId now
  | .delete position => s.delete position
  | .undo => s.undo
  | .select position => s.setSelected position

end ConfigsFragment

end SmartTunnel
