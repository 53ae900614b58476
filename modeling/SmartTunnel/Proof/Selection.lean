import SmartTunnel.Base.Run
import SmartTunnel.Base.Table
import SmartTunnel.Model.ConfigsFragment

/-!
# The selected config

The flags, the stored configs and the selected config tell the same story (`Consistent`) as long as the models
have different ids and at most one of them is flagged (`Inv`). Three things end this: a deleted model keeps its
flag and comes back with it when another one has been selected, it comes back when its id is in the list again,
and an edit comes back with an id that is not in the list. `selection_iff`: a run without these, and only such a
run, is consistent after every step.
-/

namespace SmartTunnel.ConfigsFragment

open Table

variable {s : ConfigsFragment} {model m a : ConfigListModel}

/-! ## What is to hold -/

/-- The list, the stored configs and the selected config agree. -/
structure Consistent (s : ConfigsFragment) : Prop where
  once : ∀ c ∈ s.configs, ∀ d ∈ s.configs, c.configId = d.configId → c = d
  same : s.configs.val.map (·.configId) = s.mModels.map (·.configId)
  one : s.mModels.countP (·.selected) ≤ 1
  flagged : ∀ m ∈ s.mModels, m.selected = true → s.selectedConfig = some m.json
  shown : ∀ c, s.selectedConfig = some c → ∃ m ∈ s.mModels, m.selected = true ∧ m.json = c
  stored : ∀ c, s.selectedConfig = some c → c ∈ s.configs

/-- The ids in the list. -/
def HasId (s : ConfigsFragment) (id : Option String) : Prop := ∃ m ∈ s.mModels, m.configId = id

/-- **The condition.** Added and converted configs have new ids, an edit comes back with an id of the list, and what
comes back by undo is not in the list and, if it has a flag, no other model has one. -/
def Guard (s : ConfigsFragment) : Event → Prop
  | .add model => ¬ s.HasId model.configId
  | .edit position name configId now => ∀ listModel,
    (s.mModels[position]?).bind (edited · name configId now) = some listModel → s.HasId listModel.configId
  | .convert position _ configId _ =>
    (s.mModels[position]?).any (·.type = OPEN_VPN_TYPE) = true → ¬ s.HasId configId
  | .undo => ∀ model position, s.mLastDeleted = some (model, position) →
    ¬ s.HasId model.configId ∧ (model.selected = true → ∀ m ∈ s.mModels, m.selected = false)
  | .importConfig _ | .delete _ | .select _ => True

/-- **The invariant.** -/
structure Inv (s : ConfigsFragment) : Prop where
  distinct : Distinct (·.configId) s.mModels
  configs : ∀ c, c ∈ s.configs ↔ ∃ m ∈ s.mModels, m.json = c
  flagged : ∀ m ∈ s.mModels, m.selected = true ↔ s.selectedConfig = some m.json
  known : ∀ c, s.selectedConfig = some c → ∃ m ∈ s.mModels, m.json = c
  position : ∀ model position, s.mLastDeleted = some (model, position) → position ≤ s.mModels.length

@[simp] theorem json_configId (m : ConfigListModel) : m.json.configId = m.configId := rfl

@[simp] theorem setSelected_selected (selected : Bool) (m : ConfigListModel) :
    (m.setSelected selected).selected = selected := rfl

theorem Inv.init : Inv {} := by
  refine ⟨List.nodup_nil, ?_, ?_, ?_, ?_⟩ <;> simp

theorem configId_of_json (h : m.json = a.json) : m.configId = a.configId := by
  rw [← json_configId m, h, json_configId]

/-- Models with the same JSON are the same model of the list. -/
theorem Inv.eq_of_json (h : Inv s) (hm : m ∈ s.mModels) (ha : a ∈ s.mModels) (hjson : m.json = a.json) : m = a :=
  h.distinct.eq_of_key hm ha (configId_of_json hjson)

/-- No two models are flagged: each has the JSON of the selected config. -/
theorem Inv.eq_of_selected (h : Inv s) (hm : m ∈ s.mModels) (ha : a ∈ s.mModels) (hflag : m.selected = true)
    (hflag' : a.selected = true) : m = a :=
  h.eq_of_json hm ha (Option.some.inj (((h.flagged m hm).1 hflag).symm.trans ((h.flagged a ha).1 hflag')))

theorem Inv.consistent (h : Inv s) : Consistent s := by
  have hset : s.configs = (s.mModels.map (·.json)).toFinset := by
    ext c
    simp [h.configs c]
  have hnodup : (s.mModels.map (·.json)).Nodup :=
    List.Nodup.of_map (·.configId) (by rw [List.map_map]; exact h.distinct)
  constructor
  · intro c hc d hd hid
    obtain ⟨m, hm, rfl⟩ := (h.configs c).1 hc
    obtain ⟨a, ha, rfl⟩ := (h.configs d).1 hd
    rw [h.distinct.eq_of_key hm ha hid]
  · rw [hset, List.toFinset_val, hnodup.dedup, Multiset.map_coe, List.map_map]
    rfl
  · rw [List.countP_eq_length_filter]
    apply (h.distinct.filter _).length_le_one
    intro m hm a ha
    obtain ⟨hm, hflag⟩ := List.mem_filter.1 hm
    obtain ⟨ha, hflag'⟩ := List.mem_filter.1 ha
    rw [h.eq_of_selected hm ha hflag hflag']
  · exact fun m hm => (h.flagged m hm).1
  · intro c hc
    obtain ⟨m, hm, rfl⟩ := h.known c hc
    exact ⟨m, hm, (h.flagged m hm).2 hc, rfl⟩
  · intro c hc
    exact (h.configs c).2 (h.known c hc)

theorem Consistent.distinct (h : Consistent s) : Distinct (·.configId) s.mModels := by
  have hnodup : (s.configs.val.map (·.configId)).Nodup :=
    Multiset.Nodup.map_on (fun c hc d hd hid => h.once c hc d hd hid) s.configs.nodup
  rw [h.same] at hnodup
  exact Multiset.coe_nodup.1 hnodup

/-! ## `PrefsUtil.addConfig` -/

@[simp] theorem putConfig_mModels (model : ConfigListModel) (s : ConfigsFragment) :
    (s.putConfig model).mModels = s.mModels := by
  unfold putConfig
  simp only
  split <;> rfl

@[simp] theorem putConfig_mLastDeleted (model : ConfigListModel) (s : ConfigsFragment) :
    (s.putConfig model).mLastDeleted = s.mLastDeleted := by
  unfold putConfig
  simp only
  split <;> rfl

theorem putConfig_selectedConfig (model : ConfigListModel) (s : ConfigsFragment) :
    (s.putConfig model).selectedConfig = if model.selected then some model.json else s.selectedConfig := by
  unfold putConfig
  simp only
  split <;> rfl

theorem putConfig_configs (model : ConfigListModel) (s : ConfigsFragment) : (s.putConfig model).configs =
    if ∃ conf ∈ s.configs, conf.configId = model.configId then
      s.configs.image fun conf => if conf.configId = model.configId then model.json else conf
    else insert model.json s.configs := by
  unfold putConfig
  simp only
  split <;> rfl

theorem mem_putConfig_self (model : ConfigListModel) (s : ConfigsFragment) : model.json ∈ (s.putConfig model).configs := by
  rw [putConfig_configs]
  split
  · rename_i hex
    obtain ⟨conf, hconf, hid⟩ := hex
    exact Finset.mem_image.2 ⟨conf, hconf, if_pos hid⟩
  · exact Finset.mem_insert_self _ _

/-! ## A model that comes in -/

/-- The model as it comes into the list: an empty list flags it. -/
def incoming (s : ConfigsFragment) (model : ConfigListModel) : ConfigListModel :=
  if s.mModels.length = 0 then model.setSelected true else model

theorem incoming_json (s : ConfigsFragment) (model : ConfigListModel) : (s.incoming model).json = model.json := by
  unfold incoming
  split <;> rfl

theorem incoming_configId (s : ConfigsFragment) (model : ConfigListModel) :
    (s.incoming model).configId = model.configId := configId_of_json (incoming_json s model)

theorem addConfigListModel_mModels (model : ConfigListModel) (pos : Option ℕ) (s : ConfigsFragment) :
    (s.addConfigListModel model pos).mModels =
      s.mModels.insertIdx (pos.getD s.mModels.length) (s.incoming model) := by
  unfold addConfigListModel incoming
  simp only [putConfig_mModels, addConfig]
  split <;> rfl

@[simp] theorem addConfigListModel_mLastDeleted (model : ConfigListModel) (pos : Option ℕ) (s : ConfigsFragment) :
    (s.addConfigListModel model pos).mLastDeleted = s.mLastDeleted := by
  unfold addConfigListModel
  simp only [putConfig_mLastDeleted, addConfig]
  split <;> rfl

theorem addConfigListModel_selectedConfig (model : ConfigListModel) (pos : Option ℕ) (s : ConfigsFragment) :
    (s.addConfigListModel model pos).selectedConfig =
      if (s.incoming model).selected then some model.json else s.selectedConfig := by
  rw [← incoming_json s model]
  unfold addConfigListModel incoming
  simp only [putConfig_selectedConfig, addConfig]
  by_cases hempty : s.mModels.length = 0
  · simp [hempty]
  · simp [hempty]

theorem addConfigListModel_configs (model : ConfigListModel) (pos : Option ℕ) (s : ConfigsFragment)
    (hnew : ∀ conf ∈ s.configs, conf.configId ≠ model.configId) :
    (s.addConfigListModel model pos).configs = insert model.json s.configs := by
  have hconfigs : ∀ t : ConfigsFragment, t.configs = s.configs →
      (t.putConfig (s.incoming model)).configs = insert model.json s.configs := by
    intro t ht
    rw [putConfig_configs, ht, incoming_configId, incoming_json, if_neg]
    rintro ⟨conf, hconf, hid⟩
    exact hnew conf hconf hid
  unfold addConfigListModel incoming at *
  apply hconfigs
  simp only [addConfig]
  split <;> rfl

/-- A model in the middle of the list is one in front of it. -/
theorem addConfigListModel_perm (model : ConfigListModel) (pos : Option ℕ)
    (hpos : pos.getD s.mModels.length ≤ s.mModels.length) :
    (s.addConfigListModel model pos).mModels.Perm (s.incoming model :: s.mModels) := by
  rw [addConfigListModel_mModels]
  exact List.perm_insertIdx _ _ hpos

/-- **A new model keeps the invariant**, if it does not bring a second flag. -/
theorem Inv.addConfigListModel (h : Inv s) (model : ConfigListModel) (pos : Option ℕ)
    (hpos : pos.getD s.mModels.length ≤ s.mModels.length) (hnew : ¬ s.HasId model.configId)
    (hflag : model.selected = true → ∀ m ∈ s.mModels, m.selected = false) : Inv (s.addConfigListModel model pos) := by
  have hperm := addConfigListModel_perm model pos hpos
  have hmem (m : ConfigListModel) : m ∈ (s.addConfigListModel model pos).mModels ↔ m = s.incoming model ∨ m ∈ s.mModels := by
    rw [hperm.mem_iff, List.mem_cons]
  have hnot : ∀ m ∈ s.mModels, m.configId ≠ model.configId := fun m hm hid => hnew ⟨m, hm, hid⟩
  have hne : ∀ m ∈ s.mModels, m.json ≠ model.json := fun m hm hjson =>
    hnot m hm (configId_of_json hjson)
  have hunknown : s.selectedConfig ≠ some model.json := by
    intro hsel
    obtain ⟨m, hm, hjson⟩ := h.known _ hsel
    exact hne m hm hjson
  -- whoever flags the new model, no other model has a flag then
  have halone : (s.incoming model).selected = true → ∀ m ∈ s.mModels, m.selected = false := by
    unfold incoming
    split
    · rename_i hempty
      intro _ m hm
      rw [List.length_eq_zero_iff.1 hempty] at hm
      cases hm
    · exact hflag
  have hselected := addConfigListModel_selectedConfig model pos s
  constructor
  · refine Distinct.perm (distinct_cons.2 ⟨fun m hm => ?_, h.distinct⟩) hperm.symm
    rw [incoming_configId]
    exact hnot m hm
  · intro c
    rw [addConfigListModel_configs model pos s, Finset.mem_insert, h.configs]
    · constructor
      · rintro (rfl | ⟨m, hm, rfl⟩)
        · exact ⟨_, (hmem _).2 (.inl rfl), incoming_json s model⟩
        · exact ⟨m, (hmem m).2 (.inr hm), rfl⟩
      · rintro ⟨m, hm, rfl⟩
        rcases (hmem m).1 hm with rfl | hm
        · exact .inl (incoming_json s model)
        · exact .inr ⟨m, hm, rfl⟩
    · intro conf hconf hid
      obtain ⟨m, hm, rfl⟩ := (h.configs conf).1 hconf
      exact hnot m hm hid
  · intro m hm
    rw [hselected]
    rcases (hmem m).1 hm with rfl | hm
    · rw [incoming_json]
      cases hflagged : (s.incoming model).selected with
      | true => simp
      | false => simpa using hunknown
    · cases hflagged : (s.incoming model).selected with
      | true => simpa [halone hflagged m hm] using (hne m hm).symm
      | false => simpa using h.flagged m hm
  · intro c hc
    rw [hselected] at hc
    cases hflagged : (s.incoming model).selected with
    | true =>
      rw [hflagged, if_pos rfl] at hc
      exact ⟨_, (hmem _).2 (.inl rfl), (incoming_json s model).trans (Option.some.inj hc)⟩
    | false =>
      rw [hflagged, if_neg (by simp)] at hc
      obtain ⟨m, hm, hjson⟩ := h.known c hc
      exact ⟨m, (hmem m).2 (.inr hm), hjson⟩
  · intro deleted position hdeleted
    rw [addConfigListModel_mLastDeleted] at hdeleted
    have hle := h.position deleted position hdeleted
    rw [hperm.length_eq, List.length_cons]
    omega

/-- **And only such a model does.** -/
theorem of_consistent_addConfigListModel (pos : Option ℕ) (hpos : pos.getD s.mModels.length ≤ s.mModels.length)
    (h : Consistent (s.addConfigListModel model pos)) :
    ¬ s.HasId model.configId ∧ (model.selected = true → ∀ m ∈ s.mModels, m.selected = false) := by
  have hperm := addConfigListModel_perm model pos hpos
  have hdistinct := (distinct_cons.1 (h.distinct.perm hperm)).1
  constructor
  · rintro ⟨m, hm, hid⟩
    exact hdistinct m hm (hid.trans (incoming_configId s model).symm)
  · intro hflag m hm
    have hone := h.one
    have hincoming : (s.incoming model).selected = true := by
      unfold incoming
      split
      · rfl
      · exact hflag
    rw [hperm.countP_eq, List.countP_cons, if_pos hincoming] at hone
    have hzero : s.mModels.countP (·.selected) = 0 := by omega
    simpa using List.countP_eq_zero.1 hzero m hm

/-! ## A model that is edited -/

/-- The config in the place of the model with its id. -/
def replace (config m : ConfigListModel) : ConfigListModel := if m.configId = config.configId then config else m

theorem replace_configId (config m : ConfigListModel) : (replace config m).configId = m.configId := by
  unfold replace
  split
  · exact Eq.symm ‹_›
  · rfl

theorem mem_map_replace {models : List ConfigListModel} {config : ConfigListModel} (hm : m ∈ models)
    (hid : m.configId = config.configId) {c : ConfigListModel} :
    c ∈ models.map (replace config) ↔ c = config ∨ (c ∈ models ∧ c.configId ≠ config.configId) := by
  rw [List.mem_map]
  constructor
  · rintro ⟨a, ha, rfl⟩
    unfold replace
    split
    · exact .inl rfl
    · exact .inr ⟨ha, ‹_›⟩
  · rintro (rfl | ⟨hc, hne⟩)
    · exact ⟨m, hm, by simp [replace, hid]⟩
    · exact ⟨c, hc, by simp [replace, hne]⟩

/-- What `configUpdated` does for a model of the list: the new one takes its flag. -/
theorem configUpdated_eq (h : Inv s) (hm : m ∈ s.mModels) {config : ConfigListModel} (hid : m.configId = config.configId)
    (hplain : config.selected = false) : s.configUpdated config =
      (config.setSelected m.selected, { s with mModels := s.mModels.map (replace (config.setSelected m.selected)) }) := by
  unfold configUpdated
  have hequals : ∀ x : ConfigListModel, config.equals x = true ↔ config.configId = x.configId := by
    simp [ConfigListModel.equals]
  cases hfind : s.mModels.findIdx? config.equals with
  | none =>
    have hfalse := List.findIdx?_eq_none_iff.1 hfind m hm
    rw [(hequals m).2 hid.symm] at hfalse
    cases hfalse
  | some pos =>
    obtain ⟨hpos, heq, -⟩ := List.findIdx?_eq_some_iff_getElem.1 hfind
    have hat : s.mModels[pos]? = some m := by
      rw [List.getElem?_eq_getElem hpos]
      congr 1
      exact h.distinct.eq_of_key (List.getElem_mem hpos) hm (((hequals _).1 heq).symm.trans hid.symm)
    have hflag : (if m.selected = true then config.setSelected true else config) = config.setSelected m.selected := by
      split
      · rename_i hsel
        rw [hsel]
      · rename_i hsel
        rw [Bool.not_eq_true] at hsel
        rw [hsel, ← hplain]
        rfl
    simp only [hat, Option.any_some, hflag]
    rw [set_eq_map h.distinct hat]
    simp only [hid]
    rfl

/-- **An edit of a model of the list keeps the invariant.** -/
theorem Inv.replace (h : Inv s) (hm : m ∈ s.mModels) {config : ConfigListModel} (hid : m.configId = config.configId)
    (hflag : config.selected = m.selected) :
    Inv (({ s with mModels := s.mModels.map (replace config) } : ConfigsFragment).putConfig config) := by
  have hunique : ∀ a ∈ s.mModels, a.configId = config.configId → a = m := fun a ha hid' =>
    h.distinct.eq_of_key ha hm (hid'.trans hid.symm)
  have hmem (c : ConfigListModel) : c ∈ s.mModels.map (ConfigsFragment.replace config) ↔
      c = config ∨ (c ∈ s.mModels ∧ c.configId ≠ config.configId) := mem_map_replace hm hid
  have hselected := putConfig_selectedConfig config { s with mModels := s.mModels.map (ConfigsFragment.replace config) }
  constructor
  · rw [putConfig_mModels]
    exact h.distinct.map fun a _ => replace_configId config a
  · intro c
    have hstored : ∃ conf ∈ s.configs, conf.configId = config.configId := ⟨m.json, (h.configs _).2 ⟨m, hm, rfl⟩, hid⟩
    rw [putConfig_configs, if_pos hstored, putConfig_mModels, Finset.mem_image]
    constructor
    · rintro ⟨conf, hconf, rfl⟩
      obtain ⟨a, ha, rfl⟩ := (h.configs conf).1 hconf
      by_cases heq : a.configId = config.configId
      · exact ⟨config, (hmem _).2 (.inl rfl), by simp [heq]⟩
      · exact ⟨a, (hmem _).2 (.inr ⟨ha, heq⟩), by simp [heq]⟩
    · rintro ⟨a, ha, rfl⟩
      rcases (hmem a).1 ha with rfl | ⟨ha, hne⟩
      · exact ⟨m.json, (h.configs _).2 ⟨m, hm, rfl⟩, by simp [hid]⟩
      · exact ⟨a.json, (h.configs _).2 ⟨a, ha, rfl⟩, by simp [hne]⟩
  · intro a ha
    rw [putConfig_mModels, hmem] at ha
    rw [hselected]
    cases hsel : m.selected with
    | true =>
      rw [hflag, hsel, if_pos rfl]
      rcases ha with rfl | ⟨ha, hne⟩
      · simp [hflag, hsel]
      · -- the flag is on the model that is edited
        have hjson : config.json ≠ a.json := fun hjson => hne (configId_of_json hjson).symm
        have hnot : a.selected ≠ true := fun hflag' => hne (by rw [h.eq_of_selected ha hm hflag' hsel, hid])
        simp [hnot, hjson]
    | false =>
      rw [hflag, hsel, if_neg (by simp)]
      rcases ha with rfl | ⟨ha, -⟩
      · rw [hflag, hsel]
        constructor
        · intro hfalse
          cases hfalse
        · intro hother
          obtain ⟨b, hb, hjson⟩ := h.known _ hother
          obtain rfl := hunique b hb (configId_of_json hjson)
          rw [← hjson] at hother
          rw [(h.flagged b hb).2 hother] at hsel
          cases hsel
      · exact h.flagged a ha
  · intro c hc
    rw [putConfig_mModels]
    rw [hselected] at hc
    cases hsel : m.selected with
    | true =>
      rw [hflag, hsel, if_pos rfl] at hc
      exact ⟨config, (hmem _).2 (.inl rfl), Option.some.inj hc⟩
    | false =>
      rw [hflag, hsel, if_neg (by simp)] at hc
      obtain ⟨b, hb, rfl⟩ := h.known c hc
      refine ⟨b, (hmem b).2 (.inr ⟨hb, fun hid' => ?_⟩), rfl⟩
      obtain rfl := hunique b hb hid'
      rw [(h.flagged b hb).2 hc] at hsel
      cases hsel
  · intro deleted position hdeleted
    rw [putConfig_mLastDeleted] at hdeleted
    rw [putConfig_mModels, List.length_map]
    exact h.position deleted position hdeleted

/-- An edit comes back without a flag. -/
theorem edited_selected {name configId : Option String} {now : ℤ} {listModel : ConfigListModel}
    (h : edited model name configId now = some listModel) : listModel.selected = false := by
  unfold edited at h
  split at h
  · cases h
    rfl
  · split at h
    · cases h
      rfl
    · cases h

theorem Inv.edit (h : Inv s) {position : ℕ} {name configId : Option String} {now : ℤ}
    (hg : s.Guard (.edit position name configId now)) : Inv (s.edit position name configId now) := by
  unfold ConfigsFragment.edit
  cases hedit : (s.mModels[position]?).bind (edited · name configId now) with
  | none => exact h
  | some listModel =>
    obtain ⟨m, hm, hid⟩ := hg listModel hedit
    obtain ⟨model, -, hedited⟩ := Option.bind_eq_some_iff.1 hedit
    simp only [configUpdated_eq h hm hid (edited_selected hedited)]
    exact h.replace hm hid rfl

/-- An edit that comes back with another id is stored and not shown. -/
theorem guard_of_consistent_edit {position : ℕ} {name configId : Option String} {now : ℤ}
    (h : Consistent (s.edit position name configId now)) : s.Guard (.edit position name configId now) := by
  intro listModel hedit
  unfold ConfigsFragment.edit at h
  rw [hedit] at h
  by_contra hnot
  have hupdated : s.configUpdated listModel = (listModel, s) := by
    unfold configUpdated
    have hfind : s.mModels.findIdx? listModel.equals = none := by
      rw [List.findIdx?_eq_none_iff]
      intro m hm
      simp only [ConfigListModel.equals, decide_eq_false_iff_not]
      exact fun hid => hnot ⟨m, hm, hid.symm⟩
    rw [hfind]
  simp only [hupdated] at h
  have hsame := h.same
  have hmem : listModel.configId ∈ (s.putConfig listModel).configs.val.map (·.configId) :=
    Multiset.mem_map.2 ⟨listModel.json, mem_putConfig_self listModel s, rfl⟩
  rw [hsame, putConfig_mModels] at hmem
  obtain ⟨m, hm, hid⟩ := List.mem_map.1 (Multiset.mem_coe.1 hmem)
  exact hnot ⟨m, hm, hid⟩

/-! ## A model that goes, and one that is selected -/

theorem deleteConfig_mModels (model : ConfigListModel) (s : ConfigsFragment) :
    (s.deleteConfig model).mModels = s.mModels := by
  unfold deleteConfig
  simp only
  split <;> rfl

theorem deleteConfig_configs (model : ConfigListModel) (s : ConfigsFragment) :
    (s.deleteConfig model).configs = s.configs.filter fun c => c.configId ≠ model.configId := by
  unfold deleteConfig
  ext c
  split <;> simp [setSelectedConfig, ConfigListModel.equals, eq_comm]

/-- The selected config is gone if it was the one that is deleted. -/
theorem deleteConfig_selectedConfig (model : ConfigListModel) (s : ConfigsFragment) :
    (s.deleteConfig model).selectedConfig = s.selectedConfig.filter fun c => c.configId ≠ model.configId := by
  unfold deleteConfig
  cases hsel : s.selectedConfig with
  | none => simp [hsel]
  | some c =>
    by_cases hid : c.configId = model.configId
    · simp [ConfigListModel.equals, hid, setSelectedConfig, Option.filter]
    · simp [ConfigListModel.equals, hid, hsel, Ne.symm hid, Option.filter]

/-- **A model that is deleted takes its selection with it.** -/
theorem Inv.delete (h : Inv s) (position : ℕ) : Inv (s.delete position) := by
  unfold ConfigsFragment.delete
  cases hat : s.mModels[position]? with
  | none => exact h
  | some model =>
    have hmodel := List.mem_of_getElem? hat
    have hlt : position < s.mModels.length := (List.getElem?_eq_some_iff.1 hat).1
    have hrest : s.mModels.eraseIdx position = s.mModels.filter fun b => b.configId ≠ model.configId :=
      eraseIdx_eq_filter h.distinct hat
    have hmem (m : ConfigListModel) : m ∈ s.mModels.eraseIdx position ↔ m ∈ s.mModels ∧ m.configId ≠ model.configId := by
      rw [hrest]
      simp
    set t := (s.itemDeleted position).deleteConfig model
    have hmodels : t.mModels = s.mModels.eraseIdx position := deleteConfig_mModels model (s.itemDeleted position)
    have hconfigs : t.configs = s.configs.filter fun c => c.configId ≠ model.configId :=
      deleteConfig_configs model (s.itemDeleted position)
    have hselected : t.selectedConfig = s.selectedConfig.filter fun c => c.configId ≠ model.configId :=
      deleteConfig_selectedConfig model (s.itemDeleted position)
    constructor
    · change Distinct _ t.mModels
      rw [hmodels, hrest]
      exact h.distinct.filter _
    · intro c
      change c ∈ t.configs ↔ ∃ m ∈ t.mModels, m.json = c
      rw [hconfigs, hmodels, Finset.mem_filter, h.configs]
      constructor
      · rintro ⟨⟨m, hm, rfl⟩, hne⟩
        exact ⟨m, (hmem m).2 ⟨hm, hne⟩, rfl⟩
      · rintro ⟨m, hm, rfl⟩
        obtain ⟨hm, hne⟩ := (hmem m).1 hm
        exact ⟨⟨m, hm, rfl⟩, hne⟩
    · intro m hm
      change m.selected = true ↔ t.selectedConfig = some m.json
      change m ∈ t.mModels at hm
      rw [hmodels, hmem] at hm
      rw [h.flagged m hm.1, hselected, Option.filter_eq_some_iff]
      simp [hm.2]
    · intro c hc
      change t.selectedConfig = some c at hc
      change ∃ m ∈ t.mModels, m.json = c
      rw [hselected, Option.filter_eq_some_iff] at hc
      obtain ⟨m, hm, rfl⟩ := h.known c hc.1
      rw [hmodels]
      exact ⟨m, (hmem m).2 ⟨hm, of_decide_eq_true hc.2⟩, rfl⟩
    · intro deleted pos hdeleted
      obtain ⟨rfl, rfl⟩ := Prod.mk.inj (Option.some.inj hdeleted)
      change position ≤ t.mModels.length
      rw [hmodels, List.length_eraseIdx_of_lt hlt]
      omega

/-- The one flag in the list is the one of the model. -/
def markOnly (model b : ConfigListModel) : ConfigListModel := b.setSelected (b.configId = model.configId)

theorem markOnly_json (model b : ConfigListModel) : (markOnly model b).json = b.json := rfl

theorem markOnly_selected {b : ConfigListModel} : (markOnly model b).selected = true ↔ b.configId = model.configId := by
  simp [markOnly]

/-- The flag is taken away from the model with the id of `a`. -/
def unmark (a b : ConfigListModel) : ConfigListModel := if b.configId = a.configId then b.setSelected false else b

theorem unmark_configId (a b : ConfigListModel) : (unmark a b).configId = b.configId := by
  unfold unmark
  split <;> rfl

/-- When no other model than `a` had a flag, the model is the only one after `a` has lost it. -/
theorem markOnly_unmark {b : ConfigListModel} (hne : a.configId ≠ model.configId)
    (honly : b.configId ≠ a.configId → b.selected = false) :
    (if (unmark a b).configId = model.configId then (unmark a b).setSelected true else unmark a b) = markOnly model b := by
  rw [unmark_configId]
  by_cases hid : b.configId = a.configId
  · simp [markOnly, unmark, hid, hne, ConfigListModel.setSelected]
  · by_cases hid' : b.configId = model.configId
    · simp [markOnly, unmark, hid', hne.symm]
    · simp [markOnly, unmark, hid, hid', ConfigListModel.setSelected, ← honly hid]

/-- What `setSelected` makes of the list when the model was not selected before. -/
theorem setSelected_eq (h : Inv s) {position : ℕ} (hat : s.mModels[position]? = some model) :
    s.setSelected position = s ∨ s.setSelected position =
      { s with mModels := s.mModels.map (markOnly model), selectedConfig := some model.json } := by
  have hselect (t : ConfigsFragment) (ht : t.mModels.modify position (·.setSelected true) = s.mModels.map (markOnly model)) :
      t.select model position = { t with mModels := s.mModels.map (markOnly model), selectedConfig := some model.json } := by
    unfold select setSelectedConfig
    rw [ht]
    rfl
  unfold setSelected
  simp only [hat]
  cases hfind : s.mModels.findIdx? (·.selected) with
  | none =>
    right
    apply hselect
    rw [modify_eq_map h.distinct hat]
    refine List.map_congr_left fun b hb => ?_
    have hnone : b.selected = false := by simpa using List.findIdx?_eq_none_iff.1 hfind b hb
    by_cases hid : b.configId = model.configId
    · simp [markOnly, hid]
    · simp [markOnly, hid, ConfigListModel.setSelected, ← hnone]
  | some i =>
    obtain ⟨hi, hflag, -⟩ := List.findIdx?_eq_some_iff_getElem.1 hfind
    set a := s.mModels[i] with ha
    have hati : s.mModels[i]? = some a := List.getElem?_eq_getElem hi
    simp only [hati, Option.any_some]
    split
    · exact .inl rfl
    · rename_i hnot
      right
      have hne : a.configId ≠ model.configId := fun hid => hnot (by simp [ConfigListModel.equals, hid])
      -- the one that was flagged, and nobody else
      have honly : ∀ b ∈ s.mModels, b.configId ≠ a.configId → b.selected = false := by
        intro b hb hid
        by_contra hsel
        exact hid (by rw [h.eq_of_selected hb (List.getElem_mem hi) (by simpa using hsel) hflag])
      have hcleared : s.mModels.modify i (·.setSelected false) = s.mModels.map (unmark a) :=
        modify_eq_map h.distinct hati _
      refine (hselect { s with mModels := s.mModels.modify i (·.setSelected false) } ?_).trans rfl
      simp only [hcleared]
      have hdistinct : Distinct (·.configId) (s.mModels.map (unmark a)) := h.distinct.map fun b _ => unmark_configId a b
      have hat' : (s.mModels.map (unmark a))[position]? = some model := by
        rw [List.getElem?_map, hat]
        simp [unmark, hne.symm]
      rw [modify_eq_map hdistinct hat', List.map_map]
      exact List.map_congr_left fun b hb => markOnly_unmark hne (honly b hb)

theorem Inv.setSelected (h : Inv s) (position : ℕ) : Inv (s.setSelected position) := by
  cases hat : s.mModels[position]? with
  | none =>
    unfold ConfigsFragment.setSelected
    simp only [hat]
    exact h
  | some model =>
    rcases setSelected_eq h hat with heq | heq
    · rw [heq]
      exact h
    · have hmodel := List.mem_of_getElem? hat
      rw [heq]
      constructor
      · exact h.distinct.map fun _ _ => rfl
      · intro c
        change c ∈ s.configs ↔ _
        rw [h.configs]
        simp [markOnly_json]
      · rintro _ hm
        obtain ⟨b, hb, rfl⟩ := List.mem_map.1 hm
        rw [markOnly_selected, markOnly_json]
        simp only [Option.some.injEq]
        constructor
        · intro hid
          rw [h.distinct.eq_of_key hb hmodel hid]
        · intro hjson
          exact (configId_of_json hjson).symm
      · rintro c hc
        obtain rfl := Option.some.inj hc
        exact ⟨_, List.mem_map.2 ⟨model, hmodel, rfl⟩, rfl⟩
      · intro deleted pos hdeleted
        simp only [List.length_map]
        exact h.position deleted pos hdeleted

/-! ## Runs -/

/-- What is behind the end of the list comes in there. -/
theorem Inv.undo (h : Inv s) (hg : s.Guard .undo) : Inv s.undo := by
  unfold ConfigsFragment.undo
  cases hdeleted : s.mLastDeleted with
  | none => exact h
  | some deleted =>
    obtain ⟨model, position⟩ := deleted
    obtain ⟨hnew, hflag⟩ := hg model position hdeleted
    have hinv := h.addConfigListModel model (some position) (h.position model position hdeleted) hnew hflag
    exact ⟨hinv.distinct, hinv.configs, hinv.flagged, hinv.known, fun _ _ hnone => by cases hnone⟩

theorem Inv.importConfig (h : Inv s) (model : ConfigListModel) : Inv (s.importConfig model) := by
  unfold ConfigsFragment.importConfig
  simp only
  split
  · exact h
  · rename_i hnone
    apply h.addConfigListModel _ none le_rfl
    · rintro ⟨m, hm, hid⟩
      exact hnone ⟨m.json, (h.configs _).2 ⟨m, hm, rfl⟩, by simpa [ConfigListModel.equals] using hid.symm⟩
    · intro hempty m hm
      rw [setSelected_selected, decide_eq_true_eq, List.length_eq_zero_iff] at hempty
      rw [hempty] at hm
      cases hm

/-- **One step.** From a state with the invariant, a step that meets the condition keeps it. -/
theorem Inv.step (h : Inv s) (e : Event) (hg : s.Guard e) : Inv (s.step e) := by
  cases e with
  | add model => exact h.addConfigListModel model.json none le_rfl hg fun hflag => by cases hflag
  | edit position name configId now => exact h.edit hg
  | importConfig model => exact h.importConfig model
  | convert position name configId now =>
    simp only [ConfigsFragment.step, convert]
    split
    · exact h.addConfigListModel _ none le_rfl (hg ‹_›) fun hflag => by cases hflag
    · exact h
  | delete position => exact h.delete position
  | undo => exact h.undo hg
  | select position => exact h.setSelected position

/-- A step that does not meet the condition is seen at once. -/
theorem Inv.guard_of_consistent (h : Inv s) (e : Event) (hc : Consistent (s.step e)) : s.Guard e := by
  cases e with
  | add model => exact (of_consistent_addConfigListModel none le_rfl hc).1
  | edit position name configId now => exact guard_of_consistent_edit hc
  | convert position name configId now =>
    intro htype
    simp only [ConfigsFragment.step, convert, if_pos htype] at hc
    exact (of_consistent_addConfigListModel none le_rfl hc).1
  | undo =>
    intro model position hdeleted
    simp only [ConfigsFragment.step, ConfigsFragment.undo, hdeleted] at hc
    have hc' : Consistent (s.addConfigListModel model (some position)) :=
      ⟨hc.once, hc.same, hc.one, hc.flagged, hc.shown, hc.stored⟩
    exact of_consistent_addConfigListModel (some position) (h.position model position hdeleted) hc'
  | importConfig model => trivial
  | delete position => trivial
  | select position => trivial

/-- **The runs that are consistent after every operation** are those whose operations meet the condition. -/
theorem selection_iff (es : List Event) :
    Run.Always step (fun s e => Consistent (s.step e)) {} es ↔ Run.Always step Guard {} es :=
  Run.Always.iff_of_invariant (fun _ e (h : Inv _) hg => ⟨(h.step e hg).consistent, h.step e hg⟩)
    (fun _ e h hc => h.guard_of_consistent e hc) .init

/-- Two configs; the first is selected, since the list was empty. -/
def home : ConfigListModel := { name := some "home", configId := some "1", type := SSH_TYPE, timeCreated := 1 }

def work : ConfigListModel := { name := some "work", configId := some "2", type := SSH_TYPE, timeCreated := 2 }

/-- The selected config is deleted, the other one is selected, and the delete is undone: both are flagged. -/
theorem undo_not_consistent :
    let s := Run.run step {} [.add home, .add work, .delete 0, .select 0, .undo]
    s.mModels.map (fun m => (m.configId, m.selected)) = [(some "1", true), (some "2", true)] ∧ ¬ Consistent s := by
  intro s
  have hmodels : s.mModels.map (fun m => (m.configId, m.selected)) = [(some "1", true), (some "2", true)] := by decide
  refine ⟨hmodels, fun h => ?_⟩
  have hone := h.one
  have htwo : s.mModels.countP (·.selected) = 2 := by decide
  omega

end SmartTunnel.ConfigsFragment
