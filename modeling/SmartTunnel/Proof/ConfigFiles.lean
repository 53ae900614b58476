import SmartTunnel.Base.Run
import SmartTunnel.Model.ConfigFiles

/-!
# Listed configs and their files

While nothing is in progress, every listed config has its file (`listed_has_file`) in the runs
whose steps are `Careful`: an import that cannot write the file of a config that is still listed
is one that finds it there, and the worker deletes no file of a config that is listed, or saved and
about to be. The code checks neither.

The invariant says what an operation in progress stands for (`Accounted`): a listed config without
a file is one whose import is about to write it, and a saved config that is not listed yet has
its file.
-/

namespace SmartTunnel

open Jvm

namespace ConfigFiles

/-- The file of the config is in the configs folder. -/
def HasFile (s : Storage) (config : ConfigListModel) : Prop := ∃ file ∈ configFile config, file ∈ s.files

/-- **While nothing is in progress, every listed config has its file.** -/
def FilesKept (s : State) : Prop := s.running = [] → ∀ config ∈ s.storage.configs, HasFile s.storage config

/-- The config that a save has written and is about to list. -/
def aboutToList : Operation → Option ConfigListModel
  | .addConfig config => some config
  | _ => none

/-- The config whose file an import is about to write. -/
def aboutToWrite : Operation → Option ConfigListModel
  | .importSave config => some config
  | _ => none

/-- The file that the worker is about to delete. -/
def aboutToDelete : Operation → Option File
  | .deleteFiles configs folder (name :: _) _ =>
    if containConfigFile configs name then none else some (folder, name)
  | _ => none

/-- An import leaves a config that is still listed with its file, and the worker deletes no file of
a config that is listed, unless its import is about to write it, or about to be listed. -/
def Careful (s : State) : Event → Prop
  | .next op env => op ∈ s.running →
    (∀ config ∈ aboutToWrite op, config ∈ s.storage.configs →
      ∃ file ∈ configFile config, env.write ≠ .failed false ∨ file ∈ s.storage.files) ∧
    ∀ file ∈ aboutToDelete op,
      (∀ config ∈ s.storage.configs, configFile config = some file → .importSave config ∈ s.running) ∧
      ∀ op' ∈ s.running, ∀ config ∈ aboutToList op', configFile config ≠ some file
  | _ => True

instance HasFile.decidable (s : Storage) (config : ConfigListModel) : Decidable (HasFile s config) :=
  inferInstanceAs (Decidable (∃ file ∈ configFile config, file ∈ s.files))

instance Careful.decidable (s : State) : ∀ e, Decidable (Careful s e)
  | .save _ _ => inferInstanceAs (Decidable True)
  | .importConfig _ => inferInstanceAs (Decidable True)
  | .delete _ => inferInstanceAs (Decidable True)
  | .doWork => inferInstanceAs (Decidable True)
  | .next _ _ => inferInstanceAs (Decidable (_ → _ ∧ _))

/-- What the list and the files owe to the operations in progress. -/
structure Accounted (s : State) : Prop where
  listed : ∀ config ∈ s.storage.configs, HasFile s.storage config ∨ .importSave config ∈ s.running
  about : ∀ config, .addConfig config ∈ s.running → HasFile s.storage config
  known : ∀ config, .saveConfig config ∈ s.running → (configFile config).isSome

theorem Accounted.filesKept {s : State} (h : Accounted s) : FilesKept s := by
  intro hidle config hc
  rcases h.listed config hc with hf | hi
  · exact hf
  · rw [hidle] at hi
    exact absurd hi List.not_mem_nil

/-! ## What the parts of a step do -/

section Parts

variable {s : Storage} {config model : ConfigListModel} {configs : List ConfigListModel} {write : Write}

theorem HasFile.mono {s' : Storage} (hf : ∀ file ∈ s.files, file ∈ s'.files) (h : HasFile s config) :
    HasFile s' config := by
  obtain ⟨file, hc, hin⟩ := h
  exact ⟨file, hc, hf file hin⟩

theorem mem_addConfig (h : config ∈ PrefsUtil.addConfig model configs) : config = model ∨ config ∈ configs := by
  unfold PrefsUtil.addConfig at h
  split at h
  · obtain ⟨conf, hconf, rfl⟩ := List.mem_map.1 h
    by_cases heq : conf.configId = model.configId
    · exact .inl (if_pos heq)
    · rw [if_neg heq]
      exact .inr hconf
  · rcases List.mem_append.1 h with h | h
    · exact .inr h
    · exact .inl (List.mem_singleton.1 h)

theorem configFile_configType (folder : Folder) (configId : String) :
    configFile ⟨configId, folder.configType⟩ = some (folder, configId) := by
  cases folder with
  | ssh => rfl
  | openvpn => rfl

/-- What `saveConfig` leaves behind: the list is untouched and no file goes; the file of the config
is there unless the stream failed before it made one, and `saveConfig` did not raise unless the
stream failed. -/
structure Saved (write : Write) (config : ConfigListModel) (s : Storage) (r : Except JavaException Bool)
    (s' : Storage) : Prop where
  configs : s'.configs = s.configs
  files : ∀ file ∈ s.files, file ∈ s'.files
  file : write ≠ .failed false → ∀ file ∈ configFile config, file ∈ s'.files
  ok : ∀ b, r = .ok b → (configFile config).isSome → write = .written

theorem saveConfig_saved (write : Write) (config : ConfigListModel) (s : Storage) :
    Saved write config s (Java.exec (saveConfig write config) s).1 (Java.exec (saveConfig write config) s).2 := by
  unfold saveConfig
  cases hfile : configFile config with
  | none => exact ⟨rfl, fun _ h => h, by simp [hfile], by simp [hfile]⟩
  | some file =>
    cases write with
    | written =>
      refine ⟨rfl, fun _ h => List.mem_insert_of_mem h, ?_, fun _ _ _ => rfl⟩
      intro _ f hf
      rw [hfile] at hf
      cases hf
      exact List.mem_insert_self
    | failed created =>
      cases created with
      | true =>
        refine ⟨rfl, fun _ h => List.mem_insert_of_mem h, ?_, fun _ h => nomatch h⟩
        intro _ f hf
        rw [hfile] at hf
        cases hf
        exact List.mem_insert_self
      | false => exact ⟨rfl, fun _ h => h, fun h => absurd rfl h, fun _ h => nomatch h⟩

end Parts

/-! ## Steps -/

variable {s : State} {op : Operation} {env : Environment}

/-- What is left of an operation after its next step. -/
def remains : Except JavaException (Option Operation) → List Operation
  | .ok rest => rest.toList
  | .error _ => []

theorem step_next (r : Except JavaException (Option Operation)) (storage : Storage) (hop : op ∈ s.running)
    (hr : Java.exec (perform env op) s.storage = (r, storage)) :
    step s (.next op env) = { storage := storage, running := remains r ++ s.running.erase op } := by
  simp only [step, if_pos hop, hr]
  cases r with
  | error e => rfl
  | ok rest => rfl

/-- A step that lists nothing and deletes nothing keeps the accounts, if a file is there for every
listed config whose import it ends. -/
theorem Accounted.frame (h : Accounted s) {storage : Storage} {rest : List Operation}
    (hc : ∀ config ∈ storage.configs, config ∈ s.storage.configs)
    (hf : ∀ file ∈ s.storage.files, file ∈ storage.files)
    (hi : ∀ config ∈ storage.configs, op = .importSave config → HasFile storage config)
    (ha : ∀ config, .addConfig config ∈ rest → HasFile storage config)
    (hs : ∀ config, .saveConfig config ∈ rest → (configFile config).isSome) :
    Accounted { storage := storage, running := rest ++ s.running.erase op } := by
  refine ⟨?_, ?_, ?_⟩
  · intro config hconfig
    rcases h.listed config (hc config hconfig) with hfile | himport
    · exact .inl (hfile.mono hf)
    · by_cases hop : op = .importSave config
      · exact .inl (hi config hconfig hop)
      · exact .inr (List.mem_append_right _ ((List.mem_erase_of_ne (Ne.symm hop)).2 himport))
  · intro config hin
    rcases List.mem_append.1 hin with hin | hin
    · exact ha config hin
    · exact (h.about config (List.mem_of_mem_erase hin)).mono hf
  · intro config hin
    rcases List.mem_append.1 hin with hin | hin
    · exact hs config hin
    · exact h.known config (List.mem_of_mem_erase hin)

/-- Listing a config that has its file, or whose import is about to write it. -/
theorem Accounted.list (h : Accounted s) {model : ConfigListModel} {rest : List Operation}
    (hop : ∀ config, op ≠ .importSave config) (hm : HasFile s.storage model ∨ .importSave model ∈ rest)
    (ha : ∀ config, .addConfig config ∉ rest) (hs : ∀ config, .saveConfig config ∉ rest) :
    Accounted
      { storage := { s.storage with configs := PrefsUtil.addConfig model s.storage.configs }
        running := rest ++ s.running.erase op } := by
  have hold : Accounted { storage := s.storage, running := rest ++ s.running.erase op } :=
    h.frame (fun _ h => h) (fun _ h => h) (fun config _ heq => absurd heq (hop config))
      (fun config h => absurd h (ha config)) (fun config h => absurd h (hs config))
  refine ⟨?_, hold.about, hold.known⟩
  intro config hconfig
  rcases mem_addConfig hconfig with rfl | hconfig
  · exact hm.imp id fun h => List.mem_append_left _ h
  · exact hold.listed config hconfig

/-- A step that only looks, or only changes what neither the list nor the files depend on. -/
theorem Accounted.look (h : Accounted s) {storage : Storage} {rest : List Operation}
    (hc : storage.configs = s.storage.configs) (hf : storage.files = s.storage.files)
    (hop : ∀ config, op ≠ .importSave config) (ha : ∀ config, .addConfig config ∉ rest)
    (hs : ∀ config, .saveConfig config ∉ rest) :
    Accounted { storage := storage, running := rest ++ s.running.erase op } :=
  h.frame (by rw [hc]; exact fun _ h => h) (by rw [hf]; exact fun _ h => h)
    (fun config _ heq => absurd heq (hop config)) (fun config h => absurd h (ha config))
    (fun config h => absurd h (hs config))

/-- The save of a new or a converted config. -/
theorem Accounted.saveConfig {config : ConfigListModel} (h : Accounted s) (hop : .saveConfig config ∈ s.running) :
    Accounted (step s (.next (.saveConfig config) env)) := by
  have hsaved := saveConfig_saved env.write config s.storage
  rcases hx : Java.exec (ConfigFiles.saveConfig env.write config) s.storage with ⟨e | b, storage⟩
  · rw [hx] at hsaved
    rw [step_next (.error e) storage hop (by simp only [perform, Java.exec_bind, hx])]
    exact h.frame (by rw [hsaved.configs]; exact fun _ h => h) hsaved.files (fun _ _ heq => nomatch heq)
      (fun _ h => nomatch h) (fun _ h => nomatch h)
  · rw [hx] at hsaved
    rw [step_next (.ok (some (.addConfig config))) storage hop
      (by simp only [perform, Java.exec_bind, hx]; rfl)]
    refine h.frame (by rw [hsaved.configs]; exact fun _ h => h) hsaved.files (fun _ _ heq => nomatch heq) ?_
      (fun _ h => by simp [remains] at h)
    -- the config that is about to be listed has just been written
    intro model hm
    cases List.mem_singleton.1 hm
    have hknown := h.known config hop
    have hwritten := hsaved.ok b rfl hknown
    obtain ⟨file, hfile⟩ := Option.isSome_iff_exists.1 hknown
    exact ⟨file, hfile, hsaved.file (by rw [hwritten]; exact nofun) file hfile⟩

/-- The save of an import. A config that is still listed must have its file after it. -/
theorem Accounted.importSave {config : ConfigListModel} (h : Accounted s) (hop : .importSave config ∈ s.running)
    (hg : Careful s (.next (.importSave config) env)) :
    Accounted (step s (.next (.importSave config) env)) := by
  have hsaved := saveConfig_saved env.write config s.storage
  obtain ⟨r, hr⟩ : ∃ r, Java.exec (perform env (.importSave config)) s.storage =
      (r, (Java.exec (ConfigFiles.saveConfig env.write config) s.storage).2) ∧ remains r = [] := by
    simp only [perform, Java.exec_bind]
    rcases Java.exec (ConfigFiles.saveConfig env.write config) s.storage with ⟨e | b, storage⟩
    · exact ⟨.error e, rfl, rfl⟩
    · exact ⟨.ok none, rfl, rfl⟩
  rw [step_next _ _ hop hr.1, hr.2]
  refine h.frame (by rw [hsaved.configs]; exact fun _ h => h) hsaved.files ?_ (fun _ h => nomatch h)
    (fun _ h => nomatch h)
  intro model hm heq
  cases heq
  rw [hsaved.configs] at hm
  obtain ⟨file, hfile, hwrite | hin⟩ := (hg hop).1 config rfl hm
  · exact ⟨file, hfile, hsaved.file hwrite file hfile⟩
  · exact ⟨file, hfile, hsaved.files file hin⟩

/-- The worker at a file. One that the list it read does not name must not be needed. -/
theorem Accounted.deleteFiles {configs : List ConfigListModel} {folder : Folder} {name : String}
    {names : List String} {folders : List Folder} (h : Accounted s)
    (hop : .deleteFiles configs folder (name :: names) folders ∈ s.running)
    (hg : Careful s (.next (.deleteFiles configs folder (name :: names) folders) env)) :
    Accounted (step s (.next (.deleteFiles configs folder (name :: names) folders) env)) := by
  by_cases hin : containConfigFile configs name = true
  · rw [step_next (.ok (some (.deleteFiles configs folder names folders))) s.storage hop
      (by simp [perform, hin])]
    exact h.look rfl rfl nofun (by simp [remains]) (by simp [remains])
  · rw [Bool.not_eq_true] at hin
    obtain ⟨hlisted, habout⟩ := (hg hop).2 (folder, name) (by simp [aboutToDelete, hin])
    rw [step_next (.ok (some (.deleteFiles configs folder names folders)))
      { s.storage with files := s.storage.files.filter (· ≠ (folder, name)) } hop
      (by simp only [perform, hin]; rfl)]
    -- every other file stays
    have hother {config : ConfigListModel} (hne : configFile config ≠ some (folder, name))
        (hf : HasFile s.storage config) :
        HasFile { s.storage with files := s.storage.files.filter (· ≠ (folder, name)) } config := by
      obtain ⟨file, hfile, hin⟩ := hf
      refine ⟨file, hfile, List.mem_filter.2 ⟨hin, ?_⟩⟩
      have : file ≠ (folder, name) := by
        rintro rfl
        exact hne hfile
      simpa using this
    refine ⟨?_, ?_, ?_⟩
    · intro config hconfig
      have hkept (himport : .importSave config ∈ s.running) := List.mem_append_right
        (remains (.ok (some (.deleteFiles configs folder names folders))))
        ((List.mem_erase_of_ne (b := .deleteFiles configs folder (name :: names) folders) (by simp)).2 himport)
      by_cases hfile : configFile config = some (folder, name)
      · exact .inr (hkept (hlisted config hconfig hfile))
      · exact (h.listed config hconfig).imp (hother hfile) hkept
    · intro config hadd
      have hadd' : .addConfig config ∈ s.running := by
        rcases List.mem_append.1 hadd with hadd | hadd
        · simp [remains] at hadd
        · exact List.mem_of_mem_erase hadd
      exact hother (habout _ hadd' config rfl) (h.about config hadd')
    · intro config hsave
      rcases List.mem_append.1 hsave with hsave | hsave
      · simp [remains] at hsave
      · exact h.known config (List.mem_of_mem_erase hsave)

/-- **Every careful step of an operation keeps the accounts.** -/
theorem Accounted.next (h : Accounted s) (hg : Careful s (.next op env)) : Accounted (step s (.next op env)) := by
  by_cases hop : op ∈ s.running
  swap
  · simp only [step, if_neg hop]
    exact h
  cases op with
  | saveConfig config => exact h.saveConfig hop
  | addConfig config =>
    by_cases hatt : env.attached = true
    · rw [step_next (.ok none)
        { s.storage with configs := PrefsUtil.addConfig config s.storage.configs } hop
        (by simp only [perform, hatt]; rfl)]
      exact h.list nofun (.inl (h.about config hop)) (by simp [remains]) (by simp [remains])
    · rw [step_next (.ok none) s.storage hop (by simp [perform, hatt])]
      exact h.look rfl rfl nofun (by simp [remains]) (by simp [remains])
  | importConfig currentConfigs config =>
    by_cases hcur : (currentConfigs.any fun model => model.configId = config.configId) = true
    · rw [step_next (.ok none) s.storage hop (by simp only [perform, hcur]; rfl)]
      exact h.look rfl rfl nofun (by simp [remains]) (by simp [remains])
    · rw [step_next (.ok (some (.importSave config)))
        { s.storage with configs := PrefsUtil.addConfig config s.storage.configs } hop
        (by simp only [perform, hcur]; rfl)]
      exact h.list nofun (.inr (by simp [remains])) (by simp [remains]) (by simp [remains])
  | importSave config => exact h.importSave hop hg
  | deleteConfig config =>
    rw [step_next (.ok (some .scheduleWork))
      { s.storage with configs := PrefsUtil.deleteConfig config s.storage.configs } hop rfl]
    exact h.frame (fun _ hc => (List.mem_filter.1 hc).1) (fun _ hf => hf) (fun _ _ heq => nomatch heq)
      (by simp [remains]) (by simp [remains])
  | scheduleWork =>
    rw [step_next (.ok none) { s.storage with scheduled := true } hop rfl]
    exact h.look rfl rfl nofun (by simp [remains]) (by simp [remains])
  | getAllConfigs =>
    rw [step_next (.ok (some (.listFolders s.storage.configs))) s.storage hop rfl]
    exact h.look rfl rfl nofun (by simp [remains]) (by simp [remains])
  | listFolders configs =>
    rw [step_next _ _ hop rfl]
    exact h.look rfl rfl nofun (by simp [remains]) (by simp [remains])
  | listFiles configs folders =>
    cases folders with
    | nil =>
      rw [step_next _ _ hop rfl]
      exact h.look rfl rfl nofun (by simp [remains]) (by simp [remains])
    | cons folder folders =>
      rw [step_next _ _ hop rfl]
      exact h.look rfl rfl nofun (by simp [remains]) (by simp [remains])
  | deleteFiles configs folder names folders =>
    cases names with
    | nil =>
      rw [step_next _ _ hop rfl]
      exact h.look rfl rfl nofun (by simp [remains]) (by simp [remains])
    | cons name names => exact h.deleteFiles hop hg

/-! ## Runs -/

/-- A new operation has done nothing yet. -/
theorem Accounted.start (h : Accounted s) {storage : Storage} (hc : storage.configs = s.storage.configs)
    (hf : storage.files = s.storage.files) (hnew : ∀ config, op ≠ .addConfig config)
    (hknown : ∀ config, op = .saveConfig config → (configFile config).isSome) :
    Accounted { storage := storage, running := op :: s.running } := by
  refine ⟨?_, ?_, ?_⟩
  · intro config hconfig
    rw [hc] at hconfig
    refine (h.listed config hconfig).imp (fun hfile => hfile.mono ?_) (List.mem_cons_of_mem _)
    rw [hf]
    exact fun _ h => h
  · intro config hin
    rcases List.mem_cons.1 hin with heq | hin
    · exact absurd heq.symm (hnew config)
    · refine (h.about config hin).mono ?_
      rw [hf]
      exact fun _ h => h
  · intro config hin
    rcases List.mem_cons.1 hin with heq | hin
    · exact hknown config heq.symm
    · exact h.known config hin

theorem Accounted.step (h : Accounted s) {e : Event} (hg : Careful s e) : Accounted (ConfigFiles.step s e) := by
  cases e with
  | save folder configId =>
    refine h.start rfl rfl nofun ?_
    rintro config heq
    cases heq
    rw [configFile_configType]
    rfl
  | importConfig config => exact h.start rfl rfl nofun nofun
  | delete config => exact h.start rfl rfl nofun nofun
  | doWork =>
    by_cases hsched : s.storage.scheduled = true
    · simp only [ConfigFiles.step, if_pos hsched]
      exact h.start rfl rfl nofun nofun
    · simp only [ConfigFiles.step, if_neg hsched]
      exact h
  | next op env => exact h.next hg

/-- **In every run of careful steps, a listed config has its file whenever nothing is in progress.** -/
theorem listed_has_file {es : List Event} (hg : Run.Always ConfigFiles.step Careful {} es) :
    FilesKept (Run.run ConfigFiles.step {} es) := by
  have hstart : Accounted {} := ⟨nofun, nofun, nofun⟩
  exact (Run.invariant_run (fun _ _ h hg => h.step hg) hstart hg).filesKept

/-- An SSH config. -/
def sshConfig (configId : String) : ConfigListModel := ⟨configId, Folder.ssh.configType⟩

/-- A config is saved and listed, then deleted, and the worker is scheduled, before `es`. -/
def savedAndDeleted (configId : String) (es : List Event) : List Event :=
  .save .ssh configId :: .next (.saveConfig (sshConfig configId)) {} :: .next (.addConfig (sshConfig configId)) {} ::
    .delete (sshConfig configId) :: .next (.deleteConfig (sshConfig configId)) {} :: .next .scheduleWork {} :: es

/-- A config is imported before the worker reads the list; the worker deletes the file of the other. -/
def importBeforeWork : List Event :=
  savedAndDeleted "old"
    [.importConfig (sshConfig "new"), .next (.importConfig [] (sshConfig "new")) {},
      .next (.importSave (sshConfig "new")) {},
      .doWork, .next .getAllConfigs {}, .next (.listFolders [sshConfig "new"]) {},
      .next (.listFiles [sshConfig "new"] [.ssh]) {},
      .next (.deleteFiles [sshConfig "new"] .ssh ["new", "old"] []) {},
      .next (.deleteFiles [sshConfig "new"] .ssh ["old"] []) {},
      .next (.deleteFiles [sshConfig "new"] .ssh [] []) {}, .next (.listFiles [sshConfig "new"] []) {}]

theorem importBeforeWork_kept :
    Run.Always ConfigFiles.step Careful {} importBeforeWork ∧
      FilesKept (Run.run ConfigFiles.step {} importBeforeWork) ∧
      Run.run ConfigFiles.step {} importBeforeWork =
        { storage := { configs := [sshConfig "new"], folders := [.ssh], files := [(.ssh, "new")] } } := by
  have hg : Run.Always ConfigFiles.step Careful {} importBeforeWork := by decide +kernel
  exact ⟨hg, listed_has_file hg, by decide +kernel⟩

/-- The disk is full when an import writes its file. -/
def importOnFullDisk : List Event :=
  [.importConfig (sshConfig "new"), .next (.importConfig [] (sshConfig "new")) {},
    .next (.importSave (sshConfig "new")) { write := .failed false }]

/-- The worker reads the list after a config was saved and before it is listed. -/
def listedAfterSnapshot : List Event :=
  savedAndDeleted "old"
    [.save .ssh "new", .next (.saveConfig (sshConfig "new")) {},
      .doWork, .next .getAllConfigs {},
      .next (.addConfig (sshConfig "new")) {},
      .next (.listFolders []) {}, .next (.listFiles [] [.ssh]) {},
      .next (.deleteFiles [] .ssh ["new", "old"] []) {}, .next (.deleteFiles [] .ssh ["old"] []) {},
      .next (.deleteFiles [] .ssh [] []) {}, .next (.listFiles [] []) {}]

/-- **A listed config can lose its file.** Nothing is in progress after either run; the config was
never deleted, and its file is not there. -/
theorem listed_without_file :
    ¬ FilesKept (Run.run ConfigFiles.step {} listedAfterSnapshot) ∧
      ¬ FilesKept (Run.run ConfigFiles.step {} importOnFullDisk) := by
  constructor
  · intro h
    exact absurd (h (by decide +kernel) (sshConfig "new") (by decide +kernel)) (by decide +kernel)
  · intro h
    exact absurd (h (by decide +kernel) (sshConfig "new") (by decide +kernel)) (by decide +kernel)

end ConfigFiles

end SmartTunnel
