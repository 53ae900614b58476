import SmartTunnel.Model.Applications

/-!
# Forbidden apps and the tunnel

`routes_addApplications`: which apps use the VPN, by mode and selection. The API's default
flips when no app was allowed, so a selection of which no app remains opens the tunnel to
every app; `confined_iff` says that this is the only way out.
-/

namespace SmartTunnel

variable {allow : Bool} {selected forbidden installed apps : List String} {app : String}

/-- No installed forbidden app uses the VPN, and if a selection is allowed, no other app does. -/
structure Confined (allow : Bool) (selected forbidden installed : List String) (builder : Builder) : Prop where
  forbidden : ∀ app ∈ installed, app ∈ forbidden → ¬ builder.Routes app
  selected : allow = true → selected ≠ [] → ∀ app ∈ installed, app ∉ selected → ¬ builder.Routes app

theorem addInstalled_eq (add : Builder → String → Builder) (installed apps : List String) (builder : Builder) :
    addInstalled add installed apps builder = (apps.filter fun app => app ∈ installed).foldl add builder := by
  simp only [addInstalled, List.foldl_filter, decide_eq_true_eq]

theorem foldl_addAllowedApplication (apps : List String) (builder : Builder) :
    apps.foldl Builder.addAllowedApplication builder =
      { builder with allowedApplications := builder.allowedApplications ++ apps } := by
  induction apps generalizing builder with
  | nil => simp
  | cons app apps ih => simp [ih, Builder.addAllowedApplication]

theorem foldl_addDisallowedApplication (apps : List String) (builder : Builder) :
    apps.foldl Builder.addDisallowedApplication builder =
      { builder with disallowedApplications := builder.disallowedApplications ++ apps } := by
  induction apps generalizing builder with
  | nil => simp
  | cons app apps ih => simp [ih, Builder.addDisallowedApplication]

/-- Some selected app is installed and may be allowed. -/
def SomeAllowed (selected forbidden installed : List String) : Prop :=
  ∃ app ∈ selected, app ∉ forbidden ∧ app ∈ installed

instance : Decidable (SomeAllowed selected forbidden installed) :=
  inferInstanceAs (Decidable (∃ app ∈ selected, app ∉ forbidden ∧ app ∈ installed))

/-- **Which apps use the VPN.** -/
theorem routes_addApplications (hinst : app ∈ installed) :
    (addApplications allow selected forbidden installed {}).Routes app ↔
      if allow = true ∧ selected ≠ [] then
        SomeAllowed selected forbidden installed → app ∈ selected ∧ app ∉ forbidden
      else app ∉ forbidden ∧ (allow = true ∨ app ∉ selected) := by
  cases allow with
  | false =>
    simp only [addApplications, Bool.false_eq_true, if_false, false_and, false_or, addInstalled_eq,
      foldl_addDisallowedApplication, Builder.Routes]
    simp only [List.nil_append, if_true, List.mem_filter, List.mem_append, decide_eq_true_eq]
    tauto
  | true =>
    cases selected with
    | nil =>
      simp only [addApplications, if_true, List.isEmpty_nil, addInstalled_eq, foldl_addDisallowedApplication, Builder.Routes,
        ne_eq, not_true, and_false, if_false, true_or, and_true]
      simp only [List.nil_append, List.mem_filter, decide_eq_true_eq]
      tauto
    | cons a selected =>
      simp only [addApplications, if_true, List.isEmpty_cons, Bool.false_eq_true, if_false,
        addInstalled_eq, foldl_addAllowedApplication, Builder.Routes, ne_eq, reduceCtorEq, not_false_eq_true,
        and_self]
      set allowed := ((a :: selected).filter fun app => app ∉ forbidden).filter fun app => app ∈ installed with hdef
      have hmem : ∀ b, b ∈ allowed ↔ b ∈ a :: selected ∧ b ∉ forbidden ∧ b ∈ installed := by
        intro b
        simp only [hdef, List.mem_filter, decide_eq_true_eq, and_assoc]
      rw [List.nil_append]
      by_cases hnone : allowed = []
      · -- nothing was added, and the default lets every app in
        have hnot : ¬ SomeAllowed (a :: selected) forbidden installed := by
          rintro ⟨b, hb, hbf, hbi⟩
          have hb' := (hmem b).2 ⟨hb, hbf, hbi⟩
          rw [hnone] at hb'
          exact List.not_mem_nil hb'
        rw [if_pos hnone]
        exact ⟨fun _ h => absurd h hnot, fun _ => List.not_mem_nil⟩
      · obtain ⟨b, hb⟩ := List.exists_mem_of_ne_nil _ hnone
        have hsome : SomeAllowed (a :: selected) forbidden installed := ⟨b, (hmem b).1 hb⟩
        rw [if_neg hnone, hmem]
        exact ⟨fun h _ => ⟨h.1, h.2.1⟩, fun h => ⟨(h hsome).1, (h hsome).2, hinst⟩⟩

/-- **The loops confine the tunnel exactly if an allowed selection has an app left to allow.** -/
theorem confined_iff (allow : Bool) (selected forbidden installed : List String) :
    Confined allow selected forbidden installed (addApplications allow selected forbidden installed {}) ↔
      (allow = true → selected ≠ [] → installed ≠ [] →
        ∃ app ∈ selected, app ∉ forbidden ∧ app ∈ installed) := by
  constructor
  · intro h hallow hsel hne
    by_contra hnone
    obtain ⟨app, happ⟩ := List.exists_mem_of_ne_nil _ hne
    -- with nothing allowed every installed app is routed, so it is selected and not forbidden
    have hroutes : (addApplications allow selected forbidden installed {}).Routes app := by
      rw [routes_addApplications happ, if_pos ⟨hallow, hsel⟩]
      exact fun hsome => absurd hsome hnone
    apply hnone
    refine ⟨app, ?_, ?_, happ⟩
    · by_contra hns
      exact h.selected hallow hsel app happ hns hroutes
    · intro hforb
      exact h.forbidden app happ hforb hroutes
  · intro h
    constructor
    · intro app happ hforb hroutes
      rw [routes_addApplications happ] at hroutes
      split_ifs at hroutes with hmode
      · exact (hroutes (h hmode.1 hmode.2 (List.ne_nil_of_mem happ))).2 hforb
      · exact hroutes.1 hforb
    · intro hallow hsel app happ hns hroutes
      rw [routes_addApplications happ, if_pos ⟨hallow, hsel⟩] at hroutes
      exact hns (hroutes (h hallow hsel (List.ne_nil_of_mem happ))).1

/-- One app is selected to use the VPN, and it is forbidden by default: it uses the VPN, and
so does the browser that was not selected. -/
theorem forbidden_selection_not_confined :
    let prefs : Prefs := { selected_apps := ["ir.divar"] }
    let installed := ["ir.divar", "com.android.chrome"]
    ¬ Confined true (PrefsUtil.getSelectedApps prefs) (PrefsUtil.getForbiddenApps prefs) installed
        (SSHConfig.openTun prefs installed) ∧
      ¬ Confined true (PrefsUtil.getSelectedApps prefs) (PrefsUtil.getForbiddenApps prefs) installed
        (OpenVpnConfig.openTun prefs installed) ∧
      (SSHConfig.openTun prefs installed).Routes "com.android.chrome" := by
  intro prefs installed
  have hrouted : (SSHConfig.openTun prefs installed).Routes "ir.divar" := by decide +kernel
  refine ⟨fun h => ?_, fun h => ?_, by decide +kernel⟩
  · exact h.forbidden "ir.divar" (by decide) (by decide +kernel) hrouted
  · exact h.forbidden "ir.divar" (by decide) (by decide +kernel) hrouted

end SmartTunnel
