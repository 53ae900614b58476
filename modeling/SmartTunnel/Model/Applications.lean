import Mathlib

/-!
# The applications of the tunnel

`openTun` tells Android's `VpnService.Builder` which apps use the VPN, from the preferences
and the packages that are installed. A set of package names is a list in the order of its
iterator, which Java leaves open.
-/

namespace SmartTunnel

/-- What `PrefsUtil` stores about apps, with the defaults it reads. -/
structure Prefs where
  selected_apps : List String := []
  forbidden_apps : List String := []
  allow_selected_apps : Bool := true
  deriving DecidableEq, Repr

namespace PrefsUtil

def DEFAULT_FORBIDDEN_APPS : List String := [
  "com.farsitel.bazaar",
  "ir.divar",
  "com.myirancell",
  "mob.banking.android.sepah",
  "com.sheypoor.mobile",
  "net.iranet.isc.sotp",
  "ir.stsepehr.hamrahcard",
  "com.pooyabyte.mb.android",
  "com.isc.bsinew",
  "app.rbmain.a",
  "com.digikala",
  "com.sibche.aspardproject.app",
  "ir.sep.sesoot",
  "ir.hafhashtad.android780",
  "com.bpm.sekeh",
  "com.ada.mbank.mehr",
  "com.bki.mobilebanking.android",
  "com.pmb.mobile",
  "com.sadadpsp.eva",
  "com.refahmobilepayment",
  "com.postbank.mb",
  "com.parsmobapp",
  "com.farazpardazan.enbank",
  "ir.mci.ecareapp",
  "com.samanpr.blu",
  "ir.nasim",
  "ir.eitaa.messenger",
  "mobi.mmdt.ottplus",
  "net.igap",
  "com.gapafzar.messenger",
  "ir.rubx.bapp",
  "cab.snapp.passenger",
  "cab.snapp.driver",
  "com.snappbox.bikerapp",
  "com.snapp_box.android",
  "taxi.tap30.passenger",
  "taxi.tap30.driver",
  "org.rajman.traffic.tehran.navigator",
  "ir.balad",
  "ir.balad"]

def getSelectedApps (prefs : Prefs) : List String := prefs.selected_apps

def getForbiddenApps (prefs : Prefs) : List String := prefs.forbidden_apps ++ DEFAULT_FORBIDDEN_APPS

def isAllowSelectedAppsEnabled (prefs : Prefs) : Bool := prefs.allow_selected_apps

end PrefsUtil

/-- The part of Android's `VpnService.Builder` that decides about apps. -/
structure Builder where
  allowedApplications : List String := []
  disallowedApplications : List String := []
  deriving DecidableEq, Repr

namespace Builder

def addAllowedApplication (builder : Builder) (app : String) : Builder :=
  { builder with allowedApplications := builder.allowedApplications ++ [app] }

def addDisallowedApplication (builder : Builder) (app : String) : Builder :=
  { builder with disallowedApplications := builder.disallowedApplications ++ [app] }

/-- Android's rule: with an allowed app only the allowed apps use the VPN, otherwise every app
that is not disallowed does. -/
def Routes (builder : Builder) (app : String) : Prop :=
  if builder.allowedApplications = [] then app ∉ builder.disallowedApplications
  else app ∈ builder.allowedApplications

instance (builder : Builder) (app : String) : Decidable (builder.Routes app) :=
  inferInstanceAs (Decidable (ite _ _ _))

end Builder

/-- One loop of `openTun`: `getPackageInfo` raises for a package that is not installed, and
the app is passed over. -/
def addInstalled (add : Builder → String → Builder) (installed apps : List String) (builder : Builder) :
    Builder :=
  apps.foldl (fun builder app => if app ∈ installed then add builder app else builder) builder

/-- The application loops of `openTun`. -/
def addApplications (allowSelectedApps : Bool) (selectedApps forbiddenApps installed : List String)
    (builder : Builder) : Builder :=
  if allowSelectedApps then
    if selectedApps.isEmpty then
      addInstalled Builder.addDisallowedApplication installed forbiddenApps builder
    else
      -- a forbidden app is skipped before it is looked up
      addInstalled Builder.addAllowedApplication installed
        (selectedApps.filter fun app => app ∉ forbiddenApps) builder
  else
    addInstalled Builder.addDisallowedApplication installed (selectedApps ++ forbiddenApps) builder

/-- The applications of `SSHConfig.openTun`. -/
def SSHConfig.openTun (prefs : Prefs) (installed : List String) : Builder :=
  addApplications (PrefsUtil.isAllowSelectedAppsEnabled prefs) (PrefsUtil.getSelectedApps prefs)
    (PrefsUtil.getForbiddenApps prefs) installed {}

/-- The applications of `OpenVpnConfig.openTun`. -/
def OpenVpnConfig.openTun (prefs : Prefs) (installed : List String) : Builder :=
  addApplications (PrefsUtil.isAllowSelectedAppsEnabled prefs) (PrefsUtil.getSelectedApps prefs)
    (PrefsUtil.getForbiddenApps prefs) installed {}

end SmartTunnel
