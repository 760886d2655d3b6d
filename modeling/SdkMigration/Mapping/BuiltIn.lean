import SdkMigration.Mapping.Rule

/-!
# The built-in mapping

What the members of the first version of the Teams client library have
become in the second one, together with the names that go with it.
-/

namespace SdkMigration

/-- The package of the library. -/
def defaultModule : String := "@microsoft/teams-js"

/-- The global name under which scripts use the library without importing
it. -/
def defaultAlias : String := "microsoftTeams"

/-- The version requirement that migrated code is written for. -/
def defaultVersion : String := "^2.0.0"

namespace BuiltIn

/-- Functions. -/
def functions : List Rule :=
  [ ⟨⟨"initialize", []⟩, ⟨"app", ["initialize"]⟩, some 0⟩,
    ⟨⟨"getContext", []⟩, ⟨"app", ["getContext"]⟩, some 0⟩,
    ⟨⟨"registerOnThemeChangeHandler", []⟩, ⟨"app", ["registerOnThemeChangeHandler"]⟩, none⟩,
    ⟨⟨"executeDeepLink", []⟩, ⟨"app", ["openLink"]⟩, some 1⟩,
    ⟨⟨"appInitialization", ["notifyAppLoaded"]⟩, ⟨"app", ["notifyAppLoaded"]⟩, none⟩,
    ⟨⟨"appInitialization", ["notifySuccess"]⟩, ⟨"app", ["notifySuccess"]⟩, none⟩,
    ⟨⟨"appInitialization", ["notifyFailure"]⟩, ⟨"app", ["notifyFailure"]⟩, none⟩,
    ⟨⟨"appInitialization", ["notifyExpectedFailure"]⟩, ⟨"app", ["notifyExpectedFailure"]⟩, none⟩,
    ⟨⟨"shareDeepLink", []⟩, ⟨"pages", ["shareDeepLink"]⟩, none⟩,
    ⟨⟨"setFrameContext", []⟩, ⟨"pages", ["setCurrentFrame"]⟩, none⟩,
    ⟨⟨"initializeWithFrameContext", []⟩, ⟨"pages", ["initializeWithFrameContext"]⟩, none⟩,
    ⟨⟨"registerFullScreenHandler", []⟩, ⟨"pages", ["registerFullScreenHandler"]⟩, none⟩,
    ⟨⟨"registerFocusEnterHandler", []⟩, ⟨"pages", ["registerFocusEnterHandler"]⟩, none⟩,
    ⟨⟨"navigateCrossDomain", []⟩, ⟨"pages", ["navigateCrossDomain"]⟩, some 1⟩,
    ⟨⟨"registerAppButtonClickHandler", []⟩, ⟨"pages", ["appButton", "onClick"]⟩, none⟩,
    ⟨⟨"registerAppButtonHoverEnterHandler", []⟩, ⟨"pages", ["appButton", "onHoverEnter"]⟩, none⟩,
    ⟨⟨"registerAppButtonHoverLeaveHandler", []⟩, ⟨"pages", ["appButton", "onHoverLeave"]⟩, none⟩,
    ⟨⟨"registerBackButtonHandler", []⟩,
      ⟨"pages", ["backStack", "registerBackButtonHandler"]⟩, none⟩,
    ⟨⟨"navigateBack", []⟩, ⟨"pages", ["backStack", "navigateBack"]⟩, some 0⟩,
    ⟨⟨"getTabInstances", []⟩, ⟨"pages", ["tabs", "getTabInstances"]⟩, some 0⟩,
    ⟨⟨"getMruTabInstances", []⟩, ⟨"pages", ["tabs", "getMruTabInstances"]⟩, some 0⟩,
    ⟨⟨"navigateToTab", []⟩, ⟨"pages", ["tabs", "navigateToTab"]⟩, some 1⟩,
    ⟨⟨"registerChangeSettingsHandler", []⟩,
      ⟨"pages", ["config", "registerChangeConfigHandler"]⟩, none⟩,
    ⟨⟨"settings", ["getSettings"]⟩, ⟨"pages", ["getConfig"]⟩, some 0⟩,
    ⟨⟨"settings", ["setSettings"]⟩, ⟨"pages", ["config", "setConfig"]⟩, some 1⟩,
    ⟨⟨"settings", ["setValidityState"]⟩, ⟨"pages", ["config", "setValidityState"]⟩, none⟩,
    ⟨⟨"settings", ["registerOnSaveHandler"]⟩,
      ⟨"pages", ["config", "registerOnSaveHandler"]⟩, none⟩,
    ⟨⟨"settings", ["registerOnRemoveHandler"]⟩,
      ⟨"pages", ["config", "registerOnRemoveHandler"]⟩, none⟩,
    ⟨⟨"registerOnLoadHandler", []⟩, ⟨"teamsCore", ["registerOnLoadHandler"]⟩, none⟩,
    ⟨⟨"registerBeforeUnloadHandler", []⟩, ⟨"teamsCore", ["registerBeforeUnloadHandler"]⟩, none⟩,
    ⟨⟨"enablePrintCapability", []⟩, ⟨"teamsCore", ["enablePrintCapability"]⟩, none⟩,
    ⟨⟨"print", []⟩, ⟨"teamsCore", ["print"]⟩, none⟩,
    ⟨⟨"people", ["selectPeople"]⟩, ⟨"people", ["selectPeople"]⟩, some 0⟩,
    ⟨⟨"media", ["captureImage"]⟩, ⟨"media", ["captureImage"]⟩, some 0⟩ ]

/-- Interfaces. -/
def interfaces : List Rule :=
  [ ⟨⟨"Context", []⟩, ⟨"app", ["Context"]⟩, none⟩,
    ⟨⟨"DeepLinkParameters", []⟩, ⟨"shareDeepLinkParameters", []⟩, none⟩,
    ⟨⟨"FrameContext", []⟩, ⟨"FrameInfo", []⟩, none⟩,
    ⟨⟨"settings", ["Settings"]⟩, ⟨"pages", ["InstanceConfig"]⟩, none⟩,
    ⟨⟨"settings", ["SaveEvent"]⟩, ⟨"pages", ["config", "SaveEvent"]⟩, none⟩,
    ⟨⟨"settings", ["RemoveEvent"]⟩, ⟨"pages", ["config", "RemoveEvent"]⟩, none⟩,
    ⟨⟨"appInitialization", ["IFailedRequest"]⟩, ⟨"app", ["IFailedRequest"]⟩, none⟩,
    ⟨⟨"appInitialization", ["IExpectedFailureRequest"]⟩,
      ⟨"app", ["IExpectedFailureRequest"]⟩, none⟩ ]

/-- Enumerations. -/
def enums : List Rule :=
  [ ⟨⟨"appInitialization", ["FailedReason"]⟩, ⟨"app", ["FailedReason"]⟩, none⟩,
    ⟨⟨"appInitialization", ["ExpectedFailureReason"]⟩, ⟨"app", ["ExpectedFailureReason"]⟩, none⟩ ]

end BuiltIn

/-- The built-in mapping. -/
def MappingTable.builtIn : MappingTable :=
  ⟨BuiltIn.functions, BuiltIn.interfaces, BuiltIn.enums⟩

end SdkMigration
