import StyleZones.Policy.Basic

/-!
# The built-in policy

The lists that apply unless a configuration replaces them: code of other projects and generated
code, types with good reasons to be exempt, and base classes of generated message types.
-/

set_option autoImplicit false

namespace StyleZones.Policy

/-- Directories of other projects, and the directories into which the build systems write. -/
def chromiumDirectories : List Marker := [
  ⟨"/breakpad/", by decide⟩, ⟨"/courgette/", by decide⟩, ⟨"/frameworks/", by decide⟩,
  ⟨"/gen/", by decide⟩, ⟨"/geni/", by decide⟩, ⟨"/native_client/", by decide⟩,
  ⟨"/ppapi/", by decide⟩, ⟨"/sdch/", by decide⟩, ⟨"/testing/", by decide⟩,
  ⟨"/third_party/", by decide⟩, ⟨"/v8/", by decide⟩, ⟨"/xcodebuild/", by decide⟩]

/-- Types that are exempt by name. -/
def chromiumTypes : List String :=
  ["AutocompleteController", "Header", "HistoryURLProvider", "MockTransaction",
    "PluginVersionInfo", "QuadF", "ServerFieldType", "TestAnimationDelegate",
    "ThreadLocalBoolean", "Validators", "ViewID"]

/-- Base classes whose descendants are exempt. -/
def chromiumBases : List String :=
  ["IPC::NoParams"]

/-- The built-in policy. -/
def chromium : Policy where
  directories := chromiumDirectories
  types := chromiumTypes
  bases := chromiumBases

end StyleZones.Policy
