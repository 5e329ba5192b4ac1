import StyleZones.Path.Mode
import StyleZones.Policy.Basic

/-!
# Zones

Code belongs to one of three zones by the path of its file. Rendering-engine code is *blink*, code
below a banned directory is *third-party* and is not checked, everything else is *chrome*. The tests
come in this order, so rendering-engine code is blink although it lies below a banned directory; its
browser side is left to the later tests.

`Classifier.zoneOfName` decides the zone of a file name.
-/

set_option autoImplicit false

namespace StyleZones

/-- A zone of enforcement. -/
inductive Zone where
  /-- The project's own code. -/
  | chrome
  /-- The rendering engine. -/
  | blink
  /-- Code of others, and generated code. -/
  | thirdParty
  deriving DecidableEq, Repr

namespace Zone

/-- The name of a zone. -/
def name : Zone → String
  | .chrome => "chrome"
  | .blink => "blink"
  | .thirdParty => "third-party"

/-- The zone of that name. -/
def ofName? (s : String) : Option Zone :=
  if s = "chrome" then some .chrome
  else if s = "blink" then some .blink
  else if s = "third-party" then some .thirdParty
  else none

theorem ofName?_name (z : Zone) : ofName? z.name = some z := by
  cases z <;> rfl

/-- Code of the zone is checked. -/
def isChecked : Zone → Bool
  | .thirdParty => false
  | _ => true

end Zone

/-- What deciding the zone of a file name depends on. -/
structure Classifier where
  /-- The lists of exemptions. -/
  policy : Policy
  /-- How file names become paths. -/
  mode : PathMode
  /-- What the disk says about file names. -/
  real : RealPath

namespace Classifier

/-- The name that the compiler gives to text produced by pasting tokens in a macro. Such text
belongs to whoever defined the macro. -/
def scratchSpace : String := "<scratch space>"

/-- The rendering engine's former directory. -/
def webkitDirectory : String := "/third_party/WebKit/"

/-- The rendering engine's directory. -/
def blinkDirectory : String := "/third_party/blink/"

/-- The browser side of the rendering engine, which is not rendering-engine code. -/
def blinkBrowserDirectory : String := "/third_party/blink/browser/"

/-- The path lies in the rendering engine. -/
def isBlinkPath (path : String) : Bool :=
  Text.contains path webkitDirectory ||
    (Text.contains path blinkDirectory && !Text.contains path blinkBrowserDirectory)

/-- The zone of a path. -/
def zoneOfPath (policy : Policy) (path : String) : Zone :=
  if isBlinkPath path then .blink
  else if (policy.bannedDirectoryIn path).isSome then .thirdParty
  else .chrome

/-- The path that the classifier looks at for a file name. -/
def normalize (c : Classifier) (name : String) : String :=
  c.mode.normalize c.real name

/-- The zone of a file name. -/
def zoneOfName (c : Classifier) (name : String) : Zone :=
  if name = scratchSpace then .thirdParty else zoneOfPath c.policy (c.normalize name)

end Classifier

/-- Suffixes of the names of implementation files. -/
def implementationSuffixes : List String :=
  [".cc", ".cpp", ".mm"]

/-- The file name is that of an implementation file, as opposed to a header. -/
def isImplementationName (name : String) : Bool :=
  implementationSuffixes.any (Text.endsWith name)

end StyleZones
