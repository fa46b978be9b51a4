/-!
# Settings

The class-file version that is written, whether instructions are traced, and the bootstrap method that links call sites.
-/

namespace Linkage

/-- The static method that links a call site when it is first run. -/
structure BootstrapMethod where
  owner : String := "java/lang/invoke/LambdaMetafactory"
  name : String := "metafactory"
  descriptor : String :=
    "(Ljava/lang/invoke/MethodHandles$Lookup;Ljava/lang/String;Ljava/lang/invoke/MethodType;Ljava/lang/invoke/MethodType;" ++
      "Ljava/lang/invoke/MethodHandle;Ljava/lang/invoke/MethodType;)Ljava/lang/invoke/CallSite;"
  deriving DecidableEq

/-- The class-file version from which handles may name interface methods; the oldest that is written. -/
def oldestVersion : UInt16 :=
  52

/-- The newest class-file version that is written. -/
def newestVersion : UInt16 :=
  65

/-- How references are lowered. -/
structure Settings where
  majorVersion : UInt16 := oldestVersion
  /-- Whether code buffers trace the instructions written to them. -/
  tracing : Bool := false
  bootstrap : BootstrapMethod := {}
  deriving DecidableEq

/-- Why settings cannot be used. -/
inductive SettingsFault where
  | unsupportedVersion (version : UInt16)
  | unnamedBootstrap
  | badDescriptor (descriptor : String)
  deriving DecidableEq

def SettingsFault.message : SettingsFault → String
  | unsupportedVersion version =>
    s!"unsupported class file version {version} (expected {oldestVersion}..={newestVersion})"
  | unnamedBootstrap => "bootstrap method owner and name must be set"
  | badDescriptor descriptor => "invalid bootstrap descriptor '" ++ descriptor ++ "'"

/-- Checks settings: a version that can be written, and a bootstrap method with an owner, a name and a method descriptor. -/
def Settings.check (s : Settings) : Except SettingsFault Unit :=
  if s.majorVersion < oldestVersion || newestVersion < s.majorVersion then .error (.unsupportedVersion s.majorVersion)
  else if s.bootstrap.owner = "" || s.bootstrap.name = "" then .error .unnamedBootstrap
  else if s.bootstrap.descriptor.toList.head? ≠ some '(' then .error (.badDescriptor s.bootstrap.descriptor)
  else .ok ()

end Linkage
