/-
# Hook code for a whole class

The hooks of all methods of a class in one header file: a banner, the code of
every method, and two functions that register and remove all hooks.  The calls
in these functions are written for themselves, each line by line with its own
indentation, and not taken from the code of the methods.
-/

import NativeHooks.Hook.Code

namespace NativeHooks

open Text

/-- The rule above and below a heading of a bundle. -/
def bundleRule : String := "// ==========================================="

/-- The lines up to the code of the first method. -/
def bundleBanner (className : String) : List String :=
  [bundleRule, "// ASA API Hooks for " ++ className, "// Generated by hookgen", bundleRule, "",
   "#pragma once", "",
   "#include \"AsaApi/Core/Public/API/UE/Math/Vector.h\"",
   "#include \"AsaApi/Core/Public/API/ARK/Actor.h\"", ""]

/-- The call in `SetupHooks` that registers the hook of a method, and an empty line. -/
def Method.setupCall (m : Method) : String :=
  String.join
    ["    " ++ hookManager ++ ".SetHook(\"" ++ m.key ++ "\",\n",
     "        &Hook_" ++ m.hookName ++ ",\n",
     "        &" ++ m.hookName ++ ");\n\n"]

/-- The call in `RemoveHooks` that removes the hook of a method, and an empty line. -/
def Method.removeCall (m : Method) : String :=
  String.join
    ["    " ++ hookManager ++ ".DisableHook(\"" ++ m.key ++ "\",\n",
     "        &Hook_" ++ m.hookName ++ ");\n\n"]

/-- A function without parameters under a heading. -/
def bundleFunction (heading name body : String) : String :=
  unlines [bundleRule, "// " ++ heading, bundleRule, "void " ++ name ++ "()", "\x7b"]
    ++ body ++ "\x7d\n"

/-- A header file with the hooks of all methods of a class. -/
def classBundle (className : String) (methods : List Method) (options : CodeOptions) : String :=
  unlines (bundleBanner className)
    ++ String.join (methods.map fun m => m.hookCode options.declares ++ "\n\n")
    ++ (bundleFunction "Load function - Initialize all hooks" "SetupHooks"
          (String.join (methods.map Method.setupCall))
        ++ "\n"
        ++ bundleFunction "Unload function - Remove all hooks" "RemoveHooks"
          (String.join (methods.map Method.removeCall)))

end NativeHooks
