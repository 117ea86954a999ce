import HostedLisp.Operation

/-!
# Debugging from programs

Primitives that pause the program, change the settings of the debugger and show the frames around
a call.
-/

namespace HostedLisp.Debugging

open Program

/-- Pauses, and yields what the user resumes with. -/
def pause : Body := fun _ frame => request (.pause frame)

/-- Reads a setting, or changes it to the truth of an argument. -/
def toggle (which : Debugger.Setting) : Body := fun args _ =>
  match args with
  | [value] => request (.setting which (some value.isTruthy))
  | _ => request (.setting which none)

/-- Shows all bindings that the caller sees. -/
def showFrames : Body := fun _ frame =>
  look fun h => (request (.print (h.dump frame))).bind fun _ => done .nil

def library : List Native := [
  .function "debug" (.exactly 0) pause,
  .function "debug-trace" (.oneOf [0, 1]) (toggle .trace),
  .function "debug-on-error" (.oneOf [0, 1]) (toggle .breakOnError),
  .function "dump" (.exactly 0) showFrames
]

end HostedLisp.Debugging
