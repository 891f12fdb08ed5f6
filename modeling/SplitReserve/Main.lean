import SplitReserve.Deployment.Script
import SplitReserve.Launch

/-!
# The deployment command

The command deploys on a new chain as the admin of the launch.  The environment names the file of its configuration, and without a
name the standard configuration is used.
-/

namespace SplitReserve.Deployment

/-- The configuration that the environment asks for. -/
def readSource : IO Source := do
  match ← IO.getEnv "LEAFSII_DEPLOY_CONFIG" with
  | none => return .standard
  | some path =>
    try
      return .text (← IO.FS.readFile path)
    catch _ =>
      return .unreadable

/-- Write the file of a deployment; the answer is whether that succeeded. -/
def writeFile (w : Written) : IO Bool := do
  try
    IO.FS.writeFile w.path w.text
    return true
  catch _ =>
    return false

/-- Write the file of a deployment that got so far. -/
def writeResult : Except Problem Written → IO Bool
  | .ok w => writeFile w
  | .error _ => return false

end SplitReserve.Deployment

open SplitReserve in
/-- Deploy, print what is reported and end with the code of the problem, if there was one. -/
def main : IO UInt32 := do
  let result := Deployment.run Launch.admin (← Deployment.readSource)
  let report := Deployment.report result (← Deployment.writeResult result.1)
  report.lines.forM fun line => IO.println line
  match report.problem with
  | none => return 0
  | some p => do
    IO.eprintln p.message
    return UInt32.ofNat p.exitCode
