import LoadPlan.Console.Command
import LoadPlan.Console.Tagged

/-! The command line of a process: the disk around it is read before a command and written after. -/
namespace LoadPlan.Main

open LoadPlan.Storage (Disk Entry Location Path)

def placeText (place : Location) : String :=
  "/" ++ "/".intercalate place

/-- What is on the way to a place is taken for a directory unless it is known. -/
def withAncestors (d : Disk) (place : Location) : Disk :=
  (List.range place.length).foldl (fun d n =>
    if (d.get? (place.take n)).isSome then d else d.put (place.take n) .directory) d

/-- Read what stands at a place, and everything below a directory. A link is followed to where it ends,
unless that is known already, and what cannot be read is left out. -/
partial def scan (d : Disk) (place : Location) : IO Disk := do
  let text := placeText place
  match ← (IO.FS.realPath text).toBaseIO with
  | .error _ => return d
  | .ok real =>
    if place != [] && real.toString != text then
      let d := d.put place (.link real.toString)
      let ending := (Path.ofString real.toString).parts
      if (d.get? ending).isSome then return d else scan (withAncestors d ending) ending
    else match ← real.readDir.toBaseIO with
      | .ok found =>
        found.foldlM (fun d e => scan d (place ++ [e.fileName])) (d.put place .directory)
      | .error (.permissionDenied ..) => return d.put place (.locked false)
      | .error _ =>
        match ← (IO.FS.readBinFile real).toBaseIO with
        | .ok content => return d.put place (.file content.toList)
        | .error (.permissionDenied ..) => return d.put place (.locked true)
        | .error _ => return d

/-- The part of the disk that a command with these arguments may look at: the working directory and
the directories of what the arguments name, with all below. -/
def around (args : List String) : IO Disk := do
  let working := (Path.ofString (← IO.currentDir).toString).parts
  let empty : Disk := ⟨[], working⟩
  let named := args.map fun a => (empty.resolve (Path.ofString a).parent).parts
  (working :: named.filter (· != [])).foldlM (fun d place => scan (withAncestors d place) place) empty

/-- Write what a command made or changed, directories before what is in them. -/
def writeBack (before after : Disk) : IO Unit := do
  for (place, entry) in after.entries.reverse do
    if before.get? place != some entry then
      match entry with
      | .directory => IO.FS.createDirAll (placeText place)
      | .file content => IO.FS.writeBinFile (placeText place) ⟨content.toArray⟩
      | .link _ | .locked _ => pure ()

end LoadPlan.Main

/-- Run the command that the arguments ask for. -/
def main (args : List String) : IO UInt32 := do
  let before ← LoadPlan.Main.around args
  let outcome := LoadPlan.Console.Command.run LoadPlan.Console.Tagged.renderer before args
  LoadPlan.Main.writeBack before outcome.disk
  for line in outcome.lines do
    IO.println line
  if let some crash := outcome.crash then
    IO.eprintln crash.message
  return outcome.code.toUInt32
