import LoadPlan.Scenario.Entry
import LoadPlan.Storage.Disk
import LoadPlan.Text.Line

/-! The files of data sets. -/
namespace LoadPlan.Scenario

namespace DataFile

/-- The lines of a file that hold more than blanks. -/
def lineCount (bytes : Text.Utf8.Bytes) : Nat :=
  (Text.lines (Text.Utf8.decodeLossy bytes)).countP fun line => !line.all Text.isBlank

end DataFile

/-- The file of a data set: next to the document that describes it, if something of that name is
there, or else as seen from the working directory. -/
def DataSet.file (disk : Storage.Disk) (d : DataSet) : Except Storage.Failure Storage.Path :=
  let path := Storage.Path.ofString d.filename
  match d.directory with
  | none => .ok path
  | some directory =>
    if path.isAbsolute then .ok path
    else (disk.exists? (directory.join path)).map fun there => if there then directory.join path else path

/-- How often the steps of a repetition run, once the file is known. -/
def DataFile.rounds (disk : Storage.Disk) (path : Storage.Path) : Except Storage.Failure Nat :=
  (disk.read path).map lineCount

end LoadPlan.Scenario
