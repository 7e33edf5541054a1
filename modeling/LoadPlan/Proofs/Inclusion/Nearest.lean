import Mathlib.Data.List.Basic
import LoadPlan.Jmx.Generation
import LoadPlan.Proofs.Inclusion.Lookup

/-! Where the file of a data set is looked for, and where that of a script is. -/
namespace LoadPlan

namespace Storage.Disk

variable {d : Disk} {p q : Path} {failure : Failure}

theorem exists?_eq_error_iff : d.exists? p = .error failure ↔ d.isFile p = .error failure := by
  unfold exists? isFile
  rcases d.look p with _ | _ | e
  · exact Iff.rfl
  · exact iff_of_false (by rintro ⟨⟩) (by rintro ⟨⟩)
  · exact iff_of_false (by rintro ⟨⟩) (by rintro ⟨⟩)

theorem firstFile_pair : d.firstFile [p, q] = match d.isFile p, d.isFile q with
    | .error failure, _ => .error failure
    | .ok true, _ => .ok (some p)
    | .ok false, .error failure => .error failure
    | .ok false, .ok true => .ok (some q)
    | .ok false, .ok false => .ok none := by
  simp only [firstFile]
  rcases d.isFile p with _ | _ | _
  · rfl
  · rcases d.isFile q with _ | _ | _
    · rfl
    · rfl
    · rfl
  · rfl

end Storage.Disk

namespace Scenario

open LoadPlan.Description (Node)

/-- The regular file of a name: the one next to a document, or else the one in the working directory. -/
def nearest? (disk : Storage.Disk) (directory : Storage.Path) (name : String) :
    Except Storage.Failure (Option Storage.Path) :=
  disk.firstFile [directory.join (.ofString name), .ofString name]

/-- Next to a document there is something of a name that is no regular file, and in the working directory there
is such a file. -/
def Shadowed (disk : Storage.Disk) (directory : Storage.Path) (name : String) : Prop :=
  disk.exists? (directory.join (.ofString name)) = .ok true ∧
    disk.isFile (directory.join (.ofString name)) = .ok false ∧ disk.isFile (.ofString name) = .ok true

instance (disk : Storage.Disk) (directory : Storage.Path) (name : String) :
    Decidable (Shadowed disk directory name) :=
  inferInstanceAs (Decidable (_ ∧ _))

/-- Next to a document there is no regular file of a name, and of the working directory the disk does not tell. -/
def Untold (disk : Storage.Disk) (directory : Storage.Path) (name : String) : Prop :=
  disk.isFile (directory.join (.ofString name)) = .ok false ∧ ∃ failure, disk.isFile (.ofString name) = .error failure

/-- The file of a data set, if it is a regular one. -/
def DataSet.regular? (disk : Storage.Disk) (d : DataSet) : Except Storage.Failure (Option Storage.Path) :=
  (d.file disk).map fun path => if disk.isFile path = .ok true then some path else none

variable {disk : Storage.Disk} {directory : Storage.Path} {name : String} {d : DataSet}

theorem nearest?_of_shadowed (h : Shadowed disk directory name) :
    nearest? disk directory name = .ok (some (.ofString name)) := by
  rw [nearest?, Storage.Disk.firstFile_pair, h.2.1, h.2.2]

/-- An absolute name is that of one file, next to a document or not. -/
theorem file_of_answer (hd : d.directory = some directory) {there : Bool}
    (h : disk.exists? (directory.join (.ofString d.filename)) = .ok there) : d.file disk =
      .ok (if there then directory.join (.ofString d.filename) else .ofString d.filename) := by
  unfold DataSet.file
  simp only [hd]
  split
  · next ha => rw [Storage.Path.join_of_isAbsolute ha, ite_self]
  · rw [h]
    rfl

theorem file_of_refusal (hd : d.directory = some directory)
    (hrel : (Storage.Path.ofString d.filename).isAbsolute = false) {failure : Storage.Failure}
    (h : disk.isFile (directory.join (.ofString d.filename)) = .error failure) :
    d.file disk = .error failure := by
  unfold DataSet.file
  simp only [hd, hrel, Storage.Disk.exists?_eq_error_iff.mpr h]
  rfl

/-- Where something stands in the way, there is no regular file for a data set; else it is the one next to the
document or that in the working directory. -/
theorem regular?_of_answer (hd : d.directory = some directory) {answer : Option Storage.Path}
    (h : nearest? disk directory d.filename = .ok answer) : d.regular? disk =
      .ok (if Shadowed disk directory d.filename then none else answer) := by
  unfold DataSet.regular?
  rw [nearest?, Storage.Disk.firstFile_pair] at h
  rcases hf : disk.isFile (directory.join (.ofString d.filename)) with _ | _ | _
  · rw [hf] at h
    cases h
  · rw [hf] at h
    rcases he : disk.exists? (directory.join (.ofString d.filename)) with failure | there
    · cases hf.symm.trans (Storage.Disk.exists?_eq_error_iff.mp he)
    · rw [file_of_answer hd he]
      rcases hw : disk.isFile (.ofString d.filename) with _ | _ | _
      · rw [hw] at h
        cases h
      · rw [hw] at h
        cases h
        cases there <;> simp [Except.map, Shadowed, hf, hw]
      · rw [hw] at h
        cases h
        cases there <;> simp [Except.map, Shadowed, hf, hw, he]
  · rw [hf] at h
    cases h
    simp [file_of_answer hd (Storage.Disk.exists?_of_isFile hf), Except.map, Shadowed, hf]

/-- A data set and a script find the same file unless something stands in the way. -/
theorem regular?_eq_nearest?_iff (hd : d.directory = some directory) {answer : Option Storage.Path}
    (h : nearest? disk directory d.filename = .ok answer) :
    d.regular? disk = .ok answer ↔ ¬Shadowed disk directory d.filename := by
  rw [regular?_of_answer hd h]
  by_cases hs : Shadowed disk directory d.filename
  · cases (nearest?_of_shadowed hs).symm.trans h
    simp [hs]
  · simp [hs]

/-- An empty name is that of the directory itself. -/
theorem nearest?_empty (hdir : disk.isFile directory ≠ .ok true) (hworking : disk.isFile ⟨"", []⟩ ≠ .ok true)
    (path : Storage.Path) : nearest? disk directory "" ≠ .ok (some path) := by
  have hp : Storage.Path.ofString "" = ⟨"", []⟩ := rfl
  have hj : directory.join ⟨"", []⟩ = directory := by simp [Storage.Path.join, Storage.Path.isAbsolute]
  rw [nearest?, Storage.Disk.firstFile_pair, hp, hj]
  rcases hf : disk.isFile directory with _ | _ | _
  · rintro ⟨⟩
  · rcases hw : disk.isFile ⟨"", []⟩ with _ | _ | _
    · rintro ⟨⟩
    · rintro ⟨⟩
    · exact absurd hw hworking
  · exact absurd hf hdir

/-- An absolute name is that of one file, wherever it stands. -/
theorem found_eq_nearest? {n : Node} (hn : n.directory disk = some directory) :
    found disk n = if n.content.isEmpty then .ok none else nearest? disk directory n.content := by
  unfold found nearest?
  simp only [hn, Option.toList_some, List.map_cons, List.map_nil]
  by_cases ha : (Storage.Path.ofString n.content).isAbsolute = true
  · rw [if_pos ha, Storage.Path.join_of_isAbsolute ha]
    simp only [Storage.Disk.firstFile, List.nil_append]
    rcases disk.isFile (.ofString n.content) with _ | _ | _
    · rfl
    · rfl
    · rfl
  · rw [if_neg ha]
    rfl

end Scenario

namespace Jmx.Workshop

open LoadPlan.Scenario

variable (w : Workshop) (d : DataSet) (items : List Entry)

/-- The steps of a repetition are run for the lines of a file. -/
def Expands (path : Storage.Path) : Prop :=
  ∃ content, w.disk.read path = .ok content ∧
    w.repetitionFragment d items = w.extendRounds d.name items [] (DataFile.lineCount content)

/-- A repetition comes to nothing, and its file is reported as one that cannot be used. -/
def Skips : Prop :=
  ∃ failure, (Problem.dataUnreadable d.filename failure).kind = .unavailable ∧
    ∀ p, (w.repetitionFragment d items).run p = (.ok [], { p with
      diagnostics := p.diagnostics ++ [⟨.dataUnreadable d.filename failure, ⟨w.source, d.line⟩⟩] })

/-- A repetition is given up, and with it all that is made, as the disk does not tell where its file is. -/
def GivesUp (failure : Storage.Failure) : Prop :=
  w.repetitionFragment d items = throw (.refused failure)

variable {w d}

theorem expands_of_read {path : Storage.Path} {content : Text.Utf8.Bytes} (hf : d.file w.disk = .ok path)
    (hread : w.disk.read path = .ok content) : w.Expands d items path := by
  refine ⟨content, hread, ?_⟩
  rw [repetitionFragment, hf]
  simp only [DataFile.rounds, hread, Except.map]

theorem skips_of_read {path : Storage.Path} {failure : Storage.Failure} (hf : d.file w.disk = .ok path)
    (hread : w.disk.read path = .error failure) : w.Skips d items := by
  refine ⟨failure, rfl, fun p => ?_⟩
  rw [repetitionFragment, hf]
  simp only [DataFile.rounds, hread, Except.map]
  rfl

theorem expands_of_regular? {path : Storage.Path} (h : d.regular? w.disk = .ok (some path)) :
    if (w.disk.read path).isOk then w.Expands d items path else w.Skips d items := by
  unfold DataSet.regular? at h
  rcases hf : d.file w.disk with _ | found
  · rw [hf] at h
    cases h
  · rw [hf] at h
    simp only [Except.map, Except.ok.injEq, Option.ite_none_right_eq_some, Option.some.injEq] at h
    obtain ⟨-, rfl⟩ := h
    rcases hread : w.disk.read found with failure | content
    · exact skips_of_read items hf hread
    · exact expands_of_read items hf hread

theorem skips_of_regular? (h : d.regular? w.disk = .ok none) : w.Skips d items := by
  unfold DataSet.regular? at h
  rcases hf : d.file w.disk with _ | found
  · rw [hf] at h
    cases h
  · rw [hf] at h
    rcases hread : w.disk.read found with failure | content
    · exact skips_of_read items hf hread
    · simp [Except.map, Storage.Disk.isFile_of_read hread] at h

/-- Where the disk does not tell, a repetition is given up like a script, but for one whose own place next to its
document is known to be free of files: that is left out. -/
theorem givesUp_of_refused {directory : Storage.Path} {failure : Storage.Failure}
    (hd : d.directory = some directory) (hrel : (Storage.Path.ofString d.filename).isAbsolute = false)
    (h : nearest? w.disk directory d.filename = .error failure) :
    (Untold w.disk directory d.filename → w.Skips d items) ∧
      (¬Untold w.disk directory d.filename → w.GivesUp d items failure) := by
  rw [nearest?, Storage.Disk.firstFile_pair] at h
  rcases hf : w.disk.isFile (directory.join (.ofString d.filename)) with refusal | _ | _
  · rw [hf] at h
    cases h
    refine ⟨fun hu => ?_, fun _ => ?_⟩
    · cases hf.symm.trans hu.1
    · rw [GivesUp, repetitionFragment, file_of_refusal hd hrel hf]
  · rw [hf] at h
    rcases hw : w.disk.isFile (.ofString d.filename) with refusal | _ | _
    · refine ⟨fun _ => ?_, fun hu => absurd ⟨hf, refusal, hw⟩ hu⟩
      rcases he : w.disk.exists? (directory.join (.ofString d.filename)) with failure | there
      · cases hf.symm.trans (Storage.Disk.exists?_eq_error_iff.mp he)
      · apply skips_of_regular?
        rw [DataSet.regular?, file_of_answer hd he]
        cases there <;> simp [Except.map, hf, hw]
    · rw [hw] at h
      cases h
    · rw [hw] at h
      cases h
  · rw [hf] at h
    cases h

/-- A repetition runs for the lines of the regular file next to its document, or else of the one in the working
directory, if that can be read, as a script of that name opens it; but it is left out if next to the document there
is something else of the name, although the file in the working directory could be read. Where the disk does not
tell whether there is a file, a repetition is given up like a script, unless the place in doubt is that in the
working directory: then it is left out. (An empty name is that of the directory itself, and of no document.) -/
theorem expands_nearest_iff {directory : Storage.Path} (hd : d.directory = some directory) :
    (∀ path, nearest? w.disk directory d.filename = .ok (some path) →
      if Shadowed w.disk directory d.filename then w.Skips d items
      else if (w.disk.read path).isOk then w.Expands d items path else w.Skips d items) ∧
    (nearest? w.disk directory d.filename = .ok none → w.Skips d items) ∧
    ((Storage.Path.ofString d.filename).isAbsolute = false →
      ∀ failure, nearest? w.disk directory d.filename = .error failure →
        (Untold w.disk directory d.filename → w.Skips d items) ∧
          (¬Untold w.disk directory d.filename → w.GivesUp d items failure)) ∧
    (∀ answer, nearest? w.disk directory d.filename = .ok answer →
      (d.regular? w.disk = .ok answer ↔ ¬Shadowed w.disk directory d.filename)) ∧
    ((d.filename = "" → w.disk.isFile directory ≠ .ok true ∧ w.disk.isFile ⟨"", []⟩ ≠ .ok true) →
      ∀ (n : Description.Node) (settings : Settings) (chain : List Storage.Path) (place : Storage.Path),
        n.content = d.filename → n.directory w.disk = some directory →
          (included w.disk settings chain n = .ok place ↔
            (∃ path, nearest? w.disk directory d.filename = .ok (some path) ∧ w.disk.resolve path = place) ∧
              place ∉ chain ∧ (chain.length : Int) ≤ settings.maxIncludeDepth)) := by
  refine ⟨fun path hn => ?_, fun hn => ?_, fun hrel failure hn => givesUp_of_refused items hd hrel hn,
    fun answer hn => regular?_eq_nearest?_iff hd hn, ?_⟩
  · have heq := regular?_of_answer hd hn
    split
    · next hs => exact skips_of_regular? items (by rw [heq, if_pos hs])
    · next hs => exact expands_of_regular? items (by rw [heq, if_neg hs])
  · exact skips_of_regular? items (by rw [regular?_of_answer hd hn, ite_self])
  · intro hempty n settings chain place hname hdir
    have hfound : ∀ path, found w.disk n = .ok (some path) ↔
        nearest? w.disk directory d.filename = .ok (some path) := by
      intro path
      rw [found_eq_nearest? hdir, hname]
      split
      · next hnone =>
        have hname' : d.filename = "" := String.isEmpty_iff.mp hnone
        obtain ⟨hdir', hworking⟩ := hempty hname'
        rw [hname']
        exact iff_of_false (by rintro ⟨⟩) (nearest?_empty hdir' hworking path)
      · exact Iff.rfl
    simp only [included_eq_ok_iff, hfound]

/-- A directory of the name stands next to the document; the file is in the working directory. -/
def shadowedDisk : Storage.Disk :=
  ⟨[(["sub", "u"], .directory), (["sub"], .directory), (["u"], .file (Text.Utf8.encode "ann\nbob\n"))], []⟩

def shadowedSet : DataSet := { DataSet.standard with filename := "u", directory := some ⟨"/", ["sub"]⟩ }

def shadowedNode : Description.Node := ⟨"file", [], [], "u", 1, "sub/m"⟩

theorem get?_sub : shadowedDisk.get? ["sub"] = some .directory := rfl

theorem directory_shadowedNode : shadowedNode.directory shadowedDisk = some ⟨"/", ["sub"]⟩ := by
  have hm : shadowedDisk.get? ["sub", "m"] = none := rfl
  have hway : shadowedDisk.resolveFrom Storage.Disk.linkLimit [] ["sub", "m"] = ["sub", "m"] := by
    simp [Storage.Disk.resolveFrom, get?_sub, hm]
  exact congrArg (fun l => some (Storage.Path.parent ⟨"/", l⟩)) hway

theorem look_shadowed : shadowedDisk.look ⟨"/", ["sub", "u"]⟩ = .ok (some .directory) := by
  have hu : shadowedDisk.get? ["sub", "u"] = some .directory := rfl
  have hshort : ∀ name ∈ ["sub", "u"], ¬Storage.Path.nameLimit < (Text.Utf8.encode name).length := by decide
  have hway : shadowedDisk.walk Storage.Disk.linkLimit [] ["sub", "u"] = .ok (.entry ["sub", "u"] .directory) := by
    simp [Storage.Disk.walk, get?_sub, hu, hshort]
  rw [Storage.Disk.look, Storage.Disk.find_eq_ok_iff.mpr ⟨by decide, hway⟩]

/-- A script opens the file in the working directory; a repetition of a data set from the same document, with the
same name, does not run for its lines. -/
theorem expands_nearest_iff_shadowed :
    nearest? shadowedDisk ⟨"/", ["sub"]⟩ "u" = .ok (some ⟨"", ["u"]⟩) ∧
      Skips ⟨shadowedDisk, .standard, "sub/m"⟩ shadowedSet [.request .standard] ∧
      shadowedSet.regular? shadowedDisk ≠ .ok (some ⟨"", ["u"]⟩) ∧
      included shadowedDisk .standard [] shadowedNode = .ok ⟨"/", ["u"]⟩ := by
  have hfind : shadowedDisk.find ⟨"", ["u"]⟩ = .ok (.entry ["u"] (.file (Text.Utf8.encode "ann\nbob\n"))) :=
    Storage.Disk.find_of_file (by decide) (by decide) rfl
  have hfile : shadowedDisk.fileAt? ⟨"", ["u"]⟩ = some ["u"] := by
    rw [Storage.Disk.fileAt?, hfind]
    rfl
  have hresolve := Storage.Disk.resolve_of_fileAt? hfile
  have hshadowed : Shadowed shadowedDisk ⟨"/", ["sub"]⟩ "u" :=
    ⟨congrArg (Except.map Option.isSome) look_shadowed,
      congrArg (Except.map fun e : Option Storage.Entry => e.any Storage.Entry.isFile) look_shadowed,
      Storage.Disk.fileAt?_isSome_iff.mp (congrArg Option.isSome hfile)⟩
  have hnearest : nearest? shadowedDisk ⟨"/", ["sub"]⟩ "u" = .ok (some ⟨"", ["u"]⟩) :=
    nearest?_of_shadowed hshadowed
  obtain ⟨hreads, -, -, hsame, hscript⟩ := expands_nearest_iff (w := ⟨shadowedDisk, .standard, "sub/m"⟩)
    (d := shadowedSet) [.request .standard] rfl
  have hskips := hreads _ hnearest
  rw [if_pos (show Shadowed shadowedDisk ⟨"/", ["sub"]⟩ shadowedSet.filename from hshadowed)] at hskips
  refine ⟨hnearest, hskips, fun h => (hsame _ hnearest).mp h hshadowed, ?_⟩
  exact (hscript (fun h => absurd h (by decide)) shadowedNode .standard [] ⟨"/", ["u"]⟩ rfl directory_shadowedNode).mpr
    ⟨⟨_, hnearest, hresolve⟩, List.not_mem_nil, by decide⟩

end Jmx.Workshop

end LoadPlan
