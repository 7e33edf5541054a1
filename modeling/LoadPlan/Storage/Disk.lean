import LoadPlan.Storage.Failure
import LoadPlan.Storage.Path
import LoadPlan.Text.Utf8

/-! A disk as a value: files, directories and symbolic links by their place, and the operations of a
process that works in one directory. -/
namespace LoadPlan.Storage

open LoadPlan.Text.Utf8 (Bytes)

/-- The names from the root down, none of them a link. -/
abbrev Location := List String

inductive Entry
  | file (content : Bytes)
  | directory
  | link (target : String)
  /-- A file that the process may neither read nor change, or a directory that it may not look into. Of what is
  below such a directory nothing is on record. -/
  | locked (isFile : Bool)
  deriving DecidableEq, Repr

def Entry.isFile : Entry → Bool
  | .file _ | .locked true => true
  | _ => false

def Entry.isDirectory : Entry → Bool
  | .directory | .locked false => true
  | _ => false

/-- What stands where, and the working directory. -/
structure Disk where
  entries : List (Location × Entry)
  working : Location
  deriving Repr

namespace Disk

/-- The entry at a place. The root is always a directory. -/
def get? (d : Disk) (at_ : Location) : Option Entry :=
  if at_ = [] then some .directory else d.entries.lookup at_

/-- Put an entry at a place, in the stead of the one before. -/
def put (d : Disk) (at_ : Location) (e : Entry) : Disk :=
  { d with entries := (at_, e) :: d.entries.filter (·.1 != at_) }

theorem lookup_filter_of_ne {a b : Location} (h : b ≠ a) (l : List (Location × Entry)) :
    (l.filter (·.1 != a)).lookup b = l.lookup b := by
  induction l with
  | nil => rfl
  | cons x l ih =>
    obtain ⟨k, v⟩ := x
    by_cases hk : k = a
    · subst hk
      have : (b == k) = false := by simpa using h
      simp [List.lookup_cons, ih, this]
    · simp [List.lookup_cons, hk, ih]

theorem get?_put_of_ne {d : Disk} {a b : Location} {e : Entry} (h : b ≠ a) :
    (d.put a e).get? b = d.get? b := by
  have : (b == a) = false := by simpa using h
  simp [get?, put, List.lookup_cons, this, lookup_filter_of_ne h]

theorem get?_put_self {d : Disk} {a : Location} {e : Entry} (h : a ≠ []) :
    (d.put a e).get? a = some e := by
  simp [get?, put, h]

/-- Where a path leads: to an entry that is no link, or to a free place in a directory. -/
inductive Target
  | entry (place : Location) (e : Entry)
  | free (place : Location)
  deriving Repr

/-- Links followed on one way before it counts as endless. -/
def linkLimit : Nat := 40

/-- Follow names from a directory. -/
def walk (d : Disk) (links : Nat) (here : Location) : List String → Except Cause Target
  | [] => .ok (.entry here ((d.get? here).getD .directory))
  | name :: rest =>
    if name = ".." then walk d links here.dropLast rest
    else if Path.nameLimit < (Text.Utf8.encode name).length then .error .nameTooLong
    else match d.get? (here ++ [name]) with
      | none => if rest.isEmpty then .ok (.free (here ++ [name])) else .error .notFound
      | some .directory => walk d links (here ++ [name]) rest
      | some (.file content) =>
        if rest.isEmpty then .ok (.entry (here ++ [name]) (.file content)) else .error .notDirectory
      | some (.locked isFile) =>
        if rest.isEmpty then .ok (.entry (here ++ [name]) (.locked isFile))
        else .error (if isFile then .notDirectory else .notPermitted)
      | some (.link target) =>
        match links with
        | 0 => .error .tooManyLinks
        | n + 1 =>
          let way := Path.ofString target
          walk d n (if way.isAbsolute then [] else here) (way.parts ++ rest)
termination_by names => (links, names.length)

/-- Where the way of a path begins. -/
def start (d : Disk) (p : Path) : Location :=
  if p.isAbsolute then [] else d.working

def find (d : Disk) (p : Path) : Except Cause Target :=
  if Path.textLimit < p.size then .error .nameTooLong else d.walk linkLimit (d.start p) p.parts

theorem find_eq_ok_iff {d : Disk} {p : Path} {t : Target} : d.find p = .ok t ↔
    p.size ≤ Path.textLimit ∧ d.walk linkLimit (d.start p) p.parts = .ok t := by
  unfold find
  split
  · simp only [reduceCtorEq, false_iff]
    omega
  · simp only [iff_and_self]
    omega

theorem find_of_name (d : Disk) {name : String} (hshort : (Text.Utf8.encode name).length ≤ Path.nameLimit) :
    d.find ⟨"", [name]⟩ = d.walk linkLimit d.working [name] := by
  have hlimit : Path.nameLimit ≤ Path.textLimit := by decide
  rw [find, Path.size_of_name, if_neg (by omega)]
  rfl

/-- A name leads to the file that stands under it in the working directory. -/
theorem find_of_file {d : Disk} {name : String} {content : Bytes} (hup : name ≠ "..")
    (hshort : (Text.Utf8.encode name).length ≤ Path.nameLimit)
    (hfile : d.get? (d.working ++ [name]) = some (.file content)) :
    d.find ⟨"", [name]⟩ = .ok (.entry (d.working ++ [name]) (.file content)) := by
  rw [d.find_of_name hshort, walk, if_neg hup, if_neg (Nat.not_lt.mpr hshort), hfile]
  rfl

theorem find_of_free {d : Disk} {name : String} (hup : name ≠ "..")
    (hshort : (Text.Utf8.encode name).length ≤ Path.nameLimit) (hfree : d.get? (d.working ++ [name]) = none) :
    d.find ⟨"", [name]⟩ = .ok (.free (d.working ++ [name])) := by
  rw [d.find_of_name hshort, walk, if_neg hup, if_neg (Nat.not_lt.mpr hshort), hfree]
  rfl

/-- Look up what a path leads to. That nothing is there is an answer; to a name that is too long, or below a
directory that the process may not look into, there is none. -/
def look (d : Disk) (p : Path) : Except Failure (Option Entry) :=
  match d.find p with
  | .ok (.entry _ e) => .ok (some e)
  | .ok (.free _) => .ok none
  | .error cause => if cause.isAbsence then .ok none else .error ⟨cause, p.text⟩

def exists? (d : Disk) (p : Path) : Except Failure Bool :=
  (d.look p).map Option.isSome

def isFile (d : Disk) (p : Path) : Except Failure Bool :=
  (d.look p).map fun e => e.any Entry.isFile

def isDirectory (d : Disk) (p : Path) : Except Failure Bool :=
  (d.look p).map fun e => e.any Entry.isDirectory

/-- The path without names is the working directory. -/
theorem isDirectory_working {d : Disk} (h : d.get? d.working = some .directory) :
    d.isDirectory ⟨"", []⟩ = .ok true := by
  have hfind : d.find ⟨"", []⟩ = .ok (.entry d.working .directory) := by
    rw [find, if_neg (by decide), walk, start, if_neg (by decide), h]
    rfl
  rw [isDirectory, look, hfind]
  rfl

theorem exists?_of_isFile {d : Disk} {p : Path} (h : d.isFile p = .ok true) : d.exists? p = .ok true := by
  unfold isFile at h
  unfold exists?
  rcases hl : d.look p with _ | _ | e
  · rw [hl] at h
    cases h
  · rw [hl] at h
    cases h
  · rfl

/-- The first of some paths that leads to a file. A lookup without an answer ends the search. -/
def firstFile (d : Disk) : List Path → Except Failure (Option Path)
  | [] => .ok none
  | p :: ps => do
    if ← d.isFile p then return some p
    d.firstFile ps

def read (d : Disk) (p : Path) : Except Failure Bytes :=
  match d.find p with
  | .ok (.entry _ (.file content)) => .ok content
  | .ok (.entry _ (.locked _)) => .error ⟨.notPermitted, p.text⟩
  | .ok (.entry _ _) => .error ⟨.isDirectory, p.text⟩
  | .ok (.free _) => .error ⟨.notFound, p.text⟩
  | .error cause => .error ⟨cause, p.text⟩

theorem isFile_of_read {d : Disk} {p : Path} {content : Bytes} (h : d.read p = .ok content) :
    d.isFile p = .ok true := by
  unfold read at h
  split at h
  · next hf =>
    rw [isFile, look, hf]
    rfl
  all_goals cases h

/-- Replace the content of the file a path leads to, or make a new one at a free place. -/
def write (d : Disk) (p : Path) (content : Bytes) : Except Failure Disk :=
  match d.find p with
  | .ok (.entry place (.file _)) => .ok (d.put place (.file content))
  | .ok (.entry _ (.locked true)) => .error ⟨.notPermitted, p.text⟩
  | .ok (.entry _ _) => .error ⟨.isDirectory, p.text⟩
  | .ok (.free place) => .ok (d.put place (.file content))
  | .error cause => .error ⟨cause, p.text⟩

/-- Make one directory; a link at its name counts as taken. -/
def makeDirectory (d : Disk) (p : Path) : Except Cause Disk :=
  match p.parts.getLast? with
  | none => .error .alreadyExists
  | some name =>
    if Path.textLimit < p.size then .error .nameTooLong
    else match d.find p.parent with
    | .error cause => .error cause
    | .ok (.free _) => .error .notFound
    | .ok (.entry place .directory) =>
      if name = ".." then .error .alreadyExists
      else if Path.nameLimit < (Text.Utf8.encode name).length then .error .nameTooLong
      else match d.get? (place ++ [name]) with
        | some _ => .error .alreadyExists
        | none => .ok (d.put (place ++ [name]) .directory)
    | .ok (.entry _ (.locked false)) => .error .notPermitted
    | .ok (.entry _ _) => .error .notDirectory

/-- Make a directory unless it is there, and the missing ones above it first. The disk is answered
also on failure, as some of them may have been made. -/
def makeDirectories (d : Disk) (p : Path) : Disk × Except Failure Unit :=
  let settle (d : Disk) (cause : Cause) : Disk × Except Failure Unit :=
    (d, do if !(← d.isDirectory p) then throw ⟨cause, p.text⟩)
  match d.makeDirectory p with
  | .ok made => (made, .ok ())
  | .error .notFound =>
    if p.parts.isEmpty then (d, .error ⟨.notFound, p.text⟩)
    else match makeDirectories d p.parent with
      | (d, .error failure) => (d, .error failure)
      | (d, .ok ()) =>
        match d.makeDirectory p with
        | .ok made => (made, .ok ())
        | .error .notFound => (d, .error ⟨.notFound, p.text⟩)
        | .error cause => settle d cause
  | .error cause => settle d cause
termination_by p.parts.length
decreasing_by
  rename_i h
  simp only [Path.parent, List.length_dropLast]
  have : p.parts ≠ [] := by simpa using h
  have := List.length_pos_iff.2 this
  omega

/-- The place a path denotes once links and parent names are resolved. What does not exist is taken
at its word. -/
def resolveFrom (d : Disk) (links : Nat) (here : Location) : List String → Location
  | [] => here
  | name :: rest =>
    if name = ".." then resolveFrom d links here.dropLast rest
    else match d.get? (here ++ [name]) with
      | some (.link target) =>
        match links with
        | 0 => resolveFrom d 0 (here ++ [name]) rest
        | n + 1 =>
          let way := Path.ofString target
          resolveFrom d n (if way.isAbsolute then [] else here) (way.parts ++ rest)
      | _ => resolveFrom d links (here ++ [name]) rest
termination_by names => (links, names.length)

def resolve (d : Disk) (p : Path) : Path :=
  ⟨"/", d.resolveFrom linkLimit (d.start p) p.parts⟩

/-- A path from the root, with nothing resolved. -/
def absolute (d : Disk) (p : Path) : Path :=
  Path.join ⟨"/", d.working⟩ p

end Disk

end LoadPlan.Storage
