import Mathlib.Logic.Function.Iterate
import LoadPlan.Proofs.Inclusion.Lookup
import LoadPlan.Proofs.Scenario.Course
import LoadPlan.Proofs.Scenario.Documents

/-! The collection of a description moment by moment, with the chain of open documents that it keeps: a
document is added to the chain when it is opened, and taken from it again when it has been read. Like the reading, it
goes on as if the disk answered every lookup. -/
namespace LoadPlan.Scenario

open LoadPlan.Description (Node)

/-- A script that is taken in, in a document that stands still meanwhile. -/
structure Script where
  /-- The elements of the script that are still to come. -/
  rest : List Node
  /-- What the elements before brought in. -/
  taken : Parts
  /-- How the document goes on after the script. -/
  next : Parts → Log → Course Scenario
  /-- The chain when the script was begun. -/
  chain : List Storage.Path

/-- What is going on. -/
inductive Activity
  /-- A description is about to be collected. -/
  | called (root : Node) (log : Log)
  /-- The document opened last is read. -/
  | document (course : Course Scenario)
  /-- A script of that document is taken in. -/
  | script (s : Script) (log : Log)
  /-- The description has been collected. -/
  | returned (s : Scenario) (log : Log)

/-- One moment of a collection. -/
structure Moment where
  /-- The resolved paths of the documents being collected. -/
  chain : List Storage.Path
  /-- Where the files of these documents lie. -/
  files : List Storage.Location
  /-- The scripts that brought in the documents being collected, the last one first. -/
  waiting : List Script
  now : Activity

/-- How deep the document is included that is read. -/
def Moment.depth (m : Moment) : Nat :=
  m.waiting.length

def Script.pass (s : Script) (rest : List Node) : Script :=
  { s with rest }

def Script.take (s : Script) (t : Scenario) : Script :=
  { s with taken := (s.taken.1 ++ t.stack, s.taken.2 ++ t.dataSets) }

def Log.report (log : Log) (p : Problem) (n : Node) : Log :=
  { log with diagnostics := log.diagnostics ++ [⟨p, n.place⟩] }

variable (disk : Storage.Disk) (settings : Settings) (main : Node)

/-- Where the file lies that an element names. -/
def named (n : Node) : Option Storage.Location :=
  match found disk n with
  | .ok (some path) => disk.fileAt? path
  | _ => none

/-- Where the file of a description lies, if its source leads to one. -/
def headFiles : List Storage.Location :=
  (disk.fileAt? (.ofString main.source)).toList

/-- How a document is read. -/
def begun (root : Node) (log : Log) : Activity :=
  .document (Stepwise.elements disk settings root.children log)

/-- The next moment. -/
def step (m : Moment) : Moment :=
  match m.now with
  | .called root log =>
    ⟨m.chain ++ headChain disk root, m.files ++ headFiles disk root, m.waiting, begun disk settings root log⟩
  | .document (.script n log next) =>
    { m with now := .script ⟨n.children, ([], []), next, m.chain⟩ log }
  | .document (.done s log) =>
    match m.waiting with
    | w :: waiting => ⟨m.chain.dropLast, m.files.dropLast, waiting, .script (w.take s) log⟩
    | [] =>
      ⟨if Node.isFileSource main.source then m.chain.dropLast else m.chain, [], [], .returned s log⟩
  | .script s log =>
    match s.rest with
    | [] => { m with now := .document (s.next s.taken log) }
    | n :: rest =>
      if n.name = "file" then
        match opened disk settings m.chain n with
        | .error p => { m with now := .script (s.pass rest) (log.report p n) }
        | .ok (place, root) =>
          ⟨m.chain ++ [place], m.files ++ (named disk n).toList, s.pass rest :: m.waiting,
            begun disk settings root log⟩
      else { m with now := .script (s.pass rest) log }
  | .returned .. => m

/-- The moments of a collection, from its call on. -/
def moment (log : Log) (k : Nat) : Moment :=
  (step disk settings main)^[k] ⟨[], [], [], .called main log⟩

/-- What can happen from one moment to the next. -/
inductive Turn : Moment → Moment → Prop
  | call (chain : List Storage.Path) (files : List Storage.Location) (waiting : List Script) (root : Node)
      (log : Log) : Turn ⟨chain, files, waiting, .called root log⟩
        ⟨chain ++ headChain disk root, files ++ headFiles disk root, waiting, begun disk settings root log⟩
  | stop (chain : List Storage.Path) (files : List Storage.Location) (waiting : List Script) (n : Node)
      (log : Log) (next : Parts → Log → Course Scenario) :
      Turn ⟨chain, files, waiting, .document (.script n log next)⟩
        ⟨chain, files, waiting, .script ⟨n.children, ([], []), next, chain⟩ log⟩
  | leave (chain : List Storage.Path) (files : List Storage.Location) (w : Script) (waiting : List Script)
      (s : Scenario) (log : Log) : Turn ⟨chain, files, w :: waiting, .document (.done s log)⟩
        ⟨chain.dropLast, files.dropLast, waiting, .script (w.take s) log⟩
  | finish (chain : List Storage.Path) (files : List Storage.Location) (s : Scenario) (log : Log) :
      Turn ⟨chain, files, [], .document (.done s log)⟩
        ⟨if Node.isFileSource main.source then chain.dropLast else chain, [], [], .returned s log⟩
  | resume (chain : List Storage.Path) (files : List Storage.Location) (waiting : List Script) (s : Script)
      (log : Log) : s.rest = [] → Turn ⟨chain, files, waiting, .script s log⟩
        ⟨chain, files, waiting, .document (s.next s.taken log)⟩
  | pass (chain : List Storage.Path) (files : List Storage.Location) (waiting : List Script) (s : Script)
      (log : Log) {n : Node} {rest : List Node} : s.rest = n :: rest → n.name ≠ "file" →
      Turn ⟨chain, files, waiting, .script s log⟩ ⟨chain, files, waiting, .script (s.pass rest) log⟩
  | refuse (chain : List Storage.Path) (files : List Storage.Location) (waiting : List Script) (s : Script)
      (log : Log) {n : Node} {rest : List Node} {p : Problem} : s.rest = n :: rest → n.name = "file" →
      opened disk settings chain n = .error p → Turn ⟨chain, files, waiting, .script s log⟩
        ⟨chain, files, waiting, .script (s.pass rest) (log.report p n)⟩
  | enter (chain : List Storage.Path) (files : List Storage.Location) (waiting : List Script) (s : Script)
      (log : Log) {n root : Node} {rest : List Node} {file : Storage.Location} :
      s.rest = n :: rest → n.name = "file" → opened disk settings chain n = .ok (⟨"/", file⟩, root) →
      named disk n = some file → Turn ⟨chain, files, waiting, .script s log⟩
        ⟨chain ++ [⟨"/", file⟩], files ++ [file], s.pass rest :: waiting, begun disk settings root log⟩
  | rest (chain : List Storage.Path) (files : List Storage.Location) (waiting : List Script) (s : Scenario)
      (log : Log) : Turn ⟨chain, files, waiting, .returned s log⟩ ⟨chain, files, waiting, .returned s log⟩

variable {disk settings main}

/-- The place of an opened document is where the file lies that was named. -/
theorem named_of_opened {chain : List Storage.Path} {n root : Node} {place : Storage.Path}
    (h : opened disk settings chain n = .ok (place, root)) :
    ∃ file, named disk n = some file ∧ place = ⟨"/", file⟩ := by
  obtain ⟨⟨path, hpath, rfl⟩, -⟩ := included_eq_ok_iff.mp (opened_eq_ok_iff.mp h).1
  have hfile : (disk.fileAt? path).isSome = true :=
    Storage.Disk.fileAt?_isSome_iff.mpr (isFile_of_found hpath)
  obtain ⟨file, hfile⟩ := Option.isSome_iff_exists.mp hfile
  exact ⟨file, by rw [named, hpath]; exact hfile, Storage.Disk.resolve_of_fileAt? hfile⟩

theorem turn_step (m : Moment) : Turn disk settings main m (step disk settings main m) := by
  obtain ⟨chain, files, waiting, now⟩ := m
  cases now with
  | called root log => exact .call ..
  | document course =>
    cases course with
    | script n log next => exact .stop ..
    | done s log =>
      cases waiting with
      | nil => exact .finish ..
      | cons w waiting => exact .leave ..
  | script s log =>
    simp only [step]
    split
    · next hr => exact .resume _ _ _ _ _ hr
    · next n rest hr =>
      split
      · next hn =>
        split
        · next p hp => exact .refuse _ _ _ _ _ hr hn hp
        · next place root ho =>
          obtain ⟨file, hfile, rfl⟩ := named_of_opened ho
          rw [hfile]
          exact .enter _ _ _ _ _ hr hn ho hfile
      · next hn => exact .pass _ _ _ _ _ hr hn
  | returned s log => exact .rest ..

/-! Every document of the chain was opened by a script of the one before it. -/

variable (disk settings main) in
/-- Open documents, the files they are in, and the scripts that brought them in. -/
inductive Nested : List Storage.Path → List Storage.Location → List Script → Prop
  | head : Nested (headChain disk main) (headFiles disk main) []
  | inner {w : Script} {files : List Storage.Location} {waiting : List Script} {file : Storage.Location} :
      Nested w.chain files waiting → (⟨"/", file⟩ : Storage.Path) ∉ w.chain →
      (w.chain.length : Int) ≤ settings.maxIncludeDepth →
      Nested (w.chain ++ [⟨"/", file⟩]) (files ++ [file]) (w :: waiting)

variable (disk settings main) in
/-- The chain is that of the open documents, and empty before and after the collection. -/
def Moment.Sound (m : Moment) : Prop :=
  match m.now with
  | .called root _ => root = main ∧ m.chain = [] ∧ m.files = [] ∧ m.waiting = []
  | .document _ => Nested disk settings main m.chain m.files m.waiting
  | .script s _ => s.chain = m.chain ∧ Nested disk settings main m.chain m.files m.waiting
  | .returned .. => m.chain = [] ∧ m.waiting = []

theorem Turn.sound {m m' : Moment} (h : Turn disk settings main m m')
    (hm : m.Sound disk settings main) : m'.Sound disk settings main := by
  cases h with
  | call =>
    obtain ⟨rfl, rfl, rfl, rfl⟩ := hm
    exact .head
  | stop => exact ⟨rfl, hm⟩
  | leave chain files w waiting s log =>
    have hm : Nested disk settings main chain files (w :: waiting) := hm
    cases hm with
    | @inner _ files _ file hn =>
      have hchain : (w.chain ++ [(⟨"/", file⟩ : Storage.Path)]).dropLast = w.chain := List.dropLast_concat
      have hfiles : (files ++ [file]).dropLast = files := List.dropLast_concat
      refine ⟨hchain.symm, ?_⟩
      simp only [hchain, hfiles]
      exact hn
  | finish chain files s log =>
    have hm : Nested disk settings main chain files [] := hm
    cases hm with
    | head =>
      refine ⟨?_, rfl⟩
      unfold headChain
      by_cases hs : Node.isFileSource main.source = true
      · simp only [if_pos hs, List.dropLast_singleton]
      · simp only [if_neg hs]
  | resume => exact hm.2
  | pass => exact ⟨hm.1, hm.2⟩
  | refuse => exact ⟨hm.1, hm.2⟩
  | @enter chain files waiting s log n root rest file hr hn ho hfile =>
    obtain ⟨hs, hnested⟩ := hm
    have hs : s.chain = chain := hs
    obtain ⟨-, hnew, hlength⟩ := included_eq_ok_iff.mp (opened_eq_ok_iff.mp ho).1
    subst hs
    exact Nested.inner (w := s.pass rest) hnested hnew hlength
  | rest => exact hm

theorem moment_succ (log : Log) (k : Nat) :
    moment disk settings main log (k + 1) = step disk settings main (moment disk settings main log k) :=
  Function.iterate_succ_apply' ..

theorem turn_moment (log : Log) (k : Nat) : Turn disk settings main (moment disk settings main log k)
    (moment disk settings main log (k + 1)) := by
  rw [moment_succ]
  exact turn_step _

variable (disk settings main) in
theorem sound_moment (log : Log) (k : Nat) :
    (moment disk settings main log k).Sound disk settings main := by
  induction k with
  | zero => exact ⟨rfl, rfl, rfl, rfl⟩
  | succ k ih => exact (turn_moment log k).sound ih

end LoadPlan.Scenario
