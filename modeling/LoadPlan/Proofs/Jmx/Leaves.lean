import LoadPlan.Proofs.Jmx.Making
import LoadPlan.Proofs.Jmx.SoundPlan
import LoadPlan.Proofs.Jmx.Written

/-! The texts of a plan as they come back from its file. -/
namespace LoadPlan

namespace Markup.Element

open LoadPlan.Text (unifyLineEnds)

/-- The elements without children, in document order. -/
def leaves (e : Element) : List Element :=
  e.subtree.filter (·.children.isEmpty)

/-- A text as a reader gives it back. -/
def rereadText (text : String) : String :=
  String.ofList (unifyLineEnds text.toList)

theorem rereadText_eq_self_iff {text : String} : rereadText text = text ↔ '\r' ∉ text.toList := by
  rw [rereadText, ← String.toList_inj, String.toList_ofList]
  exact Text.unifyLineEnds_eq_self_iff

mutual

theorem leaves_reread : ∀ (depth : Nat) (e : Element),
    (e.reread depth).leaves.map text = e.leaves.map fun x => rereadText x.text
  | _, ⟨_, _, _, []⟩ => by
    rw [reread]
    rfl
  | depth, ⟨tag, attributes, text, child :: children⟩ => by
    have h := leaves_rereadAll (depth + 1) (child :: children)
    rw [reread]
    exact h

theorem leaves_rereadAll : ∀ (depth : Nat) (es : List Element),
    ((subtrees (rereadAll depth es)).filter (·.children.isEmpty)).map text =
      ((subtrees es).filter (·.children.isEmpty)).map fun x => rereadText x.text
  | _, [] => rfl
  | depth, e :: es => by
    have he := leaves_reread depth e
    have hs := leaves_rereadAll depth es
    rw [rereadAll, subtrees, subtrees, List.filter_append, List.filter_append, List.map_append,
      List.map_append, hs]
    exact congrArg (· ++ _) he

end

/-- Only texts with a carriage return are changed. -/
theorem map_rereadText_eq_iff {es : List Element} :
    (es.map fun x => rereadText x.text) = es.map text ↔ ∀ e ∈ es, '\r' ∉ e.text.toList := by
  rw [List.map_inj_left]
  exact forall₂_congr fun _ _ => rereadText_eq_self_iff

end Markup.Element

namespace Build

open LoadPlan.Jmx
open LoadPlan.Markup (Element Legible)
open LoadPlan.Storage (Disk)

variable {disk store after : Disk} {settings : Settings} {source path : String} {s : Scenario}
  {diagnostics : List Diagnostic} {d : Draft}

/-- A plan of legible strings is read back from its file with the same elements and attributes, and no
element of it has a text beside children. The texts of its leaves come back with their line ends unified:
a carriage return that is written as it is does not last. -/
theorem texts_of_written (hs : s.Spelled (fun x => Legible x.toList) fun x => Legible x.toList)
    (hv : Legible settings.version.toList) (he : Legible settings.onSampleError.toList)
    (ha : assemble disk settings source s diagnostics = .ok d)
    (hw : PlanFile.write store (.ofString path) d.root = (after, .ok ())) :
    (∀ x ∈ d.root.subtree, x.children ≠ [] → x.text = "") ∧
      ∃ root, PlanFile.read after path = .ok root ∧ root.skeleton = d.root.skeleton ∧
        root.leaves.map Element.text = d.root.leaves.map (fun x => Element.rereadText x.text) ∧
        (root.leaves.map Element.text = d.root.leaves.map Element.text ↔
          ∀ x ∈ d.root.leaves, '\r' ∉ x.text.toList) := by
  obtain ⟨-, rfl⟩ := assemble_eq_ok_iff.mp ha
  have hd : ∀ d ∈ s.allDataSets, Legible d.delimiter.toList := by
    intro d hd
    exact (Scenario.dataSet_spelled_iff.mp (Scenario.spelledSets_iff.mp hs.allDataSets d hd)).2.1
  have hreadable : ∀ x ∈ (Layout.root ⟨disk, settings, source⟩ s 0).subtree, x.Readable :=
    (Layout.readable_root_iff hs).mpr ⟨hv, he, hd⟩
  have hnamed := Layout.named_root ⟨disk, settings, source⟩ s 0
  have hback := PlanFile.read_of_readable hnamed hreadable hw
  have hleaves := Element.leaves_reread 0 (Layout.root ⟨disk, settings, source⟩ s 0)
  refine ⟨Layout.unmixed_root _ s 0, _, hback, Element.skeleton_reread 0 _, hleaves, ?_⟩
  rw [hleaves]
  exact Element.map_rereadText_eq_iff

/-- A request whose path holds a carriage return, which a description can name by its number. -/
def returnRequest : Scenario.Request :=
  { Scenario.Request.standard with name := "Home", path := "/a\rb" }

def returnScenario : Scenario :=
  ⟨[.request returnRequest], [], []⟩

theorem spelled_returnScenario :
    returnScenario.Spelled (fun x => Legible x.toList) fun x => Legible x.toList := by
  have hr : ∀ x ∈ returnRequest.strings, Legible x.toList := by decide
  exact ⟨⟨hr, trivial⟩, trivial, List.forall_mem_nil _⟩

theorem write_to_empty (root : Element) : PlanFile.write ⟨[], []⟩ (.ofString "o") root =
    ((⟨[], []⟩ : Disk).put ["o"] (.file (Text.Utf8.encode root.document)), .ok ()) := by
  have hfree : (⟨[], []⟩ : Disk).find ⟨"", ["o"]⟩ = .ok (.free ["o"]) :=
    Disk.find_of_free (by decide) (by decide) rfl
  exact PlanFile.write_of_free root rfl (Disk.isDirectory_working rfl) hfree

def emptyWorkshop : Workshop := ⟨⟨[], []⟩, .standard, "main.xml"⟩

def returnPlan : Element := Layout.root emptyWorkshop returnScenario 0

theorem exists_returnPlan :
    ∃ d, assemble ⟨[], []⟩ .standard "main.xml" returnScenario [] = .ok d ∧ d.root = returnPlan := by
  have hfaults : Layout.planFaults emptyWorkshop returnScenario = [] := by decide
  exact ⟨_, assemble_eq_ok_iff.mpr ⟨hfaults, rfl⟩, rfl⟩

theorem mem_leaves_returnPlan : stringProp "HTTPSampler.path" "/a\rb" ∈ returnPlan.leaves := by
  have hcontent :
      sampler returnRequest ∈ Block.componentsOf (Layout.content emptyWorkshop returnScenario 0) :=
    List.mem_cons_of_mem _ (List.mem_cons_of_mem _ (List.mem_cons_of_mem _ List.mem_cons_self))
  have hpath : stringProp "HTTPSampler.path" "/a\rb" ∈ (sampler returnRequest).children := by
    simp [sampler, component, returnRequest]
  have hroot := Layout.subtree_subset_root hcontent (Element.mem_subtree_of_mem_children hpath)
  exact List.mem_filter.mpr ⟨hroot, rfl⟩

/-- The path is read back with a line feed in it. -/
theorem texts_of_written_return : ∃ d after root,
    assemble ⟨[], []⟩ .standard "main.xml" returnScenario [] = .ok d ∧
      PlanFile.write ⟨[], []⟩ (.ofString "o") d.root = (after, .ok ()) ∧
      PlanFile.read after "o" = .ok root ∧
      root.leaves.map Element.text ≠ d.root.leaves.map Element.text := by
  obtain ⟨d, hd, hroot⟩ := exists_returnPlan
  have hw := write_to_empty d.root
  obtain ⟨-, root, hread, -, -, hiff⟩ := texts_of_written spelled_returnScenario (by decide) (by decide) hd hw
  refine ⟨d, _, root, hd, hw, hread, fun hsame => ?_⟩
  have hmem : stringProp "HTTPSampler.path" "/a\rb" ∈ d.root.leaves := hroot ▸ mem_leaves_returnPlan
  exact absurd (hiff.mp hsame _ hmem) (by decide)

end Build

end LoadPlan
