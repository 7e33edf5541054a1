import LoadPlan.Proofs.Build.Provenance
import LoadPlan.Proofs.Jmx.SoundPlan
import LoadPlan.Proofs.Jmx.Written
import LoadPlan.Proofs.Scenario.Spelled
import LoadPlan.Settings.Reader

/-! Whether the file that a build writes can be read at all. -/
namespace LoadPlan.Build

open LoadPlan.Jmx
open LoadPlan.Markup (Element Legible)
open LoadPlan.Scenario (Plain Delimits collected)
open LoadPlan.Storage (Disk)

variable {disk after : Disk} {settings : Settings} {input output path : String} {product : Product}
  {main : Description.Node}

theorem spelled_collected (settings : Settings) (h : Description.ofFile disk path = .ok main) :
    (collected disk settings main).Spelled Plain (Delimits settings) :=
  (Scenario.ofDescription_spelled h .empty).1

theorem written_of_run (h : (run disk settings input output).2 = .ok product) :
    ∃ main, Description.ofFile disk input = .ok main ∧
      PlanFile.write disk (.ofString output)
          (Layout.root ⟨disk, settings, input⟩ (collected disk settings main) 0) =
        ((run disk settings input output).1, .ok ()) := by
  obtain ⟨main, d, hf, hd, hw, -⟩ := exists_draft_of_run h
  obtain ⟨-, rfl⟩ := assemble_eq_ok_iff.mp (draft_eq_ok_iff.mp hd).2
  exact ⟨main, hf, hw⟩

/-- A written plan is audited if all its strings are legible, and is malformed otherwise. -/
theorem audit_of_write {root : Element} (hn : root.Named)
    (hw : PlanFile.write disk (.ofString path) root = (after, .ok ())) :
    ((∃ a, PlanFile.audit after path = .ok a) ↔ ∀ x ∈ root.subtree, x.Readable) ∧
      ∀ e, PlanFile.audit after path = .error e → e = .malformed := by
  by_cases hr : ∀ x ∈ root.subtree, x.Readable
  · have haudit : PlanFile.audit after path = .ok (Audit.ofElement (root.reread 0)) := by
      rw [PlanFile.audit, PlanFile.read_of_readable hn hr hw]
      rfl
    rw [haudit]
    exact ⟨⟨fun _ => hr, fun _ => ⟨_, rfl⟩⟩, fun e he => by cases he⟩
  · have haudit : PlanFile.audit after path = .error .malformed := by
      rw [PlanFile.audit, PlanFile.read_of_not_readable hn hr hw]
      rfl
    rw [haudit]
    refine ⟨⟨?_, fun h => absurd h hr⟩, fun e he => by cases he; rfl⟩
    rintro ⟨a, ha⟩
    cases ha

/-- Only the delimiter of the settings can be illegible. -/
theorem legible_delimiters_iff (h : Description.ofFile disk path = .ok main) :
    (∀ d ∈ (collected disk settings main).allDataSets, Legible d.delimiter.toList) ↔
      (Legible settings.delimiter.toList ∨
        ∀ d ∈ (collected disk settings main).allDataSets, d.delimiter ≠ settings.delimiter) := by
  have hsets := Scenario.spelledSets_iff.mp (spelled_collected settings h).allDataSets
  have hdelimits : ∀ d ∈ (collected disk settings main).allDataSets,
      Legible d.delimiter.toList ∨ d.delimiter = settings.delimiter :=
    fun d hd => (Scenario.dataSet_spelled_iff.mp (hsets d hd)).2.1
  constructor
  · intro hall
    by_cases hl : Legible settings.delimiter.toList
    · exact .inl hl
    · right
      intro d hd heq
      exact hl (heq ▸ hall d hd)
  · rintro (hl | hne) d hd
    · rcases hdelimits d hd with hd | hd
      · exact hd
      · rwa [hd]
    · rcases hdelimits d hd with hd' | hd'
      · exact hd'
      · exact absurd hd' (hne d hd)

/-- The file of a build is well formed just if the version and the action after an error that the
settings hold are legible, and so is their delimiter unless no data set takes it. Whatever the
description holds makes no difference. -/
theorem audited_iff (h : (run disk settings input output).2 = .ok product) :
    ∃ main, Description.ofFile disk input = .ok main ∧
      ((∃ a, PlanFile.audit (run disk settings input output).1 output = .ok a) ↔
        Legible settings.version.toList ∧ Legible settings.onSampleError.toList ∧
          (Legible settings.delimiter.toList ∨
            ∀ d ∈ (collected disk settings main).allDataSets, d.delimiter ≠ settings.delimiter)) ∧
      ∀ e, PlanFile.audit (run disk settings input output).1 output = .error e → e = .malformed := by
  obtain ⟨main, hmain, hw⟩ := written_of_run h
  have hnamed := Layout.named_root ⟨disk, settings, input⟩ (collected disk settings main) 0
  obtain ⟨haudit, herror⟩ := audit_of_write hnamed hw
  refine ⟨main, hmain, ?_, herror⟩
  rw [haudit, Layout.readable_root_iff (spelled_collected settings hmain), legible_delimiters_iff hmain]

/-- A version that is a control character. -/
def controlSettings : Settings := { plainSettings with version := "\x01" }

/-- The version is taken from the settings as it is, and then nobody can read the plan. -/
theorem audited_iff_control :
    Settings.ofEntries "s" [(.text "default_percent", .float .zero), (.text "jmeter_version", .text "\x01")] =
        .ok controlSettings ∧
      ∃ product, (run twoDocuments controlSettings "m" "o").2 = .ok product ∧
        PlanFile.audit (run twoDocuments controlSettings "m" "o").1 "o" = .error .malformed := by
  have hincludes : refusal? twoDocuments controlSettings outerNode = none := by cbv
  have hsets : (collected twoDocuments controlSettings outerNode).allDataSets = [innerDataSet] := by cbv
  have hramp : Number.Integer.text? controlSettings.rampTime ≠ none := by decide
  obtain ⟨product, hproduct⟩ := exists_product hincludes hsets hramp rfl rfl
  obtain ⟨main, -, hiff, herror⟩ := audited_iff hproduct
  refine ⟨rfl, product, hproduct, ?_⟩
  cases ha : PlanFile.audit (run twoDocuments controlSettings "m" "o").1 "o" with
  | ok a => exact absurd (hiff.mp ⟨a, ha⟩).1 (by decide)
  | error e => rw [herror e ha]

end LoadPlan.Build
