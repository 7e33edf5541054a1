import Mathlib
import LoadPlan.Proofs.Build.Faults
import LoadPlan.Proofs.Jmx.Written

/-! Whether diagnostics name the document that holds the element they are about. Those of reading all do.
Those of files of data sets always name the main document, with the line in the document that describes
the data set. -/
namespace LoadPlan

open LoadPlan.Scenario

namespace Jmx

variable (w : Workshop)

theorem mem_diagnosticsOf {d : DataSet} {g : Diagnostic} :
    g ∈ Layout.diagnosticsOf w d d.stack ↔
      ∃ failure, d.Fails w.disk failure ∧
        g = ⟨.dataUnreadable d.filename failure, ⟨w.source, d.line⟩⟩ := by
  rw [Layout.diagnosticsOf, List.mem_map]
  constructor
  · rintro ⟨problem, hp, rfl⟩
    obtain ⟨e, he, hp⟩ := List.mem_filterMap.mp hp
    unfold DataSet.problem? at hp
    split at hp
    · next items =>
      split at hp
      · cases hp
      · next failure hr =>
        cases hp
        exact ⟨failure, ⟨⟨items, he⟩, hr⟩, rfl⟩
    · cases hp
  · rintro ⟨failure, ⟨⟨items, he⟩, hr⟩, rfl⟩
    refine ⟨.dataUnreadable d.filename failure, List.mem_filterMap.mpr ⟨_, he, ?_⟩, rfl⟩
    simp [DataSet.problem?, hr]

/-- A diagnostic of a plan with a line is about the file of a data set. -/
theorem mem_planDiagnostics {s : Scenario} {g : Diagnostic} (hline : g.place.line ≠ 0) :
    g ∈ Layout.planDiagnostics w s ↔ ∃ d ∈ s.allDataSets, ∃ failure, d.Fails w.disk failure ∧
      g = ⟨.dataUnreadable d.filename failure, ⟨w.source, d.line⟩⟩ := by
  rw [Layout.planDiagnostics, List.mem_append, List.mem_map, List.mem_flatMap]
  simp only [mem_diagnosticsOf]
  constructor
  · rintro (⟨p, -, rfl⟩ | h)
    · exact absurd rfl hline
    · exact h
  · exact .inr

end Jmx

namespace Scenario

variable {disk : Storage.Disk} {settings : Settings} {chain : List Storage.Path}
  {n : Description.Node}

theorem share_ne_dataUnreadable {field : Option String} {filename : String} {failure : Storage.Failure} :
    Controller.share settings field ≠ .error (.dataUnreadable filename failure) := by
  intro h
  unfold Controller.share at h
  split at h
  · cases h
  · split at h
    · cases h
    · split at h
      · cases h
      · cases h

theorem rounds_ne_dataUnreadable {field : Option String} {filename : String} {failure : Storage.Failure} :
    Loop.rounds field ≠ .error (.dataUnreadable filename failure) := by
  intro h
  unfold Loop.rounds at h
  split at h
  · cases h
  · split at h
    · cases h
    · cases h

theorem timer_ne_dataUnreadable {filename : String} {failure : Storage.Failure} :
    Timer.ofNode n ≠ .error (.dataUnreadable filename failure) := by
  intro h
  unfold Timer.ofNode at h
  simp only at h
  split at h
  · cases h
  · cases h

theorem included_ne_dataUnreadable {filename : String} {failure : Storage.Failure} :
    included disk settings chain n ≠ .error (.dataUnreadable filename failure) := by
  intro h
  unfold included at h
  simp only at h
  split at h
  · cases h
  · split at h
    · cases h
    · cases h
    · split at h
      · cases h
      · split at h
        · cases h
        · cases h

theorem includedDocument_ne_dataUnreadable {place : Storage.Path} {filename : String}
    {failure : Storage.Failure} :
    includedDocument disk place ≠ .error (.dataUnreadable filename failure) := by
  intro h
  unfold includedDocument at h
  rcases hread : Description.ofFile disk place.text with e | root
  · rw [hread] at h
    cases e <;> cases h
  · rw [hread] at h
    cases h

/-- Only a data set can have an unreadable file. -/
theorem flaw_dataUnreadable_iff {filename : String} {failure : Storage.Failure} :
    Flaw disk settings chain n (.dataUnreadable filename failure) ↔
      ∃ d : DataSet, d.DescribedBy disk n ∧ d.filename = filename ∧ d.Fails disk failure := by
  constructor
  · intro h
    cases h with
    | timer _ hp => exact absurd hp timer_ne_dataUnreadable
    | rounds _ _ _ hp => exact absurd hp rounds_ne_dataUnreadable
    | share _ _ hp => exact absurd hp share_ne_dataUnreadable
    | included _ hp => exact absurd hp included_ne_dataUnreadable
    | document _ _ hp => exact absurd hp includedDocument_ne_dataUnreadable
    | unreadable hd hf => exact ⟨_, hd, rfl, hf⟩
  · rintro ⟨d, hd, rfl, hf⟩
    exact .unreadable hd hf

end Scenario

namespace Build

open Jmx

variable {disk : Storage.Disk} {settings : Settings} {input output : String} {product : Product}

/-- The problems that are reported while a description is read. -/
def reported (disk : Storage.Disk) (settings : Settings) (main : Description.Node) : List Diagnostic :=
  ((Scenario.ofDescription disk settings main).run .empty).2.diagnostics

theorem diagnostics_of_run (h : (run disk settings input output).2 = .ok product) :
    ∃ main, Description.ofFile disk input = .ok main ∧ product.diagnostics =
      reported disk settings main ++
        Layout.planDiagnostics ⟨disk, settings, input⟩ (collected disk settings main) := by
  obtain ⟨main, d, hf, hd, -, hproduct⟩ := exists_draft_of_run h
  obtain ⟨-, rfl⟩ := assemble_eq_ok_iff.mp (draft_eq_ok_iff.mp hd).2
  exact ⟨main, hf, hproduct⟩

/-- All diagnostics of a build name the document that holds their element just if, for each data set
whose file cannot be read, the main document itself has such a data set on that line. Even those that
do not have the line of their element, and name the main document instead of the one that holds it. -/
theorem located_iff (h : (run disk settings input output).2 = .ok product) :
    ∃ main, Description.ofFile disk input = .ok main ∧
      ((∀ g ∈ product.diagnostics, g.place.line ≠ 0 → Located disk settings main g) ↔
        ∀ d ∈ (collected disk settings main).allDataSets, ∀ failure, d.Fails disk failure →
          d.line ≠ 0 → ∃ n, Processed main n ∧ n.line = d.line ∧
            ∃ e : DataSet, e.DescribedBy disk n ∧ e.filename = d.filename ∧ e.Fails disk failure) ∧
      ∀ g ∈ product.diagnostics, g.place.line ≠ 0 → Located disk settings main g ∨
        g.place.source = input ∧ ∃ chain root n, Reached disk settings main chain root ∧
          Processed root n ∧ n.line = g.place.line ∧ Flaw disk settings chain n g.problem := by
  obtain ⟨main, hmain, hproduct⟩ := diagnostics_of_run h
  have hread : ∀ g ∈ reported disk settings main, Located disk settings main g := by
    obtain ⟨-, ds, hds, hall⟩ := ofDescription_reads hmain .empty
    have heq : reported disk settings main = ds := hds
    rwa [heq]
  have hsets := regularSets_iff.mp (regular_collected settings hmain).allDataSets
  refine ⟨main, hmain, ⟨fun hl d hd failure hfail hline => ?_, fun hall g hg hline => ?_⟩, ?_⟩
  · have hg : (⟨.dataUnreadable d.filename failure, ⟨input, d.line⟩⟩ : Diagnostic) ∈
        product.diagnostics := by
      rw [hproduct, List.mem_append]
      exact .inr ((mem_planDiagnostics _ hline).mpr ⟨d, hd, failure, hfail, rfl⟩)
    obtain ⟨chain, root, n, -, hf, hn, hnl, hp⟩ := hl _ hg hline
    -- The diagnostic has the source of the main document, so no other document can hold its element.
    have hroot : main = root := Except.ok.inj (hmain.symm.trans hf)
    rw [← hroot] at hn
    exact ⟨n, hn, hnl, flaw_dataUnreadable_iff.mp hp⟩
  · rw [hproduct, List.mem_append, mem_planDiagnostics _ hline] at hg
    rcases hg with hg | ⟨d, hd, failure, hfail, rfl⟩
    · exact hread g hg
    · obtain ⟨n, hn, hnl, he⟩ := hall d hd failure hfail hline
      exact ⟨_, main, n, .main, hmain, hn, hnl, flaw_dataUnreadable_iff.mpr he⟩
  · intro g hg hline
    rw [hproduct, List.mem_append, mem_planDiagnostics _ hline] at hg
    rcases hg with hg | ⟨d, hd, failure, hfail, rfl⟩
    · exact .inl (hread g hg)
    · obtain ⟨chain, root, n, hr, hn, hdescribed⟩ := (dataSet_regular_iff.mp (hsets d hd)).1
      exact .inr ⟨rfl, chain, root, n, hr, hn, hdescribed.line.symm, .unreadable hdescribed hfail⟩

/-- A description that is no more than another one, which is included. -/
def outerText : String := "<s><script><file>i</file></script></s>"

/-- A data set on the second line, with steps to be repeated for each line of a file. -/
def innerText : String := "<s>\n<csv><filename>u</filename><repeat><http/></repeat></csv></s>"

/-- The file of the data set is not there. -/
def twoDocuments : Storage.Disk :=
  ⟨[(["m"], .file (Text.Utf8.encode outerText)), (["i"], .file (Text.Utf8.encode innerText))], []⟩

def plainSettings : Settings := ⟨1, "continue", .zero, 16, ",", true, "5.0", {}⟩

def fileNode : Description.Node := ⟨"file", [], [], "i", 1, "m"⟩

def scriptNode : Description.Node := ⟨"script", [fileNode], [], "i", 1, "m"⟩

def outerNode : Description.Node := ⟨"s", [scriptNode], [], "i", 1, "m"⟩

def innerDataSet : DataSet :=
  ⟨"", "u", "", ",", true,
    [.repeated [.request { Request.standard with name := "GET ", line := 2 }]], some ⟨"/", []⟩, [], 2⟩

theorem ofFile_outer : Description.ofFile twoDocuments "m" = .ok outerNode := by
  cbv

theorem allDataSets_outer :
    (collected twoDocuments plainSettings outerNode).allDataSets = [innerDataSet] := by
  cbv

theorem fails_innerDataSet : innerDataSet.Fails twoDocuments ⟨.notFound, "u"⟩ := by
  refine ⟨⟨_, List.mem_singleton.mpr rfl⟩, ?_⟩
  cbv

/-- Only the script and its file are processed in the outer document. -/
theorem processed_outer {n : Description.Node} (h : Processed outerNode n) :
    n = scriptNode ∨ n = fileNode := by
  obtain ⟨c, hc, hb⟩ := h
  induction hb with
  | refl => exact .inl (List.mem_singleton.mp hc.mem_children)
  | tail _ ht ih =>
    rcases ih with rfl | rfl
    · exact .inr (List.mem_singleton.mp ht.mem_children)
    · cases ht.mem_children

theorem exists_product (hincludes : refusal? twoDocuments settings outerNode = none)
    (hsets : (collected twoDocuments settings outerNode).allDataSets = [innerDataSet])
    (hramp : Number.Integer.text? settings.rampTime ≠ none)
    (hshare : settings.defaultPercent.isFinite = true) (hwhole : settings.halved = {}) :
    ∃ product, (run twoDocuments settings "m" "o").2 = .ok product := by
  have hfile : innerDataSet.file twoDocuments = .ok ⟨"", ["u"]⟩ := by cbv
  have hdata : ¬RefusesData twoDocuments (collected twoDocuments settings outerNode).allDataSets := by
    rw [not_refusesData_iff, hsets]
    exact fun d hd e _ => List.mem_singleton.mp hd ▸ DataSet.refusal?_of_file hfile e
  obtain ⟨d, hd⟩ := exists_draft ofFile_outer "m" hincludes hdata hramp hshare
  have hthere : twoDocuments.isDirectory ⟨"", []⟩ = .ok true := Storage.Disk.isDirectory_working rfl
  have hfree : twoDocuments.find ⟨"", ["o"]⟩ = .ok (.free ["o"]) :=
    Storage.Disk.find_of_free (by decide) (by decide) rfl
  have hp : Storage.Path.ofString "o" = ⟨"", ["o"]⟩ := rfl
  have hw := PlanFile.write_of_free d.root hp hthere hfree
  have hh : d.halved = false := (draft_halved hd).trans (isHalved_of_whole _ hwhole)
  exact ⟨_, congrArg Prod.snd (run_eq_ok_iff.mpr ⟨_, d, ofFile_outer, hd, hh, hw, rfl⟩)⟩

theorem exists_product_outer : ∃ product, (run twoDocuments plainSettings "m" "o").2 = .ok product :=
  exists_product (by cbv) allDataSets_outer (by decide) rfl rfl

/-- The line in the inner document is reported for the outer one. -/
theorem located_iff_outer : ∃ product, (run twoDocuments plainSettings "m" "o").2 = .ok product ∧
    ¬∀ g ∈ product.diagnostics, g.place.line ≠ 0 →
      Located twoDocuments plainSettings outerNode g := by
  obtain ⟨product, hproduct⟩ := exists_product_outer
  obtain ⟨main, hmain, hiff, -⟩ := located_iff hproduct
  cases ofFile_outer.symm.trans hmain
  refine ⟨product, hproduct, fun hall => ?_⟩
  have hd : innerDataSet ∈ (collected twoDocuments plainSettings outerNode).allDataSets := by
    rw [allDataSets_outer]
    exact List.mem_singleton.mpr rfl
  obtain ⟨n, hn, -, e, he, -⟩ := hiff.mp hall _ hd _ fails_innerDataSet (by decide)
  rcases processed_outer hn with rfl | rfl
  · exact absurd he.kind (by decide)
  · exact absurd he.kind (by decide)

end Build

end LoadPlan
