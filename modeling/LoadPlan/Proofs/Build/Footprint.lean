import Mathlib
import LoadPlan.Proofs.Build.Faults
import LoadPlan.Proofs.Jmx.Written

/-! What a build leaves on the disk. -/
namespace LoadPlan

namespace Storage.Disk

/-- The start of a path leads to a directory. -/
def Leads (d : Disk) (p : Path) (place : Location) : Prop :=
  ∃ names, names <+: p.parts ∧ d.find ⟨p.root, names⟩ = .ok (.entry place .directory)

/-- Nothing is different but that there are directories where nothing was. -/
structure Extends (d after : Disk) : Prop where
  working : after.working = d.working
  get? (a : Location) : after.get? a = d.get? a ∨ d.get? a = none ∧ after.get? a = some .directory

/-- And a path leads to these directories. -/
structure ExtendsAlong (p : Path) (d after : Disk) : Prop extends Extends d after where
  leads (a : Location) : after.get? a ≠ d.get? a → after.Leads p a

/-- A place is as it was, or a directory was made there that a path leads to. -/
def Kept (p : Path) (d after : Disk) (a : Location) : Prop :=
  after.get? a = d.get? a ∨ d.get? a = none ∧ after.get? a = some .directory ∧ after.Leads p a

/-- A path leads to a file with some content, which is new or was another file. All other places are kept. -/
def Wrote (p : Path) (content : Text.Utf8.Bytes) (d after : Disk) : Prop :=
  ∃ place, d.Holds place ∧ after.find p = .ok (.entry place (.file content)) ∧
    ∀ a, a ≠ place → Kept p.parent d after a

variable {d made after : Disk} {p : Path} {links : Nat} {here place : Location} {names : List String}
  {e : Entry} {name : String}

/-- A way depends on the directories and links on it and on the entry that it leads to. -/
theorem walk_congr (hway : ∀ a e, d.get? a = some e → (∀ c, e ≠ .file c) → after.get? a = some e)
    (hend : (after.get? place).getD .directory = (d.get? place).getD .directory)
    (hw : d.walk links here names = .ok (.entry place e)) :
    after.walk links here names = .ok (.entry place e) := by
  fun_induction Disk.walk d links here names with
  | case1 links here =>
    obtain ⟨rfl, -⟩ := Target.entry.inj (Except.ok.inj hw)
    rw [Disk.walk, hend]
    exact hw
  | case2 links here rest ih =>
    rw [Disk.walk, if_pos rfl]
    exact ih hw
  | case3 => cases hw
  | case4 => cases hw
  | case5 => cases hw
  | case6 links here name rest hname hshort hd ih =>
    rw [Disk.walk, if_neg hname, if_neg hshort, hway _ _ hd (by simp)]
    exact ih hw
  | case7 links here name rest hname hshort content hf hr =>
    cases hw
    have hsame : after.get? (here ++ [name]) = some (.file content) := by
      rw [hf, Option.getD_some] at hend
      cases ha : after.get? (here ++ [name]) with
      | none => rw [ha] at hend; cases hend
      | some e => rw [ha] at hend; exact congrArg some hend
    rw [Disk.walk, if_neg hname, if_neg hshort, hsame]
    exact if_pos hr
  | case8 => cases hw
  | case9 links here name rest hname hshort isFile hl hr =>
    cases hw
    rw [Disk.walk, if_neg hname, if_neg hshort, hway _ _ hl (by simp)]
    exact if_pos hr
  | case10 => cases hw
  | case11 => cases hw
  | case12 here name rest hname hshort target hl n way ih =>
    rw [Disk.walk, if_neg hname, if_neg hshort, hway _ _ hl (by simp)]
    exact ih hw

namespace Extends

theorem get?_of_some (h : Extends d after) (he : d.get? place = some e) : after.get? place = some e := by
  rcases h.get? place with heq | ⟨hnone, -⟩
  · rw [heq, he]
  · rw [hnone] at he
    cases he

/-- What a path led to before it still leads to. -/
theorem walk (h : Extends d after) (hw : d.walk links here names = .ok (.entry place e)) :
    after.walk links here names = .ok (.entry place e) := by
  refine walk_congr (fun a _ ha _ => h.get?_of_some ha) ?_ hw
  rcases h.get? place with heq | ⟨hnone, hdir⟩
  · rw [heq]
  · rw [hnone, hdir]
    rfl

theorem find (h : Extends d after) (hf : d.find p = .ok (.entry place e)) :
    after.find p = .ok (.entry place e) := by
  have hstart : after.start p = d.start p := by
    rw [start, start, h.working]
  obtain ⟨hsize, hwalk⟩ := find_eq_ok_iff.mp hf
  exact find_eq_ok_iff.mpr ⟨hsize, hstart ▸ h.walk hwalk⟩

theorem leads (h : Extends d after) (hl : d.Leads p place) : after.Leads p place := by
  obtain ⟨names, hn, hf⟩ := hl
  exact ⟨names, hn, h.find hf⟩

end Extends

namespace ExtendsAlong

theorem refl (p : Path) (d : Disk) : ExtendsAlong p d d where
  working := rfl
  get? _ := .inl rfl
  leads _ h := absurd rfl h

theorem trans (h : ExtendsAlong p d made) (h' : ExtendsAlong p made after) : ExtendsAlong p d after where
  working := h'.working.trans h.working
  get? a := by
    rcases h.get? a with heq | ⟨hnone, hdir⟩
    · rw [← heq]
      exact h'.get? a
    · exact .inr ⟨hnone, h'.get?_of_some hdir⟩
  leads a hne := by
    by_cases heq : made.get? a = d.get? a
    · exact h'.leads a (heq ▸ hne)
    · exact h'.toExtends.leads (h.leads a heq)

/-- What is written to was a file before, or nothing was there. -/
theorem holds (h : ExtendsAlong p d after) (hh : after.Holds place) : d.Holds place := by
  rcases h.get? place with heq | ⟨-, hdir⟩
  · rw [Holds, ← heq]
    exact hh
  · rcases hh with hnone | ⟨content, hfile⟩
    · cases hdir.symm.trans hnone
    · cases hdir.symm.trans hfile

theorem kept (h : ExtendsAlong p d after) (a : Location) : Kept p d after a := by
  rcases h.get? a with heq | ⟨hnone, hdir⟩
  · exact .inl heq
  · exact .inr ⟨hnone, hdir, h.leads a (by rw [hnone, hdir]; exact Option.some_ne_none _)⟩

theorem of_parent (h : ExtendsAlong p.parent d after) : ExtendsAlong p d after where
  toExtends := h.toExtends
  leads a hne := by
    obtain ⟨names, hn, hf⟩ := h.leads a hne
    exact ⟨names, hn.trans (List.dropLast_prefix _), hf⟩

end ExtendsAlong

/-- A path goes on from a directory to one in it. -/
theorem walk_concat (h : d.walk links here names = .ok (.entry place .directory)) (hname : name ≠ "..")
    (hshort : ¬Path.nameLimit < (Text.Utf8.encode name).length) (hd : d.get? (place ++ [name]) = some .directory) :
    d.walk links here (names ++ [name]) = .ok (.entry (place ++ [name]) .directory) := by
  fun_induction Disk.walk d links here names with
  | case1 links here =>
    obtain ⟨rfl, -⟩ := Target.entry.inj (Except.ok.inj h)
    rw [List.nil_append, walk, if_neg hname, if_neg hshort, hd]
    simp only
    rw [walk, hd]
    rfl
  | case2 links here rest ih =>
    rw [List.cons_append, walk, if_pos rfl]
    exact ih h
  | case3 => cases h
  | case4 => cases h
  | case5 => cases h
  | case6 links here other rest hother hlong ho ih =>
    rw [List.cons_append, walk, if_neg hother, if_neg hlong, ho]
    exact ih h
  | case7 => cases h
  | case8 => cases h
  | case9 => cases h
  | case10 => cases h
  | case11 => cases h
  | case12 here other rest hother hlong target hl n way ih =>
    rw [List.cons_append, walk, if_neg hother, if_neg hlong, hl]
    simp only
    rw [← List.append_assoc]
    exact ih h

/-- A directory is made at a free place in a directory, under a name that is not too long. -/
theorem makeDirectory_eq_ok (h : d.makeDirectory p = .ok after) :
    ∃ name place, p.parts.getLast? = some name ∧ p.size ≤ Path.textLimit ∧
      d.find p.parent = .ok (.entry place .directory) ∧ name ≠ ".." ∧
      ¬Path.nameLimit < (Text.Utf8.encode name).length ∧ d.get? (place ++ [name]) = none ∧
      after = d.put (place ++ [name]) .directory := by
  unfold makeDirectory at h
  split at h
  · cases h
  · next name hlast =>
    split at h
    · cases h
    · next hsize =>
      split at h
      · cases h
      · cases h
      · next place hparent =>
        split at h
        · cases h
        · next hname =>
          split at h
          · cases h
          · next hshort =>
            split at h
            · cases h
            · next hfree =>
              cases h
              exact ⟨name, place, hlast, Nat.not_lt.mp hsize, hparent, hname, hshort, hfree, rfl⟩
      · cases h
      · cases h

theorem makeDirectory_extends (h : d.makeDirectory p = .ok after) : ExtendsAlong p d after := by
  obtain ⟨name, place, hlast, hsize, hparent, hname, hshort, hfree, rfl⟩ := makeDirectory_eq_ok h
  have hnew : (d.put (place ++ [name]) .directory).get? (place ++ [name]) = some .directory :=
    get?_put_self (by simp)
  have hextends : Extends d (d.put (place ++ [name]) .directory) := by
    refine ⟨rfl, fun a => ?_⟩
    by_cases ha : a = place ++ [name]
    · rw [ha]
      exact .inr ⟨hfree, hnew⟩
    · exact .inl (get?_put_of_ne ha)
  refine ⟨hextends, fun a hne => ⟨p.parts, List.prefix_rfl, ?_⟩⟩
  have ha : a = place ++ [name] := by
    by_contra ha
    exact hne (get?_put_of_ne ha)
  have hparts : p.parts = p.parent.parts ++ [name] := (List.dropLast_append_getLast? name hlast).symm
  have hway := walk_concat (find_eq_ok_iff.mp (hextends.find hparent)).2 hname hshort hnew
  rw [← hparts] at hway
  exact find_eq_ok_iff.mpr ⟨hsize, ha ▸ hway⟩

/-- Directories are made as far as it goes, each in the one made before, and nothing else is touched. -/
theorem makeDirectories_extends (d : Disk) (p : Path) : ExtendsAlong p d (d.makeDirectories p).1 := by
  fun_induction makeDirectories d p with
  | case1 p made hm => exact makeDirectory_extends hm
  | case2 => exact .refl _ _
  | case3 p _ _ made failure hp ih =>
    rw [hp] at ih
    exact ih.of_parent
  | case4 p _ _ made hp last hm ih =>
    rw [hp] at ih
    exact ih.of_parent.trans (makeDirectory_extends hm)
  | case5 p _ _ made hp _ ih =>
    rw [hp] at ih
    exact ih.of_parent
  | case6 p settle _ _ made hp cause _ _ ih =>
    rw [hp] at ih
    exact ih.of_parent
  | case7 => exact .refl _ _

/-- Where something else is written, a path still leads to the same entry. -/
theorem walk_put_of_ne {content : Text.Utf8.Bytes} {a : Location} (hh : d.Holds place) (ha : a ≠ place)
    (hw : d.walk links here names = .ok (.entry a e)) :
    (d.put place (.file content)).walk links here names = .ok (.entry a e) :=
  walk_congr (fun _ _ hb he => hh.get?_put_of_entry hb he) (by rw [get?_put_of_ne ha]) hw

theorem find_put_of_ne {content : Text.Utf8.Bytes} {a : Location} (hh : d.Holds place) (ha : a ≠ place)
    (hf : d.find p = .ok (.entry a e)) : (d.put place (.file content)).find p = .ok (.entry a e) := by
  obtain ⟨hsize, hwalk⟩ := find_eq_ok_iff.mp hf
  exact find_eq_ok_iff.mpr ⟨hsize, walk_put_of_ne hh ha hwalk⟩

end Storage.Disk

namespace Jmx.PlanFile

open LoadPlan.Storage (Disk Path)

variable {disk after : Disk} {path : Path} {content : Text.Utf8.Bytes} {failure : Storage.Failure}

theorem save_error (h : save disk path content = (after, .error failure)) :
    Disk.ExtendsAlong path.parent disk after := by
  have hmade := Disk.makeDirectories_extends disk path.parent
  unfold save at h
  split at h
  · next hm =>
    rw [hm] at hmade
    cases h
    exact hmade
  · next hm =>
    rw [hm] at hmade
    split at h
    · cases h
    · cases h
      exact hmade

theorem save_ok (h : save disk path content = (after, .ok ())) : Disk.Wrote path content disk after := by
  obtain ⟨made, hm, hw⟩ := save_eq_ok h
  have hmade := Disk.makeDirectories_extends disk path.parent
  rw [hm] at hmade
  obtain ⟨place, hh, rfl, hfind⟩ := Disk.write_eq_ok hw
  refine ⟨place, hmade.holds hh, hfind, fun a ha => ?_⟩
  rw [Disk.Kept, Disk.get?_put_of_ne ha]
  refine (hmade.kept a).imp_right fun ⟨hnone, hdir, names, hn, hf⟩ => ⟨hnone, hdir, names, hn, ?_⟩
  exact Disk.find_put_of_ne hh ha hf

end Jmx.PlanFile

namespace Build

open LoadPlan.Storage (Disk Path)

/-- A file is opened for every draft, and if that goes well its content is all that changes. -/
theorem deliver_cases (d : Draft) (disk : Disk) (output : String) :
    (∃ after failure, d.deliver disk output = (after, .error (.unwritable output failure)) ∧
      Disk.ExtendsAlong (Path.ofString output).parent disk after) ∨
    ∃ after, Disk.Wrote (.ofString output) d.content disk after ∧
      (d.halved = true ∧ d.deliver disk output = (after, .error .halved) ∨
        d.halved = false ∧ ∃ product, d.deliver disk output = (after, .ok product)) := by
  rcases hs : Jmx.PlanFile.save disk (.ofString output) d.content with ⟨after, failure | ⟨⟩⟩
  · refine .inl ⟨after, failure, ?_, Jmx.PlanFile.save_error hs⟩
    simp only [Draft.deliver, hs]
  · refine .inr ⟨after, Jmx.PlanFile.save_ok hs, ?_⟩
    cases hh : d.halved with
    | true => simp [Draft.deliver, hs, hh]
    | false => simp [Draft.deliver, hs, hh]

section Run

variable {disk : Disk} {settings : Settings} {input output : String} {main : Description.Node}

/-- Without a description the disk stays. -/
theorem run_of_unread {e : Description.ReadError} (hmain : Description.ofFile disk input = .error e) :
    ∃ e', run disk settings input output = (disk, .error e') ∧ e' ≠ .halved := by
  unfold run
  rw [hmain]
  cases e <;> exact ⟨_, rfl, nofun⟩

theorem run_of_fault {f : Jmx.Fault} (hmain : Description.ofFile disk input = .ok main)
    (hd : draft disk settings input main = .error f) :
    run disk settings input output = (disk, .error (.fault f)) := by
  unfold run
  simp only [hmain, hd]

theorem run_of_draft {d : Draft} (hmain : Description.ofFile disk input = .ok main)
    (hd : draft disk settings input main = .ok d) :
    run disk settings input output = d.deliver disk output := by
  unfold run
  simp only [hmain, hd]

end Run

/-- A build that fails changes no file and makes none, though directories may be new on the way to the output,
and not even these if there is no description to read. Only if the plan has no encoding, the file that the output
then denotes is new or was changed, and has no content. A build that succeeds changes or makes that one file. It holds
the plan for the description, as it was before. -/
theorem run_footprint (disk : Disk) (settings : Settings) (input output : String) :
    let path := Path.ofString output
    match run disk settings input output with
    | (after, .error .halved) => ∃ main d,
      Description.ofFile disk input = .ok main ∧ draft disk settings input main = .ok d ∧
      isHalved settings (Scenario.collected disk settings main) = true ∧ Disk.Wrote path [] disk after
    | (after, .error e) =>
      (∀ a, Disk.Kept path.parent disk after a) ∧
      ((∀ failure, e ≠ .unwritable output failure) → after = disk) ∧
      ∀ failure, Description.ofFile disk input = .error failure → after = disk
    | (after, .ok _) => ∃ main d,
      Description.ofFile disk input = .ok main ∧ draft disk settings input main = .ok d ∧
      isHalved settings (Scenario.collected disk settings main) = false ∧
      Disk.Wrote path (Text.Utf8.encode d.root.document) disk after := by
  intro path
  have hsame : ∀ a, Disk.Kept path.parent disk disk a := fun a => .inl rfl
  -- With the outcome a variable, no step has to reduce the build to take the statement apart.
  generalize hrun : run disk settings input output = outcome
  cases hmain : Description.ofFile disk input with
  | error e =>
    obtain ⟨e', he', hne⟩ : ∃ e', run disk settings input output = (disk, .error e') ∧ e' ≠ .halved :=
      run_of_unread hmain
    obtain rfl := hrun.symm.trans he'
    cases e' with
    | halved => exact absurd rfl hne
    | _ => exact ⟨hsame, fun _ => rfl, fun _ _ => rfl⟩
  | ok main =>
    cases hd : draft disk settings input main with
    | error f =>
      obtain rfl := hrun.symm.trans (run_of_fault hmain hd)
      exact ⟨hsame, fun _ => rfl, fun _ _ => rfl⟩
    | ok d =>
      rw [run_of_draft hmain hd] at hrun
      obtain ⟨after, failure, h, hextends⟩ | ⟨after, hwrote, hcase⟩ := deliver_cases d disk output
      · obtain rfl := hrun.symm.trans h
        refine ⟨hextends.kept, fun hnot => absurd rfl (hnot failure), fun e he => ?_⟩
        cases he
      · rw [Draft.content] at hwrote
        obtain ⟨hh, h⟩ | ⟨hh, product, h⟩ := hcase
        · obtain rfl := hrun.symm.trans h
          rw [if_pos hh] at hwrote
          exact ⟨main, d, rfl, hd, draft_halved hd ▸ hh, hwrote⟩
        · obtain rfl := hrun.symm.trans h
          rw [if_neg (by simp [hh])] at hwrote
          exact ⟨main, d, rfl, hd, draft_halved hd ▸ hh, hwrote⟩

/-- The version is half of a surrogate pair. -/
def halfSettings : Settings :=
  { Settings.standard with defaultPercent := .zero, version := "\uffff", halved.version := some [.half 0xD800] }

/-- There is a file already where the plan goes. -/
def oldPlan : Disk :=
  ⟨[(["m"], .file (Text.Utf8.encode "<s/>")), (["o"], .file (Text.Utf8.encode "old"))], []⟩

def emptyNode : Description.Node := ⟨"s", [], [], "", 1, "m"⟩

theorem find_oldPlan : oldPlan.find ⟨"", ["o"]⟩ = .ok (.entry ["o"] (.file (Text.Utf8.encode "old"))) :=
  Disk.find_of_file (by decide) (by decide) rfl

theorem run_halfSettings : ∃ after, run oldPlan halfSettings "m" "o" = (after, .error .halved) := by
  have hmain : Description.ofFile oldPlan "m" = .ok emptyNode := by cbv
  have hramp : Number.Integer.text? halfSettings.rampTime ≠ none := by decide
  have hdata : ¬Jmx.RefusesData oldPlan (Scenario.collected oldPlan halfSettings emptyNode).allDataSets := by
    rintro ⟨d, hd, -⟩
    cases hd
  obtain ⟨d, hd⟩ := exists_draft hmain "m" rfl hdata hramp rfl
  have hh : d.halved = true := draft_halved hd
  have hp : Path.ofString "o" = ⟨"", ["o"]⟩ := rfl
  have hparent : (⟨"", ["o"]⟩ : Path).parent = ⟨"", []⟩ := rfl
  have hthere : oldPlan.isDirectory ⟨"", []⟩ = .ok true := Disk.isDirectory_working rfl
  have hsave : Jmx.PlanFile.save oldPlan (.ofString "o") d.content = (oldPlan.put ["o"] (.file []), .ok ()) := by
    simp [Jmx.PlanFile.save, Draft.content, hh, hp, hparent, Disk.makeDirectories_working hthere, Disk.write,
      find_oldPlan]
  refine ⟨oldPlan.put ["o"] (.file []), ?_⟩
  simp [run_of_draft hmain hd, Draft.deliver, hsave, hh]

/-- A settings file can spell such a version, and then nothing is left of the old plan. -/
theorem run_footprint_halfSettings :
    Settings.ofEntries "s" [(.text "default_percent", .float .zero),
        (.text "jmeter_version", .text (.ofPoints [.half 0xD800]))] = .ok halfSettings ∧
      oldPlan.read (.ofString "o") = .ok (Text.Utf8.encode "old") ∧
      ∃ after, run oldPlan halfSettings "m" "o" = (after, .error .halved) ∧
        after.read (.ofString "o") = .ok [] := by
  obtain ⟨after, hrun⟩ := run_halfSettings
  have hfoot := run_footprint oldPlan halfSettings "m" "o"
  rw [hrun] at hfoot
  obtain ⟨-, -, -, -, -, place, -, hfind, -⟩ := hfoot
  have hp : Path.ofString "o" = ⟨"", ["o"]⟩ := rfl
  exact ⟨rfl, by rw [hp, Disk.read, find_oldPlan], after, hrun, by rw [Disk.read, hfind]⟩

end Build

end LoadPlan
