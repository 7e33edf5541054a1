import LoadPlan.Jmx.PlanFile
import LoadPlan.Proofs.Markup.Wellformed

/-! What is written to a place on a disk is read from it again. -/
namespace LoadPlan

namespace Storage.Disk

/-- A place that holds a file, or nothing yet. -/
def Holds (d : Disk) (place : Location) : Prop :=
  d.get? place = none ∨ ∃ content, d.get? place = some (.file content)

/-- A way ends where a file is, or where one may be made. -/
inductive Target.Takes : Target → Location → Prop
  | free (place : Location) : Takes (.free place) place
  | file (place : Location) (content : Text.Utf8.Bytes) : Takes (.entry place (.file content)) place

variable {d : Disk} {links : Nat} {here place : Location} {names : List String} {t : Target}

theorem Holds.ne_nil (h : d.Holds place) : place ≠ [] := by
  rintro rfl
  simp [Holds, get?] at h

theorem Holds.get?_put {content : Text.Utf8.Bytes} (h : d.Holds place) :
    (d.put place (.file content)).get? place = some (.file content) :=
  get?_put_self h.ne_nil

/-- A place that holds a directory or a link is not the one that is written to. -/
theorem Holds.get?_put_of_entry {content : Text.Utf8.Bytes} {a : Location} {e : Entry} (h : d.Holds place)
    (ha : d.get? a = some e) (he : ∀ c, e ≠ .file c) :
    (d.put place (.file content)).get? a = some e := by
  have hne : a ≠ place := by
    rintro rfl
    rcases h with h | ⟨c, h⟩
    · rw [h] at ha
      cases ha
    · rw [h] at ha
      cases ha
      exact he c rfl
  rw [get?_put_of_ne hne, ha]

theorem holds_of_walk (ht : d.walk links here names = .ok t) (hp : t.Takes place) : d.Holds place := by
  fun_induction walk d links here names with
  | case1 links here =>
    cases ht
    generalize he : d.get? here = e at hp
    cases e with
    | none => cases hp
    | some e =>
      cases hp
      exact .inr ⟨_, he⟩
  | case2 _ _ _ ih => exact ih ht
  | case3 => cases ht
  | case4 links here name rest _ _ hn _ =>
    cases ht
    cases hp
    exact .inl hn
  | case5 => cases ht
  | case6 _ _ _ _ _ _ _ ih => exact ih ht
  | case7 links here name rest _ _ content hf _ =>
    cases ht
    cases hp
    exact .inr ⟨content, hf⟩
  | case8 => cases ht
  | case9 =>
    cases ht
    cases hp
  | case10 => cases ht
  | case11 => cases ht
  | case12 _ _ _ _ _ _ _ _ _ ih => exact ih ht

/-- The way to a file that is written is the same after that. -/
theorem walk_put {content : Text.Utf8.Bytes} (hh : d.Holds place) (ht : d.walk links here names = .ok t)
    (hp : t.Takes place) :
    (d.put place (.file content)).walk links here names = .ok (.entry place (.file content)) := by
  fun_induction walk d links here names with
  | case1 links here =>
    cases ht
    have hplace : here = place := by
      generalize (d.get? here).getD .directory = e at hp
      cases hp
      rfl
    rw [walk, hplace, hh.get?_put]
    rfl
  | case2 links here rest ih =>
    rw [walk, if_pos rfl]
    exact ih ht
  | case3 => cases ht
  | case4 links here name rest hname hlong hn hr =>
    cases ht
    cases hp
    rw [walk, if_neg hname, if_neg hlong, hh.get?_put]
    exact if_pos hr
  | case5 => cases ht
  | case6 links here name rest hname hlong hd ih =>
    rw [walk, if_neg hname, if_neg hlong, hh.get?_put_of_entry hd (by simp)]
    exact ih ht
  | case7 links here name rest hname hlong _ hf hr =>
    cases ht
    cases hp
    rw [walk, if_neg hname, if_neg hlong, hh.get?_put]
    exact if_pos hr
  | case8 => cases ht
  | case9 =>
    cases ht
    cases hp
  | case10 => cases ht
  | case11 => cases ht
  | case12 here name rest hname hlong target hl n way ih =>
    rw [walk, if_neg hname, if_neg hlong, hh.get?_put_of_entry hl (by simp)]
    exact ih ht

/-- What is written is the file that a path then leads to; before, there was another one or none. -/
theorem write_eq_ok {p : Path} {content : Text.Utf8.Bytes} {after : Disk} (h : d.write p content = .ok after) :
    ∃ place, d.Holds place ∧ after = d.put place (.file content) ∧
      after.find p = .ok (.entry place (.file content)) := by
  have hput : ∀ {place : Location} {t : Target}, d.find p = .ok t → t.Takes place →
      d.Holds place ∧ (d.put place (.file content)).find p = .ok (.entry place (.file content)) := by
    intro place t ht hp
    obtain ⟨hlong, hw⟩ := find_eq_ok_iff.mp ht
    have hh := holds_of_walk hw hp
    exact ⟨hh, find_eq_ok_iff.mpr ⟨hlong, walk_put hh hw hp⟩⟩
  unfold write at h
  split at h
  · next place _ hf =>
    cases h
    obtain ⟨hh, hfind⟩ := hput hf (.file place _)
    exact ⟨place, hh, rfl, hfind⟩
  · cases h
  · cases h
  · next place hf =>
    cases h
    obtain ⟨hh, hfind⟩ := hput hf (.free place)
    exact ⟨place, hh, rfl, hfind⟩
  · cases h

theorem find_write {p : Path} {content : Text.Utf8.Bytes} {after : Disk} (h : d.write p content = .ok after) :
    ∃ place, after.find p = .ok (.entry place (.file content)) := by
  obtain ⟨place, -, -, hfind⟩ := write_eq_ok h
  exact ⟨place, hfind⟩

theorem exists?_write {p : Path} {content : Text.Utf8.Bytes} {after : Disk}
    (h : d.write p content = .ok after) : after.exists? p = .ok true := by
  obtain ⟨place, hf⟩ := find_write h
  rw [exists?, look, hf]
  rfl

theorem read_write {p : Path} {content : Text.Utf8.Bytes} {after : Disk} (h : d.write p content = .ok after) :
    after.read p = .ok content := by
  obtain ⟨place, hf⟩ := find_write h
  rw [read, hf]

/-- The directory where a process works is there, so none is made for it. -/
theorem makeDirectories_working (h : d.isDirectory ⟨"", []⟩ = .ok true) :
    d.makeDirectories ⟨"", []⟩ = (d, .ok ()) := by
  have hmake : d.makeDirectory ⟨"", []⟩ = .error .alreadyExists := rfl
  rw [makeDirectories, hmake]
  simp only [h]
  rfl

end Storage.Disk

namespace Jmx.PlanFile

open LoadPlan.Markup (Element)
open LoadPlan.Storage (Disk)

/-- A file is saved on the disk that has the directories above it. -/
theorem save_eq_ok {disk after : Disk} {p : Storage.Path} {content : Text.Utf8.Bytes}
    (h : save disk p content = (after, .ok ())) :
    ∃ made, disk.makeDirectories p.parent = (made, .ok ()) ∧ made.write p content = .ok after := by
  unfold save at h
  split at h
  · cases h
  · next made hm =>
    split at h
    · next hw =>
      cases h
      exact ⟨made, hm, hw⟩
    · cases h

/-- A plan file that was written holds the text of the plan. -/
theorem read_write {disk after : Disk} {path : String} {root : Element}
    (h : write disk (.ofString path) root = (after, .ok ())) :
    read after path = match ofBytes? (Text.Utf8.encode root.document) with
      | some root => .ok root
      | none => .error .malformed := by
  obtain ⟨made, -, hw⟩ := save_eq_ok h
  have hthere : after.exists? (.ofString path) = .ok true := Disk.exists?_write hw
  have hbytes : after.read (.ofString path) = .ok (Text.Utf8.encode root.document) := Disk.read_write hw
  unfold read
  simp only [hthere, hbytes]
  cases ofBytes? (Text.Utf8.encode root.document) with
  | some root => rfl
  | none => rw [Markup.Encoding.unknown?_document]

theorem read_of_readable {disk after : Disk} {path : String} {root : Element} (hn : root.Named)
    (hr : ∀ x ∈ root.subtree, x.Readable) (h : write disk (.ofString path) root = (after, .ok ())) :
    read after path = .ok (root.reread 0) := by
  obtain ⟨tree, htree, hread⟩ := Markup.Document.ofBytes_document (d := dialect) rfl hn hr
  rw [read_write h, ofBytes?, htree]
  simp only [hread]

theorem read_of_not_readable {disk after : Disk} {path : String} {root : Element} (hn : root.Named)
    (hr : ¬∀ x ∈ root.subtree, x.Readable) (h : write disk (.ofString path) root = (after, .ok ())) :
    read after path = .error .malformed := by
  rw [read_write h, ofBytes?, Markup.Document.ofBytes_document_eq_error hn hr]

/-- A file is saved where the working directory has no such name yet. -/
theorem save_of_free {disk : Disk} {path name : String} {place : Storage.Location} (content : Text.Utf8.Bytes)
    (hp : Storage.Path.ofString path = ⟨"", [name]⟩) (hd : disk.isDirectory ⟨"", []⟩ = .ok true)
    (hf : disk.find ⟨"", [name]⟩ = .ok (.free place)) :
    save disk (.ofString path) content = (disk.put place (.file content), .ok ()) := by
  have hparent : (⟨"", [name]⟩ : Storage.Path).parent = ⟨"", []⟩ := rfl
  simp [save, hp, hparent, Disk.makeDirectories_working hd, Disk.write, hf]

/-- A plan is written there. -/
theorem write_of_free {disk : Disk} {path name : String} {place : Storage.Location} (root : Element)
    (hp : Storage.Path.ofString path = ⟨"", [name]⟩) (hd : disk.isDirectory ⟨"", []⟩ = .ok true)
    (hf : disk.find ⟨"", [name]⟩ = .ok (.free place)) :
    write disk (.ofString path) root =
      (disk.put place (.file (Text.Utf8.encode root.document)), .ok ()) :=
  save_of_free _ hp hd hf

end Jmx.PlanFile

end LoadPlan
