import LoadPlan.Proofs.Inclusion.Depth

/-! Documents that ask for a document in which they are. All but the main one are on the chain by the place
of their file. The main one is only if its path does not begin like the name of a text in memory. -/
namespace LoadPlan.Scenario

open LoadPlan.Description (Node)

/-- What an element asks for is left out, with one report that it cannot be used. -/
def Moment.Refuses (m : Moment) (n : Node) (m' : Moment) : Prop :=
  ∃ s now rest p, m.now = .script s now ∧ s.rest = n :: rest ∧ p.kind = .unavailable ∧
    m' = { m with now := .script (s.pass rest) (now.report p n) }

variable {disk : Storage.Disk} {settings : Settings} {main : Node} {chain : List Storage.Path}
  {files : List Storage.Location} {waiting : List Script} {file : Storage.Location} {n : Node}

/-- A document at a place cannot be used if no file is there, as far as the disk tells. If one is and it cannot be
read, that is another kind of problem. -/
theorem includedDocument_unavailable_iff {place : Storage.Path} :
    (∃ p, includedDocument disk place = .error p ∧ p.kind = .unavailable) ↔
      disk.isFile (.ofString place.text) ≠ .ok true := by
  unfold includedDocument
  rw [Description.ofFile_eq]
  rcases hf : disk.isFile (.ofString place.text) with failure | _ | _
  · exact iff_of_true ⟨_, rfl, rfl⟩ (by simp)
  · exact iff_of_true ⟨_, rfl, rfl⟩ (by simp)
  · refine iff_of_false ?_ (by simp)
    rintro ⟨p, hp, hk⟩
    cases hr : disk.read (.ofString place.text) with
    | error failure =>
      rw [hr] at hp
      cases hp
      cases hk
    | ok bytes =>
      rw [hr] at hp
      simp only [Description.ofBytes] at hp
      split at hp
      · cases hp
        cases hk
      · split at hp
        · cases hp
        · cases hp
          cases hk

/-- A file that is named leads to its place. -/
theorem exists_found_of_named (h : named disk n = some file) :
    ∃ path, found disk n = .ok (some path) ∧ disk.resolve path = ⟨"/", file⟩ := by
  unfold named at h
  split at h
  · next path hpath => exact ⟨path, hpath, Storage.Disk.resolve_of_fileAt? h⟩
  · cases h

theorem included_of_named (h : named disk n = some file) (chain : List Storage.Path) :
    included disk settings chain n = .ok ⟨"/", file⟩ ∨
      ∃ p, included disk settings chain n = .error p ∧ p.kind = .unavailable := by
  cases hi : included disk settings chain n with
  | error p => exact .inr ⟨p, rfl, kind_of_included hi⟩
  | ok place =>
    obtain ⟨⟨path, hpath, rfl⟩, -⟩ := included_eq_ok_iff.mp hi
    obtain ⟨path', hpath', hplace⟩ := exists_found_of_named h
    cases hpath.symm.trans hpath'
    exact .inl (congrArg Except.ok hplace)

/-- A file that is named cannot be used, unless it is let through and is there under its place. -/
theorem opened_unavailable_iff (h : named disk n = some file) :
    (∃ p, opened disk settings chain n = .error p ∧ p.kind = .unavailable) ↔
      (included disk settings chain n = .ok ⟨"/", file⟩ →
        disk.isFile (.ofString (⟨"/", file⟩ : Storage.Path).text) ≠ .ok true) := by
  unfold opened
  rcases included_of_named h chain with hi | ⟨p, hi, hp⟩
  · rw [hi, ← includedDocument_unavailable_iff]
    simp only [forall_const]
    cases includedDocument disk ⟨"/", file⟩ with
    | error p => simp only [Except.error.injEq]
    | ok root =>
      constructor
      · rintro ⟨p, hp, -⟩
        cases hp
      · rintro ⟨p, hp, -⟩
        cases hp
  · rw [hi]
    constructor
    · rintro - ho
      cases ho
    · exact fun _ => ⟨p, rfl, hp⟩

/-- An element is refused what it asks for if it cannot be opened, for want of what it names. -/
theorem refuses_iff {m : Moment} {now : Log} (ha : m.Asks n now) :
    m.Refuses n (step disk settings main m) ↔
      ∃ p, opened disk settings m.chain n = .error p ∧ p.kind = .unavailable := by
  obtain ⟨s, rest, hm, hs, hstep⟩ := step_of_asks disk settings main ha
  constructor
  · rintro ⟨s', now', rest', p, hm', -, hp, hnext⟩
    rw [hstep] at hnext
    cases hm.symm.trans hm'
    cases ho : opened disk settings m.chain n with
    | error q =>
      rw [ho] at hnext
      have hlog : now.report q n = now.report p n :=
        (Activity.script.inj (congrArg Moment.now hnext)).2
      have hlast := List.append_cancel_left (congrArg Log.diagnostics hlog)
      cases hlast
      exact ⟨p, rfl, hp⟩
    | ok o =>
      rw [ho] at hnext
      exact absurd (congrArg Moment.waiting hnext) (List.cons_ne_self _ _)
  · rintro ⟨p, ho, hp⟩
    rw [ho] at hstep
    exact ⟨s, now, rest, p, hm, hs, hp, hstep⟩

theorem Nested.open_of_mem (h : Nested disk settings main chain files waiting) (hf : file ∈ files) :
    file ∈ headFiles disk main ∨ (⟨"/", file⟩ : Storage.Path) ∈ chain := by
  induction h with
  | head => exact .inl hf
  | inner _ _ _ ih =>
    rcases List.mem_append.mp hf with hf | hf
    · exact (ih hf).imp_right fun hc => List.mem_append_left _ hc
    · rw [List.mem_singleton.mp hf]
      exact .inr (List.mem_append_right _ (List.mem_singleton_self _))

theorem Nested.headFiles_subset (h : Nested disk settings main chain files waiting) :
    headFiles disk main ⊆ files := by
  induction h with
  | head => exact List.Subset.refl _
  | inner _ _ _ ih => exact List.Subset.trans ih (List.subset_append_left _ _)

theorem Nested.headChain_subset (h : Nested disk settings main chain files waiting) :
    headChain disk main ⊆ chain := by
  induction h with
  | head => exact List.Subset.refl _
  | inner _ _ _ ih => exact List.Subset.trans ih (List.subset_append_left _ _)

/-- The file of a description that was read is where its source leads to. -/
theorem exists_home {path : String} (h : Description.ofFile disk path = .ok main) :
    ∃ home, disk.fileAt? (.ofString path) = some home ∧ headFiles disk main = [home] ∧
      main.source = (Storage.Path.ofString path).text ∧
        (Node.isFileSource main.source = true → headChain disk main = [⟨"/", home⟩]) := by
  have hsource := (Description.ofFile_under h).source_eq
  have hisFile : (disk.fileAt? (.ofString path)).isSome = true := by
    obtain ⟨bytes, hread, -⟩ := Description.ofFile_eq_ok_iff.mp h
    exact Storage.Disk.fileAt?_isSome_iff.mpr (Storage.Disk.isFile_of_read hread)
  obtain ⟨home, hhome⟩ := Option.isSome_iff_exists.mp hisFile
  refine ⟨home, hhome, ?_, hsource, fun hs => ?_⟩
  · rw [headFiles, hsource, Storage.Path.ofString_text, hhome, Option.toList_some]
  · rw [headChain, if_pos hs, hsource, Storage.Path.ofString_text, Storage.Disk.resolve_of_fileAt? hhome]

variable (disk settings main) in
/-- Whenever an element names a file that is open, it is refused. -/
def NoneReentered (log : Log) : Prop :=
  ∀ k n now file, (moment disk settings main log k).Asks n now → named disk n = some file →
    file ∈ (moment disk settings main log k).files →
      (moment disk settings main log k).Refuses n (moment disk settings main log (k + 1))

/-- No file is read while it is open, but for that of the main document. That is kept out if its path does not
begin like the name of a text in memory. If it does, it is kept out unless it is asked for, with not too
many documents open, before it has been read as one that is included. -/
theorem noneReentered_iff {path : String} (h : Description.ofFile disk path = .ok main)
    (settings : Settings) (log : Log) :
    let moment := moment disk settings main log
    ∃ home, disk.fileAt? (.ofString path) = some home ∧
      (Node.isFileSource (Storage.Path.ofString path).text = true → NoneReentered disk settings main log) ∧
      (NoneReentered disk settings main log ↔
        ∀ k n now, (moment k).Asks n now → named disk n = some home →
          included disk settings (moment k).chain n = .ok ⟨"/", home⟩ →
            disk.isFile (.ofString (⟨"/", home⟩ : Storage.Path).text) ≠ .ok true) ∧
      ∀ k n now file, (moment k).Asks n now → named disk n = some file → file ∈ (moment k).files →
        file ≠ home → (moment k).Refuses n (moment (k + 1)) := by
  intro moment
  have hsucc : ∀ k, moment (k + 1) = step disk settings main (moment k) := moment_succ log
  have hnested : ∀ {k n now}, (moment k).Asks n now →
      Nested disk settings main (moment k).chain (moment k).files (moment k).waiting :=
    fun ha => nested_of_asks (sound_moment disk settings main log _) ha
  have hrefuses : ∀ {k n now file}, (moment k).Asks n now → named disk n = some file →
      ((moment k).Refuses n (moment (k + 1)) ↔
        (included disk settings (moment k).chain n = .ok ⟨"/", file⟩ →
          disk.isFile (.ofString (⟨"/", file⟩ : Storage.Path).text) ≠ .ok true)) := by
    intro k n now file ha hn
    rw [hsucc, refuses_iff ha, opened_unavailable_iff hn]
  have hopen : ∀ {k n now file}, (moment k).Asks n now → named disk n = some file →
      (⟨"/", file⟩ : Storage.Path) ∈ (moment k).chain → (moment k).Refuses n (moment (k + 1)) :=
    fun ha hn hc => (hrefuses ha hn).mpr fun hi => absurd hc (included_eq_ok_iff.mp hi).2.1
  obtain ⟨home, hhome, hfiles, hsource, hchain⟩ := exists_home h
  have hother : ∀ k n now file, (moment k).Asks n now → named disk n = some file →
      file ∈ (moment k).files → file ≠ home → (moment k).Refuses n (moment (k + 1)) := by
    intro k n now file ha hn hf hne
    rcases (hnested ha).open_of_mem hf with hf | hc
    · rw [hfiles, List.mem_singleton] at hf
      exact absurd hf hne
    · exact hopen ha hn hc
  refine ⟨home, hhome, fun hs k n now file ha hn hf => ?_, ⟨fun hall k n now ha hn => ?_,
    fun hnone k n now file ha hn hf => ?_⟩, hother⟩
  · by_cases hfile : file = home
    · subst hfile
      have hhead : (⟨"/", file⟩ : Storage.Path) ∈ headChain disk main := by
        rw [hchain (hsource ▸ hs)]
        exact List.mem_singleton_self _
      exact hopen ha hn ((hnested ha).headChain_subset hhead)
    · exact hother k n now file ha hn hf hfile
  · have hhead : home ∈ headFiles disk main := hfiles ▸ List.mem_singleton_self home
    exact (hrefuses ha hn).mp (hall k n now home ha hn ((hnested ha).headFiles_subset hhead))
  · by_cases hfile : file = home
    · subst hfile
      exact (hrefuses ha hn).mpr (hnone k n now ha hn)
    · exact hother k n now file ha hn hf hfile

/-- A document that includes itself, in a file with the name of a text in memory. -/
def mirror : Storage.Disk :=
  ⟨[(["<m>"], .file (Text.Utf8.encode "<s><script><file>&lt;m></file></script></s>"))], []⟩

def mirrorImage : Node :=
  ⟨"file", [], [], "<m>", 1, "<m>"⟩

def mirrorNode : Node :=
  ⟨"s", [⟨"script", [mirrorImage], [], "<m>", 1, "<m>"⟩], [], "<m>", 1, "<m>"⟩

theorem ofFile_mirror : Description.ofFile mirror "<m>" = .ok mirrorNode := by
  cbv

theorem named_mirrorImage : named mirror mirrorImage = some ["<m>"] := by
  have hmemory : Node.isFileSource mirrorImage.source = false := by decide
  rw [named, found, Node.directory, hmemory]
  cbv

theorem included_mirrorImage : included mirror shallow [] mirrorImage = .ok ⟨"/", ["<m>"]⟩ := by
  have hmemory : Node.isFileSource mirrorImage.source = false := by decide
  rw [included, Node.directory, hmemory]
  cbv

/-- The document that includes itself is read a second time while it is open. -/
theorem noneReentered_iff_mirror : Description.ofFile mirror "<m>" = .ok mirrorNode ∧
    ¬NoneReentered mirror shallow mirrorNode .empty := by
  refine ⟨ofFile_mirror, fun hnone => ?_⟩
  obtain ⟨home, hhome, -, hiff, -⟩ := noneReentered_iff ofFile_mirror shallow .empty
  have hplace : mirror.fileAt? (.ofString "<m>") = some ["<m>"] := by
    cbv
  cases hplace.symm.trans hhome
  have hfirst : ∃ next, Stepwise.elements mirror shallow mirrorNode.children .empty =
      .script ⟨"script", [mirrorImage], [], "<m>", 1, "<m>"⟩ .empty next := ⟨_, rfl⟩
  obtain ⟨next, hfirst⟩ := hfirst
  have hchain : headChain mirror mirrorNode = [] := if_neg (by decide)
  have htwo := hiff.mp hnone 2 mirrorImage .empty
  rw [moment_two_of_script hfirst, hchain] at htwo
  have hnofile := htwo ⟨_, [], rfl, rfl, rfl⟩ named_mirrorImage included_mirrorImage
  have hfile : mirror.isFile (.ofString (⟨"/", ["<m>"]⟩ : Storage.Path).text) = .ok true := by
    cbv
  exact hnofile hfile

end LoadPlan.Scenario
