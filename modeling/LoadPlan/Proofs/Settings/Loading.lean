import Mathlib.Data.List.Nodup
import Mathlib.Tactic.Positivity
import LoadPlan.Proofs.Markup.Bytes
import LoadPlan.Proofs.Number.Limits
import LoadPlan.Settings.Reader

/-! What a settings file comes to: its entries in the stead of the standard settings, or an error about the first
entry that is not in order. -/
namespace LoadPlan

namespace Settings

open LoadPlan.Yaml (Value Content)

namespace Key

theorem ofValue?_eq_some_iff {v : Value} {key : Key} : ofValue? v = some key ↔ v = .text key.name := by
  constructor
  · intro h
    cases v with
    | text s =>
      simp only [ofValue?] at h
      split at h
      · cases h
      · next hh =>
        have hname : key.name = s.text := by simpa using List.find?_some h
        rw [hname, ← Option.not_isSome_iff_eq_none.mp hh]
    | _ => cases h
  · rintro rfl
    exact ofValue?_name key

theorem name_injective {k l : Key} (h : Value.text k.name = .text l.name) : k = l := by
  have hk := ofValue?_name k
  rw [h, ofValue?_name l] at hk
  exact (Option.some.inj hk).symm

/-- The values that a setting may have. A boolean is no integer. -/
inductive Allows : Key → Value → Prop
  | rampTime (n : Int) : Allows .rampTime (.integer n)
  | maxIncludeDepth (n : Int) : Allows .maxIncludeDepth (.integer n)
  | onSampleError (t : Yaml.Scalar) : Allows .onSampleError (.text t)
  | delimiter (t : Yaml.Scalar) : Allows .delimiter (.text t)
  | wholePercent (n : Int) : Allows .defaultPercent (.integer n)
  | percent (x : Number.Double) : Allows .defaultPercent (.float x)
  | recycle (b : Bool) : Allows .recycle (.boolean b)
  | version (t : Yaml.Scalar) : Allows .version (.text t)
  | wholeVersion (n : Int) : Allows .version (.integer n)
  | numericVersion (x : Number.Double) : Allows .version (.float x)

theorem takes_iff {key : Key} {v : Value} : key.takes v = true ↔ key.Allows v := by
  constructor
  · intro h
    cases key <;> cases v <;> first | constructor | cases h
  · rintro (_ | _) <;> rfl

/-- The value of a setting that a value in a file stands for: percentages are doubles, and versions are texts. -/
def converted? : Key → Value → Option Value
  | .defaultPercent, .integer n => (Number.Double.ofInt? n).map .float
  | .version, .integer n => (Number.Integer.text? n).map fun t : String => .text t
  | .version, .float x => some (.text x.text)
  | _, v => some v

/-- What is said of a value that stands for none. -/
def conversionError : Key → ReadError
  | .defaultPercent => .percentTooLarge
  | _ => .versionTooLong

end Key

/-- The value of a setting. -/
def value (s : Settings) : Key → Value
  | .delimiter => .text ⟨s.delimiter, s.halved.delimiter⟩
  | .recycle => .boolean s.recycle
  | .defaultPercent => .float s.defaultPercent
  | .version => .text ⟨s.version, s.halved.version⟩
  | .maxIncludeDepth => .integer s.maxIncludeDepth
  | .onSampleError => .text ⟨s.onSampleError, s.halved.onSampleError⟩
  | .rampTime => .integer s.rampTime

/-- The entries of a mapping once a later value of a key has taken the place of the earlier one. -/
def items (entries : List (Value × Value)) : List (Value × Value) :=
  entries.foldl assign []

/-- An entry that is in order. -/
def Proper (e : Value × Value) : Prop :=
  ∃ key : Key, e.1 = .text key.name ∧ key.Allows e.2

/-- What is wrong with an entry. -/
inductive Offence (path : String) : Value × Value → ReadError → Prop
  | unknown {k v : Value} (h : ∀ key : Key, k ≠ .text key.name) : Offence path (k, v) (.unknownKey k path)
  | boolean {key : Key} {b : Bool} (h : key ≠ .recycle) :
      Offence path (.text key.name, .boolean b) (.isBoolean key path)
  | kind {key : Key} {v : Value} (h : ¬key.Allows v) (hb : ∀ b, v ≠ .boolean b) :
      Offence path (.text key.name, v) (.wrongKind key v path)

/-- Settings have the values of the entries, and those that no entry names are the standard ones. -/
structure Settles (s : Settings) (items : List (Value × Value)) : Prop where
  given : ∀ (key : Key) (v : Value), (.text key.name, v) ∈ items → key.converted? v = some (s.value key)
  kept : ∀ key : Key, (∀ v, (.text key.name, v) ∉ items) → s.value key = standard.value key

variable {path : String} {e : Value × Value} {entries : List (Value × Value)}

theorem keys_assign (l : List (Value × Value)) (e : Value × Value) :
    (assign l e).map Prod.fst = if e.1 ∈ l.map Prod.fst then l.map Prod.fst else l.map Prod.fst ++ [e.1] := by
  induction l with
  | nil => rfl
  | cons x l ih =>
    obtain ⟨k, v⟩ := x
    by_cases hk : k = e.1
    · simp [assign, hk]
    · have hk' : e.1 ≠ k := fun h => hk h.symm
      simp only [assign, if_neg hk, List.map_cons, ih, List.mem_cons, hk', false_or]
      split <;> rfl

theorem nodup_assign {l : List (Value × Value)} (h : (l.map Prod.fst).Nodup) (e : Value × Value) :
    ((assign l e).map Prod.fst).Nodup := by
  rw [keys_assign]
  split
  · exact h
  · next hnew =>
    refine List.nodup_append.mpr ⟨h, List.nodup_singleton _, fun a ha b hb => ?_⟩
    rw [List.mem_singleton.mp hb]
    rintro rfl
    exact hnew ha

theorem nodup_items (entries : List (Value × Value)) : ((items entries).map Prod.fst).Nodup :=
  List.foldlRecOn entries assign (motive := fun l => (l.map Prod.fst).Nodup) List.nodup_nil
    fun _ hl e _ => nodup_assign hl e

theorem checkEntry_of_proper (path : String) (h : Proper e) :
    ∃ key : Key, e.1 = .text key.name ∧ key.Allows e.2 ∧ checkEntry path e = .ok (key, e.2) := by
  obtain ⟨key, hkey, hallows⟩ := h
  refine ⟨key, hkey, hallows, ?_⟩
  rw [checkEntry, hkey, Key.ofValue?_name]
  exact if_pos (Key.takes_iff.mpr hallows)

theorem checkEntry_of_not_proper (path : String) (h : ¬Proper e) :
    ∃ error, Offence path e error ∧ checkEntry path e = .error error := by
  obtain ⟨k, v⟩ := e
  cases hk : Key.ofValue? k with
  | none =>
    refine ⟨_, .unknown fun key hkey => ?_, by rw [checkEntry, hk]⟩
    rw [Key.ofValue?_eq_some_iff.mpr hkey] at hk
    cases hk
  | some key =>
    have hkey := Key.ofValue?_eq_some_iff.mp hk
    have hnot : ¬key.Allows v := fun ha => h ⟨key, hkey, ha⟩
    have htakes : key.takes v = false := Bool.eq_false_iff.mpr fun ht => hnot (Key.takes_iff.mp ht)
    simp only [checkEntry, hk, htakes, Bool.false_eq_true, if_false]
    subst hkey
    cases v with
    | boolean b =>
      refine ⟨_, .boolean ?_, rfl⟩
      rintro rfl
      exact hnot (.recycle b)
    | _ => exact ⟨_, .kind hnot nofun, rfl⟩

/-- The entry of a key. -/
def entryOf (x : Key × Value) : Value × Value := (.text x.1.name, x.2)

theorem mapM_checkEntry_of_proper (path : String) {l : List (Value × Value)} (h : ∀ e ∈ l, Proper e) :
    ∃ ks, l.mapM (checkEntry path) = .ok ks ∧ ks.map entryOf = l ∧ ∀ x ∈ ks, x.1.Allows x.2 := by
  induction l with
  | nil => exact ⟨[], rfl, rfl, fun x hx => absurd hx List.not_mem_nil⟩
  | cons e l ih =>
    obtain ⟨he, hl⟩ := List.forall_mem_cons.mp h
    obtain ⟨key, hkey, hallows, hcheck⟩ := checkEntry_of_proper path he
    obtain ⟨ks, hks, rfl, hall⟩ := ih hl
    refine ⟨(key, e.2) :: ks, ?_, ?_, List.forall_mem_cons.mpr ⟨hallows, hall⟩⟩
    · rw [List.mapM_cons, hcheck, hks]
      rfl
    · rw [List.map_cons, entryOf, ← hkey]

/-- The entries are looked at one after the other, up to the first that is not in order. -/
theorem mapM_checkEntry_of_not_proper (path : String) {before : List (Value × Value)}
    (hbefore : ∀ x ∈ before, Proper x) (he : ¬Proper e) (after : List (Value × Value)) :
    ∃ error, Offence path e error ∧ (before ++ e :: after).mapM (checkEntry path) = .error error := by
  induction before with
  | nil =>
    obtain ⟨error, hoffence, hcheck⟩ := checkEntry_of_not_proper path he
    refine ⟨error, hoffence, ?_⟩
    rw [List.nil_append, List.mapM_cons, hcheck]
    rfl
  | cons x before ih =>
    obtain ⟨hx, hbefore⟩ := List.forall_mem_cons.mp hbefore
    obtain ⟨key, -, -, hcheck⟩ := checkEntry_of_proper path hx
    obtain ⟨error, hoffence, hrun⟩ := ih hbefore
    refine ⟨error, hoffence, ?_⟩
    rw [List.cons_append, List.mapM_cons, hcheck, hrun]
    rfl

theorem exists_first_not_proper {l : List (Value × Value)} (h : ¬∀ e ∈ l, Proper e) :
    ∃ before e after, l = before ++ e :: after ∧ (∀ x ∈ before, Proper x) ∧ ¬Proper e := by
  induction l with
  | nil => exact absurd (fun e he => absurd he List.not_mem_nil) h
  | cons x l ih =>
    by_cases hx : Proper x
    · obtain ⟨before, e, after, rfl, hbefore, he⟩ := ih fun hl => h (List.forall_mem_cons.mpr ⟨hx, hl⟩)
      exact ⟨x :: before, e, after, rfl, List.forall_mem_cons.mpr ⟨hx, hbefore⟩, he⟩
    · exact ⟨[], x, l, rfl, fun y hy => absurd hy List.not_mem_nil, hx⟩

theorem converted?_eq_none {key : Key} {v : Value} (ha : key.Allows v) (hc : key.converted? v = none) :
    ∃ n, v = .integer n ∧ (key = .defaultPercent ∧ Number.Double.ofInt? n = none ∨
      key = .version ∧ Number.Integer.text? n = none) := by
  cases ha with
  | wholePercent n => exact ⟨n, rfl, .inl ⟨rfl, Option.map_eq_none_iff.mp hc⟩⟩
  | wholeVersion n => exact ⟨n, rfl, .inr ⟨rfl, Option.map_eq_none_iff.mp hc⟩⟩
  | _ => cases hc

/-- A value that is put in changes its own setting only. -/
theorem put_of_converted {s : Settings} {key : Key} {v w : Value} (ha : key.Allows v)
    (hc : key.converted? v = some w) (hs : s.value key = standard.value key) :
    ∃ after, put s (key, v) = .ok after ∧ after.value key = w ∧ ∀ k, k = key ∨ after.value k = s.value k := by
  cases ha with
  | wholePercent n =>
    obtain ⟨x, hx, rfl⟩ := Option.map_eq_some_iff.mp hc
    refine ⟨{ s with defaultPercent := x }, by simp only [put, hx], rfl, fun k => ?_⟩
    cases k <;> simp [value]
  | wholeVersion n =>
    obtain ⟨t, ht, rfl⟩ := Option.map_eq_some_iff.mp hc
    have hh : s.version = "5.0" ∧ s.halved.version = none := by simpa [value, standard] using hs
    refine ⟨{ s with version := t }, by simp only [put, ht], by simp [value, hh.2], fun k => ?_⟩
    cases k <;> simp [value]
  | numericVersion x =>
    cases hc
    have hh : s.version = "5.0" ∧ s.halved.version = none := by simpa [value, standard] using hs
    refine ⟨{ s with version := x.text }, rfl, by simp [value, hh.2], fun k => ?_⟩
    cases k <;> simp [value]
  | _ =>
    cases hc
    refine ⟨_, rfl, rfl, fun k => ?_⟩
    cases k <;> simp [value]

theorem put_of_not_converted {key : Key} {v : Value} (ha : key.Allows v) (hc : key.converted? v = none)
    (s : Settings) : put s (key, v) = .error key.conversionError := by
  obtain ⟨n, rfl, ⟨rfl, hn⟩ | ⟨rfl, hn⟩⟩ := converted?_eq_none ha hc <;> simp only [put, hn] <;> rfl

/-- Values of different settings are put in one after the other. -/
theorem foldlM_put_cases {l : List (Key × Value)} (hall : ∀ x ∈ l, x.1.Allows x.2)
    (hnodup : (l.map Prod.fst).Nodup) {s : Settings} (hs : ∀ x ∈ l, s.value x.1 = standard.value x.1) :
    (∃ after, l.foldlM put s = .ok after ∧ (∀ x ∈ l, x.1.converted? x.2 = some (after.value x.1)) ∧
      ∀ k, k ∉ l.map Prod.fst → after.value k = s.value k) ∨
    ∃ x ∈ l, x.1.converted? x.2 = none ∧ l.foldlM put s = .error x.1.conversionError := by
  induction l generalizing s with
  | nil => exact .inl ⟨s, rfl, fun x hx => absurd hx List.not_mem_nil, fun _ _ => rfl⟩
  | cons x l ih =>
    obtain ⟨key, v⟩ := x
    obtain ⟨ha, hall⟩ := List.forall_mem_cons.mp hall
    obtain ⟨hkey, hs⟩ := List.forall_mem_cons.mp hs
    obtain ⟨hnew, hnodup⟩ := List.nodup_cons.mp hnodup
    cases hc : key.converted? v with
    | none =>
      refine .inr ⟨_, List.mem_cons_self, hc, ?_⟩
      rw [List.foldlM_cons, put_of_not_converted ha hc]
      rfl
    | some w =>
      obtain ⟨next, hput, hw, hframe⟩ := put_of_converted ha hc hkey
      have hother : ∀ k, k ≠ key → next.value k = s.value k := fun k hk => (hframe k).resolve_left hk
      have hnext : ∀ x ∈ l, next.value x.1 = standard.value x.1 := fun x hx =>
        (hother x.1 fun h => hnew (List.mem_map.mpr ⟨x, hx, h⟩)).trans (hs x hx)
      rcases ih hall hnodup hnext with ⟨after, hrun, hgiven, hkept⟩ | ⟨x, hx, hnone, hrun⟩
      · refine .inl ⟨after, ?_, List.forall_mem_cons.mpr ⟨?_, hgiven⟩, fun k hk => ?_⟩
        · rw [List.foldlM_cons, hput]
          exact hrun
        · rw [hkept key hnew, hw, hc]
        · obtain ⟨hne, hk⟩ := List.ne_and_not_mem_of_not_mem_cons hk
          rw [hkept k hk, hother k hne]
      · refine .inr ⟨x, List.mem_cons_of_mem _ hx, hnone, ?_⟩
        rw [List.foldlM_cons, hput]
        exact hrun

theorem inOrder_perm (ks : List (Key × Value)) : (inOrder ks).Perm ks := by
  have hversion : ks.filter (·.1 = .version) =
      (ks.filter fun x => !decide (x.1 = .defaultPercent)).filter (·.1 = .version) := by
    rw [List.filter_filter]
    refine List.filter_congr fun x _ => ?_
    cases x.1 <;> rfl
  have hrest : (ks.filter fun x => x.1 != .defaultPercent && x.1 != .version) =
      (ks.filter fun x => !decide (x.1 = .defaultPercent)).filter fun x => !decide (x.1 = .version) := by
    rw [List.filter_filter]
    refine List.filter_congr fun x _ => ?_
    cases x.1 <;> rfl
  rw [inOrder, List.append_assoc, hversion, hrest]
  exact ((List.filter_append_perm _ _).append_left _).trans (List.filter_append_perm _ _)

/-- Of a percentage and a version that stand for no value, it is the percentage that is refused. -/
theorem foldlM_inOrder_cases {ks : List (Key × Value)} (hall : ∀ x ∈ ks, x.1.Allows x.2)
    (hnodup : (ks.map Prod.fst).Nodup) :
    (∃ after, (inOrder ks).foldlM put standard = .ok after ∧
      (∀ x ∈ ks, x.1.converted? x.2 = some (after.value x.1)) ∧
      ∀ k, k ∉ ks.map Prod.fst → after.value k = standard.value k) ∨
    (∃ n, (.defaultPercent, .integer n) ∈ ks ∧ Number.Double.ofInt? n = none ∧
      (inOrder ks).foldlM put standard = .error .percentTooLarge) ∨
    ((∀ n, (.defaultPercent, .integer n) ∈ ks → Number.Double.ofInt? n ≠ none) ∧
      ∃ n, (.version, .integer n) ∈ ks ∧ Number.Integer.text? n = none ∧
        (inOrder ks).foldlM put standard = .error .versionTooLong) := by
  have hperm := inOrder_perm ks
  have hkeys := hperm.map Prod.fst
  by_cases hpercent : ∃ n, (.defaultPercent, .integer n) ∈ ks ∧ Number.Double.ofInt? n = none
  · obtain ⟨n, hmem, hn⟩ := hpercent
    -- The percentages come first, so the error is one of theirs.
    have hfirst := foldlM_put_cases (l := ks.filter (·.1 = .defaultPercent)) (s := standard)
      (fun x hx => hall x (List.mem_filter.mp hx).1)
      (hnodup.sublist (List.filter_sublist.map Prod.fst)) (fun _ _ => rfl)
    rcases hfirst with ⟨after, -, hgiven, -⟩ | ⟨x, hx, -, hrun⟩
    · have hnone := hgiven _ (List.mem_filter.mpr ⟨hmem, rfl⟩)
      rw [Key.converted?, hn] at hnone
      cases hnone
    · have hx1 : x.1 = .defaultPercent := by simpa using (List.mem_filter.mp hx).2
      refine .inr (.inl ⟨n, hmem, hn, ?_⟩)
      rw [inOrder, List.append_assoc, List.foldlM_append, hrun, hx1]
      rfl
  · have hrun := foldlM_put_cases (l := inOrder ks) (s := standard) (fun x hx => hall x (hperm.mem_iff.mp hx))
      (hkeys.nodup_iff.mpr hnodup) (fun _ _ => rfl)
    rcases hrun with ⟨after, hrun, hgiven, hkept⟩ | ⟨⟨key, v⟩, hx, hnone, hrun⟩
    · exact .inl ⟨after, hrun, fun x hx => hgiven x (hperm.mem_iff.mpr hx),
        fun k hk => hkept k fun h => hk (hkeys.mem_iff.mp h)⟩
    · have hmem := hperm.mem_iff.mp hx
      obtain ⟨n, rfl, ⟨rfl, hn⟩ | ⟨rfl, hn⟩⟩ := converted?_eq_none (hall _ hmem) hnone
      · exact absurd ⟨n, hmem, hn⟩ hpercent
      · exact .inr (.inr ⟨fun m hm hnone => hpercent ⟨m, hm, hnone⟩, n, hmem, hn, hrun⟩)

theorem mem_map_entryOf {ks : List (Key × Value)} {key : Key} {v : Value} :
    (.text key.name, v) ∈ ks.map entryOf ↔ (key, v) ∈ ks := by
  rw [List.mem_map]
  constructor
  · rintro ⟨⟨k, w⟩, hx, he⟩
    obtain ⟨hk, rfl⟩ := Prod.mk.inj he
    rwa [← Key.name_injective hk]
  · exact fun h => ⟨_, h, rfl⟩

theorem ofEntries_eq (path : String) (entries : List (Value × Value)) :
    ofEntries path entries = ((items entries).mapM (checkEntry path)).bind fun ks =>
      ((inOrder ks).foldlM put standard).bind fun s =>
        if s.maxIncludeDepth < 1 then .error (.depthTooSmall path) else .ok s := by
  rfl

theorem ofEntries_of_not_proper (path : String) {before after : List (Value × Value)}
    (hsplit : items entries = before ++ e :: after) (hbefore : ∀ x ∈ before, Proper x) (he : ¬Proper e) :
    ∃ error, Offence path e error ∧ ofEntries path entries = .error error := by
  obtain ⟨error, hoffence, hrun⟩ := mapM_checkEntry_of_not_proper path hbefore he after
  refine ⟨error, hoffence, ?_⟩
  rw [ofEntries_eq, hsplit, hrun]
  rfl

/-- If all entries are in order, the settings that they come to are judged by their depth; but a percentage or
a version may stand for no value. -/
theorem ofEntries_of_proper (path : String) (hproper : ∀ e ∈ items entries, Proper e) :
    (∃ s, Settles s (items entries) ∧
      ofEntries path entries = if s.maxIncludeDepth < 1 then .error (.depthTooSmall path) else .ok s) ∨
    (∃ n, (.text Key.defaultPercent.name, .integer n) ∈ items entries ∧ Number.Double.ofInt? n = none ∧
      ofEntries path entries = .error .percentTooLarge) ∨
    ((∀ n, (.text Key.defaultPercent.name, .integer n) ∈ items entries → Number.Double.ofInt? n ≠ none) ∧
      ∃ n, (.text Key.version.name, .integer n) ∈ items entries ∧ Number.Integer.text? n = none ∧
        ofEntries path entries = .error .versionTooLong) := by
  obtain ⟨ks, hks, hitems, hall⟩ := mapM_checkEntry_of_proper path hproper
  have hmem : ∀ key v, (.text key.name, v) ∈ items entries ↔ (key, v) ∈ ks := by
    intro key v
    rw [← hitems, mem_map_entryOf]
  have hnodup : (ks.map Prod.fst).Nodup := by
    have hkeys := nodup_items entries
    rw [← hitems, List.map_map] at hkeys
    exact List.Nodup.of_map (fun key : Key => Value.text key.name) (by rwa [List.map_map])
  have heq : ofEntries path entries = ((inOrder ks).foldlM put standard).bind fun s =>
      if s.maxIncludeDepth < 1 then .error (.depthTooSmall path) else .ok s := by
    rw [ofEntries_eq, hks]
    rfl
  rw [heq]
  rcases foldlM_inOrder_cases hall hnodup with ⟨s, hrun, hgiven, hkept⟩ | ⟨n, hn, hlarge, hrun⟩ |
    ⟨hfits, n, hn, hlong, hrun⟩ <;> rw [hrun]
  · refine .inl ⟨s, ⟨fun key v h => hgiven _ ((hmem key v).mp h), fun key h => hkept key fun hk => ?_⟩, rfl⟩
    obtain ⟨x, hx, rfl⟩ := List.mem_map.mp hk
    exact h x.2 ((hmem _ _).mpr hx)
  · exact .inr (.inl ⟨n, (hmem _ _).mpr hn, hlarge, rfl⟩)
  · exact .inr (.inr ⟨fun m hm => hfits m ((hmem _ _).mp hm), n, (hmem _ _).mpr hn, hlong, rfl⟩)

/-- The depth of settings is that of their entry, if there is one. -/
theorem Settles.shallow_iff {s : Settings} {items : List (Value × Value)} (h : Settles s items)
    (hproper : ∀ e ∈ items, Proper e) :
    s.maxIncludeDepth < 1 ↔ ∃ n, (.text Key.maxIncludeDepth.name, .integer n) ∈ items ∧ n < 1 := by
  have hsame : ∀ n, (.text Key.maxIncludeDepth.name, .integer n) ∈ items → n = s.maxIncludeDepth := by
    intro n hn
    simpa [Key.converted?, value] using h.given _ _ hn
  constructor
  · intro hshallow
    by_contra hnone
    have hkept : s.maxIncludeDepth = standard.maxIncludeDepth := by
      have habsent : ∀ v, (.text Key.maxIncludeDepth.name, v) ∉ items := by
        intro v hv
        obtain ⟨key, hkey, hallows⟩ := hproper _ hv
        cases Key.name_injective hkey
        cases hallows with
        | maxIncludeDepth n => exact hnone ⟨n, hv, hsame n hv ▸ hshallow⟩
      simpa [value] using h.kept _ habsent
    exact absurd hshallow (hkept ▸ by decide)
  · rintro ⟨n, hn, hlt⟩
    exact hsame n hn ▸ hlt

/-- A file holds a text, and this is its content. -/
def FileHolds (disk : Storage.Disk) (path : String) (content : Content) : Prop :=
  ∃ bytes cs, disk.read (.ofString path) = .ok bytes ∧ Text.Utf8.decode? bytes = some cs ∧
    Content.ofText (Text.unifyLineEnds cs) = .ok content

variable {disk : Storage.Disk}

theorem ofFile_of_holds {content : Content} (h : FileHolds disk path content) :
    (∀ v, content = .value v → ofFile disk path = if v = .null then .ok standard else .error (.notMapping path)) ∧
      ∀ entries, content = .mapping entries → ofFile disk path = ofEntries path entries := by
  obtain ⟨bytes, cs, hread, hdecode, hcontent⟩ := h
  rw [Settings.ofFile_of_read hread hdecode]
  constructor
  · rintro v rfl
    rw [ofText, hcontent]
    cases v <;> rfl
  · rintro entries rfl
    rw [ofText, hcontent]

/-- An error that says in words what is wrong with settings. -/
def ReadError.isRefusal : ReadError → Bool
  | .malformed _ | .notMapping _ | .isBoolean .. | .wrongKind .. | .depthTooSmall _ => true
  | .unknownKey key _ => key.text?.isSome
  | _ => false

theorem message?_of_isRefusal {error : ReadError} (h : error.isRefusal = true) :
    ∃ text, error.message? = some text := by
  cases error with
  | unknownKey key path =>
    obtain ⟨text, htext⟩ := Option.isSome_iff_exists.mp (show key.text?.isSome = true from h)
    exact ⟨_, by rw [ReadError.message?, htext]; rfl⟩
  | malformed | notMapping | isBoolean | wrongKind | depthTooSmall => exact ⟨_, rfl⟩
  | _ => cases h

/-- Only a key can be beyond words: an integer that is too long to be written. -/
theorem isRefusal_of_offence {error : ReadError} (h : Offence path e error) :
    error.isRefusal = true ∨
      ∃ n, e.1 = .integer n ∧ Number.Integer.text? n = none ∧ error = .unknownKey (.integer n) path := by
  cases h with
  | @unknown k v h =>
    cases k with
    | integer n =>
      cases hn : Number.Integer.text? n with
      | none => exact .inr ⟨n, rfl, hn, rfl⟩
      | some t => exact .inl (by rw [ReadError.isRefusal, Value.text?, hn]; rfl)
    | _ => exact .inl rfl
  | boolean h => exact .inl rfl
  | kind h _ => exact .inl rfl

theorem proper_of_ok {s : Settings} (h : ofEntries path entries = .ok s) : ∀ e ∈ items entries, Proper e := by
  by_contra hnot
  obtain ⟨before, e, after, hsplit, hbefore, he⟩ := exists_first_not_proper hnot
  obtain ⟨error, -, herror⟩ := ofEntries_of_not_proper path hsplit hbefore he
  rw [herror] at h
  cases h

/-- A mapping gives settings just if its entries are in order and its depth is not too small; they have the values
of the entries. Otherwise the error is about the first entry that is not in order, and about the depth only if
there is none. -/
theorem ofFile_of_mapping {entries : List (Value × Value)} (h : FileHolds disk path (.mapping entries))
    (hpercent : ∀ n, (.text Key.defaultPercent.name, .integer n) ∈ items entries →
      n.natAbs < Number.Double.tooLarge)
    (hdigits : ∀ e ∈ items entries, ∀ n, e.1 = .integer n ∨ e.2 = .integer n →
      n.natAbs < 10 ^ Number.Integer.digitLimit) :
    ((∃ s, ofFile disk path = .ok s) ↔ (∀ e ∈ items entries, Proper e) ∧
      ∀ n, (.text Key.maxIncludeDepth.name, .integer n) ∈ items entries → 1 ≤ n) ∧
    (∀ s, ofFile disk path = .ok s → Settles s (items entries)) ∧
    (∀ before e after, items entries = before ++ e :: after → (∀ x ∈ before, Proper x) → ¬Proper e →
      ∃ error text, ofFile disk path = .error error ∧ Offence path e error ∧ error.isRefusal = true ∧
        error.message? = some text) ∧
    ((∀ e ∈ items entries, Proper e) →
      (∃ n, (.text Key.maxIncludeDepth.name, .integer n) ∈ items entries ∧ n < 1) →
        ofFile disk path = .error (.depthTooSmall path)) := by
  rw [(ofFile_of_holds h).2 entries rfl]
  have hsettles : (∀ e ∈ items entries, Proper e) → ∃ s, Settles s (items entries) ∧
      ofEntries path entries = if s.maxIncludeDepth < 1 then .error (.depthTooSmall path) else .ok s := by
    intro hproper
    rcases ofEntries_of_proper path hproper with hs | ⟨n, hn, hlarge, -⟩ | ⟨-, n, hn, hlong, -⟩
    · exact hs
    · exact absurd ((Number.Double.ofInt?_eq_none_iff n).mp hlarge) (Nat.not_le.mpr (hpercent n hn))
    · exact absurd ((Number.Integer.text?_eq_none_iff n).mp hlong)
        (Nat.not_le.mpr (hdigits _ hn n (.inr rfl)))
  refine ⟨⟨?_, ?_⟩, ?_, ?_, ?_⟩
  · rintro ⟨s, hs⟩
    have hproper := proper_of_ok hs
    refine ⟨hproper, fun n hn => Int.not_lt.mp fun hlt => ?_⟩
    obtain ⟨t, ht, hrun⟩ := hsettles hproper
    rw [hrun, if_pos ((ht.shallow_iff hproper).mpr ⟨n, hn, hlt⟩)] at hs
    cases hs
  · rintro ⟨hproper, hdeep⟩
    obtain ⟨s, hs, hrun⟩ := hsettles hproper
    refine ⟨s, hrun.trans (if_neg fun hlt => ?_)⟩
    obtain ⟨n, hn, hn'⟩ := (hs.shallow_iff hproper).mp hlt
    exact absurd (hdeep n hn) (Int.not_le.mpr hn')
  · intro s hs
    obtain ⟨t, ht, hrun⟩ := hsettles (proper_of_ok hs)
    rw [hrun] at hs
    split at hs
    · cases hs
    · cases hs
      exact ht
  · intro before e after hsplit hbefore he
    obtain ⟨error, hoffence, herror⟩ := ofEntries_of_not_proper path hsplit hbefore he
    have hrefusal : error.isRefusal = true := by
      rcases isRefusal_of_offence hoffence with hr | ⟨n, hn, hlong, -⟩
      · exact hr
      · have hmem : e ∈ items entries := hsplit ▸ List.mem_append_right _ List.mem_cons_self
        exact absurd ((Number.Integer.text?_eq_none_iff n).mp hlong)
          (Nat.not_le.mpr (hdigits e hmem n (.inl hn)))
    obtain ⟨text, htext⟩ := message?_of_isRefusal hrefusal
    exact ⟨error, text, herror, hoffence, hrefusal, htext⟩
  · intro hproper hshallow
    obtain ⟨s, hs, hrun⟩ := hsettles hproper
    rw [hrun, if_pos ((hs.shallow_iff hproper).mpr hshallow)]

/-- A percentage without a point and a switch. -/
def sampleText : String := "default_percent: 25\ncsv_recycle: no\n"

def sampleDisk : Storage.Disk := ⟨[(["s"], .file (Text.Utf8.encode sampleText))], []⟩

def sampleEntries : List (Value × Value) :=
  [(.text Key.defaultPercent.name, .integer 25), (.text Key.recycle.name, .boolean false)]

/-- The pieces of the text. -/
def sampleTokens : List Yaml.Token :=
  [.blockMapping, .key, .scalar "default_percent" true, .value, .scalar "25" true,
    .key, .scalar "csv_recycle" true, .value, .scalar "no" true, .blockEnd]

/-- The nodes made from them; the root comes first. -/
def sampleGraph : Yaml.Graph :=
  #[.mapping .mapping [(1, 2), (3, 4)], .scalar .text "default_percent", .scalar .integer "25",
    .scalar .text "csv_recycle", .scalar .boolean "no"]

theorem fileHolds_sample : FileHolds sampleDisk "s" (.mapping sampleEntries) := by
  have hpath : Storage.Path.ofString "s" = ⟨"", ["s"]⟩ := rfl
  have hread : sampleDisk.read (.ofString "s") = .ok (Text.Utf8.encode sampleText) := by
    rw [hpath, Storage.Disk.read, Storage.Disk.find_of_file (by decide) (by decide) rfl]
  have hlines : Text.unifyLineEnds sampleText.toList = sampleText.toList := by decide +kernel
  have htokens : Yaml.Token.ofText sampleText.toList = sampleTokens := by decide +kernel
  have hgraph : Yaml.Graph.ofText sampleText.toList = .ok (sampleGraph, some 0) := by
    rw [Yaml.Graph.ofText, htokens]
    rfl
  have hcontent : (Yaml.Valuing.contentOf sampleGraph 0).run' ⟨[], []⟩ = .ok (.mapping sampleEntries) := rfl
  refine ⟨_, _, hread, Text.Utf8.decode?_encode sampleText, ?_⟩
  rw [hlines, Content.ofText, hgraph]
  exact hcontent

/-- The percentage becomes a double and the ramp time stays the standard one. -/
theorem ofFile_of_mapping_sample :
    ∃ s, ofFile sampleDisk "s" = .ok s ∧ Number.Double.ofInt? 25 = some s.defaultPercent ∧ s.recycle = false ∧
      s.rampTime = standard.rampTime := by
  have hitems : items sampleEntries = sampleEntries := by decide
  have hsmall : ∀ e ∈ sampleEntries, ∀ n, e.1 = .integer n ∨ e.2 = .integer n → n.natAbs < 10 ^ 2 := by
    simp [sampleEntries]
  have hlimit : 10 ^ 2 < Number.Double.tooLarge := by
    have hpos : 0 < 2 ^ 970 := by positivity
    unfold Number.Double.tooLarge
    omega
  have hproper : ∀ e ∈ sampleEntries, Proper e := by
    simp only [sampleEntries, List.forall_mem_cons]
    exact ⟨⟨.defaultPercent, rfl, .wholePercent 25⟩, ⟨.recycle, rfl, .recycle false⟩, nofun⟩
  have hread := ofFile_of_mapping fileHolds_sample
  rw [hitems] at hread
  obtain ⟨hok, hsettles, -⟩ := hread (fun n hn => (hsmall _ hn n (.inr rfl)).trans hlimit)
    (fun e he n hn => (hsmall e he n hn).trans_le (Nat.pow_le_pow_right (by decide) (by decide)))
  obtain ⟨s, hs⟩ := hok.mpr ⟨hproper, by simp [sampleEntries, Key.name]⟩
  obtain ⟨hgiven, hkept⟩ := hsettles s hs
  have hpercent : (Number.Double.ofInt? 25).map Value.float = some (.float s.defaultPercent) :=
    hgiven .defaultPercent _ List.mem_cons_self
  have hrecycle : some (Value.boolean false) = some (.boolean s.recycle) :=
    hgiven .recycle _ (List.mem_cons_of_mem _ List.mem_cons_self)
  have hramp : Value.integer s.rampTime = .integer standard.rampTime :=
    hkept .rampTime (by simp [sampleEntries, Key.name])
  refine ⟨s, hs, ?_, ?_, Value.integer.inj hramp⟩
  · obtain ⟨x, hx, hxs⟩ := Option.map_eq_some_iff.mp hpercent
    rw [hx, Value.float.inj hxs]
  · exact (Value.boolean.inj (Option.some.inj hrecycle)).symm

/-- Integers in a mapping that end the reading of settings otherwise than by a refusal: a key that cannot be
written, in an entry that is the first out of order, or else a percentage without a double, or else a version
that cannot be written. -/
inductive Escape (path : String) (items : List (Value × Value)) : ReadError → Prop
  | key {before after : List (Value × Value)} {n : Int} {v : Value}
      (split : items = before ++ (.integer n, v) :: after) (proper : ∀ x ∈ before, Proper x)
      (long : 10 ^ Number.Integer.digitLimit ≤ n.natAbs) : Escape path items (.unknownKey (.integer n) path)
  | percent {n : Int} (proper : ∀ e ∈ items, Proper e)
      (mem : (.text Key.defaultPercent.name, .integer n) ∈ items) (large : Number.Double.tooLarge ≤ n.natAbs) :
      Escape path items .percentTooLarge
  | version {n : Int} (proper : ∀ e ∈ items, Proper e)
      (fits : ∀ m, (.text Key.defaultPercent.name, .integer m) ∈ items → m.natAbs < Number.Double.tooLarge)
      (mem : (.text Key.version.name, .integer n) ∈ items)
      (long : 10 ^ Number.Integer.digitLimit ≤ n.natAbs) : Escape path items .versionTooLong

theorem ofEntries_of_escape {error : ReadError} (h : Escape path (items entries) error) :
    ofEntries path entries = .error error := by
  cases h with
  | @key before after n v split proper long =>
    have hnot : ¬Proper (.integer n, v) := by
      rintro ⟨key, hkey, -⟩
      cases hkey
    obtain ⟨error, hoffence, herror⟩ := ofEntries_of_not_proper path split proper hnot
    cases hoffence
    exact herror
  | @percent n proper mem large =>
    have hnone := (Number.Double.ofInt?_eq_none_iff n).mpr large
    rcases ofEntries_of_proper path proper with ⟨s, hs, -⟩ | ⟨-, -, -, hrun⟩ | ⟨hfits, -⟩
    · have hgiven := hs.given _ _ mem
      rw [Key.converted?, hnone] at hgiven
      cases hgiven
    · exact hrun
    · exact absurd hnone (hfits n mem)
  | @version n proper fits mem long =>
    have hnone := (Number.Integer.text?_eq_none_iff n).mpr long
    rcases ofEntries_of_proper path proper with ⟨s, hs, -⟩ | ⟨m, hm, hlarge, -⟩ | ⟨-, -, -, -, hrun⟩
    · have hgiven := hs.given _ _ mem
      rw [Key.converted?, hnone] at hgiven
      cases hgiven
    · exact absurd ((Number.Double.ofInt?_eq_none_iff m).mp hlarge) (Nat.not_le.mpr (fits m hm))
    · exact hrun

theorem escape_of_ofEntries {error : ReadError} (h : ofEntries path entries = .error error)
    (hnot : error.isRefusal = false) : Escape path (items entries) error := by
  by_cases hproper : ∀ e ∈ items entries, Proper e
  · rcases ofEntries_of_proper path hproper with ⟨s, -, hrun⟩ | ⟨n, hn, hlarge, hrun⟩ |
      ⟨hfits, n, hn, hlong, hrun⟩ <;> rw [hrun] at h
    · split at h
      · cases h
        cases hnot
      · cases h
    · cases h
      exact .percent hproper hn ((Number.Double.ofInt?_eq_none_iff n).mp hlarge)
    · cases h
      refine .version hproper (fun m hm => ?_) hn ((Number.Integer.text?_eq_none_iff n).mp hlong)
      exact Nat.not_le.mp fun hlarge => hfits m hm ((Number.Double.ofInt?_eq_none_iff m).mpr hlarge)
  · obtain ⟨before, e, after, hsplit, hbefore, he⟩ := exists_first_not_proper hproper
    obtain ⟨error', hoffence, herror⟩ := ofEntries_of_not_proper path hsplit hbefore he
    cases h.symm.trans herror
    rcases isRefusal_of_offence hoffence with hr | ⟨n, hn, hlong, rfl⟩
    · exact absurd (hr.symm.trans hnot) (by decide)
    · obtain ⟨k, v⟩ := e
      cases hn
      exact .key hsplit hbefore ((Number.Integer.text?_eq_none_iff n).mp hlong)

/-- Reading a file whose text has a content ends in settings or in a refusal, but for such integers. -/
theorem escapes_iff (disk : Storage.Disk) (path : String) (error : ReadError) :
    ((∃ content, FileHolds disk path content) ∧ ofFile disk path = .error error ∧ error.isRefusal = false) ↔
      ∃ entries, FileHolds disk path (.mapping entries) ∧ Escape path (items entries) error := by
  constructor
  · rintro ⟨⟨content, hholds⟩, hfile, hnot⟩
    obtain ⟨hvalue, hmapping⟩ := ofFile_of_holds hholds
    cases content with
    | value v =>
      rw [hvalue v rfl] at hfile
      split at hfile <;> cases hfile
      cases hnot
    | mapping entries =>
      rw [hmapping entries rfl] at hfile
      exact ⟨entries, hholds, escape_of_ofEntries hfile hnot⟩
  · rintro ⟨entries, hholds, hescape⟩
    have hfile := ((ofFile_of_holds hholds).2 entries rfl).trans (ofEntries_of_escape hescape)
    refine ⟨⟨_, hholds⟩, hfile, ?_⟩
    cases hescape with
    | key _ _ long =>
      have hnone := (Number.Integer.text?_eq_none_iff _).mpr long
      rw [ReadError.isRefusal, Value.text?, hnone]
      rfl
    | percent => rfl
    | version => rfl

end Settings
end LoadPlan
