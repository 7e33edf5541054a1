import LoadPlan.Proofs.Inclusion.Chain

/-! How deep documents are included. The length of the chain is what is limited, and a main document that
is no file has no place on it, so that below it documents may be one deeper. -/
namespace LoadPlan.Scenario

open LoadPlan.Description (Node)

/-- An element of a script is about to be taken in. -/
def Moment.Asks (m : Moment) (n : Node) (now : Log) : Prop :=
  ∃ s rest, m.now = .script s now ∧ s.rest = n :: rest ∧ n.name = "file"

/-- An element names a document that is there, can be read and is not open. -/
def Includable (disk : Storage.Disk) (chain : List Storage.Path) (n root : Node) : Prop :=
  ∃ path, found disk n = .ok (some path) ∧ includedDocument disk (disk.resolve path) = .ok root ∧
    disk.resolve path ∉ chain

variable {disk : Storage.Disk} {settings : Settings} {main : Node} {log : Log}

theorem includable_of_opened {chain : List Storage.Path} {n root : Node} {place : Storage.Path}
    (h : opened disk settings chain n = .ok (place, root)) : Includable disk chain n root := by
  obtain ⟨hi, hroot⟩ := opened_eq_ok_iff.mp h
  obtain ⟨⟨path, hpath, rfl⟩, hnew, -⟩ := included_eq_ok_iff.mp hi
  exact ⟨path, hpath, hroot, hnew⟩

theorem Turn.depth_le {m m' : Moment} (h : Turn disk settings main m m') :
    m'.depth ≤ m.depth ∨
      m'.depth = m.depth + 1 ∧ ∃ n now root, m.Asks n now ∧ Includable disk m.chain n root := by
  cases h with
  | leave => exact .inl (Nat.le_succ _)
  | finish => exact .inl (Nat.le_refl _)
  | enter _ _ _ s now hr hn ho =>
    exact .inr ⟨rfl, _, now, _, ⟨s, _, rfl, hr, hn⟩, includable_of_opened ho⟩
  | _ => exact .inl (Nat.le_refl _)

theorem Nested.length_eq {chain : List Storage.Path} {files : List Storage.Location}
    {waiting : List Script} (h : Nested disk settings main chain files waiting) :
    chain.length = (headChain disk main).length + waiting.length := by
  induction h with
  | head => rfl
  | inner _ _ _ ih => rw [List.length_append, ih, List.length_singleton, List.length_cons, Nat.add_assoc]

/-- The documents of a main document that is a file are no deeper than the depth allows. -/
theorem Moment.Sound.depth_le {m : Moment} (hd : 0 ≤ settings.maxIncludeDepth)
    (h : m.Sound disk settings main) :
    (m.depth : Int) + (headChain disk main).length ≤ settings.maxIncludeDepth + 1 := by
  have hhead := length_headChain_le disk main
  have hnested : Nested disk settings main m.chain m.files m.waiting →
      (m.depth : Int) + (headChain disk main).length ≤ settings.maxIncludeDepth + 1 := by
    intro hn
    have hlength := hn.length_eq
    have hle := hn.length_le hd
    unfold Moment.depth
    omega
  have hnone : m.waiting = [] →
      (m.depth : Int) + (headChain disk main).length ≤ settings.maxIncludeDepth + 1 := by
    intro hw
    rw [Moment.depth, hw, List.length_nil]
    omega
  obtain ⟨chain, files, waiting, now⟩ := m
  cases now with
  | called => exact hnone h.2.2.2
  | document => exact hnested h
  | script => exact hnested h.2
  | returned => exact hnone h.2

variable (disk settings main) in
/-- The step at an element that asks for a document. -/
theorem step_of_asks {m : Moment} {n : Node} {now : Log} (ha : m.Asks n now) :
    ∃ s rest, m.now = .script s now ∧ s.rest = n :: rest ∧ step disk settings main m =
      match opened disk settings m.chain n with
      | .error p => { m with now := .script (s.pass rest) (now.report p n) }
      | .ok (place, root) =>
        ⟨m.chain ++ [place], m.files ++ (named disk n).toList, s.pass rest :: m.waiting,
          begun disk settings root now⟩ := by
  obtain ⟨s, rest, hm, hs, hn⟩ := ha
  refine ⟨s, rest, hm, hs, ?_⟩
  cases ho : opened disk settings m.chain n with
  | error p => simp only [step, hm, hs, if_pos hn, ho]
  | ok o => simp only [step, hm, hs, if_pos hn, ho]

/-- A document that is asked for is read next, one deeper, unless too many are open. -/
theorem step_of_includable {m : Moment} {n root : Node} {now : Log} (ha : m.Asks n now)
    (hi : Includable disk m.chain n root) (hl : (m.chain.length : Int) ≤ settings.maxIncludeDepth) :
    (step disk settings main m).depth = m.depth + 1 ∧
      (step disk settings main m).now = begun disk settings root now := by
  obtain ⟨s, rest, -, -, hstep⟩ := step_of_asks disk settings main ha
  obtain ⟨path, hpath, hroot, hnew⟩ := hi
  have ho : opened disk settings m.chain n = .ok (disk.resolve path, root) :=
    opened_eq_ok_iff.mpr ⟨included_eq_ok_iff.mpr ⟨⟨path, hpath, rfl⟩, hnew, hl⟩, hroot⟩
  rw [ho] at hstep
  rw [hstep]
  exact ⟨rfl, rfl⟩

theorem nested_of_asks {m : Moment} {n : Node} {now : Log} (h : m.Sound disk settings main)
    (ha : m.Asks n now) : Nested disk settings main m.chain m.files m.waiting := by
  obtain ⟨s, rest, hm, -, -⟩ := ha
  simp only [Moment.Sound, hm] at h
  exact h.2

/-- No document is included deeper than the depth allows if the main document is a file. If it is not, one
can be, but only one deeper, and that is so just if a document at the greatest depth asks for one that is
there, can be read and is not open. Such documents are never refused at a smaller depth. -/
theorem depth_le_iff (disk : Storage.Disk) {settings : Settings} (h : 1 ≤ settings.maxIncludeDepth)
    (main : Node) (log : Log) :
    let moment := moment disk settings main log
    ((∀ k, ((moment k).depth : Int) ≤ settings.maxIncludeDepth) ↔
        Node.isFileSource main.source = true ∨ ∀ k n now root, (moment k).Asks n now →
          Includable disk (moment k).chain n root → ((moment k).depth : Int) ≠ settings.maxIncludeDepth) ∧
      (∀ k, ((moment k).depth : Int) ≤ settings.maxIncludeDepth + 1) ∧
      ∀ k n now root, (moment k).Asks n now → Includable disk (moment k).chain n root →
        ((moment k).depth : Int) + 1 ≤ settings.maxIncludeDepth →
          (moment (k + 1)).depth = (moment k).depth + 1 ∧
            (moment (k + 1)).now = begun disk settings root now := by
  intro moment
  have hsound : ∀ k, (moment k).Sound disk settings main := sound_moment disk settings main log
  have hturn : ∀ k, Turn disk settings main (moment k) (moment (k + 1)) := turn_moment log
  have hsucc : ∀ k, moment (k + 1) = step disk settings main (moment k) := moment_succ log
  have hlength : ∀ {k n now}, (moment k).Asks n now →
      (moment k).chain.length = (headChain disk main).length + (moment k).depth :=
    fun ha => (nested_of_asks (hsound _) ha).length_eq
  have hhead := length_headChain disk main
  refine ⟨⟨fun hall => ?_, ?_⟩, fun k => ?_, fun k n now root ha hi hk => ?_⟩
  · refine Decidable.or_iff_not_imp_left.mpr fun hmain k n now root ha hi heq => ?_
    rw [if_neg hmain] at hhead
    have hopen := hlength ha
    have hnext := hall (k + 1)
    rw [hsucc, (step_of_includable ha hi (by omega)).1] at hnext
    omega
  · rintro (hmain | hnone) k
    · rw [if_pos hmain] at hhead
      have := (hsound k).depth_le (by omega)
      omega
    · induction k with
      | zero =>
        have hzero : (moment 0).depth = 0 := rfl
        omega
      | succ k ih =>
        rcases (hturn k).depth_le with hle | ⟨heq, n, now, root, ha, hi⟩
        · omega
        · have := hnone k n now root ha hi
          omega
  · have := (hsound k).depth_le (by omega)
    omega
  · have hopen := hlength ha
    have hle := length_headChain_le disk main
    rw [hsucc]
    exact step_of_includable ha hi (by omega)

/-- The moment at which the first script of the main document is begun, if nothing is reported before. -/
theorem moment_two_of_script {n : Node} {next : Parts → Log → Course Scenario}
    (h : Stepwise.elements disk settings main.children log = .script n log next) :
    moment disk settings main log 2 = ⟨headChain disk main, headFiles disk main, [],
      .script ⟨n.children, ([], []), next, headChain disk main⟩ log⟩ := by
  rw [moment_succ, moment_succ]
  simp only [moment, Function.iterate_zero, id, step, begun, List.nil_append, h]

/-- A document that includes another one. -/
def ladder : Storage.Disk :=
  ⟨[(["i"], .file (Text.Utf8.encode "<s><script><file>j</file></script></s>")),
    (["j"], .file (Text.Utf8.encode "<s/>"))], []⟩

def lowerRung : Node :=
  ⟨"file", [], [], "i", 1, "<string>"⟩

/-- A description in memory that includes the first document. -/
def ladderNode : Node :=
  ⟨"s", [⟨"script", [lowerRung], [], "i", 1, "<string>"⟩], [], "i", 1, "<string>"⟩

def upperRung : Node :=
  ⟨"file", [], [], "j", 1, "/i"⟩

/-- What is read of the first document. -/
def landing : Node :=
  ⟨"s", [⟨"script", [upperRung], [], "j", 1, "/i"⟩], [], "j", 1, "/i"⟩

theorem found_lowerRung : found ladder lowerRung = .ok (some (.ofString "i")) := by
  have hmemory : Node.isFileSource lowerRung.source = false := by decide
  rw [found, Node.directory, hmemory]
  cbv

theorem opened_lowerRung : opened ladder shallow [] lowerRung = .ok (⟨"/", ["i"]⟩, landing) := by
  refine opened_eq_ok_iff.mpr ⟨included_eq_ok_iff.mpr ⟨⟨_, found_lowerRung, ?_⟩, List.not_mem_nil, ?_⟩, ?_⟩
  · cbv
  · decide
  · cbv

theorem includable_upperRung :
    Includable ladder [⟨"/", ["i"]⟩] upperRung ⟨"s", [], [], "", 1, "/j"⟩ := by
  have hplace : ladder.resolve ⟨"/", ["j"]⟩ = ⟨"/", ["j"]⟩ := by
    cbv
  refine ⟨⟨"/", ["j"]⟩, ?_, ?_, ?_⟩
  · cbv
  · cbv
  · rw [hplace]
    decide

theorem moment_ladder : ∃ files w next, moment ladder shallow ladderNode .empty 4 =
    ⟨[⟨"/", ["i"]⟩], files, [w], .script ⟨[upperRung], ([], []), next, [⟨"/", ["i"]⟩]⟩ .empty⟩ := by
  have hchain : headChain ladder ladderNode = [] := if_neg (by decide)
  have hfirst : ∃ next, Stepwise.elements ladder shallow ladderNode.children .empty =
      .script ⟨"script", [lowerRung], [], "i", 1, "<string>"⟩ .empty next := ⟨_, rfl⟩
  have hsecond : ∃ next, Stepwise.elements ladder shallow landing.children .empty =
      .script ⟨"script", [upperRung], [], "j", 1, "/i"⟩ .empty next := ⟨_, rfl⟩
  obtain ⟨next, hfirst⟩ := hfirst
  obtain ⟨inner, hsecond⟩ := hsecond
  have hthree : moment ladder shallow ladderNode .empty 3 =
      ⟨[⟨"/", ["i"]⟩], headFiles ladder ladderNode ++ (named ladder lowerRung).toList,
        [⟨[], ([], []), next, []⟩], begun ladder shallow landing .empty⟩ := by
    rw [moment_succ, moment_two_of_script hfirst, hchain, step]
    simp only [opened_lowerRung]
    rfl
  refine ⟨headFiles ladder ladderNode ++ (named ladder lowerRung).toList,
    ⟨[], ([], []), next, []⟩, inner, ?_⟩
  rw [moment_succ, hthree, begun, hsecond]
  rfl

/-- With a depth of one, a document at the depth of two is read. -/
theorem depth_le_iff_ladder : 1 ≤ shallow.maxIncludeDepth ∧
    ¬∀ k, ((moment ladder shallow ladderNode .empty k).depth : Int) ≤ shallow.maxIncludeDepth := by
  have h : (1 : Int) ≤ shallow.maxIncludeDepth := by decide
  refine ⟨h, fun hall => ?_⟩
  have hnone := ((depth_le_iff ladder h ladderNode .empty).1.mp hall).resolve_left (by decide)
  obtain ⟨files, w, next, hm⟩ := moment_ladder
  have hfour := hnone 4 upperRung .empty ⟨"s", [], [], "", 1, "/j"⟩
  rw [hm] at hfour
  exact hfour ⟨_, [], rfl, rfl, rfl⟩ includable_upperRung rfl

end LoadPlan.Scenario
