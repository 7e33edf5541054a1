import Mathlib
import LoadPlan.Proofs.Inclusion.Moments

/-! Every collection comes to its end, with what reading gives, and the chain of open documents is short, free
of repetitions and always restored. -/
namespace LoadPlan.Scenario

open LoadPlan.Description (Node)

variable (disk : Storage.Disk) (settings : Settings) (main : Node)

/-- One moment comes some time after another. -/
def Leads (m m' : Moment) : Prop :=
  ∃ k, (step disk settings main)^[k] m = m'

variable {disk settings main}

namespace Leads

variable {m m' m'' : Moment}

theorem refl (m : Moment) : Leads disk settings main m m :=
  ⟨0, rfl⟩

theorem trans (h : Leads disk settings main m m') (h' : Leads disk settings main m' m'') :
    Leads disk settings main m m'' := by
  obtain ⟨k, rfl⟩ := h
  obtain ⟨j, rfl⟩ := h'
  exact ⟨j + k, Function.iterate_add_apply _ j k m⟩

theorem head (h : Leads disk settings main (step disk settings main m) m') :
    Leads disk settings main m m' :=
  trans ⟨1, rfl⟩ h

end Leads

variable {chain : List Storage.Path}

/-- A script to which nothing more comes, after it has brought in some parts. -/
def Script.filled (s : Script) (parts : Parts) : Script :=
  ⟨[], (s.taken.1 ++ parts.1, s.taken.2 ++ parts.2), s.next, s.chain⟩

/-- Reading of a document goes to its end while the chain is the same. -/
def ReadsOn (disk : Storage.Disk) (settings : Settings) (main : Node) (chain : List Storage.Path) : Prop :=
  ∀ (files : List Storage.Location) (waiting : List Script) (course : Course Scenario),
    Leads disk settings main ⟨chain, files, waiting, .document course⟩
      ⟨chain, files, waiting, .document (.done (course.read (spliced disk settings chain)).1
        (course.read (spliced disk settings chain)).2)⟩

theorem contents_eq_read (chain : List Storage.Path) (root : Node) (log : Log) :
    (contents disk settings chain root).run log =
      (Stepwise.elements disk settings root.children log).read (spliced disk settings chain) := by
  rw [contents_eq, (elements_paced disk settings root.children).read]
  rfl

theorem Script.filled_take (s : Script) (rest : List Node) (t : Scenario) (parts : Parts) :
    ((s.pass rest).take t).filled parts = s.filled (t.stack ++ parts.1, t.dataSets ++ parts.2) := by
  simp only [Script.filled, Script.take, Script.pass, List.append_assoc]

theorem Script.take_empty (s : Script) : s.take empty = s := by
  simp only [Script.take, empty, List.append_nil]

variable (disk settings) in
/-- What one element of a script brings in. -/
def brought (chain : List Storage.Path) (n : Node) : Reading Scenario :=
  if n.name = "file" then splice disk settings chain (contents disk settings) n else pure empty

/-- What the elements of a script bring in, one after another. -/
theorem run_spliceAll_cons (n : Node) (ns : List Node) (log : Log) :
    let here := (brought disk settings chain n).run log
    let after := (spliceAll disk settings chain (contents disk settings) ns).run here.2
    (spliceAll disk settings chain (contents disk settings) (n :: ns)).run log =
      ((here.1.stack ++ after.1.1, here.1.dataSets ++ after.1.2), after.2) := by
  rw [spliceAll, brought]
  split
  · rfl
  · rfl

section

variable (hin : ∀ n place root, opened disk settings chain n = .ok (place, root) →
  ReadsOn disk settings main (chain ++ [place]))
include hin

/-- A script goes on with what its next element brings in. -/
theorem leads_child {n : Node} {rest : List Node} {s : Script} (hs : s.rest = n :: rest)
    (files : List Storage.Location) (waiting : List Script) (log : Log) :
    let r := (brought disk settings chain n).run log
    Leads disk settings main ⟨chain, files, waiting, .script s log⟩
      ⟨chain, files, waiting, .script ((s.pass rest).take r.1) r.2⟩ := by
  unfold brought
  apply Leads.head
  simp only [step, hs]
  by_cases hn : n.name = "file"
  · simp only [if_pos hn, splice_eq]
    cases ho : opened disk settings chain n with
    | error p =>
      change Leads _ _ _ _ ⟨chain, files, waiting, .script ((s.pass rest).take empty) (log.report p n)⟩
      rw [Script.take_empty]
      exact .refl _
    | ok o =>
      obtain ⟨place, root⟩ := o
      obtain ⟨file, hfile, -⟩ := named_of_opened ho
      simp only [contents_eq_read]
      rw [hfile]
      refine (hin n place root ho _ _ _).trans ?_
      apply Leads.head
      simp only [step, Option.toList_some, List.dropLast_concat]
      exact .refl _
  · simp only [if_neg hn]
    change Leads _ _ _ _ ⟨chain, files, waiting, .script ((s.pass rest).take empty) log⟩
    rw [Script.take_empty]
    exact .refl _

/-- A script brings in what its documents hold, if these can be read. -/
theorem leads_script (ns : List Node) (s : Script) (hs : s.rest = ns) (files : List Storage.Location)
    (waiting : List Script) (log : Log) :
    let r := (spliceAll disk settings chain (contents disk settings) ns).run log
    Leads disk settings main ⟨chain, files, waiting, .script s log⟩
      ⟨chain, files, waiting, .script (s.filled r.1) r.2⟩ := by
  induction ns generalizing s log with
  | nil =>
    have hfilled : s.filled ([], []) = s := by
      obtain ⟨rest, taken, next, chain⟩ := s
      have hs : rest = [] := hs
      simp only [Script.filled, List.append_nil, hs]
    change Leads disk settings main _ ⟨chain, files, waiting, .script (s.filled ([], [])) log⟩
    rw [hfilled]
    exact .refl _
  | cons n ns ih =>
    simp only [run_spliceAll_cons]
    rw [← Script.filled_take]
    exact (leads_child hin hs files waiting log).trans (ih _ rfl _)

end

theorem readsOn (disk : Storage.Disk) (settings : Settings) (main : Node) (chain : List Storage.Path) :
    ReadsOn disk settings main chain := by
  generalize hd : depthLeft settings chain = depth
  -- Documents that are opened leave less depth, and in one document less of its course is to come.
  induction depth using Nat.strongRecOn generalizing chain with
  | ind depth ih =>
    intro files waiting course
    induction course with
    | done s log => exact .refl _
    | script n log next hnext =>
      have hin : ∀ m place root, opened disk settings chain m = .ok (place, root) →
          ReadsOn disk settings main (chain ++ [place]) := by
        intro m place root ho
        have hless := depthLeft_of_opened ho
        exact ih _ (by omega) _ rfl
      apply Leads.head
      refine (leads_script hin n.children ⟨n.children, ([], []), next, chain⟩ rfl files waiting log).trans ?_
      apply Leads.head
      exact hnext _ _

theorem ofDescription_eq (disk : Storage.Disk) (settings : Settings) (main : Node) :
    ofDescription disk settings main = contents disk settings (headChain disk main) main :=
  rfl

/-- A collection ends after some moments, with what reading gives. -/
theorem exists_returned (disk : Storage.Disk) (settings : Settings) (main : Node) (log : Log) :
    ∃ k, moment disk settings main log k =
      ⟨[], [], [], .returned ((ofDescription disk settings main).run log).1
        ((ofDescription disk settings main).run log).2⟩ := by
  have hread : Leads disk settings main ⟨[], [], [], .called main log⟩
      ⟨headChain disk main, headFiles disk main, [], .document (.done
        ((ofDescription disk settings main).run log).1 ((ofDescription disk settings main).run log).2)⟩ := by
    rw [ofDescription_eq, contents_eq_read]
    apply Leads.head
    simp only [step, List.nil_append, begun]
    exact readsOn disk settings main (headChain disk main) _ _ _
  obtain ⟨k, hk⟩ := hread.trans ⟨1, rfl⟩
  have hsound := sound_moment disk settings main log k
  refine ⟨k, ?_⟩
  unfold moment at hsound ⊢
  rw [hk] at hsound ⊢
  obtain ⟨hchain, -⟩ := hsound
  simp only [Function.iterate_one, step] at hchain ⊢
  rw [hchain]

theorem Nested.nodup {files : List Storage.Location} {waiting : List Script}
    (h : Nested disk settings main chain files waiting) : chain.Nodup := by
  induction h with
  | head =>
    unfold headChain
    split
    · exact List.nodup_singleton _
    · exact List.nodup_nil
  | inner _ hnew _ ih =>
    refine List.nodup_append.mpr ⟨ih, List.nodup_singleton _, ?_⟩
    intro place hplace new hmem
    rw [List.mem_singleton.mp hmem]
    exact fun heq => hnew (heq ▸ hplace)

theorem length_headChain (disk : Storage.Disk) (main : Node) :
    (headChain disk main).length = if Node.isFileSource main.source then 1 else 0 := by
  unfold headChain
  split
  · rfl
  · rfl

theorem length_headChain_le (disk : Storage.Disk) (main : Node) : (headChain disk main).length ≤ 1 := by
  rw [length_headChain]
  split
  · exact Nat.le_refl 1
  · exact Nat.zero_le 1

theorem Nested.length_le {files : List Storage.Location} {waiting : List Script}
    (h : Nested disk settings main chain files waiting) (hd : 0 ≤ settings.maxIncludeDepth) :
    (chain.length : Int) ≤ settings.maxIncludeDepth + 1 := by
  cases h with
  | head =>
    have := length_headChain_le disk main
    omega
  | inner _ _ hl =>
    rw [List.length_append, List.length_singleton]
    omega

theorem sound_chain (hd : 0 ≤ settings.maxIncludeDepth) {m : Moment} (h : m.Sound disk settings main) :
    m.chain.Nodup ∧ (m.chain.length : Int) ≤ settings.maxIncludeDepth + 1 := by
  have hempty : m.chain = [] →
      m.chain.Nodup ∧ (m.chain.length : Int) ≤ settings.maxIncludeDepth + 1 := by
    intro he
    rw [he]
    exact ⟨List.nodup_nil, by rw [List.length_nil]; omega⟩
  obtain ⟨chain, files, waiting, now⟩ := m
  cases now with
  | called => exact hempty h.2.1
  | document =>
    have h : Nested disk settings main chain files waiting := h
    exact ⟨h.nodup, h.length_le hd⟩
  | script => exact ⟨h.2.nodup, h.2.length_le hd⟩
  | returned => exact hempty h.1

variable (disk settings main) in
/-- A script that was begun comes to its end, and the document goes on with the chain as it was. -/
theorem leads_resumed (chain : List Storage.Path) (files : List Storage.Location) (waiting : List Script)
    (s : Script) (log : Log) :
    ∃ parts later, Leads disk settings main ⟨chain, files, waiting, .script s log⟩
      ⟨chain, files, waiting, .document (s.next parts later)⟩ := by
  have hin : ∀ n place root, opened disk settings chain n = .ok (place, root) →
      ReadsOn disk settings main (chain ++ [place]) :=
    fun _ _ _ _ => readsOn disk settings main _
  have hscript := leads_script hin s.rest s rfl files waiting log
  exact ⟨_, _, hscript.trans ⟨1, rfl⟩⟩

theorem exists_resumed {log now : Log} {k : Nat} {s : Script}
    (h : (moment disk settings main log k).now = .script s now) :
    ∃ j parts later, moment disk settings main log (k + j) =
      { moment disk settings main log k with now := .document (s.next parts later) } := by
  unfold moment at h ⊢
  generalize hm : (step disk settings main)^[k] ⟨[], [], [], .called main log⟩ = m at h ⊢
  obtain ⟨chain, files, waiting, activity⟩ := m
  have h : activity = .script s now := h
  subst h
  obtain ⟨parts, later, j, hj⟩ := leads_resumed disk settings main chain files waiting s now
  refine ⟨j, parts, later, ?_⟩
  rw [Nat.add_comm k j, Function.iterate_add_apply, hm]
  exact hj

/-- Whatever documents include one another, a collection ends, with what reading gives. The chain of
open documents never holds one twice and is never longer than the depth allows, counting the main
document. While a script is taken in, before and after each of its files, the chain is as it was when
the script was begun, and so it is when the document goes on. -/
theorem chain_of_collection (disk : Storage.Disk) {settings : Settings}
    (h : 1 ≤ settings.maxIncludeDepth) (main : Node) (log : Log) :
    let result := (ofDescription disk settings main).run log
    (∃ k, moment disk settings main log k = ⟨[], [], [], .returned result.1 result.2⟩) ∧
      ∀ k, let m := moment disk settings main log k
        m.chain.Nodup ∧ (m.chain.length : Int) ≤ settings.maxIncludeDepth + 1 ∧
          ∀ s now, m.now = .script s now → m.chain = s.chain ∧
            ∃ j parts later, moment disk settings main log (k + j) =
              { m with now := .document (s.next parts later) } := by
  refine ⟨exists_returned disk settings main log, fun k => ?_⟩
  have hsound := sound_moment disk settings main log k
  obtain ⟨hnodup, hlength⟩ := sound_chain (by omega) hsound
  refine ⟨hnodup, hlength, fun s now hs => ⟨?_, exists_resumed hs⟩⟩
  simp only [Moment.Sound, hs] at hsound
  exact hsound.1.symm

/-- Two documents that include one another. -/
def circle : Storage.Disk :=
  ⟨[(["a"], .file (Text.Utf8.encode "<s><script><file>b</file></script></s>")),
    (["b"], .file (Text.Utf8.encode "<s><script><file>a</file></script></s>"))], []⟩

def circleNode : Node :=
  ⟨"s", [⟨"script", [⟨"file", [], [], "b", 1, "a"⟩], [], "b", 1, "a"⟩], [], "b", 1, "a"⟩

def shallow : Settings := ⟨1, "continue", .zero, 1, ",", true, "5.0", {}⟩

theorem diagnostics_circle : ((ofDescription circle shallow circleNode).run .empty).2.diagnostics =
    [⟨.includeCircular "a", ⟨"/b", 1⟩⟩] := by
  cbv

theorem chain_of_collection_circle : 1 ≤ shallow.maxIncludeDepth ∧
    ∃ k s log, moment circle shallow circleNode .empty k = ⟨[], [], [], .returned s log⟩ ∧
      log.diagnostics = [⟨.includeCircular "a", ⟨"/b", 1⟩⟩] := by
  have h : (1 : Int) ≤ shallow.maxIncludeDepth := by decide
  obtain ⟨⟨k, hk⟩, -⟩ := chain_of_collection circle h circleNode .empty
  exact ⟨h, k, _, _, hk, diagnostics_circle⟩

end LoadPlan.Scenario
