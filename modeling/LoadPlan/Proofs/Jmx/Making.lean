import LoadPlan.Build
import LoadPlan.Proofs.Jmx.Layout

/-! Making fragments gives the elements of the layout of the records, counts its components and ends with the first
fault. -/
namespace LoadPlan.Number.Integer

theorem eq_text_of_text? {n : Int} {s : String} (h : text? n = some s) : s = text n := by
  unfold text? at h
  split at h
  · exact (Option.some.inj h).symm
  · cases h

end LoadPlan.Number.Integer

namespace LoadPlan.Jmx

open LoadPlan.Markup (Element)
open LoadPlan.Scenario
open Block (elementsOf elementsOf_append componentsOf components componentsOf_append componentsOf_flatMap)

/-- The elements of blocks are made and their components counted, unless there is a fault. -/
def Makes (m : Generating Fragment) (p : Progress) (fs : List Fault) (bs : List Block)
    (ds : List Diagnostic) : Prop :=
  Gives m p fs (elementsOf bs) (p.after (componentsOf bs) ds)

/-- The same of a fragment that is left out if there are no blocks. -/
def MakesSome (m : Generating (Option Fragment)) (p : Progress) (fs : List Fault) (bs : List Block) : Prop :=
  Gives m p fs (if bs.isEmpty then none else some (elementsOf bs)) (p.after (componentsOf bs) [])

/-- The elements of blocks are put to those that are there, in a way of its own. -/
def Puts (put : Fragment → Fragment → Fragment) (m : Fragment → Generating Fragment) (p : Progress)
    (fs : List Fault) (bs : List Block) (ds : List Diagnostic) : Prop :=
  ∀ f, Gives (m f) p fs (put f (elementsOf bs)) (p.after (componentsOf bs) ds)

/-- To put fragments one after the other is to put them together. -/
structure Joins (put : Fragment → Fragment → Fragment) : Prop where
  nil (f : Fragment) : put f [] = f
  append (f a b : Fragment) : put (put f a) b = put f (a ++ b)

theorem joins_append : Joins (· ++ ·) where
  nil := List.append_nil
  append := List.append_assoc

theorem joins_fill : Joins Fragment.fill where
  nil := Fragment.fill_nil
  append := Fragment.fill_fill

variable {p : Progress} {fs gs : List Fault} {a b : List Block} {ds es : List Diagnostic}
  {put : Fragment → Fragment → Fragment}

namespace Makes

theorem nothing (p : Progress) : Makes (pure []) p [] [] [] := by
  have h := Gives.pure ([] : Fragment) p
  unfold Makes
  rwa [componentsOf, Progress.after_nil]

end Makes

namespace MakesSome

theorem nothing (p : Progress) : MakesSome (pure none) p [] [] := by
  have h := Gives.pure (none : Option Fragment) p
  unfold MakesSome
  rwa [componentsOf, Progress.after_nil]

/-- Blocks that are always there. -/
theorem of_makes {m : Generating Fragment} (h : Makes m p fs a []) (ha : a ≠ []) :
    MakesSome (do return some (← m)) p fs a := by
  unfold MakesSome
  rw [if_neg (by simpa using ha)]
  exact Gives.finish h (Gives.pure _ _)

theorem getD {m : Generating (Option Fragment)} (h : MakesSome m p fs a) :
    Makes (do return (← m).getD []) p fs a [] := by
  have hf : (if a.isEmpty then none else some (elementsOf a)).getD [] = elementsOf a := by
    split
    · next he => rw [List.isEmpty_iff.mp he, elementsOf, Option.getD_none]
    · rw [Option.getD_some]
  unfold Makes
  rw [← hf]
  exact Gives.finish h (Gives.pure _ _)

end MakesSome

namespace Puts

theorem nothing (hput : Joins put) (p : Progress) : Puts put pure p [] [] [] := by
  intro f
  rw [elementsOf, hput.nil, componentsOf, Progress.after_nil]
  exact Gives.pure f p

theorem next {m m' : Fragment → Generating Fragment} (hput : Joins put) (hm : Puts put m p fs a ds)
    (hm' : Puts put m' (p.after (componentsOf a) ds) gs b es) :
    Puts put (fun f => m f >>= m') p (fs ++ gs) (a ++ b) (ds ++ es) := by
  intro f
  have h := (hm f).bind (hm' _)
  rwa [hput.append, ← elementsOf_append, Progress.after_after, ← componentsOf_append] at h

/-- A fragment is made, and then put to what is there. -/
theorem of_makes {m : Generating Fragment} (hm : Makes m p fs a ds) :
    Puts put (fun f => do let more ← m; return put f more) p fs a ds :=
  fun _ => Gives.finish hm (Gives.pure _ _)

end Puts

/-- What may come to nothing is put to what is there as far as there is something. -/
theorem MakesSome.bind_puts {m : Generating (Option Fragment)} {m' : Fragment → Generating Fragment}
    {f : Fragment} {k : Option Fragment → Generating Fragment} (hput : Joins put) (hm : MakesSome m p fs a)
    (hm' : Puts put m' (p.after (componentsOf a) []) gs b es) (hnone : k none = m' f)
    (hsome : ∀ more, k (some more) = m' (put f more)) :
    Gives (m >>= k) p (fs ++ gs) (put f (elementsOf (a ++ b))) (p.after (componentsOf (a ++ b)) es) := by
  have hk : Gives (k (if a.isEmpty then none else some (elementsOf a))) (p.after (componentsOf a) []) gs
      (put f (elementsOf (a ++ b))) ((p.after (componentsOf a) []).after (componentsOf b) es) := by
    split
    · next ha =>
      rw [List.isEmpty_iff.mp ha, List.nil_append, hnone]
      exact List.isEmpty_iff.mp ha ▸ hm' f
    · rw [hsome, elementsOf_append, ← hput.append]
      exact hm' _
  have h := Gives.bind hm hk
  rwa [Progress.after_after, ← componentsOf_append, List.nil_append] at h

/-- Something is counted, other than a thread group. -/
theorem tally_gives {f : Counts → Counts} {es : List Element} (hf : ∀ c, f c = c.plus es)
    (he : es.countP (·.tag == "ThreadGroup") = 0) (p : Progress) :
    Gives (tally f) p [] () (p.after es []) := by
  have hp : { p with counts := f p.counts } = p.after es [] := by
    simp only [Progress.after, hf, he, Nat.add_zero, List.append_nil]
  rw [← hp]
  rfl

/-- Problems are reported. -/
theorem report_gives (ds : List Diagnostic) (p : Progress) :
    Gives (modify fun p => { p with diagnostics := p.diagnostics ++ ds }) p [] ()
      (p.after [] ds) := by
  have hp : { p with diagnostics := p.diagnostics ++ ds } = p.after [] ds := by
    simp [Progress.after, Counts.plus]
  rw [← hp]
  rfl

namespace Workshop

theorem timerFragment_makes (t : Timer) (p : Progress) :
    Makes (timerFragment t) p [] [Layout.ofTimer t] [] := by
  have ht : Gives (tally fun c => { c with timers := c.timers + 1 }) p [] () (p.after [timer t] []) :=
    tally_gives (by simp [Counts.plus, timer, component]) (by simp [timer, component]) p
  exact ht.next (Gives.pure _ _)

theorem extractorFragment_makes (e : Extractor) (p : Progress) :
    Makes (extractorFragment e) p [] [Layout.ofExtractor e] [] := by
  have he : Gives (tally fun c => { c with extractors := c.extractors + 1 }) p [] ()
      (p.after [extractor e] []) :=
    tally_gives (by simp [Counts.plus, extractor, component]) (by simp [extractor, component]) p
  exact he.next (Gives.pure _ _)

theorem assertionFragment?_makes (x : Assertion) (p : Progress) :
    MakesSome (assertionFragment? x) p [] (Layout.ofAssertion? x).toList := by
  unfold assertionFragment? Layout.ofAssertion?
  split
  · exact MakesSome.nothing p
  · have ht : Gives (tally fun c => { c with assertions := c.assertions + 1 }) p [] ()
        (p.after [assertion x] []) :=
      tally_gives (by simp [Counts.plus, assertion, component]) (by simp [assertion, component]) p
    exact ht.next (Gives.pure _ _)

theorem collectorElement_gives (gui name filename : String) (p : Progress) :
    Gives (collectorElement gui name filename) p [] (collector gui name filename)
      (p.after [collector gui name filename] []) :=
  (tally_gives (by simp [Counts.plus, collector, component]) (by simp [collector, component]) p).next
    (Gives.pure _ _)

theorem resultsFragment_makes (r : Results) (p : Progress) :
    Makes (resultsFragment r) p [] [Layout.ofResults r] [] :=
  (collectorElement_gives _ _ _ p).next (Gives.pure _ _)

theorem assertionResultsFragment_makes (gui filename : String) (p : Progress) :
    Makes (assertionResultsFragment gui filename) p [] [Layout.ofCollector gui "Assertion Results" filename] [] :=
  (collectorElement_gives _ _ _ p).next (Gives.pure _ _)

/-- Fragments for one record after the other. -/
theorem putAll_puts {α : Type} {make : α → Generating Fragment} {g : α → List Block} (hput : Joins put)
    (h : ∀ x p, Makes (make x) p [] (g x) []) (xs : List α) (p : Progress) :
    Puts put (fun f => putAll put make f xs) p [] (xs.flatMap g) [] := by
  induction xs generalizing p with
  | nil => exact Puts.nothing hput p
  | cons x xs ih =>
    intro f
    have hx := Puts.next hput (Puts.of_makes (h x p)) (ih (p.after (componentsOf (g x)) [])) f
    simp only [bind_assoc, pure_bind] at hx
    exact hx

/-- The same for records that make one block each. -/
theorem putAll_puts_map {α : Type} {make : α → Generating Fragment} {g : α → Block} (hput : Joins put)
    (h : ∀ x p, Makes (make x) p [] [g x] []) (xs : List α) (p : Progress) :
    Puts put (fun f => putAll put make f xs) p [] (xs.map g) [] := by
  rw [List.map_eq_flatMap]
  exact putAll_puts hput h xs p

theorem extendAssertions_puts (as : List Assertion) (p : Progress) :
    Puts (· ++ ·) (fun f => extendAssertions f as) p [] (as.filterMap Layout.ofAssertion?) [] := by
  rw [List.filterMap_eq_flatMap_toList]
  induction as generalizing p with
  | nil => exact Puts.nothing joins_append p
  | cons x xs ih =>
    intro f
    exact (assertionFragment?_makes x p).bind_puts joins_append (ih _) rfl fun _ => rfl

/-- The parts of a request are made in another order than they stand in. -/
theorem components_request_perm (r : Request) :
    (sampler r :: (componentsOf (r.timers.map Layout.ofTimer) ++
      componentsOf (r.extractors.map Layout.ofExtractor) ++
        componentsOf (r.assertions.filterMap Layout.ofAssertion?) ++
          componentsOf (r.results.toList.map Layout.ofResults))).Perm
      (componentsOf [⟨sampler r, Layout.parts r⟩]) := by
  rw [componentsOf, components, componentsOf, List.append_nil, Layout.parts]
  simp only [componentsOf_append]
  apply List.Perm.cons
  exact (List.perm_append_comm.append_right _).append_right _

theorem samplerElement_gives (r : Request) (p : Progress) :
    Gives (samplerElement r) p [] (sampler r) (p.after [sampler r] []) :=
  (tally_gives (by simp [Counts.plus, sampler, component]) (by simp [sampler, component]) p).next
    (Gives.pure _ _)

theorem requestFragment_makes (r : Request) (p : Progress) :
    Makes (requestFragment r) p [] (Layout.ofRequest r) [] := by
  have htimers := putAll_puts_map joins_append timerFragment_makes r.timers (p.after [sampler r] []) []
  rw [List.nil_append] at htimers
  unfold requestFragment Layout.ofRequest
  refine (samplerElement_gives r p).next ?_
  refine htimers.next ?_
  cases r.hasParts with
  | false =>
    rw [Progress.after_after]
    exact Gives.pure _ _
  | true =>
    have hextractors := putAll_puts_map joins_append extractorFragment_makes r.extractors
      ((p.after [sampler r] []).after (componentsOf (r.timers.map Layout.ofTimer)) []) []
    rw [List.nil_append] at hextractors
    refine hextractors.next ?_
    refine (extendAssertions_puts r.assertions _ _).next ?_
    have hperm := p.after_perm (components_request_perm r) []
    have hparts : Layout.parts r = r.extractors.map Layout.ofExtractor ++ r.timers.map Layout.ofTimer ++
      r.assertions.filterMap Layout.ofAssertion? ++ r.results.toList.map Layout.ofResults := rfl
    simp only [if_true, ← hperm]
    rw [← Block.fill_pair, hparts]
    cases r.results with
    | none =>
      simp only [Progress.after_after, elementsOf_append, Option.toList_none, List.map_nil, componentsOf,
        List.append_nil]
      exact Gives.pure _ _
    | some results =>
      refine (resultsFragment_makes results _).next ?_
      simp only [Progress.after_after, elementsOf_append, Option.toList_some, List.map_cons, List.map_nil,
        List.append_nil]
      exact Gives.pure _ _

theorem loopFragment?_makes (l : Loop) (p : Progress) :
    MakesSome (loopFragment? l) p (Layout.loopFaults l) (Layout.ofLoop l) := by
  unfold loopFragment? Layout.loopFaults Layout.ofLoop Layout.writingFaults
  split
  · exact MakesSome.nothing p
  · cases h : Number.Integer.text? l.count with
    | none => exact Gives.throw _ [] _ _ _
    | some count =>
      let element := loop l.name count l.forever
      have hl (q : Progress) : Gives (tally fun c => { c with loops := c.loops + 1 }) q [] ()
          (q.after [element] []) :=
        tally_gives (by simp [Counts.plus, element, loop, component]) (by simp [element, loop, component]) q
      have hperm : (componentsOf (l.tests.flatMap Layout.ofRequest) ++ [element]).Perm
          (componentsOf [⟨element, l.tests.flatMap Layout.ofRequest⟩]) := by
        rw [componentsOf, components, componentsOf, List.append_nil]
        exact List.perm_append_singleton _ _
      rw [← Number.Integer.eq_text_of_text? h]
      refine (putAll_puts joins_fill requestFragment_makes l.tests p _).next ?_
      refine (hl _).next ?_
      rw [Progress.after_after, p.after_perm hperm, List.append_nil]
      exact Gives.pure _ _

theorem wholeShare_gives (share : Number.Double) (p : Progress) :
    Gives (liftM (wholeShare share)) p (Layout.shareFaults share) (share.integerPart?.getD 0) p := by
  cases share with
  | nan => rfl
  | infinite s => rfl
  | finite s m e => rfl

mutual

theorem stepFragment?_makes : ∀ (e : Entry) (p : Progress),
    MakesSome (stepFragment? e) p (Layout.stepFaults e) (Layout.ofStep e)
  | .timer t, p => by
    rw [stepFragment?]
    exact MakesSome.of_makes (timerFragment_makes t p) (List.cons_ne_nil _ _)
  | .request r, p => by
    rw [stepFragment?]
    exact MakesSome.of_makes (requestFragment_makes r p) (Layout.ofRequest_ne_nil r)
  | .loop l, p => by
    rw [stepFragment?]
    exact loopFragment?_makes l p
  | .controller c, p => by
    rw [stepFragment?]
    exact MakesSome.of_makes (controllerFragment_makes c p) (List.cons_ne_nil _ _)
  | .repeated items, p => by
    rw [stepFragment?]
    exact Gives.throw _ [] p _ _

theorem controllerFragment_makes : ∀ (c : Controller) (p : Progress),
    Makes (controllerFragment c) p (Layout.controllerFaults c) [Layout.ofController c] []
  | ⟨name, share, stack, dataSets, extra, line⟩, p => by
    have hc (q : Progress) : Gives (tally fun c => { c with controllers := c.controllers + 1 }) q [] ()
        (q.after [genericController name,
          throughputController name share (share.integerPart?.getD 0)] []) :=
      tally_gives (by simp [Counts.plus, genericController, throughputController, component])
        (by simp [genericController, throughputController, component]) q
    -- The controllers are counted after their steps, but stand before them.
    have hperm : (componentsOf (Layout.ofSteps stack) ++ [genericController name,
          throughputController name share (share.integerPart?.getD 0)]).Perm
        (componentsOf [Layout.ofController ⟨name, share, stack, dataSets, extra, line⟩]) := by
      simp only [Layout.ofController, componentsOf, components, List.append_nil]
      exact List.perm_append_comm
    rw [controllerFragment, Layout.controllerFaults]
    refine (wholeShare_gives share p).bind ?_
    refine (fillSteps_puts stack p _).finish ?_
    refine (hc _).next ?_
    rw [Progress.after_after, p.after_perm hperm, List.append_nil]
    exact Gives.pure _ _

theorem fillSteps_puts : ∀ (es : List Entry) (p : Progress),
    Puts Fragment.fill (fun f => fillSteps f es) p (Layout.stepsFaults es) (Layout.ofSteps es) []
  | [], p => by
    simp only [fillSteps]
    exact Puts.nothing joins_fill p
  | e :: es, p => by
    intro f
    simp only [fillSteps]
    exact (stepFragment?_makes e p).bind_puts joins_fill (fillSteps_puts es _) rfl fun _ => rfl

end

/-! Thread groups and data sets. -/

theorem takeNumber_gives (p : Progress) :
    Gives takeNumber p [] p.nextGroup { p with nextGroup := p.nextGroup + 1 } := rfl

variable (w : Workshop)

theorem threadGroupElement_gives (name threads rampTime : String) (p : Progress) :
    Gives (w.threadGroupElement name threads rampTime) { p with nextGroup := p.nextGroup + 1 } []
      (threadGroup w.settings.onSampleError name threads rampTime)
      (p.after [threadGroup w.settings.onSampleError name threads rampTime, cookieManager] []) := by
  simp [Progress.after, Counts.plus, threadGroup, cookieManager, component]
  rfl

/-- A thread group for elements. It stands with its cookies before them. -/
theorem groupFragment_gives (name : String) (inside : Fragment) (p : Progress) :
    Gives (w.groupFragment name inside) p (Layout.writingFaults w.settings.rampTime)
      (Fragment.fill (elementsOf [Layout.ofGroup w name p.nextGroup []]) inside)
      (p.after (componentsOf [Layout.ofGroup w name p.nextGroup []]) []) := by
  unfold groupFragment Layout.writingFaults
  refine (takeNumber_gives p).next ?_
  cases h : Number.Integer.text? w.settings.rampTime with
  | none => exact Gives.throw _ [] _ _ _
  | some text =>
    rw [Layout.ofGroup, ← Number.Integer.eq_text_of_text? h]
    exact (threadGroupElement_gives w _ _ _ p).next (Gives.pure _ _)

theorem nextGroup_after_step (p : Progress) {bs : List Block} (h : Block.Proper stepTags bs) :
    (p.after (componentsOf bs) []).nextGroup = p.nextGroup := by
  rw [Progress.after, Layout.countP_threadGroup_of_step h, Nat.add_zero]

theorem nextGroup_after_groups (p : Progress) (name : String) (number : Nat) (es : List Entry)
    (ds : List Diagnostic) :
    (p.after (componentsOf (Layout.groups w name number (Layout.insides es))) ds).nextGroup =
      p.nextGroup + (Layout.insides es).length := by
  rw [Progress.after, Layout.countP_threadGroup_groups w Layout.proper_insides]

theorem fill_group (name : String) (number : Nat) (inside : List Block) :
    Fragment.fill (elementsOf [Layout.ofGroup w name number []]) (elementsOf inside) =
      elementsOf [Layout.ofGroup w name number inside] := by
  rfl

theorem extendStep_puts (name : String) (e : Entry) (p : Progress) :
    Puts (· ++ ·) (fun f => w.extendStep name f e) p (Layout.groupedFaults w [e])
      (Layout.groups w name p.nextGroup (Layout.insides [e])) [] := by
  intro f
  have hs := stepFragment?_makes e p
  have hn := nextGroup_after_step p (Layout.proper_step e)
  unfold extendStep
  unfold MakesSome at hs
  simp only [Layout.groupedFaults, Layout.insides, List.flatMap_cons, List.flatMap_nil,
    List.append_nil, List.map_cons, List.map_nil]
  refine Gives.bind hs ?_
  -- Only a step that comes to something takes a number.
  cases he : (Layout.ofStep e).isEmpty with
  | true =>
    have hnil : Layout.ofStep e = [] := List.isEmpty_iff.mp he
    simp only [hnil, componentsOf, Progress.after_nil, if_true]
    exact Puts.nothing joins_append p f
  | false =>
    have hg := groupFragment_gives w name (elementsOf (Layout.ofStep e))
      (p.after (componentsOf (Layout.ofStep e)) [])
    have hperm : (componentsOf (Layout.ofStep e) ++
        componentsOf [Layout.ofGroup w name p.nextGroup []]).Perm
          (componentsOf [Layout.ofGroup w name p.nextGroup (Layout.ofStep e)]) := by
      simp only [Layout.ofGroup, componentsOf, components, List.append_nil]
      exact List.perm_append_comm
    rw [hn, Progress.after_after, p.after_perm hperm, fill_group] at hg
    have hput := hg.finish (f := fun group => pure (f ++ group)) (Gives.pure _ _)
    simpa [he, Layout.groups] using hput

/-- Groups for some steps, and then groups for others with the numbers after theirs. -/
theorem puts_groups_append {m m' : Fragment → Generating Fragment} {name : String} {a b : List Entry}
    {fs gs : List Fault} {ds es : List Diagnostic}
    (hm : ∀ p, Puts (· ++ ·) m p fs (Layout.groups w name p.nextGroup (Layout.insides a)) ds)
    (hm' : ∀ p, Puts (· ++ ·) m' p gs (Layout.groups w name p.nextGroup (Layout.insides b)) es)
    (p : Progress) :
    Puts (· ++ ·) (fun f => m f >>= m') p (fs ++ gs)
      (Layout.groups w name p.nextGroup (Layout.insides (a ++ b))) (ds ++ es) := by
  have hb := hm' (p.after (componentsOf (Layout.groups w name p.nextGroup (Layout.insides a))) ds)
  rw [nextGroup_after_groups] at hb
  rw [Layout.insides_append, Layout.groups_append]
  exact Puts.next joins_append (hm p) hb

theorem extendSteps_puts (name : String) (es : List Entry) (p : Progress) :
    Puts (· ++ ·) (fun f => w.extendSteps name f es) p (Layout.groupedFaults w es)
      (Layout.groups w name p.nextGroup (Layout.insides es)) [] := by
  induction es generalizing p with
  | nil => exact Puts.nothing joins_append p
  | cons e es ih =>
    rw [← List.singleton_append, Layout.groupedFaults_append]
    exact puts_groups_append w (extendStep_puts w name e) ih p

theorem extendRounds_puts (name : String) (items : List Entry) (n : Nat) (p : Progress) :
    Puts (· ++ ·) (fun f => w.extendRounds name items f n) p
      (Layout.groupedFaults w (List.replicate n items).flatten)
      (Layout.groups w name p.nextGroup (Layout.insides (List.replicate n items).flatten)) [] := by
  induction n generalizing p with
  | zero => exact Puts.nothing joins_append p
  | succ n ih =>
    rw [List.replicate_succ, List.flatten_cons, Layout.groupedFaults_append]
    exact puts_groups_append w (extendSteps_puts w name items) ih p

theorem repetitionFragment_makes (d : DataSet) (items : List Entry) (p : Progress) :
    Makes (w.repetitionFragment d items) p (Layout.dataStepFaults w d (.repeated items))
      (Layout.groups w d.name p.nextGroup (Layout.insides (d.expanded w.disk (.repeated items))))
      (Layout.diagnosticsOf w d [.repeated items]) := by
  unfold repetitionFragment Layout.dataStepFaults DataSet.refusal? DataSet.expanded Layout.diagnosticsOf
  simp only [List.filterMap_cons, List.filterMap_nil, DataSet.problem?, DataSet.rounds]
  cases d.file w.disk with
  | error failure => exact Gives.throw _ _ _ _ _
  | ok path =>
    simp only [Except.bind, Option.toList_none, List.map_nil, List.nil_append]
    cases DataFile.rounds w.disk path with
    | ok n => exact extendRounds_puts w d.name items n p []
    | error failure => exact (report_gives _ p).next (Gives.pure _ _)

theorem extendDataSteps_puts (d : DataSet) (es : List Entry) (p : Progress) :
    Puts (· ++ ·) (fun f => w.extendDataSteps d f es) p (es.flatMap (Layout.dataStepFaults w d))
      (Layout.groups w d.name p.nextGroup (Layout.insides (es.flatMap (d.expanded w.disk))))
      (Layout.diagnosticsOf w d es) := by
  induction es generalizing p with
  | nil => exact Puts.nothing joins_append p
  | cons e es ih =>
    have hds : Layout.diagnosticsOf w d (e :: es) =
        Layout.diagnosticsOf w d [e] ++ Layout.diagnosticsOf w d es := by
      simp only [Layout.diagnosticsOf, ← List.map_append, ← List.filterMap_append,
        List.singleton_append]
    rw [hds, List.flatMap_cons, List.flatMap_cons]
    cases e with
    | repeated items =>
      have hr := puts_groups_append w (fun p => Puts.of_makes (repetitionFragment_makes w d items p)) ih p
      simp only [bind_assoc, pure_bind] at hr
      exact hr
    | _ => exact puts_groups_append w (extendStep_puts w d.name _) ih p

theorem dataSetFragment_makes (d : DataSet) (p : Progress) :
    Makes (w.dataSetFragment d) p (Layout.dataSetFaults w d)
      (Layout.ofDataSet w p.nextGroup d) (Layout.diagnosticsOf w d d.stack) := by
  have hd : Gives (tally fun c => { c with dataSets := c.dataSets + 1 }) p [] ()
      (p.after [dataSet d] []) :=
    tally_gives (by simp [Counts.plus, dataSet, component]) (by simp [dataSet, component]) p
  have hn : (p.after [dataSet d] []).nextGroup = p.nextGroup := by
    simp [Progress.after, dataSet, component]
  have hs := extendDataSteps_puts w d d.stack (p.after [dataSet d] []) (pair (dataSet d))
  rw [hn, Progress.after_after] at hs
  exact hd.next hs

theorem nextGroup_after_dataSet (p : Progress) (number : Nat) (d : DataSet) (ds : List Diagnostic) :
    (p.after (componentsOf (Layout.ofDataSet w number d)) ds).nextGroup =
      p.nextGroup + (Layout.insides (d.running w.disk)).length := by
  simp [Progress.after, Layout.ofDataSet, componentsOf, components,
    Layout.countP_threadGroup_groups w Layout.proper_insides]

theorem dataSets_puts (sets : List DataSet) (p : Progress) :
    Puts (· ++ ·) (fun f => putAll (· ++ ·) w.dataSetFragment f sets) p
      (sets.flatMap (Layout.dataSetFaults w)) (Layout.ofDataSets w p.nextGroup sets)
      (sets.flatMap fun d => Layout.diagnosticsOf w d d.stack) := by
  induction sets generalizing p with
  | nil => exact Puts.nothing joins_append p
  | cons d sets ih =>
    intro f
    have hs := ih (p.after (componentsOf (Layout.ofDataSet w p.nextGroup d))
      (Layout.diagnosticsOf w d d.stack))
    rw [nextGroup_after_dataSet] at hs
    rw [List.flatMap_cons, List.flatMap_cons, Layout.ofDataSets]
    have h := Puts.next joins_append (Puts.of_makes (dataSetFragment_makes w d p)) hs f
    simp only [bind_assoc, pure_bind] at h
    exact h

/-! Plans. -/

theorem settle_gives (r : Resolved) (p : Progress) :
    Gives (w.settle r) p [] r.value (p.after [] (r.problem.toList.map (⟨·, ⟨w.source, 0⟩⟩))) := by
  unfold settle
  cases r.problem with
  | none =>
    rw [Option.toList_none, List.map_nil, Progress.after_nil]
    exact Gives.pure _ _
  | some problem => exact (report_gives _ p).next (Gives.pure _ _)

theorem settle_silently {r : Resolved} (h : r.problem = none) (p : Progress) :
    Gives (w.settle r) p [] r.value p := by
  have hs := settle_gives w r p
  rwa [h, Option.toList_none, List.map_nil, Progress.after_nil] at hs

theorem rampTime?_eq (s : Scenario) :
    (s.info.rampTime? w.settings.rampTime = none ∧ Layout.rampFaults w s = [.tooManyDigits]) ∨
    (s.info.rampTime? w.settings.rampTime = some ⟨Layout.rampTime w s, none⟩ ∧
      Layout.rampFaults w s = []) := by
  unfold Info.rampTime? Layout.rampFaults Layout.rampTime Layout.writingFaults Fields.getD
  cases Fields.get? s.info "rampup" with
  | some value => simp
  | none =>
    cases h : Number.Integer.text? w.settings.rampTime with
    | none => simp
    | some text => simp [Number.Integer.eq_text_of_text? h]

theorem nextGroup_after_main (group : Element) (es : List Entry) (p : Progress)
    (hg : group.tag = "ThreadGroup") :
    ((p.after [group, cookieManager] []).after (componentsOf (Layout.ofSteps es)) []).nextGroup =
      p.nextGroup + 1 := by
  rw [nextGroup_after_step _ (Layout.proper_steps es)]
  simp [Progress.after, hg]

theorem plan_gives (s : Scenario) (p : Progress) :
    Gives (w.plan s) p (Layout.planFaults w s) (Layout.root w s p.nextGroup)
      (p.after (componentsOf (Layout.content w s p.nextGroup)) (Layout.planDiagnostics w s)) := by
  let ds := s.info.planName.problem.toList.map (⟨·, ⟨w.source, 0⟩⟩ : Problem → Diagnostic) ++
    s.info.assertLog.problem.toList.map (⟨·, ⟨w.source, 0⟩⟩)
  have hds : Layout.planDiagnostics w s =
      ds ++ s.allDataSets.flatMap fun d => Layout.diagnosticsOf w d d.stack := by
    rw [Layout.planDiagnostics, List.filterMap_eq_flatMap_toList]
    simp [ds]
  let failed := Layout.ofCollector s.info.assertType.value "Assertion Results" s.info.assertLog.value
  let group := threadGroup w.settings.onSampleError (groupName p.nextGroup s.info.planName.value)
    s.info.threads.value (Layout.rampTime w s)
  unfold plan
  refine (settle_gives w _ p).next ?_
  refine (settle_silently w rfl _).next ?_
  refine (settle_gives w _ _).next ?_
  refine (settle_silently w rfl _).next ?_
  rcases rampTime?_eq w s with ⟨hr, hf⟩ | ⟨hr, hf⟩
  · rw [hr, Layout.planFaults, hf]
    exact Gives.throw _ _ _ _ _
  · rw [hr, Layout.planFaults, hf, List.nil_append, Progress.after_after]
    refine (settle_silently w rfl _).next ?_
    refine (assertionResultsFragment_makes _ _ _).next ?_
    -- From here on the progress is that after the collector; no thread group was made yet.
    generalize hq : (p.after ([] ++ []) ds).after (componentsOf [failed]) [] = q
    have hn : p.nextGroup = q.nextGroup := by
      rw [← hq]
      simp [Progress.after, failed, Layout.ofCollector, componentsOf, components, collector, component]
    have hend : p.after (componentsOf (Layout.content w s p.nextGroup)) (Layout.planDiagnostics w s) =
        ((q.after [group, cookieManager] []).after (componentsOf (Layout.ofSteps s.stack)) []).after
          (componentsOf (Layout.ofDataSets w (p.nextGroup + 1) s.allDataSets))
          (s.allDataSets.flatMap fun d => Layout.diagnosticsOf w d d.stack) := by
      rw [← hq, hds]
      simp only [Progress.after_after, List.append_nil, List.nil_append]
      rfl
    rw [hend]
    simp only [group]
    rw [hn]
    refine (takeNumber_gives q).next ?_
    refine (threadGroupElement_gives w _ _ _ q).next ?_
    refine (fillSteps_puts _ _ _).bind ?_
    refine (dataSets_puts w _ _ _).finish ?_
    rw [nextGroup_after_main _ _ q rfl]
    exact Gives.pure _ _

theorem fragment_gives (o : Order) (p : Progress) :
    Gives (w.fragment o) p (Layout.orderFaults w o) (Layout.fragmentOf w p.nextGroup o)
      (p.after (componentsOf (Layout.ofOrder w p.nextGroup o)) (Layout.orderDiagnostics w o)) := by
  cases o with
  | group name inside => exact groupFragment_gives w name inside p
  | cookieManager =>
    have hp : p.after [cookieManager] [] = p := by
      simp [Progress.after, Counts.plus, cookieManager, component]
    change Gives _ p [] _ (p.after [cookieManager] [])
    rw [hp]
    exact Gives.pure _ _
  | _ =>
    unfold Layout.fragmentOf
    simp only [Order.passed, Fragment.fill_nil]
    first
    | exact timerFragment_makes _ p
    | exact extractorFragment_makes _ p
    | exact (assertionFragment?_makes _ p).getD
    | exact resultsFragment_makes _ p
    | exact assertionResultsFragment_makes _ _ p
    | exact requestFragment_makes _ p
    | exact (loopFragment?_makes _ p).getD
    | exact controllerFragment_makes _ p
    | exact (stepFragment?_makes _ p).getD
    | exact dataSetFragment_makes w _ p
    | exact repetitionFragment_makes w _ _ p

end Workshop

variable {disk : Storage.Disk} {settings : Settings} {source : String} {s : Scenario}

/-- A plan comes from a scenario without faults, and is its layout. -/
theorem assemble_eq_ok_iff {d : Build.Draft} :
    Build.assemble disk settings source s ds = .ok d ↔
      Layout.planFaults ⟨disk, settings, source⟩ s = [] ∧
      d = ⟨Layout.root ⟨disk, settings, source⟩ s 0,
        Counts.zero.plus (componentsOf (Layout.content ⟨disk, settings, source⟩ s 0)),
        (componentsOf (Layout.content ⟨disk, settings, source⟩ s 0)).countP (·.tag == "ThreadGroup"),
        ds ++ Layout.planDiagnostics ⟨disk, settings, source⟩ s, Build.isHalved settings s⟩ := by
  have h := Workshop.plan_gives ⟨disk, settings, source⟩ s ⟨0, .zero, ds⟩
  unfold Build.assemble
  cases hf : Layout.planFaults ⟨disk, settings, source⟩ s with
  | nil =>
    rw [hf] at h
    rw [h.ok_iff.mpr ⟨rfl, rfl, rfl⟩]
    simp [Progress.after, eq_comm]
  | cons f fs =>
    rw [hf] at h
    have he := h.error_iff.mpr rfl
    split
    · next hok => simp [hok] at he
    · simp

/-- There is no plan if there are faults, and the first of them is the reason. -/
theorem assemble_eq_error_iff {f : Fault} :
    Build.assemble disk settings source s ds = .error f ↔
      (Layout.planFaults ⟨disk, settings, source⟩ s).head? = some f := by
  have h := Workshop.plan_gives ⟨disk, settings, source⟩ s ⟨0, .zero, ds⟩
  rw [← h.error_iff]
  unfold Build.assemble
  split
  · next hok => simp [hok]
  · next hok => simp [hok]

end LoadPlan.Jmx
