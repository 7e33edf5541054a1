import LoadPlan.Proofs.Scenario.Source

/-! The documents that a description takes in, and what is collected from them. Each report leads to an
element of the document that it names, and each data set comes from one. -/
namespace LoadPlan.Scenario

open LoadPlan.Description (Node)

/-- The documents that are open while the main one is read. -/
def headChain (disk : Storage.Disk) (main : Node) : List Storage.Path :=
  if Node.isFileSource main.source then [disk.resolve (.ofString main.source)] else []

/-- Documents that are read, each with those that are open then. -/
inductive Reached (disk : Storage.Disk) (settings : Settings) (main : Node) :
    List Storage.Path → Node → Prop
  | main : Reached disk settings main (headChain disk main) main
  | included {chain : List Storage.Path} {root n next : Node} {place : Storage.Path} :
      Reached disk settings main chain root → Processed root n → n.name = "file" →
      included disk settings chain n = .ok place → includedDocument disk place = .ok next →
      Reached disk settings main (chain ++ [place]) next

/-- The document that a place names holds an element on the line of the place, and the problem is what is
wrong with that element. -/
def Located (disk : Storage.Disk) (settings : Settings) (main : Node) (g : Diagnostic) : Prop :=
  ∃ chain root n, Reached disk settings main chain root ∧
    Description.ofFile disk g.place.source = .ok root ∧ Processed root n ∧ n.line = g.place.line ∧
    Flaw disk settings chain n g.problem

/-- A data set is described by an element of one of the documents. -/
def Described (disk : Storage.Disk) (settings : Settings) (main : Node) (d : DataSet) : Prop :=
  ∃ chain root n, Reached disk settings main chain root ∧ Processed root n ∧ d.DescribedBy disk n

variable {disk : Storage.Disk} {settings : Settings} {main root : Node} {path : String}
  {chain : List Storage.Path}

theorem includedDocument_eq_ok {place : Storage.Path} (h : includedDocument disk place = .ok root) :
    Description.ofFile disk place.text = .ok root := by
  unfold includedDocument at h
  cases hf : Description.ofFile disk place.text with
  | error e =>
    rw [hf] at h
    cases h
  | ok next =>
    rw [hf] at h
    cases h
    rfl

theorem Reached.file (h : Reached disk settings main chain root)
    (hm : Description.ofFile disk path = .ok main) :
    ∃ path, Description.ofFile disk path = .ok root := by
  cases h with
  | main => exact ⟨path, hm⟩
  | included _ _ _ _ hd => exact ⟨_, includedDocument_eq_ok hd⟩

/-! The elements at the top of a document. -/

variable {ctx : Context} {O : DataSet → Prop} {R : Diagnostic → Prop}

theorem regular_empty {P : Number.Double → Prop} {L : Loop → Prop} : empty.Regular P L O :=
  ⟨trivial, trivial⟩

theorem ofElement_reads {n : Node} (hc : n ∈ root.children)
    (h : Topmost root n → Covers ctx chain O R n) :
    Reads (ofElement ctx n) (Regular (Admissible ctx.settings) Loop.Writable O) R := by
  have hempty : Reads (pure empty) (Regular (Admissible ctx.settings) Loop.Writable O) R := .pure regular_empty
  unfold ofElement
  split
  · next hk =>
    split
    · next hf =>
      refine (timer_reads (h (.filled hc (.inl hk) hf)) hk).bind fun t _ => .pure ⟨?_, trivial⟩
      rw [regularSteps_iff]
      intro e he
      obtain ⟨t, -, rfl⟩ := List.mem_map.mp he
      trivial
    · exact hempty
  · next hk =>
    split
    · next hf =>
      have hl := loop_reads (h (.filled hc (.inr (.inl hk)) hf)) hk
      exact hl.bind fun l hl => .pure ⟨⟨hl, trivial⟩, trivial⟩
    · exact hempty
  · next hk =>
    split
    · next hf =>
      have hr := controller_reads n (h (.filled hc (.inr (.inr (.inl hk))) hf)) hk
      exact hr.bind fun c hc => .pure ⟨⟨hc, trivial⟩, trivial⟩
    · exact hempty
  · exact .pure ⟨trivial, trivial⟩
  · next hk =>
    exact (request_reads (h (.request hc hk)) hk).bind fun r _ =>
      .pure ⟨⟨trivial, trivial⟩, trivial⟩
  · next hk =>
    split
    · next hf =>
      have hd := dataSet_reads (h (.filled hc (.inr (.inr (.inr (.inl hk)))) hf)) hk
      exact hd.bind fun d hd => .pure ⟨trivial, ⟨hd, trivial⟩⟩
    · exact hempty
  · next hk =>
    split
    · next hf =>
      have hs := (h (.filled hc (.inr (.inr (.inr (.inr hk)))) hf)).splice .refl hk
      exact hs.bind fun r hr => .pure ⟨hr.1, hr.2⟩
    · exact hempty
  · exact hempty

theorem ofElements_reads {ns : List Node} (hc : ∀ n ∈ ns, n ∈ root.children)
    (h : ∀ n, Topmost root n → Covers ctx chain O R n) :
    Reads (ofElements ctx ns) (Regular (Admissible ctx.settings) Loop.Writable O) R := by
  induction ns with
  | nil => exact .pure regular_empty
  | cons n ns ih =>
    obtain ⟨hn, hns⟩ := List.forall_mem_cons.mp hc
    exact (ofElement_reads hn (h n)).bind fun s hs => (ih hns).bind fun t ht => .pure (hs.append ht)

/-! Documents. -/

/-- What is collected and reported while a description is read. -/
abbrev ReadsWell (disk : Storage.Disk) (settings : Settings) (main : Node) (m : Reading Scenario) :
    Prop :=
  Reads m (Regular (Admissible settings) Loop.Writable (Described disk settings main)) (Located disk settings main)

theorem located_of_flaw {n : Node} {p : Problem} (hm : Description.ofFile disk path = .ok main)
    (hr : Reached disk settings main chain root) (hn : Processed root n)
    (hp : Flaw disk settings chain n p) : Located disk settings main ⟨p, n.place⟩ := by
  obtain ⟨_, hf⟩ := hr.file hm
  exact ⟨chain, root, n, hr, hn.ofFile_source hf, hn, rfl, hp⟩

variable {inside : List Storage.Path → Node → Reading Scenario}

theorem splice_reads {n : Node} (hm : Description.ofFile disk path = .ok main)
    (hr : Reached disk settings main chain root) (hn : Processed root n) (hname : n.name = "file")
    (hin : ∀ place next, Reached disk settings main (chain ++ [place]) next →
      ReadsWell disk settings main (inside (chain ++ [place]) next)) :
    ReadsWell disk settings main (splice disk settings chain inside n) := by
  unfold splice
  split
  · next p hp =>
    have hl := located_of_flaw hm hr hn (.included hname hp)
    exact (Reads.report hl).bind fun _ _ => .pure regular_empty
  · next place hplace =>
    split
    · next p hp =>
      have hl := located_of_flaw hm hr hn (.document hname hplace hp)
      exact (Reads.report hl).bind fun _ _ => .pure regular_empty
    · next next hnext => exact hin _ _ (hr.included hn hname hplace hnext)

theorem spliceAll_reads {ns : List Node} (hm : Description.ofFile disk path = .ok main)
    (hr : Reached disk settings main chain root)
    (hns : ∀ n ∈ ns, n.name = "file" → Processed root n)
    (hin : ∀ place next, Reached disk settings main (chain ++ [place]) next →
      ReadsWell disk settings main (inside (chain ++ [place]) next)) :
    Reads (spliceAll disk settings chain inside ns)
      (RegularPart settings (Described disk settings main)) (Located disk settings main) := by
  induction ns with
  | nil => exact .pure ⟨trivial, trivial⟩
  | cons n ns ih =>
    obtain ⟨hn, hns⟩ := List.forall_mem_cons.mp hns
    have hjoin : ∀ s : Scenario, s.Regular (Admissible settings) Loop.Writable (Described disk settings main) →
        Reads (spliceAll disk settings chain inside ns >>= fun r =>
            pure (s.stack ++ r.1, s.dataSets ++ r.2))
          (RegularPart settings (Described disk settings main)) (Located disk settings main) := by
      intro s hs
      exact (ih hns).bind fun r hr => .pure
        ⟨regularSteps_append.mpr ⟨hs.stack, hr.1⟩, regularSets_append.mpr ⟨hs.dataSets, hr.2⟩⟩
    unfold spliceAll
    split
    · next hname => exact (splice_reads hm hr (hn hname) hname hin).bind hjoin
    · exact hjoin empty regular_empty

/-- The elements of a document are read well once its scripts are. -/
theorem document_reads (hm : Description.ofFile disk path = .ok main)
    (hr : Reached disk settings main chain root)
    (hin : ∀ place next, Reached disk settings main (chain ++ [place]) next →
      ReadsWell disk settings main (inside (chain ++ [place]) next)) :
    ReadsWell disk settings main (ofElements ⟨disk, settings, fun script =>
      spliceAll disk settings chain inside script.children⟩ root.children) := by
  refine ofElements_reads (fun n hn => hn) fun c hc => (⟨?_, ?_, ?_⟩ : Covers _ chain _ _ c)
  · intro m p hb hp
    exact located_of_flaw hm hr ⟨c, hc, hb⟩ hp
  · intro m d hb hd
    exact ⟨chain, root, m, hr, ⟨c, hc, hb⟩, hd⟩
  · intro m hb hk
    refine spliceAll_reads hm hr (fun n hn hname => ?_) hin
    exact ⟨c, hc, hb.tail (.file hk hn hname)⟩

theorem ofDocument_reads (hm : Description.ofFile disk path = .ok main) (depth : Nat)
    (hr : Reached disk settings main chain root) :
    ReadsWell disk settings main (ofDocument disk settings depth chain root) := by
  -- Nothing is read from documents past the depth, so there the claim holds of what they give.
  induction depth generalizing chain root with
  | zero => exact document_reads hm hr fun _ _ _ => .pure regular_empty
  | succ depth ih => exact document_reads hm hr fun _ _ h => ih h

theorem ofDescription_reads (hm : Description.ofFile disk path = .ok main) :
    ReadsWell disk settings main (ofDescription disk settings main) :=
  ofDocument_reads hm _ .main

end LoadPlan.Scenario
