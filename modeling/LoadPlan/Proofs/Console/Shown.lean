import Mathlib.Data.List.Basic
import LoadPlan.Console.Command

/-! Which texts can be shown. Of the library no more is assumed than is documented: how it reads the tags of styles,
and that it raises an error over a closing tag if nothing is open. -/
namespace LoadPlan.Console

/-- A text is shown, and no error is raised over it. -/
def Renderer.Shows (library : Renderer) (t : String) : Prop :=
  ∃ cs, library.visible t = .ok cs

/-- The characters that can stand after the opening bracket of a tag. -/
def beginsTag (c : Char) : Bool :=
  ('a' ≤ c && c ≤ 'z') || c == '#' || c == '/' || c == '@'

/-- No tag begins in a text and no bracket is escaped in it, whatever stands behind it. -/
def isBare : List Char → Bool
  | [] => true
  | '[' :: rest => rest.head?.any (fun c => !beginsTag c) && isBare rest
  | '\\' :: rest => rest.head?.any (· != '[') && isBare rest
  | _ :: rest => isBare rest

/-- A name between two colons, which may be that of a symbol. -/
def hasCode : List Char → Bool
  | [] => false
  | ':' :: rest => (rest.dropWhile fun c => c != ':' && !Text.isBlank c).head? == some ':' || hasCode rest
  | _ :: rest => hasCode rest

/-- A control character, other than the end of a line. -/
def isControl (c : Char) : Bool :=
  c < ' ' && c != '\n'

def Bare (t : String) : Prop :=
  isBare t.toList = true

instance (t : String) : Decidable (Bare t) :=
  inferInstanceAs (Decidable (_ = true))

/-- Nothing but tags can make a text look different from what is written. -/
def Clear (t : String) : Prop :=
  hasCode t.toList = false ∧ ∀ c ∈ t.toList, isControl c = false

instance (t : String) : Decidable (Clear t) :=
  @instDecidableAnd _ _ (instDecidableEqBool _ _) (List.decidableBAll (isControl · = false) t.toList)

/-- A text closes a style before it opens one. -/
def Closes (t : String) : Prop :=
  ∃ before name after, Bare before ∧ (∀ c ∈ name.toList, c ≠ '[' ∧ c ≠ ']') ∧
    t = before ++ ("[/" ++ name ++ "]" ++ after)

/-- A part of a text, by itself or between the tags of a style. -/
inductive Span
  | plain (t : String)
  | styled (style t : String)

namespace Span

/-- The styles that texts are given. -/
def styles : List String :=
  ["bold", "dim", "cyan", "yellow", "red", "bold red", "bold green", "bold yellow"]

def text : Span → String
  | .plain t => t
  | .styled _ t => t

def markup : Span → String
  | .plain t => t
  | .styled style t => "[" ++ style ++ "]" ++ t ++ "[/" ++ style ++ "]"

def Proper : Span → Prop
  | .plain t => Bare t
  | .styled style t => style ∈ styles ∧ Bare t

end Span

def markup : List Span → String
  | [] => ""
  | s :: ss => s.markup ++ markup ss

def textOf : List Span → String
  | [] => ""
  | s :: ss => s.text ++ textOf ss

/-- What is documented of the library. -/
structure Renderer.ReadsTags (library : Renderer) : Prop where
  /-- Styles that are opened and closed are no error. -/
  shows {spans : List Span} : (∀ s ∈ spans, s.Proper) → library.Shows (markup spans)
  /-- A closing tag is an error if nothing is open. -/
  raises {spans : List Span} {t : String} : (∀ s ∈ spans, s.Proper) → Closes t → ¬library.Shows (markup spans ++ t)
  /-- All but the tags is seen of a text, as it is written. -/
  sees {spans : List Span} : (∀ s ∈ spans, s.Proper) → Clear (textOf spans) →
    library.visible (markup spans) = .ok (textOf spans).toList

variable {cs rest : List Char} {s t : String} {as bs : List Span} {library : Renderer}

section Texts

theorem isBare_append (hcs : isBare cs = true) (hrest : isBare rest = true) : isBare (cs ++ rest) = true := by
  fun_induction isBare cs with
  | case1 => exact hrest
  | case2 cs ih =>
    rw [Bool.and_eq_true] at hcs
    rw [List.cons_append, isBare, ih hcs.2, Bool.and_true]
    cases cs with
    | nil => cases hcs.1
    | cons c cs => exact hcs.1
  | case3 cs ih =>
    rw [Bool.and_eq_true] at hcs
    rw [List.cons_append, isBare, ih hcs.2, Bool.and_true]
    cases cs with
    | nil => cases hcs.1
    | cons c cs => exact hcs.1
  | case4 c cs hbracket hslash ih =>
    rw [List.cons_append, isBare.eq_4 _ _ hbracket hslash]
    exact ih hcs

theorem isBare_of_plain (h : ∀ c ∈ cs, c ≠ '[' ∧ c ≠ '\\') : isBare cs = true := by
  induction cs with
  | nil => rfl
  | cons c cs ih =>
    obtain ⟨hc, hcs⟩ := List.forall_mem_cons.mp h
    rw [isBare.eq_4 _ _ hc.1 hc.2]
    exact ih hcs

theorem Bare.append (hs : Bare s) (ht : Bare t) : Bare (s ++ t) := by
  unfold Bare
  rw [String.toList_append]
  exact isBare_append hs ht

theorem ne_of_mem_digits {n : Nat} {c d : Char} (hc : c ∈ Nat.toDigits 10 n) (hd : d.isDigit = false) : c ≠ d := by
  rintro rfl
  exact absurd ((Nat.isDigit_of_mem_toDigits (by decide) (by decide) hc).symm.trans hd) nofun

theorem bare_repr (n : Nat) : Bare n.repr := by
  unfold Bare
  rw [Nat.toList_repr]
  exact isBare_of_plain fun c hc => ⟨ne_of_mem_digits hc rfl, ne_of_mem_digits hc rfl⟩

theorem Closes.behind (h : Closes t) (hs : Bare s) : Closes (s ++ t) := by
  obtain ⟨before, name, after, hbefore, hname, rfl⟩ := h
  exact ⟨s ++ before, name, after, hs.append hbefore, hname, (String.append_assoc ..).symm⟩

theorem Closes.append (h : Closes t) (u : String) : Closes (t ++ u) := by
  obtain ⟨before, name, after, hbefore, hname, rfl⟩ := h
  exact ⟨before, name, after ++ u, hbefore, hname, by simp only [String.append_assoc]⟩

theorem hasCode_append (h : ':' ∉ cs) : hasCode (cs ++ rest) = hasCode rest := by
  induction cs with
  | nil => rfl
  | cons c cs ih =>
    obtain ⟨hc, hcs⟩ := not_or.mp (List.mem_cons.not.mp h)
    rw [List.cons_append, hasCode.eq_3 _ _ fun heq => hc heq.symm]
    exact ih hcs

theorem Clear.behind (ht : Clear t) (h : ∀ c ∈ s.toList, c ≠ ':' ∧ isControl c = false) : Clear (s ++ t) := by
  unfold Clear
  rw [String.toList_append, hasCode_append fun hc => (h _ hc).1 rfl]
  refine ⟨ht.1, fun c hc => ?_⟩
  rcases List.mem_append.mp hc with hc | hc
  · exact (h c hc).2
  · exact ht.2 c hc

/-- Digits are neither colons nor controls. -/
theorem plain_repr (n : Nat) : ∀ c ∈ n.repr.toList, c ≠ ':' ∧ isControl c = false := by
  intro c hc
  rw [Nat.toList_repr] at hc
  have hdigit := Nat.isDigit_of_mem_toDigits (by decide) (by decide) hc
  refine ⟨ne_of_mem_digits hc rfl, ?_⟩
  simp only [Char.isDigit, Bool.and_eq_true, decide_eq_true_eq] at hdigit
  simp only [isControl, Bool.and_eq_false_iff, decide_eq_false_iff_not]
  have hblank : ' ' ≤ c := UInt32.le_trans (by decide : ' '.val ≤ '0'.val) hdigit.1
  exact .inl (Char.not_lt.mpr hblank)

end Texts

section Spans

theorem markup_append (as bs : List Span) : markup (as ++ bs) = markup as ++ markup bs := by
  induction as with
  | nil => exact String.empty_append.symm
  | cons s as ih => rw [List.cons_append, markup, markup, ih, String.append_assoc]

theorem markup_plain (t : String) : markup [.plain t] = t :=
  String.append_empty

theorem textOf_plain (t : String) : textOf [.plain t] = t :=
  String.append_empty

theorem Renderer.ReadsTags.shows_bare (h : library.ReadsTags) (ht : Bare t) : library.Shows t := by
  have hshows : library.Shows (markup [.plain t]) := h.shows (List.forall_mem_singleton.mpr ht)
  rwa [markup_plain] at hshows

theorem Renderer.ReadsTags.raises_first (h : library.ReadsTags) (ht : Closes t) : ¬library.Shows t := by
  have hraises : ¬library.Shows (markup [] ++ t) := h.raises (List.forall_mem_nil _) ht
  rwa [markup, String.empty_append] at hraises

end Spans

namespace Command

/-- A line of a summary, with a number. -/
def counted (label : String) (n : Nat) : List Span :=
  [.styled "cyan" label, .plain s!" {n}\n"]

/-- What the summary of a build says before the path of the plan. -/
def summaryHead : List Span :=
  [.styled "bold green" "✓ JMX file generated successfully!", .plain "\n\n", .styled "cyan" "File:", .plain " "]

/-- What it says after the path. -/
def summaryRest (c : Jmx.Counts) : List Span :=
  .plain "\n" :: (counted "Samplers:" c.samplers ++ counted "Timers:" c.timers ++
    counted "Assertions:" c.assertions ++ counted "Extractors:" c.extractors ++
    [.styled "cyan" "Loops / Controllers:", .plain s!" {c.loops} / {c.controllers}\n"] ++
    counted "CSV Data Sets:" c.dataSets ++ counted "Thread Groups:" c.threadGroups ++
    [.plain "\n", .styled "dim" "Next step: Open in JMeter GUI or run headless"])

theorem summaryText_eq (p : Build.Product) :
    summaryText p = markup summaryHead ++ (p.path ++ markup (summaryRest p.counts)) := by
  apply String.toList_injective
  simp [summaryText, summaryHead, summaryRest, counted, markup, Span.markup, toString]

theorem proper_counted {label : String} (hlabel : Bare label) (n : Nat) : ∀ s ∈ counted label n, s.Proper := by
  have hnumber : Bare s!" {n}\n" := by
    have hparts : s!" {n}\n" = " " ++ n.repr ++ "\n" := rfl
    rw [hparts]
    exact ((by decide : Bare " ").append (bare_repr n)).append (by decide)
  simp only [counted, List.forall_mem_cons]
  exact ⟨⟨by decide, hlabel⟩, hnumber, List.forall_mem_nil _⟩

theorem proper_summaryHead : ∀ s ∈ summaryHead, s.Proper := by
  simp only [summaryHead, List.forall_mem_cons]
  exact ⟨⟨by decide, by decide⟩, (by decide : Bare "\n\n"), ⟨by decide, by decide⟩, (by decide : Bare " "),
    List.forall_mem_nil _⟩

theorem proper_summaryRest (c : Jmx.Counts) : ∀ s ∈ summaryRest c, s.Proper := by
  have hnumbers : Bare s!" {c.loops} / {c.controllers}\n" := by
    have hparts : s!" {c.loops} / {c.controllers}\n" =
        " " ++ c.loops.repr ++ " / " ++ c.controllers.repr ++ "\n" := rfl
    rw [hparts]
    exact ((((by decide : Bare " ").append (bare_repr _)).append (by decide)).append (bare_repr _)).append (by decide)
  simp only [summaryRest, List.forall_mem_cons, List.forall_mem_append, and_assoc]
  exact ⟨(by decide : Bare "\n"), proper_counted (by decide) _, proper_counted (by decide) _,
    proper_counted (by decide) _, proper_counted (by decide) _, ⟨by decide, by decide⟩, hnumbers,
    List.forall_mem_nil _, proper_counted (by decide) _, proper_counted (by decide) _, (by decide : Bare "\n"),
    ⟨by decide, by decide⟩, List.forall_mem_nil _⟩

end Command

end LoadPlan.Console
