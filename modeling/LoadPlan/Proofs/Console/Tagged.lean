import Mathlib.Data.List.TakeWhile
import LoadPlan.Console.Tagged
import LoadPlan.Proofs.Console.Shown

/-! The library that commands run with reads tags as it is documented. -/
namespace LoadPlan.Console.Tagged

/-- The styles that are open after a tag, unless it closes what is not open. -/
def turned (styles : List String) (inside : List Char) : Option (List String) :=
  match inside.takeWhile (· != '=') with
  | '/' :: closed =>
    let closed := Text.strip (String.ofList closed)
    if closed = "" then (if styles.isEmpty then none else some styles.tail)
    else close? (Style.canonical closed) styles
  | name => some (Style.canonical (String.ofList name) :: styles)

variable {cs rest inside after name : List Char} {styles left : List String} {ps : List Piece} {c : Char} {t : String}

section Tags

theorem seen_tag : seen styles (.tag inside :: ps) = match turned styles inside with
    | some left => seen left ps
    | none => .error s!"closing tag '[{String.ofList inside}]' does not match any open tag" := by
  unfold turned
  rw [seen]
  generalize inside.takeWhile (· != '=') = name
  split
  · rfl
  · simp

/-- Where nothing is open, nothing can be closed. -/
theorem turned_nil_closing : turned [] ('/' :: name) = none := by
  rw [turned, List.takeWhile_cons_of_pos (by decide)]
  simp only [close?, List.isEmpty_nil, if_true, ite_self]

theorem inside?_closed (h : ∀ c ∈ cs, c ≠ '[' ∧ c ≠ ']') : inside? (cs ++ ']' :: rest) = some (cs, rest) := by
  induction cs with
  | nil => rfl
  | cons c cs ih =>
    obtain ⟨hc, hcs⟩ := List.forall_mem_cons.mp h
    rw [List.cons_append, inside?.eq_4 _ _ hc.2 hc.1, ih hcs]
    rfl

theorem tag?_bracket (cs : List Char) : tag? ('[' :: cs) = if cs.head?.any beginsTag then inside? cs else none := by
  cases cs with
  | nil => rfl
  | cons c cs =>
    change (if beginsTag c = true then _ else none) = _
    by_cases hc : beginsTag c = true
    · have hclose : c ≠ ']' := by
        rintro rfl
        cases hc
      have hopen : c ≠ '[' := by
        rintro rfl
        cases hc
      rw [if_pos hc, List.head?_cons, Option.any_some, if_pos hc, inside?.eq_4 _ _ hclose hopen]
    · rw [if_neg hc, List.head?_cons, Option.any_some, if_neg hc]

theorem tag?_of_ne (h : c ≠ '[') : tag? (c :: cs) = none :=
  tag?.eq_2 _ fun _ _ heq => h (List.cons.inj heq).1

theorem tag?_closing (h : ∀ c ∈ name, c ≠ '[' ∧ c ≠ ']') :
    tag? ('[' :: '/' :: (name ++ ']' :: rest)) = some ('/' :: name, rest) := by
  rw [tag?_bracket, if_pos (by rfl)]
  exact inside?_closed (List.forall_mem_cons.mpr ⟨by decide, h⟩)

/-- A text that begins with a tag is seen as what follows, with the styles that are open then. -/
theorem seen_of_first (h : tag? ('[' :: cs) = some (inside, after)) :
    seen styles (pieces ('[' :: cs)) = seen styles (.tag inside :: pieces after) := by
  rw [pieces]
  split
  · next h' =>
    cases h.symm.trans h'
    have hslashes : ('[' :: cs).takeWhile (· == '\\') = [] := rfl
    simp only [hslashes, List.length_nil, Nat.zero_mod, Nat.zero_ne_one, if_false, Nat.zero_div,
      List.replicate_zero, seen.eq_2, unescape]
    cases seen styles (.tag inside :: pieces after) <;> rfl
  · next h' => cases h.symm.trans h'

theorem seen_of_turned (h : tag? ('[' :: cs) = some (inside, after)) (hturned : turned styles inside = some left) :
    seen styles (pieces ('[' :: cs)) = seen left (pieces after) := by
  rw [seen_of_first h, seen_tag, hturned]

end Tags

section Bare

theorem tag?_bare (h : isBare cs = true) (hcs : cs ≠ []) : tag? ((cs ++ rest).dropWhile (· == '\\')) = none := by
  fun_induction isBare cs with
  | case1 => exact absurd rfl hcs
  | case2 cs ih =>
    rw [Bool.and_eq_true] at h
    rw [List.cons_append, List.dropWhile_cons_of_neg (by decide), tag?_bracket]
    cases cs with
    | nil => cases h.1
    | cons c cs =>
      rw [List.cons_append, List.head?_cons, Option.any_some, if_neg]
      simpa using h.1
  | case3 cs ih =>
    rw [Bool.and_eq_true] at h
    rw [List.cons_append, List.dropWhile_cons_of_pos (by decide)]
    refine ih h.2 ?_
    rintro rfl
    cases h.1
  | case4 c cs hbracket hslash ih =>
    rw [List.cons_append, List.dropWhile_cons_of_neg (by simpa using hslash), tag?_of_ne hbracket]

theorem pieces_cons (h : tag? ((c :: cs).dropWhile (· == '\\')) = none) : pieces (c :: cs) = push c (pieces cs) := by
  rw [pieces]
  split
  · next h' => cases h.symm.trans h'
  · rfl

theorem unescape_cons (h : c = '\\' → cs.head? ≠ some '[') : unescape (c :: cs) = c :: unescape cs := by
  refine unescape.eq_3 c cs ?_
  rintro rest rfl rfl
  exact h rfl rfl

/-- A character that does not escape the bracket behind it is seen. -/
theorem seen_push (h : c = '\\' → ∀ cs rest, ps = .plain cs :: rest → cs.head? ≠ some '[') :
    seen styles (push c ps) = (seen styles ps).map (c :: ·) := by
  rcases ps with _ | ⟨cs | inside, ps⟩
  · simp [push, seen, unescape, Except.map]
  · simp only [push, seen, unescape_cons fun hc => h hc cs ps rfl]
    cases seen styles ps <;> rfl
  · simp only [push, seen.eq_2, unescape]
    cases seen styles (.tag inside :: ps) <;> rfl

/-- The first piece begins as the text does, if no tag is next. -/
theorem head?_of_pieces {cs' : List Char} (h : tag? ((c :: cs).dropWhile (· == '\\')) = none)
    (hp : pieces (c :: cs) = .plain cs' :: ps) : cs'.head? = some c := by
  rw [pieces_cons h] at hp
  rcases hq : pieces cs with _ | ⟨more | inside, qs⟩
  · rw [hq] at hp
    cases hp
    rfl
  · rw [hq] at hp
    cases hp
    rfl
  · rw [hq] at hp
    cases hp
    rfl

/-- A bare text is seen as it is, and what follows is read as if it stood alone. -/
theorem seen_bare (h : isBare cs = true) :
    seen styles (pieces (cs ++ rest)) = (seen styles (pieces rest)).map (cs ++ ·) := by
  have hcons {c : Char} {cs : List Char} (hbare : isBare (c :: cs) = true)
      (hslash : c = '\\' → cs ≠ [] ∧ cs.head? ≠ some '[' ∧ isBare cs = true)
      (ih : seen styles (pieces (cs ++ rest)) = (seen styles (pieces rest)).map (cs ++ ·)) :
      seen styles (pieces (c :: (cs ++ rest))) = (seen styles (pieces rest)).map (c :: cs ++ ·) := by
    have htag : tag? ((c :: (cs ++ rest)).dropWhile (· == '\\')) = none :=
      tag?_bare hbare (List.cons_ne_nil _ _)
    rw [pieces_cons htag, seen_push, ih]
    · cases seen styles (pieces rest) <;> rfl
    · intro hc first more hfirst
      obtain ⟨hne, hhead, hcs⟩ := hslash hc
      obtain ⟨d, ds, rfl⟩ := List.exists_cons_of_ne_nil hne
      have hnone : tag? ((d :: ds ++ rest).dropWhile (· == '\\')) = none := tag?_bare hcs hne
      rw [head?_of_pieces hnone hfirst]
      exact hhead
  fun_induction isBare cs with
  | case1 => cases hr : seen styles (pieces rest) <;> simp [hr, Except.map]
  | case2 cs ih =>
    refine hcons (by rw [isBare]; exact h) (by rintro ⟨⟩) (ih ?_)
    exact ((Bool.and_eq_true _ _).mp h).2
  | case3 cs ih =>
    have hparts := (Bool.and_eq_true _ _).mp h
    refine hcons (by rw [isBare]; exact h) (fun _ => ⟨?_, ?_, hparts.2⟩) (ih hparts.2)
    · rintro rfl
      cases hparts.1
    · intro hhead
      rw [hhead] at hparts
      cases hparts.1
  | case4 c cs hbracket hslash ih =>
    exact hcons (by rw [isBare.eq_4 _ _ hbracket hslash]; exact h) (fun hc => absurd hc hslash) (ih h)

theorem seen_nil : seen styles (pieces []) = .ok [] := by
  rw [pieces]
  rfl

end Bare

section Styles

/-- The name of a style as it stands in a tag. -/
def isStyle (name : List Char) : Bool :=
  name.head?.any (fun c => 'a' ≤ c && c ≤ 'z') && name.all (fun c => c != '[' && c != ']' && c != '=') &&
    Text.strip (String.ofList name) == String.ofList name

theorem isStyle_of_mem (h : t ∈ Span.styles) : isStyle t.toList = true := by
  revert t
  decide

variable (hname : isStyle name = true)
include hname

theorem brackets_of_isStyle : ∀ c ∈ name, c ≠ '[' ∧ c ≠ ']' := by
  simp only [isStyle, Bool.and_eq_true, List.all_eq_true, bne_iff_ne] at hname
  exact fun c hc => (hname.1.2 c hc).1

theorem letter_of_isStyle : ∃ c rest, name = c :: rest ∧ 'a' ≤ c ∧ c ≤ 'z' := by
  simp only [isStyle, Bool.and_eq_true] at hname
  cases name with
  | nil => cases hname.1.1
  | cons c rest =>
    have hc := hname.1.1
    simp only [List.head?_cons, Option.any_some, Bool.and_eq_true, decide_eq_true_eq] at hc
    exact ⟨c, rest, rfl, hc⟩

theorem tag?_opening : tag? ('[' :: (name ++ ']' :: rest)) = some (name, rest) := by
  have hfirst : (name ++ ']' :: rest).head?.any beginsTag = true := by
    obtain ⟨c, more, rfl, hc⟩ := letter_of_isStyle hname
    simp [beginsTag, hc]
  rw [tag?_bracket, if_pos hfirst, inside?_closed (brackets_of_isStyle hname)]

theorem takeWhile_of_isStyle : name.takeWhile (· != '=') = name := by
  simp only [isStyle, Bool.and_eq_true, List.all_eq_true, bne_iff_ne] at hname
  rw [List.takeWhile_eq_self_iff]
  exact fun c hc => bne_iff_ne.mpr (hname.1.2 c hc).2

/-- The name of a style opens it. -/
theorem turned_style : turned styles name = some (Style.canonical (String.ofList name) :: styles) := by
  unfold turned
  rw [takeWhile_of_isStyle hname]
  obtain ⟨c, more, rfl, hc⟩ := letter_of_isStyle hname
  split
  · next h =>
    cases h
    exact absurd hc (by decide)
  · rfl

/-- With a slash in front it closes it. -/
theorem turned_style_end :
    turned (Style.canonical (String.ofList name) :: styles) ('/' :: name) = some styles := by
  have hsome : String.ofList name ≠ "" := by
    obtain ⟨c, more, rfl, -⟩ := letter_of_isStyle hname
    simp
  have hstrip : Text.strip (String.ofList name) = String.ofList name := by
    simp only [isStyle, Bool.and_eq_true, beq_iff_eq] at hname
    exact hname.2
  rw [turned, List.takeWhile_cons_of_pos (by decide), takeWhile_of_isStyle hname]
  simp only [hstrip, if_neg hsome, close?, if_true]

end Styles

section Spans

variable {s : Span} {spans : List Span}

/-- Of a part of a text all but its tags is seen, and no style is left open. -/
theorem seen_span (h : s.Proper) :
    seen [] (pieces (s.markup.toList ++ rest)) = (seen [] (pieces rest)).map (s.text.toList ++ ·) := by
  cases s with
  | plain t => exact seen_bare h
  | styled style t =>
    have hstyle := isStyle_of_mem h.1
    have hform : (Span.styled style t).markup.toList ++ rest =
        '[' :: (style.toList ++ ']' :: (t.toList ++ '[' :: '/' :: (style.toList ++ ']' :: rest))) := by
      simp [Span.markup]
    rw [hform]
    rw [seen_of_turned (tag?_opening hstyle) (turned_style hstyle), seen_bare h.2,
      seen_of_turned (tag?_closing (brackets_of_isStyle hstyle)) (turned_style_end hstyle)]
    rfl

theorem seen_markup (h : ∀ s ∈ spans, s.Proper) :
    seen [] (pieces ((markup spans).toList ++ rest)) = (seen [] (pieces rest)).map ((textOf spans).toList ++ ·) := by
  induction spans with
  | nil => cases hr : seen [] (pieces rest) <;> simp [markup, textOf, hr, Except.map]
  | cons s spans ih =>
    obtain ⟨hs, hspans⟩ := List.forall_mem_cons.mp h
    rw [markup, textOf, String.toList_append, String.toList_append, List.append_assoc, seen_span hs, ih hspans]
    cases seen [] (pieces rest) <;> simp [Except.map]

theorem markup_eq_textOf (h : '[' ∉ (markup spans).toList) : markup spans = textOf spans := by
  induction spans with
  | nil => rfl
  | cons s spans ih =>
    rw [markup, String.toList_append, List.mem_append, not_or] at h
    rw [markup, textOf, ih h.2]
    cases s with
    | plain t => rfl
    | styled style t => exact absurd (by simp [Span.markup]) h.1

theorem visible_markup (h : ∀ s ∈ spans, s.Proper) :
    visible (markup spans) = .ok ((textOf spans).toList.filter fun c => !isSilent c) := by
  unfold visible
  dsimp only
  split
  · have hseen : seen [] (pieces ((markup spans).toList ++ [])) = _ := seen_markup h
    rw [List.append_nil, seen_nil] at hseen
    rw [hseen]
    simp [Except.map]
  · next hnone =>
    rw [markup_eq_textOf (by simpa using hnone)]
    rfl

theorem isSilent_of_clear (h : isControl c = false) : isSilent c = false := by
  have hne : ∀ d : Char, isControl d = true → c ≠ d := by
    rintro d hd rfl
    exact absurd (hd.symm.trans h) nofun
  simp only [isSilent, Bool.or_eq_false_iff, beq_eq_false_iff_ne]
  exact ⟨⟨⟨⟨hne _ rfl, hne _ rfl⟩, hne _ rfl⟩, hne _ rfl⟩, hne _ rfl⟩

/-- Over a closing tag where nothing is open an error is raised. -/
theorem visible_closing (h : ∀ s ∈ spans, s.Proper) (hname : ∀ c ∈ name, c ≠ '[' ∧ c ≠ ']') {t : String}
    (ht : t.toList = (markup spans).toList ++ '[' :: '/' :: (name ++ ']' :: rest)) :
    ∃ message, visible t = .error message := by
  unfold visible
  dsimp only
  rw [if_pos (by simp [ht]), ht, seen_markup h, seen_of_first (tag?_closing hname), seen_tag, turned_nil_closing]
  exact ⟨_, rfl⟩

theorem readsTags : renderer.ReadsTags where
  shows h := ⟨_, visible_markup h⟩
  raises := by
    rintro spans _ h ⟨before, name, after, hbefore, hname, rfl⟩ ⟨cs, hshown⟩
    have hproper : ∀ s ∈ spans ++ [.plain before], s.Proper :=
      List.forall_mem_append.mpr ⟨h, List.forall_mem_singleton.mpr hbefore⟩
    have hlist : (markup spans ++ (before ++ ("[/" ++ name ++ "]" ++ after))).toList =
        (markup (spans ++ [.plain before])).toList ++ '[' :: '/' :: (name.toList ++ ']' :: after.toList) := by
      simp [markup_append, markup_plain]
    obtain ⟨message, hraised⟩ := visible_closing hproper hname hlist
    cases hraised.symm.trans hshown
  sees h hclear := by
    refine (visible_markup h).trans (congrArg Except.ok (List.filter_eq_self.mpr fun c hc => ?_))
    rw [isSilent_of_clear (hclear.2 c hc), Bool.not_false]

end Spans

end LoadPlan.Console.Tagged
