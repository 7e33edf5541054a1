import LoadPlan.Proofs.Number.Numerals
import LoadPlan.Proofs.Number.Rounding
import LoadPlan.Proofs.Scenario.Overriding

/-! The share of a controller: the number that the text of its last element for it begins with, under either spelling
of its name, or else the share of the settings. -/
namespace LoadPlan.Scenario

open LoadPlan.Description (Node)
open LoadPlan.Number (Decimal Double)
open LoadPlan.Text (isBlank)

namespace Controller

/-- The text for a share gives it, or the share of the settings is taken and a problem says why. -/
inductive Gives (settings : Settings) : Option String → Double → Option Problem → Prop
  | share {text lead d share} : Decimal.Longest (text.toList.dropWhile isBlank) lead d →
      Double.Rounds d.negative d.magnitude share → share.isFinite = true →
      Gives settings (some text) share none
  | absent : Gives settings none settings.defaultPercent (some (.noPercent settings.defaultPercent))
  | unread {text} : (∀ lead d, lead <+: text.toList.dropWhile isBlank → ¬Decimal.Numeral lead d) →
      Gives settings (some text) settings.defaultPercent (some (.badPercent text settings.defaultPercent))
  | infinite {text lead d} : Decimal.Longest (text.toList.dropWhile isBlank) lead d →
      Double.tooLarge ≤ d.magnitude →
      Gives settings (some text) settings.defaultPercent (some (.infinitePercent text settings.defaultPercent))

variable {settings : Settings} {field : Option String} {share : Double} {problem : Option Problem}

theorem Gives.kind (h : Gives settings field share problem) : ∀ p ∈ problem, p.kind = .defaulted := by
  cases h <;> simp [Problem.kind]

/-- At most one share is given. -/
theorem Gives.eq {other : Double} {why : Option Problem} (h : Gives settings field share problem)
    (h' : Gives settings field other why) : share = other ∧ problem = why := by
  cases h with
  | share hlead hrounds hfinite =>
    cases h' with
    | share hlead' hrounds' _ =>
      obtain rfl := hlead.unique hlead'
      exact ⟨hrounds.eq hrounds', rfl⟩
    | unread hno => exact absurd hlead.numeral (hno _ _ hlead.leads)
    | infinite hlead' hlarge =>
      obtain rfl := hlead.unique hlead'
      exact absurd (hrounds.isFinite_iff.mp hfinite) (not_lt.mpr hlarge)
  | absent =>
    cases h'
    exact ⟨rfl, rfl⟩
  | unread hno =>
    cases h' with
    | share hlead => exact absurd hlead.numeral (hno _ _ hlead.leads)
    | unread => exact ⟨rfl, rfl⟩
    | infinite hlead => exact absurd hlead.numeral (hno _ _ hlead.leads)
  | infinite hlead hlarge =>
    cases h' with
    | share hlead' hrounds hfinite =>
      obtain rfl := hlead.unique hlead'
      exact absurd (hrounds.isFinite_iff.mp hfinite) (not_lt.mpr hlarge)
    | unread hno => exact absurd hlead.numeral (hno _ _ hlead.leads)
    | infinite => exact ⟨rfl, rfl⟩

theorem shareOf_gives (settings : Settings) (n : Node) :
    ∃ problem, (shareOf settings n).2 = problem.toList ∧
      Gives settings ((n.last? "percent").or (n.last? "precent")) (shareOf settings n).1 problem := by
  have hor : (n.last? "percent" <|> n.last? "precent") = (n.last? "percent").or (n.last? "precent") :=
    Option.orElse_eq_or
  rw [shareOf, hor]
  cases (n.last? "percent").or (n.last? "precent") with
  | none => exact ⟨_, rfl, .absent⟩
  | some text =>
    rw [Controller.share]
    cases hread : Decimal.leading? text with
    | none => exact ⟨_, rfl, .unread (Decimal.leading?_eq_none_iff.mp hread)⟩
    | some d =>
      obtain ⟨lead, hlead⟩ := Decimal.leading?_eq_some_iff.mp hread
      dsimp only
      by_cases hfinite : d.toDouble.isFinite = true
      · rw [if_pos hfinite]
        exact ⟨none, rfl, .share hlead d.toDouble_rounds hfinite⟩
      · rw [if_neg hfinite]
        refine ⟨_, rfl, .infinite hlead (not_lt.mp fun hlt => hfinite ?_)⟩
        rw [Decimal.toDouble_eq]
        exact (Double.isFinite_ofMagnitude_iff_lt _ _).mpr hlt

end Controller

/-- A controller takes the double nearest to the longest numeral with which the text for its share begins after
blanks. Without such a text, without a numeral, or when the double would be infinite, it takes the share of the
settings, and there is just one report on that after those on its steps and its name. Neither spelling of the field is
left over. -/
theorem controller_share (ctx : Context) (n : Node) (log : Log) :
    let c := ((Controller.ofNode ctx n).run log).1
    let steps := (Controller.steps ctx n.children).run ⟨log.controllers + 1, log.diagnostics⟩
    let field := (n.last? "percent").or (n.last? "precent")
    ∃ problem,
      (∀ share why, Controller.Gives ctx.settings field share why ↔ c.percent = share ∧ problem = why) ∧
      (∀ p ∈ problem, p.kind = .defaulted) ∧
      ((Controller.ofNode ctx n).run log).2.diagnostics = steps.2.diagnostics ++
        ((if (n.last? "name").isNone then [⟨.noControllerName (nameOf log.controllers), n.place⟩] else []) ++
          problem.toList.map (⟨·, n.place⟩)) ∧
      ∀ name ∈ ["percent", "precent"], name ∉ c.extra.map Prod.fst := by
  intro c steps field
  obtain ⟨problem, hreports, hgives⟩ := Controller.shareOf_gives ctx.settings n
  have hrun := run_controller ctx n log
  have hc : c = Controller.around ctx.settings n log.controllers steps.1 := congrArg Prod.fst hrun
  refine ⟨problem, ?_, hgives.kind, ?_, ?_⟩
  · rw [hc]
    refine fun share why => ⟨hgives.eq, ?_⟩
    rintro ⟨rfl, rfl⟩
    exact hgives
  · rw [hrun, ← hreports]
    rfl
  · intro name hname
    have hleftover : Fields.Leftover Controller.known _ (Controller.extraOf n) :=
      (Fields.merges_ofPairs _).leftover Controller.known
    rw [hc]
    exact hleftover.unknown name (List.mem_cons_of_mem _ hname)

end LoadPlan.Scenario
