/-
  TermMarkup.Proofs.RoleStyles
  ────────────────────────────
  WHAT A ROLE STANDS FOR.  The style of a role is cut into words at every blank,
  the body of a tag into style words, which keep a color triple together.  A word
  between blanks that has a pair of codes is no part of a triple: it stands alone,
  so a style of such words is cut in one way only.  Hence a style with a SPACED
  triple is good in a tag and no good for a role.

    • `standsAlone_of_isColor` — colors without blanks,
    • `resolvePlain_eq_ok_iff` — the pair of a word does not depend on its tag,
    • `resolve_role_eq_ok_iff` — when a role has pairs, and which.
-/
import TermMarkup.Proofs.ColorForms
import TermMarkup.Proofs.StyleWords
import TermMarkup.Style
import Mathlib.Data.List.Basic

namespace TermMarkup

/-! ## §1. Colors without blanks. -/

theorem Text.removeSpaces_of_notMem {w : Text} (h : ' ' ∉ w) : removeSpaces w = w :=
  List.filter_eq_self.mpr fun c hc => by simpa using fun heq : c = ' ' => h (heq ▸ hc)

/-- A text without blanks has no spaces to remove. -/
theorem Text.removeSpaces_eq_self {w : Text} (hb : ∀ c ∈ w, isBlank c = false) :
    removeSpaces w = w :=
  removeSpaces_of_notMem fun hmem => absurd (hb ' ' hmem) (by decide)

namespace ColorSpec

/-- The empty text is no color. -/
theorem isColor_nil : isColor [] = .ok false := by
  unfold isColor
  rw [isName_nil]
  rfl

variable {w : Text}

theorem standsAlone_of_isName (h : isName w = true) : w.StandsAlone :=
  .of_plain fun _ hc => Text.plain_of_class (by decide)
    (List.all_eq_true.mp (spelled_of_isName h).chars _ hc)

theorem standsAlone_of_isIndex (h : isIndex w = .ok true) : w.StandsAlone :=
  .of_plain fun c hc => Text.plain_of_class (by decide) ((isIndex_eq_true_iff.mp h).2.1 c hc)

variable (hb : ∀ c ∈ w, isBlank c = false)
include hb

/-- A color form may end in a newline, which is a blank. -/
theorem end_eq_nil {t : Text} (ht : t <:+ w) (h : atEnd t = true) : t = [] := by
  rcases Bool.or_eq_true_iff.mp h with h | h
  · exact of_decide_eq_true h
  · obtain rfl := of_decide_eq_true h
    exact absurd (hb '\n' (ht.subset List.mem_cons_self)) (by decide)

theorem standsAlone_of_isTriple (h : isTriple w = true) : w.StandsAlone := by
  obtain ⟨⟨r, g, b⟩, hparts⟩ := Option.isSome_iff_exists.mp h
  obtain ⟨x, y, z, tail, rfl, -, -, -, hend⟩ := triple?_eq_some_iff.mp hparts
  -- only a newline could stand behind the bracket
  obtain rfl := end_eq_nil hb ((List.suffix_cons _ _).trans (List.suffix_append _ _)) hend
  constructor
  · intro c hc
    obtain rfl : '(' = c := Option.some.inj hc
    decide
  · intro c hc
    rw [List.getLast?_concat] at hc
    obtain rfl : ')' = c := Option.some.inj hc
    decide

theorem standsAlone_of_isHex (h : isHex w = true) : w.StandsAlone := by
  obtain ⟨digits, tail, rfl, hdigits, -, hend⟩ := isHex_iff.mp h
  obtain rfl := end_eq_nil hb (List.suffix_append _ _) hend
  refine .of_plain fun c hc => ?_
  rw [List.append_nil] at hc
  rcases List.mem_cons.mp hc with rfl | hc
  · decide
  · exact Text.plain_of_class (by decide) (hdigits c hc)

/-- **A color without blanks stands alone.** -/
theorem standsAlone_of_isColor (h : isColor w = .ok true) : w.StandsAlone := by
  unfold isColor at h
  split at h
  · next hname => exact standsAlone_of_isName hname
  · obtain ⟨index, hindex, h⟩ := bind_eq_ok.mp h
    have h : (index || isTriple w || isHex w) = true := Except.ok.inj h
    rcases Bool.or_eq_true_iff.mp h with h | hhex
    · rcases Bool.or_eq_true_iff.mp h with htrue | htriple
      · exact standsAlone_of_isIndex (htrue ▸ hindex)
      · exact standsAlone_of_isTriple hb htriple
    · exact standsAlone_of_isHex hb hhex

theorem standsAlone_of_isBackground (h : isBackground w = .ok true) : w.StandsAlone := by
  unfold isBackground at h
  rw [Text.removeSpaces_eq_self hb] at h
  split at h
  · next color hcolor =>
    obtain rfl := Text.eq_append_of_after? hcolor
    -- the mark begins the word and the color ends it
    have hne : color ≠ [] := by
      rintro rfl
      rw [isColor_nil] at h
      exact nomatch h
    have halone := standsAlone_of_isColor (fun c hc => hb c (List.mem_append_right _ hc)) h
    refine ⟨?_, fun c hc => halone.2 c ?_⟩
    · intro c hc
      obtain rfl : 'o' = c := Option.some.inj hc
      decide
    · rwa [List.getLast?_append_of_ne_nil _ hne] at hc
  · exact nomatch h

end ColorSpec

/-! ## §2. Words with a pair. -/

namespace Style

variable {theme : Theme} {tag word : Text}

/-- **The pair of a word** is that of its attribute, else that of its color. -/
theorem resolvePlain_eq_ok_iff {pair : StylePair} :
    resolvePlain tag word = .ok pair ↔
      attribute? word = some pair ∨ attribute? word = none ∧ color? word = .ok (some pair) := by
  unfold resolvePlain
  cases attribute? word with
  | some pair' => simp
  | none =>
    cases color? word with
    | error fault => simp
    | ok pair? => cases pair? <;> simp

/-- A color word has the form of a color, marked as background or not. -/
theorem isColor_of_color? {pair : StylePair} (h : color? word = .ok (some pair)) :
    ColorSpec.isBackground word = .ok true ∨ ColorSpec.isColor word = .ok true := by
  unfold color? at h
  obtain ⟨back, hback, h⟩ := bind_eq_ok.mp h
  split at h
  · next htrue => exact .inl (htrue ▸ hback)
  · obtain ⟨fore, hfore, h⟩ := bind_eq_ok.mp h
    split at h
    · next htrue => exact .inr (htrue ▸ hfore)
    · exact nomatch h

/-- **A word without blanks that has a pair stands alone.** -/
theorem standsAlone_of_resolvePlain {pair : StylePair} (hb : ∀ c ∈ word, isBlank c = false)
    (h : resolvePlain tag word = .ok pair) : word.StandsAlone := by
  rcases resolvePlain_eq_ok_iff.mp h with h | ⟨-, h⟩
  · obtain ⟨entry, hfind, -⟩ := Option.map_eq_some_iff.mp h
    have hall : ∀ entry ∈ attributes, entry.1.StandsAlone := by decide
    obtain rfl : entry.1 = word := by simpa using List.find?_some hfind
    exact hall entry (List.mem_of_find?_eq_some hfind)
  · rcases isColor_of_color? h with hback | hfore
    · exact ColorSpec.standsAlone_of_isBackground hb hback
    · exact ColorSpec.standsAlone_of_isColor hb hfore

/-! ## §3. Roles. -/

/-- Every role is found by its name. -/
theorem styleFor?_name (theme : Theme) (role : Role) :
    theme.styleFor? role.name = some (theme.style role) := by
  cases role <;> rfl

/-- The words of a role's style are resolved one by one, for one tag. -/
theorem resolve_name (theme : Theme) (tag : Text) (role : Role) :
    ∃ tag', resolve theme tag role.name
      = (Text.words (theme.style role)).mapM (resolvePlain tag') := by
  refine ⟨if tag.isEmpty then (Mark.tag false role.name).source else tag, ?_⟩
  unfold resolve
  dsimp only
  rw [styleFor?_name]

/-- The name of a role is neither an attribute nor a color. -/
theorem color?_name (role : Role) : attribute? role.name = none ∧ color? role.name = .ok none := by
  have hall : ∀ role ∈ Role.all, attribute? role.name = none ∧ color? role.name = .ok none := by
    decide +kernel
  exact hall role (by cases role <;> decide)

/-- A word with a pair of its own names no role. -/
theorem styleFor?_of_resolvePlain {pair : StylePair} (h : resolvePlain tag word = .ok pair) :
    theme.styleFor? word = none := by
  cases hrole : Role.ofName? word with
  | none => exact congrArg (Option.map _) hrole
  | some role =>
    obtain rfl : role.name = word := by simpa using List.find?_some hrole
    obtain ⟨hattribute, hcolor⟩ := color?_name role
    rcases resolvePlain_eq_ok_iff.mp h with h | ⟨-, h⟩
    · exact nomatch hattribute.symm.trans h
    · exact nomatch hcolor.symm.trans h

/-- A word that names no role has its own pair and no other. -/
theorem resolve_eq_ok_iff (hword : theme.styleFor? word = none) (tag' : Text)
    {pairs : List StylePair} :
    resolve theme tag word = .ok pairs ↔
      ∃ pair, resolvePlain tag' word = .ok pair ∧ pairs = [pair] := by
  unfold resolve
  dsimp only
  rw [hword]
  constructor
  · intro h
    obtain ⟨pair, hpair, h⟩ := bind_eq_ok.mp h
    exact ⟨pair, resolvePlain_eq_ok_iff.mpr (resolvePlain_eq_ok_iff.mp hpair),
      (Except.ok.inj h).symm⟩
  · rintro ⟨pair, hpair, rfl⟩
    exact bind_eq_ok.mpr ⟨pair, resolvePlain_eq_ok_iff.mpr (resolvePlain_eq_ok_iff.mp hpair), rfl⟩

/-- Words that name no role have their own pairs, in order. -/
theorem mapM_resolve_eq_ok_iff {ws : List Text} (hws : ∀ w ∈ ws, theme.styleFor? w = none)
    (tag' : Text) {pairs : List StylePair} :
    (∃ each, ws.mapM (resolve theme tag) = .ok each ∧ pairs = each.flatten) ↔
      ws.mapM (resolvePlain tag') = .ok pairs := by
  induction ws generalizing pairs with
  | nil =>
    simp only [mapM_nil_eq_ok]
    simp
  | cons w ws ih =>
    have hw := hws w List.mem_cons_self
    have ih := @ih fun w' hw' => hws w' (List.mem_cons_of_mem _ hw')
    constructor
    · rintro ⟨each, heach, rfl⟩
      obtain ⟨first, rest, hfirst, hrest, rfl⟩ := mapM_cons_eq_ok.mp heach
      obtain ⟨pair, hpair, rfl⟩ := (resolve_eq_ok_iff hw tag').mp hfirst
      exact mapM_cons_eq_ok.mpr ⟨pair, rest.flatten, hpair, ih.mp ⟨rest, hrest, rfl⟩, rfl⟩
    · intro h
      obtain ⟨pair, others, hpair, hothers, rfl⟩ := mapM_cons_eq_ok.mp h
      obtain ⟨rest, hrest, rfl⟩ := ih.mpr hothers
      have hfirst : resolve theme tag w = .ok [pair] :=
        (resolve_eq_ok_iff hw tag').mpr ⟨pair, hpair, rfl⟩
      exact ⟨[pair] :: rest, mapM_cons_eq_ok.mpr ⟨_, _, hfirst, hrest, rfl⟩, rfl⟩

/-- **What a role stands for.**  A role has pairs exactly if its style, as the body of a tag, has
the same words, none of which names a role, and each of them has its pair; these, in order, are then
the pairs of the role. -/
theorem resolve_role_eq_ok_iff {role : Role} {pairs : List StylePair} :
    resolve theme tag role.name = .ok pairs ↔
      Text.styleWords (theme.style role) = Text.words (theme.style role)
        ∧ (∀ w ∈ Text.styleWords (theme.style role), theme.styleFor? w = none)
        ∧ ∃ each, (Text.styleWords (theme.style role)).mapM (resolve theme tag) = .ok each
            ∧ pairs = each.flatten := by
  obtain ⟨tag', hrole⟩ := resolve_name theme tag role
  rw [hrole]
  constructor
  · intro h
    have hwords := forall_of_mapM_eq_ok h
    -- each word has a pair, so it stands alone, and all of them are cut alike
    have hsame : Text.styleWords (theme.style role) = Text.words (theme.style role) := by
      refine Text.styleWords_eq_words fun w hw => ?_
      obtain ⟨pair, hpair⟩ := hwords w hw
      exact standsAlone_of_resolvePlain (Text.mem_words hw).2 hpair
    rw [hsame]
    have hplain : ∀ w ∈ Text.words (theme.style role), theme.styleFor? w = none := by
      intro w hw
      obtain ⟨pair, hpair⟩ := hwords w hw
      exact styleFor?_of_resolvePlain hpair
    exact ⟨rfl, hplain, (mapM_resolve_eq_ok_iff hplain tag').mpr h⟩
  · rintro ⟨hsame, hplain, heach⟩
    rw [hsame] at hplain heach
    exact (mapM_resolve_eq_ok_iff hplain tag').mp heach

/-- A triple with spaces is one word of a tag, and the role of this style has no pairs. -/
theorem role_splits_triple :
    let theme := Theme.standard.set .info "(255, 0, 0)".toList
    Text.styleWords (theme.style .info) = ["(255,0,0)".toList]
      ∧ theme.styleFor? "(255,0,0)".toList = none
      ∧ resolve theme [] "(255,0,0)".toList
          = .ok [⟨"\x1b[38;2;255;0;0m".toList, "\x1b[39m".toList⟩]
      ∧ resolve theme [] "info".toList
          = .error (.unknownStyle "(255,".toList "\x7binfo\x7d".toList) := by
  decide +kernel

end Style

end TermMarkup
