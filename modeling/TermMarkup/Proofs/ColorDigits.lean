/-
  TermMarkup.Proofs.ColorDigits
  ─────────────────────────────
  THE COLOR THAT DIGITS DENOTE.  A color written in digits denotes what its digits
  are worth: an index, three components, or three bytes in hexadecimal, of which
  one digit stands for two.  Whatever is no name and is read denotes a color, and
  the color read is that one, with one exception: three hexadecimal digits with a
  newline behind them are read as if the newline were a fourth digit, so none of
  them is doubled.

    • `Denotes` — what digits denote,
    • `ofHex_long`, `ofHex_short`, `ofHex_line` — hexadecimal digits and their bytes,
    • `foreground_denotes` — the color read is the one denoted,
    • `ofSpec_denotes` — colors without fractions.
-/
import TermMarkup.Proofs.ColorForms
import TermMarkup.Proofs.StyleCodes

namespace TermMarkup

/-! ## §1. Hexadecimal digits. -/

namespace Hexadecimal

/-- The characters of the text are hexadecimal digits of these values, one for each. -/
def Values (digits : Text) (values : List Nat) : Prop := digits.map value? = values.map some

theorem value?_lt {c : Char} {d : Nat} (h : value? c = some d) : d < 16 := by
  have hzero : '0'.toNat = 48 := rfl
  have hsmall : 'a'.toNat = 97 := rfl
  have hcapital : 'A'.toNat = 65 := rfl
  unfold value? at h
  split at h
  · next hc =>
    have hhigh : c.toNat ≤ 57 := hc.2
    obtain rfl := Option.some.inj h
    omega
  · split at h
    · next hc =>
      have hhigh : c.toNat ≤ 102 := hc.2
      obtain rfl := Option.some.inj h
      omega
    · split at h
      · next hc =>
        have hhigh : c.toNat ≤ 70 := hc.2
        obtain rfl := Option.some.inj h
        omega
      · exact nomatch h

namespace Values

variable {digits : Text} {values : List Nat} (h : Values digits values)
include h

theorem length : digits.length = values.length := by
  have hlength := congrArg List.length h
  rwa [List.length_map, List.length_map] at hlength

theorem isDigit : ∀ c ∈ digits, isDigit c = true := by
  intro c hc
  have hvalue : value? c ∈ values.map some := h ▸ List.mem_map_of_mem hc
  obtain ⟨d, -, hd⟩ := List.mem_map.mp hvalue
  unfold Hexadecimal.isDigit
  rw [← hd]
  rfl

theorem lt : ∀ d ∈ values, d < 16 := by
  intro d hd
  have hvalue : some d ∈ digits.map value? := h ▸ List.mem_map_of_mem hd
  obtain ⟨c, -, hc⟩ := List.mem_map.mp hvalue
  exact value?_lt hc

theorem filterMap : digits.filterMap value? = values := by
  have hvalues := congrArg (List.filterMap id) h
  simpa [List.filterMap_map] using hvalues

/-- Digits written twice have their values twice. -/
theorem doubled : Values (digits.flatMap fun c => [c, c]) (values.flatMap fun d => [d, d]) := by
  have hdouble := congrArg (List.flatMap fun v => [v, v]) h
  unfold Values
  simpa [List.flatMap_map, List.map_flatMap] using hdouble

end Values

end Hexadecimal

namespace ColorSpec

open Hexadecimal (Values)

/-- A number of six hexadecimal digits has three bytes of two digits each. -/
theorem ofHex_of_read {text : Text} {r r' g g' b b' : Nat} (hlength : text.length ≠ 3)
    (hread : Hexadecimal.read text = [r, r', g, g', b, b'].foldl (fun n d => 16 * n + d) 0)
    (hlt : ∀ d ∈ [r, r', g, g', b, b'], d < 16) :
    ofHex text = .rgb (16 * r + r' : Nat) (16 * g + g' : Nat) (16 * b + b' : Nat) := by
  simp only [List.forall_mem_cons] at hlt
  simp only [List.foldl_cons, List.foldl_nil] at hread
  have hred : Hexadecimal.read text / 0x10000 % 0x100 = 16 * r + r' := by omega
  have hgreen : Hexadecimal.read text / 0x100 % 0x100 = 16 * g + g' := by omega
  have hblue : Hexadecimal.read text % 0x100 = 16 * b + b' := by omega
  unfold ofHex
  dsimp only
  rw [if_neg hlength, hred, hgreen, hblue]

variable {digits tail : Text} {r r' g g' b b' : Nat}

/-- A newline behind hexadecimal digits does not count. -/
theorem read_tail (hend : atEnd tail = true) {values : List Nat} (h : Values digits values) :
    Hexadecimal.read (digits ++ tail) = values.foldl (fun n d => 16 * n + d) 0 := by
  have htail : tail.filterMap Hexadecimal.value? = [] := by
    rcases Bool.or_eq_true_iff.mp hend with h | h <;> obtain rfl := of_decide_eq_true h <;> rfl
  unfold Hexadecimal.read
  rw [List.filterMap_append, h.filterMap, htail, List.append_nil]

/-- **Six digits** are three bytes of two digits each. -/
theorem ofHex_long (h : Values digits [r, r', g, g', b, b']) (hend : atEnd tail = true) :
    ofHex (digits ++ tail)
      = .rgb (16 * r + r' : Nat) (16 * g + g' : Nat) (16 * b + b' : Nat) := by
  refine ofHex_of_read ?_ (read_tail hend h) h.lt
  have hsix : digits.length = 6 := h.length
  rw [List.length_append, hsix]
  omega

/-- **Three digits** stand for six, each written twice. -/
theorem ofHex_short (h : Values digits [r, g, b]) :
    ofHex digits = .rgb (17 * r : Nat) (17 * g : Nat) (17 * b : Nat) := by
  have hdouble : ofHex digits = ofHex ((digits.flatMap fun c => [c, c]) ++ []) := by
    have hthree : digits.length = 3 := h.length
    have hsix : (digits.flatMap fun c => [c, c]).length = 6 := h.doubled.length
    unfold ofHex
    dsimp only
    rw [if_pos hthree, if_neg (by rw [List.append_nil, hsix]; decide), List.append_nil]
  have htwice : ∀ d, 16 * d + d = 17 * d := by omega
  have hlong : ofHex ((digits.flatMap fun c => [c, c]) ++ [])
      = .rgb (16 * r + r : Nat) (16 * g + g : Nat) (16 * b + b : Nat) :=
    ofHex_long h.doubled rfl
  rw [hdouble, hlong, htwice, htwice, htwice]

/-- **Three digits with a newline behind them** stand for themselves, with three zeros in front. -/
theorem ofHex_line (h : Values digits [r, g, b]) :
    ofHex (digits ++ ['\n']) = .rgb (0 : Nat) r (16 * g + b : Nat) := by
  have hthree : digits.length = 3 := h.length
  have hlength : (digits ++ ['\n']).length ≠ 3 := by
    rw [List.length_append, hthree]
    decide
  have hread : Hexadecimal.read (digits ++ ['\n'])
      = [0, 0, 0, r, g, b].foldl (fun n d => 16 * n + d) 0 := (read_tail rfl h).trans rfl
  have hlt := h.lt
  have hbytes := ofHex_of_read hlength hread (by simpa using hlt)
  rwa [Nat.mul_zero, Nat.zero_add, Nat.zero_add] at hbytes

/-! ## §2. Triples. -/

/-- A whole component is the number that its digits write. -/
theorem ofWhole_eq_ok {spec digits : Text} (hd : digits.IsDecimal) (hne : digits ≠ []) {n : Nat}
    (h : ofWhole spec digits = .ok n) : n = digits.number := by
  unfold ofWhole at h
  rw [read_decimals hd hne] at h
  split at h
  · next m hm =>
    split at hm
    · exact nomatch hm
    · obtain rfl := Except.ok.inj hm
      exact (Except.ok.inj h).symm
  · exact nomatch h

/-- **A triple of whole numbers** has them as its components. -/
theorem ofTriple_eq_ok {spec r g b : Text} (hspec : IsTripleOf r g b spec) (hr : r.IsDecimal)
    (hg : g.IsDecimal) (hb : b.IsDecimal) {color : Color} (h : ofTriple spec = .ok color) :
    color = .rgb r.number g.number b.number := by
  have htriple := triple?_eq_some_iff.mpr hspec
  obtain ⟨x, y, z, tail, -, hx, hy, hz, -⟩ := hspec
  have hpoint : ∀ {digits : Text}, digits.IsDecimal → digits.contains '.' = false := by
    intro digits hd
    simpa using hd.notMem (by decide)
  have hwhole : ([r, g, b].any fun digits => digits.contains '.') = false := by
    simp only [List.any_cons, List.any_nil, hpoint hr, hpoint hg, hpoint hb, Bool.or_self]
  unfold ofTriple at h
  rw [htriple] at h
  dsimp only at h
  rw [hwhole] at h
  obtain ⟨nr, hnr, h⟩ := bind_eq_ok.mp h
  obtain ⟨ng, hng, h⟩ := bind_eq_ok.mp h
  obtain ⟨nb, hnb, h⟩ := bind_eq_ok.mp h
  obtain rfl := ofWhole_eq_ok hr hx.ne_nil hnr
  obtain rfl := ofWhole_eq_ok hg hy.ne_nil hng
  obtain rfl := ofWhole_eq_ok hb hz.ne_nil hnb
  split at h
  · exact nomatch h
  · exact (Except.ok.inj h).symm

/-! ## §3. Denoted colors. -/

/-- The color that digits denote. -/
inductive Denotes : Text → Color → Prop
  /-- Decimal digits denote the palette entry of their number. -/
  | index {digits : Text} :
    digits ≠ [] → digits.IsDecimal → Denotes digits (.palette digits.number)
  /-- A triple of decimal digits denotes the components that are their numbers. -/
  | triple {r g b spec : Text} :
    IsTripleOf r g b spec → r.IsDecimal → g.IsDecimal → b.IsDecimal →
    Denotes spec (.rgb r.number g.number b.number)
  /-- Three hexadecimal digits denote components of two equal digits. -/
  | short {digits tail : Text} {r g b : Nat} :
    Values digits [r, g, b] → atEnd tail = true →
    Denotes ('#' :: digits ++ tail) (.rgb (17 * r : Nat) (17 * g : Nat) (17 * b : Nat))
  /-- Six hexadecimal digits denote components of two digits. -/
  | long {digits tail : Text} {r r' g g' b b' : Nat} :
    Values digits [r, r', g, g', b, b'] → atEnd tail = true →
    Denotes ('#' :: digits ++ tail)
      (.rgb (16 * r + r' : Nat) (16 * g + g' : Nat) (16 * b + b' : Nat))

/-- What begins with neither a letter nor a digit is neither name nor index. -/
theorem foreground_of_begins {c : Char} (hlower : c.isLower = false)
    (hdigit : isDigitLike c = false) (rest : Text) :
    foreground (c :: rest) =
      if isTriple (c :: rest) then ofTriple (c :: rest)
      else if isHex (c :: rest) then .ok (ofHex rest)
      else .error (.unknownColor (c :: rest)) := by
  have hindex : isIndex (c :: rest) = .ok false := by
    unfold isIndex
    rw [List.all_cons, hdigit, Bool.false_and, Bool.and_false]
    rfl
  rw [foreground_of_not_isName (isName_of_begins hlower rest), hindex]
  rfl

/-- Hexadecimal digits, three or six, are read by their bytes. -/
theorem foreground_hex {digits tail : Text} {values : List Nat} (h : Values digits values)
    (hlength : values.length = 3 ∨ values.length = 6) (hend : atEnd tail = true) :
    foreground ('#' :: digits ++ tail) = .ok (ofHex (digits ++ tail)) := by
  have hhex : isHex ('#' :: digits ++ tail) = true :=
    isHex_iff.mpr ⟨digits, tail, rfl, h.isDigit, h.length ▸ hlength, hend⟩
  rw [List.cons_append] at hhex ⊢
  have htriple : isTriple ('#' :: (digits ++ tail)) = false := rfl
  rw [foreground_of_begins (by decide) (by decide), htriple, if_neg Bool.false_ne_true,
    if_pos hhex]

/-- Decimal digits are read as an index. -/
theorem foreground_index {digits : Text} (hd : digits.IsDecimal) (hne : digits ≠ [])
    {color : Color} (h : foreground digits = .ok color) : color = .palette digits.number := by
  have hname : isName digits = false := by
    obtain ⟨d, ds, rfl⟩ := List.exists_cons_of_ne_nil hne
    exact isName_of_begins (not_isLower_of_isDigitLike (hd.digitLike d List.mem_cons_self)) ds
  rcases foreground_cases hname h with ⟨-, hcolor⟩ | ⟨htriple, -⟩ | ⟨hhex, -⟩
  · exact hcolor
  · obtain ⟨⟨r, g, b⟩, hparts⟩ := Option.isSome_iff_exists.mp htriple
    obtain ⟨x, y, z, tail, rfl, -⟩ := triple?_eq_some_iff.mp hparts
    exact absurd (by simp) (hd.notMem (c := '(') (by decide))
  · obtain ⟨digits', tail, rfl, -⟩ := isHex_iff.mp hhex
    exact absurd (by simp) (hd.notMem (c := '#') (by decide))

/-- A triple is read by its components. -/
theorem foreground_triple {r g b spec : Text} (hspec : IsTripleOf r g b spec) (hr : r.IsDecimal)
    (hg : g.IsDecimal) (hb : b.IsDecimal) {color : Color} (h : foreground spec = .ok color) :
    color = .rgb r.number g.number b.number := by
  have htriple : isTriple spec = true :=
    Option.isSome_iff_exists.mpr ⟨_, triple?_eq_some_iff.mpr hspec⟩
  refine ofTriple_eq_ok hspec hr hg hb ?_
  obtain ⟨x, y, z, tail, rfl, -⟩ := hspec
  simp only [List.cons_append] at htriple h ⊢
  rwa [foreground_of_begins (by decide) (by decide), if_pos htriple] at h

/-- Three hexadecimal digits with a newline behind them: digits that are never doubled. -/
def IsShortLine (spec : Text) : Prop :=
  ∃ digits, digits.length = 3 ∧ spec = '#' :: digits ++ ['\n']

/-- **The color read is the one that the digits denote**, short lines apart. -/
theorem foreground_denotes {spec : Text} {color denoted : Color} (h : foreground spec = .ok color)
    (hdenoted : Denotes spec denoted) (hline : ¬IsShortLine spec) : color = denoted := by
  cases hdenoted with
  | index hne hd => exact foreground_index hd hne h
  | triple hspec hr hg hb => exact foreground_triple hspec hr hg hb h
  | @short digits tail r g b hvalues hend =>
    rw [foreground_hex hvalues (.inl rfl) hend] at h
    rcases Bool.or_eq_true_iff.mp hend with hnil | hnewline
    · obtain rfl := of_decide_eq_true hnil
      rw [List.append_nil, ofHex_short hvalues] at h
      exact (Except.ok.inj h).symm
    · obtain rfl := of_decide_eq_true hnewline
      exact absurd ⟨digits, hvalues.length, rfl⟩ hline
  | long hvalues hend =>
    rw [foreground_hex hvalues (.inr rfl) hend, ofHex_long hvalues hend] at h
    exact (Except.ok.inj h).symm

/-- A component without a point is whole. -/
theorem Holds.isDecimal {field digits : Text} (h : Holds field digits) (hpoint : '.' ∉ field) :
    digits.IsDecimal := by
  obtain ⟨before, after, rfl, -⟩ := h.margins
  intro c hc
  rcases Bool.or_eq_true_iff.mp (h.chars c hc) with hdecimal | hc'
  · exact hdecimal
  · obtain rfl : c = '.' := by simpa using hc'
    exact absurd (List.mem_append_left _ (List.mem_append_right _ hc)) hpoint

/-- Hexadecimal digits have values. -/
theorem exists_values {digits : Text} (h : ∀ c ∈ digits, Hexadecimal.isDigit c = true) :
    ∃ values, Values digits values := by
  induction digits with
  | nil => exact ⟨[], rfl⟩
  | cons c digits ih =>
    obtain ⟨d, hd⟩ := Option.isSome_iff_exists.mp (h c List.mem_cons_self)
    obtain ⟨values, hvalues⟩ := ih fun c hc => h c (List.mem_cons_of_mem _ hc)
    exact ⟨d :: values, congrArg₂ List.cons hd hvalues⟩

/-- **What is read without fractions denotes a color**, unless it is a name. -/
theorem exists_denotes {spec : Text} {color : Color} (hpoint : '.' ∉ spec)
    (hname : isName spec = false) (h : foreground spec = .ok color) :
    ∃ denoted, Denotes spec denoted := by
  rcases foreground_cases hname h with ⟨hindex, -⟩ | ⟨htriple, -⟩ | ⟨hhex, -⟩
  · obtain ⟨hne, hdecimal, -⟩ := isIndex_eq_true_iff.mp hindex
    exact ⟨_, .index hne hdecimal⟩
  · obtain ⟨⟨r, g, b⟩, hparts⟩ := Option.isSome_iff_exists.mp htriple
    obtain ⟨x, y, z, tail, rfl, hx, hy, hz, -⟩ := triple?_eq_some_iff.mp hparts
    exact ⟨_, .triple (triple?_eq_some_iff.mp hparts) (hx.isDecimal fun hc => hpoint (by simp [hc]))
      (hy.isDecimal fun hc => hpoint (by simp [hc]))
      (hz.isDecimal fun hc => hpoint (by simp [hc]))⟩
  · obtain ⟨digits, tail, rfl, hdigits, hlength, hend⟩ := isHex_iff.mp hhex
    obtain ⟨values, hvalues⟩ := exists_values hdigits
    rw [hvalues.length] at hlength
    rcases hlength with hthree | hsix
    · obtain ⟨r, g, b, rfl⟩ := List.length_eq_three.mp hthree
      exact ⟨_, .short hvalues hend⟩
    · match values, hsix with
      | [r, r', g, g', b, b'], _ => exact ⟨_, .long hvalues hend⟩

/-- **A color without fractions is the one that its digits denote.**  A specification without points
that is read, and is no name when its spaces are removed, denotes a color, and this is the color
read, except for three hexadecimal digits with a newline behind them: these are read as if three
zeros were in front of them.  The components of every color are from 0 to 255. -/
theorem ofSpec_denotes {spec : Text} {color : Color} (hpoint : '.' ∉ spec)
    (h : Color.ofSpec spec .fore = .ok color) :
    (∀ denoted, Denotes (Text.removeSpaces spec) denoted →
        ¬IsShortLine (Text.removeSpaces spec) → color = denoted)
      ∧ (∀ digits r g b, Values digits [r, g, b] →
          Text.removeSpaces spec = '#' :: digits ++ ['\n'] →
          color = .rgb (0 : Nat) r (16 * g + b : Nat))
      ∧ (isName (Text.removeSpaces spec) = false →
          ∃ denoted, Denotes (Text.removeSpaces spec) denoted)
      ∧ color.InRange := by
  have hread : foreground (Text.removeSpaces spec) = .ok color := h
  refine ⟨fun denoted hdenoted hline => foreground_denotes hread hdenoted hline, ?_, ?_,
    ofSpec_inRange h⟩
  · intro digits r g b hvalues hspec
    rw [hspec, foreground_hex hvalues (.inl rfl) rfl, ofHex_line hvalues] at hread
    exact (Except.ok.inj hread).symm
  · intro hname
    exact exists_denotes (fun hc => hpoint (List.mem_filter.mp hc).1) hname hread

/-- A triple with spaces, a leading zero and a digit of another script. -/
theorem ofSpec_denotes_spaced :
    '.' ∉ "( 1, 02,٣ )".toList
      ∧ Color.ofSpec "( 1, 02,٣ )".toList .fore = .ok (.rgb 1 2 3)
      ∧ Denotes "(1,02,٣)".toList (.rgb 1 2 3) := by
  have hpoint : '.' ∉ "( 1, 02,٣ )".toList := by decide
  have hread : Color.ofSpec "( 1, 02,٣ )".toList .fore = .ok (.rgb 1 2 3) := by decide +kernel
  have hspec : Text.removeSpaces "( 1, 02,٣ )".toList = "(1,02,٣)".toList := by decide
  obtain ⟨hdenoted, -, hexists, -⟩ := ofSpec_denotes hpoint hread
  rw [hspec] at hdenoted hexists
  obtain ⟨denoted, hd⟩ := hexists (isName_of_begins (by decide) _)
  have hline : ¬IsShortLine "(1,02,٣)".toList := by
    rintro ⟨digits, -, heq⟩
    exact nomatch congrArg List.head? heq
  exact ⟨hpoint, hread, hdenoted denoted hd hline ▸ hd⟩

/-- Three hexadecimal digits and a newline denote white, and are read as a shade of blue. -/
theorem short_line_read_as_blue :
    Denotes "#fff\n".toList (.rgb 255 255 255)
      ∧ Color.ofSpec "#fff\n".toList .fore = .ok (.rgb 0 15 255) := by
  have hwhite : Denotes ('#' :: ['f', 'f', 'f'] ++ ['\n'])
      (.rgb (17 * 15 : Nat) (17 * 15 : Nat) (17 * 15 : Nat)) := .short rfl rfl
  exact ⟨hwhite, by decide +kernel⟩

end ColorSpec

end TermMarkup
