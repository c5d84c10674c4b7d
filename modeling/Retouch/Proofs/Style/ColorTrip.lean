import Retouch.Proofs.Style.Channel
import Retouch.Proofs.Style.ColorText

/-!
# Colors read back

A color that is written without special choices and read again as the value of any property is a color in the same
space. What becomes of its numbers depends on the space. Most are rounded to four decimals; those of `srgb` are
brought into the range of bytes, and the percentages of `hsl` are divided by a hundred and multiplied again.

## Main statements

* `comesBack_srgb_iff`, `comesBack_hsl_iff`: when colors of these two spaces read back to a hundredth.
* `comesBack_of_function`, `comesBack_displayP3`: colors of the other spaces always do.
* `comesBack_iff`: all of them together.
-/
namespace Retouch.Style

open Retouch.Text Retouch.Number

variable {x y : Float} {r : ℝ} {property : String} {color again : Color} {c : Channels} {alpha : Float}

/-- Written without special choices and read again as the value of the property, the color is one in the same space,
with channels and an opacity that differ by less than a hundredth. -/
def ComesBack (property : String) (color : Color) : Prop :=
  ∃ text again, (Value.color color).text = .ok text ∧ Value.parse property text = .color again ∧
    again.space = color.space ∧ Close color.channels.first again.channels.first ∧
    Close color.channels.second again.channels.second ∧ Close color.channels.third again.channels.third ∧
    Close color.alpha again.alpha

/-! ### Arguments that are numbers -/

theorem lowerChars_figures (figures : Figures) (tail : List Char) :
    lowerChars (figures.chars ++ tail) ≠ "none".toList := by
  obtain ⟨front, digit, last, -⟩ := figures.numeral.last
  obtain ⟨c, rest, eq⟩ := List.exists_cons_of_ne_nil (show figures.chars ≠ [] by simp [last])
  have first : (decide (c.toNat < 128) && decide (c.toLower ≠ 'n')) = true := by
    rcases figures.numeral.chars c (by simp [eq]) with digit | rfl | rfl
    · exact of_decimal (p := fun c => decide (c.toNat < 128) && decide (c.toLower ≠ 'n')) (by decide) digit
    · decide
    · decide
  simp only [Bool.and_eq_true, decide_eq_true_eq] at first
  intro same
  rw [eq, List.cons_append, lowerChars, lowerAfter, if_pos first.1] at same
  exact first.2 (List.cons.inj same).1

theorem channel?_figures (scale : Float) (figures : Figures) : channel? scale figures.chars = some figures.value := by
  have other := lowerChars_figures figures []
  have taken := takeNumber_figures figures .nil
  rw [List.append_nil] at other taken
  unfold channel?
  rw [if_neg other, taken]
  rfl

theorem channel?_percent (scale : Float) (figures : Figures) :
    channel? scale (figures.chars ++ ['%']) = some (figures.value / 100.0 * scale) := by
  have taken := takeNumber_figures figures (.unit .percent)
  have sign : LengthUnit.percent.name.toList = ['%'] := by decide
  rw [sign] at taken
  unfold channel?
  rw [if_neg (lowerChars_figures figures ['%']), taken]
  have unit : channelUnit? ['%'] = some .percent := rfl
  simp only [Option.bind_eq_bind, Option.bind_some, unit]

/-- Three numbers are written one by one. -/
theorem writeChannels_settles (finite : ∀ x ∈ c.toList, IsFinite x) :
    ∃ f g h : Figures, writeChannels 4 c = .ok (String.ofList (row [f.chars, g.chars, h.chars])) ∧
      Settles c.first f.value ∧ Settles c.second g.value ∧ Settles c.third h.value := by
  obtain ⟨f, written, settles⟩ := writeNumber_settles (finite c.first (by simp [Channels.toList]))
  obtain ⟨g, written', settles'⟩ := writeNumber_settles (finite c.second (by simp [Channels.toList]))
  obtain ⟨h, written'', settles''⟩ := writeNumber_settles (finite c.third (by simp [Channels.toList]))
  refine ⟨f, g, h, ?_, settles, settles', settles''⟩
  unfold writeChannels
  rw [written, written', written'']
  refine congrArg Except.ok (String.toList_inj.mp ?_)
  simp [String.toList_append, row]

/-! ### Opacities -/

/-- The opacity as it stands behind the other arguments. -/
def slashed : Option (List Char) → List Char
  | none => []
  | some opacity => ' ' :: '/' :: ' ' :: opacity

theorem row_parted {parts : List (List Char)} (filled : parts ≠ []) (opacity : Option (List Char)) :
    row (parted parts opacity) = row parts ++ slashed opacity := by
  cases opacity with
  | none => simp [parted, slashed]
  | some alpha => simp [parted, slashed, row_append filled]

/-- Bringing an opacity into range takes it no farther from one that is there. -/
theorem clampAlpha_denotes {t : ℝ} (stands : Denotes x t) : Denotes (clampAlpha x) (max 0 (min t 1)) := by
  unfold clampAlpha
  by_cases positive : 0 < t
  · rw [if_pos ((denotes_zero.lt_iff stands).mpr positive)]
    by_cases below : t < 1
    · rwa [if_pos ((stands.lt_iff denotes_one).mpr below), min_eq_left below.le, max_eq_right positive.le]
    · rw [if_neg (mt (stands.lt_iff denotes_one).mp below), min_eq_right (not_lt.mp below), max_eq_right zero_le_one]
      exact denotes_one
  · have below := not_lt.mp positive
    rw [if_neg (mt (denotes_zero.lt_iff stands).mp positive), min_eq_left (by linarith), max_eq_left below]
    exact denotes_zero

/-- A double that is not below 0 and at most 1 is finite. -/
theorem denotes_of_within (least : ¬x < 0.0) (most : x ≤ 1.0) : ∃ r, Denotes x r ∧ 0 ≤ r ∧ r ≤ 1 := by
  cases read : reading x with
  | nan =>
    rw [reading_eq, ofUnpacked_eq_nan_iff] at read
    obtain ⟨order, compared, -⟩ := le_iff_compare.mp most
    rw [read] at compared
    cases compared
  | infinite negative =>
    cases negative with
    | false =>
      have top : (reading x).value? = some ⊤ := by rw [read]; rfl
      exact absurd ((lt_iff_value denotes_one.value? top).mpr (EReal.coe_lt_top _)) (not_lt_of_le most)
    | true =>
      have bottom : (reading x).value? = some ⊥ := by rw [read]; rfl
      exact absurd ((lt_iff_value bottom denotes_zero.value?).mpr (EReal.bot_lt_coe _)) least
  | finite b =>
    have denotes : Denotes x b.value := ⟨b, read, rfl⟩
    have least := not_lt.mp (mt (denotes.lt_iff denotes_zero).mpr least)
    exact ⟨b.value, denotes, least, (denotes.le_iff denotes_one).mp most⟩

/-- An opacity that is written comes back. -/
theorem alphaPart_settles (least : 0.0 ≤ alpha) (most : alpha ≤ 1.0) : ∃ opacity again,
    (∀ token ∈ opacity, Piece token) ∧ alphaPart 4 alpha = .ok (String.ofList (slashed opacity)) ∧
      alpha? opacity = some again ∧ Close alpha (clampAlpha again) := by
  obtain ⟨a, denotes, least, most⟩ := denotes_of_within (not_lt_of_le least) most
  unfold alphaPart
  by_cases full : 1 ≤ a
  · have one : a = 1 := le_antisymm most full
    rw [if_pos ((denotes_one.le_iff denotes).mpr full)]
    refine ⟨none, 1.0, by simp, rfl, rfl, ?_⟩
    have back := clampAlpha_denotes denotes_one
    rw [close_iff denotes back, one]
    norm_num
  · rw [if_neg (mt (denotes_one.le_iff denotes).mp full)]
    obtain ⟨figures, written, settles⟩ := writeNumber_settles (isFinite_of_denotes denotes)
    obtain ⟨a', t, denotes', stands, near, -⟩ := settles
    obtain rfl := denotes.unique denotes'
    refine ⟨some figures.chars, figures.value, ?_, ?_, channel?_figures 1.0 figures, ?_⟩
    · intro token member
      exact Option.some.inj member ▸ piece_figures figures
    · rw [written]
      refine congrArg Except.ok (String.toList_inj.mp ?_)
      simp [String.toList_append, slashed]
    · rw [close_iff denotes (clampAlpha_denotes stands)]
      have near := abs_le.mp near
      norm_num at near
      rw [abs_lt]
      rcases le_total t 0 with below | above
      · rw [min_eq_left (by linarith), max_eq_left below]
        constructor <;> linarith
      rcases le_total t 1 with inside | beyond
      · rw [min_eq_left inside, max_eq_right above]
        constructor <;> linarith
      · rw [min_eq_right beyond, max_eq_right zero_le_one]
        constructor <;> linarith

/-! ### One space after the other -/

theorem text_color (color : Color) : (Value.color color).text = color.writeNative 4 := rfl

theorem convert_self (color : Color) : color.convert color.space = color := by
  unfold Color.convert Color.converted?
  rw [if_pos rfl]
  rfl

/-- Where the color that is read is known, only its channels have to be compared. -/
theorem comesBack_of {text : String} (written : (Value.color color).text = .ok text)
    (read : Value.parse property text = .color again) (same : again.space = color.space)
    (opacity : Close color.alpha again.alpha) :
    ComesBack property color ↔ Close color.channels.first again.channels.first ∧
      Close color.channels.second again.channels.second ∧ Close color.channels.third again.channels.third := by
  constructor
  · rintro ⟨text', again', written', read', -, first, second, third, -⟩
    obtain rfl := Except.ok.inj (written.symm.trans written')
    obtain rfl := Value.color.inj (read.symm.trans read')
    exact ⟨first, second, third⟩
  · rintro ⟨first, second, third⟩
    exact ⟨text, again, written, read, same, first, second, third, opacity⟩

section Spaces

variable (finite : ∀ x ∈ c.toList, IsFinite x) (least : 0.0 ≤ alpha) (most : alpha ≤ 1.0)

include finite least most

/-- Colors of `hsl` read back to a hundredth just where dividing and multiplying keeps their percentages. -/
theorem comesBack_hsl_iff :
    ComesBack property ⟨.hsl, c, alpha⟩ ↔ KeepsPercent c.second ∧ KeepsPercent c.third := by
  obtain ⟨f, written, settles⟩ := writeNumber_settles (finite c.first (by simp [Channels.toList]))
  obtain ⟨g, written', settles'⟩ := writeNumber_settles (finite c.second (by simp [Channels.toList]))
  obtain ⟨h, written'', settles''⟩ := writeNumber_settles (finite c.third (by simp [Channels.toList]))
  obtain ⟨opacity, again, argument, shown, back, close⟩ := alphaPart_settles least most
  have arguments : Arguments [f.chars, g.chars ++ ['%'], h.chars ++ ['%']] opacity :=
    ⟨by simp, by simp [piece_figures, piece_percent], argument⟩
  have text : (Value.color ⟨.hsl, c, alpha⟩).text = .ok (String.ofList (call "hsl".toList
      (row (parted [f.chars, g.chars ++ ['%'], h.chars ++ ['%']] opacity)))) := by
    rw [text_color, row_parted arguments.filled]
    unfold Color.writeNative Color.writeHsl
    dsimp only
    rw [convert_self ⟨.hsl, c, alpha⟩]
    dsimp only
    rw [written, written', written'', shown]
    refine congrArg Except.ok (String.toList_inj.mp ?_)
    simp [String.toList_append, row, call]
  have read : colorOfFunction? "hsl" (row (parted [f.chars, g.chars ++ ['%'], h.chars ++ ['%']] opacity)) =
      some (.make .hsl ⟨f.value, g.value / 100.0 * 100.0, h.value / 100.0 * 100.0⟩ again) := by
    unfold colorOfFunction?
    rw [splitArguments_row arguments]
    simp [back, channel?_figures, channel?_percent]
  rw [comesBack_of text (parse_function (by decide) arguments read property) rfl close]
  constructor
  · rintro ⟨-, second, third⟩
    exact ⟨(percent_close_iff settles').mp second, (percent_close_iff settles'').mp third⟩
  · rintro ⟨second, third⟩
    exact ⟨settles.close, (percent_close_iff settles').mpr second, (percent_close_iff settles'').mpr third⟩

/-- Translucent colors of `srgb` are written with `rgb`. -/
theorem comesBack_translucent (translucent : ¬1.0 ≤ alpha) :
    ComesBack property ⟨.srgb, c, alpha⟩ ↔ InRange c.first ∧ InRange c.second ∧ InRange c.third := by
  have bytes : ∀ x ∈ (c.map Color.clampByte).toList, IsFinite x := by
    have byte {x : Float} (finite : IsFinite x) : IsFinite (Color.clampByte x) := by
      obtain ⟨r, denotes⟩ := denotes_of_isFinite finite
      obtain ⟨t, stands, -⟩ := clampByte_byte denotes
      exact isFinite_of_denotes stands
    simp only [Channels.toList, Channels.map, List.forall_mem_cons] at finite ⊢
    exact ⟨byte finite.1, byte finite.2.1, byte finite.2.2.1, by simp⟩
  obtain ⟨f, g, h, written, settles, settles', settles''⟩ := writeChannels_settles bytes
  obtain ⟨opacity, again, argument, shown, back, close⟩ := alphaPart_settles least most
  have arguments : Arguments [f.chars, g.chars, h.chars] opacity := ⟨by simp, by simp [piece_figures], argument⟩
  have text : (Value.color ⟨.srgb, c, alpha⟩).text = .ok (String.ofList (call "rgb".toList
      (row (parted [f.chars, g.chars, h.chars] opacity)))) := by
    rw [text_color, row_parted arguments.filled]
    unfold Color.writeNative Color.writeRgb
    dsimp only
    rw [if_neg translucent, convert_self ⟨.srgb, c, alpha⟩]
    dsimp only
    rw [written, shown]
    refine congrArg Except.ok (String.toList_inj.mp ?_)
    simp [String.toList_append, row, call]
  have read : colorOfFunction? "rgb" (row (parted [f.chars, g.chars, h.chars] opacity)) =
      some (.make .srgb ⟨f.value / 255.0, g.value / 255.0, h.value / 255.0⟩ again) := by
    unfold colorOfFunction?
    rw [splitArguments_row arguments]
    simp [back, channel?_figures]
  rw [comesBack_of text (parse_function (by decide) arguments read property) rfl close]
  simp only [Channels.toList, List.forall_mem_cons] at finite
  exact and_congr (clampByte_close_iff finite.1 settles)
    (and_congr (clampByte_close_iff finite.2.1 settles') (clampByte_close_iff finite.2.2.1 settles''))

/-- Opaque colors of `srgb` are written as a code, which there is none for channels that are much too large. -/
theorem comesBack_opaque (full : 1.0 ≤ alpha) :
    ComesBack property ⟨.srgb, c, alpha⟩ ↔ InRange c.first ∧ InRange c.second ∧ InRange c.third := by
  have notBelow : ¬alpha < 1.0 := not_lt_of_le full
  have text : (Value.color ⟨.srgb, c, alpha⟩).text = (do
      let r ← hexPair c.first
      let g ← hexPair c.second
      let b ← hexPair c.third
      return "#" ++ r ++ g ++ b) := by
    rw [text_color]
    unfold Color.writeNative Color.writeHex
    dsimp only
    rw [if_pos full, convert_self ⟨.srgb, c, alpha⟩]
    dsimp only
    simp only [if_neg notBelow]
  have refused {e : WriteError} (failed : (Value.color ⟨.srgb, c, alpha⟩).text = .error e) :
      ¬ComesBack property ⟨.srgb, c, alpha⟩ := by
    rintro ⟨text, again, written, -⟩
    rw [failed] at written
    cases written
  simp only [Channels.toList, List.forall_mem_cons] at finite
  -- The first channel whose product is too large stops the writing, and is out of range.
  rcases hexPair_cases finite.1 with ⟨n, small, red, byte⟩ | ⟨failed, outside⟩
  case inr =>
    rw [failed] at text
    exact iff_of_false (refused text) fun inside => outside inside.1
  rcases hexPair_cases finite.2.1 with ⟨m, small', green, byte'⟩ | ⟨failed, outside⟩
  case inr =>
    rw [red, failed] at text
    exact iff_of_false (refused text) fun inside => outside inside.2.1
  rcases hexPair_cases finite.2.2.1 with ⟨k, small'', blue, byte''⟩ | ⟨failed, outside⟩
  case inr =>
    rw [red, green, failed] at text
    exact iff_of_false (refused text) fun inside => outside inside.2.2
  have shown : (Value.color ⟨.srgb, c, alpha⟩).text = .ok (String.ofList (code n m k)) := by
    rw [text, red, green, blue]
    refine congrArg Except.ok (String.toList_inj.mp ?_)
    simp [String.toList_append, code]
  obtain ⟨a, denotes, -, below⟩ := denotes_of_within (not_lt_of_le least) most
  have one : a = 1 := le_antisymm below ((denotes_one.le_iff denotes).mp full)
  have close : Close alpha (clampAlpha 1.0) := by
    rw [close_iff denotes (clampAlpha_denotes denotes_one), one]
    norm_num
  rw [comesBack_of shown (parse_code small small' small'' property) rfl close]
  exact and_congr byte (and_congr byte' byte'')

/-- Colors of `srgb` read back to a hundredth just where all channels are less than a hundredth out of range. -/
theorem comesBack_srgb_iff :
    ComesBack property ⟨.srgb, c, alpha⟩ ↔ InRange c.first ∧ InRange c.second ∧ InRange c.third := by
  by_cases full : 1.0 ≤ alpha
  · exact comesBack_opaque finite least most full
  · exact comesBack_translucent finite least most full

/-- Colors that are written with the function of their space always read back. -/
theorem comesBack_of_function {space : ColorSpace} (plain : space = .oklch ∨ space = .oklab) :
    ComesBack property ⟨space, c, alpha⟩ := by
  obtain ⟨f, g, h, written, settles, settles', settles''⟩ := writeChannels_settles finite
  obtain ⟨opacity, again, argument, shown, back, close⟩ := alphaPart_settles least most
  have arguments : Arguments [f.chars, g.chars, h.chars] opacity := ⟨by simp, by simp [piece_figures], argument⟩
  have text : (Value.color ⟨space, c, alpha⟩).text = .ok (String.ofList (call space.name.toList
      (row (parted [f.chars, g.chars, h.chars] opacity)))) := by
    have native : (Value.color ⟨space, c, alpha⟩).text = Color.writeFunction 4 space ⟨space, c, alpha⟩ := by
      rcases plain with rfl | rfl <;> rfl
    rw [native, row_parted arguments.filled]
    unfold Color.writeFunction
    dsimp only
    rw [convert_self ⟨space, c, alpha⟩]
    dsimp only
    rw [written, shown]
    refine congrArg Except.ok (String.toList_inj.mp ?_)
    simp [String.toList_append, row, call]
  have read : colorOfFunction? space.name (row (parted [f.chars, g.chars, h.chars] opacity)) =
      some (.make space ⟨f.value, g.value, h.value⟩ again) := by
    unfold colorOfFunction?
    rw [splitArguments_row arguments]
    rcases plain with rfl | rfl <;> simp [back, channel?_figures, ColorSpace.name]
  have known : space.name ∈ colorFunctions := by rcases plain with rfl | rfl <;> decide
  rw [comesBack_of text (parse_function known arguments read property) rfl close]
  exact ⟨settles.close, settles'.close, settles''.close⟩

/-- So do those that are written with the name of the space among the arguments. -/
theorem comesBack_displayP3 : ComesBack property ⟨.displayP3, c, alpha⟩ := by
  obtain ⟨f, g, h, written, settles, settles', settles''⟩ := writeChannels_settles finite
  obtain ⟨opacity, again, argument, shown, back, close⟩ := alphaPart_settles least most
  have space : Piece "display-p3".toList := piece_of_all (by decide)
  have arguments : Arguments ["display-p3".toList, f.chars, g.chars, h.chars] opacity :=
    ⟨by simp, by simpa [piece_figures] using space, argument⟩
  have text : (Value.color ⟨.displayP3, c, alpha⟩).text = .ok (String.ofList (call "color".toList
      (row (parted ["display-p3".toList, f.chars, g.chars, h.chars] opacity)))) := by
    rw [text_color, row_parted arguments.filled]
    unfold Color.writeNative
    dsimp only
    rw [written, shown]
    refine congrArg Except.ok (String.toList_inj.mp ?_)
    simp [String.toList_append, row, call, ColorSpace.name]
  have read : colorOfFunction? "color" (row (parted ["display-p3".toList, f.chars, g.chars, h.chars] opacity)) =
      some (.make .displayP3 ⟨f.value, g.value, h.value⟩ again) := by
    have lowered : lowerChars "display-p3".toList = "display-p3".toList := by decide +kernel
    have other : "display-p3".toList ≠ "srgb".toList := by decide
    unfold colorOfFunction?
    rw [splitArguments_row arguments]
    -- From here on only what is known of the name counts, not its characters.
    generalize "display-p3".toList = name at *
    simp only [back, Option.bind_some, lowered, if_neg other, decide_true, Bool.true_or, if_true, channel?_figures,
      Option.bind_eq_bind]
  rw [comesBack_of text (parse_function (by decide) arguments read property) rfl close]
  exact ⟨settles.close, settles'.close, settles''.close⟩

end Spaces

/-! ### All spaces -/

/-- The text of the color keeps its channels to a hundredth: shares of `srgb` are in range, and percentages of `hsl`
stay when they are divided and multiplied. -/
def Color.KeptByText (color : Color) : Prop :=
  match color.space with
  | .srgb => InRange color.channels.first ∧ InRange color.channels.second ∧ InRange color.channels.third
  | .hsl => KeepsPercent color.channels.second ∧ KeepsPercent color.channels.third
  | .oklch | .oklab | .displayP3 => True

/-- A color with finite channels and an opacity from 0 to 1 is read back to a hundredth, as the value of any property,
just where its text keeps the channels. -/
theorem comesBack_iff (property : String) (color : Color) (finite : ∀ x ∈ color.channels.toList, IsFinite x)
    (least : 0.0 ≤ color.alpha) (most : color.alpha ≤ 1.0) : ComesBack property color ↔ color.KeptByText := by
  obtain ⟨space, c, alpha⟩ := color
  cases space with
  | srgb => exact comesBack_srgb_iff finite least most
  | hsl => exact comesBack_hsl_iff finite least most
  | oklch => exact iff_of_true (comesBack_of_function finite least most (.inl rfl)) trivial
  | oklab => exact iff_of_true (comesBack_of_function finite least most (.inr rfl)) trivial
  | displayP3 => exact iff_of_true (comesBack_displayP3 finite least most) trivial

/-- A translucent color of `srgb`, with one channel that is a little out of range. -/
theorem comesBack_nearly_out_of_range :
    let color : Color := ⟨.srgb, ⟨0.5, 0.0, 1.0078125⟩, 0.25⟩
    (∀ x ∈ color.channels.toList, IsFinite x) ∧ 0.0 ≤ color.alpha ∧ color.alpha ≤ 1.0 ∧ ComesBack "color" color := by
  intro color
  have finite : ∀ x ∈ color.channels.toList, IsFinite x := by decide +kernel
  have least : 0.0 ≤ color.alpha := by decide +kernel
  have most : color.alpha ≤ 1.0 := by decide +kernel
  have first : Denotes 0.5 (1 / 2) := ⟨⟨false, 2 ^ 52, -53⟩, by decide +kernel, by norm_num [Binary.value]⟩
  have third : Denotes 1.0078125 (129 / 128) :=
    ⟨⟨false, 129 * 2 ^ 45, -52⟩, by decide +kernel, by norm_num [Binary.value]⟩
  refine ⟨finite, least, most, (comesBack_iff "color" color finite least most).mpr ⟨?_, ?_, ?_⟩⟩
  · exact ⟨1 / 2, first, by norm_num, by norm_num⟩
  · exact ⟨0, denotes_zero, by norm_num, by norm_num⟩
  · exact ⟨129 / 128, third, by norm_num, by norm_num⟩

/-- Finite colors with an opacity in range that are not read back: one is far out of the range of `srgb`, the other
has a very large percentage. -/
theorem not_comesBack_extreme :
    let red : Color := ⟨.srgb, ⟨2.0, 0.0, 0.0⟩, 1.0⟩
    let vivid : Color := ⟨.hsl, ⟨0.0, 109951162777609.0, 0.0⟩, 1.0⟩
    isColorProperty "color" = true ∧ ((∀ x ∈ red.channels.toList, IsFinite x) ∧ 0.0 ≤ red.alpha ∧ red.alpha ≤ 1.0 ∧
      ¬ComesBack "color" red) ∧ (∀ x ∈ vivid.channels.toList, IsFinite x) ∧ 0.0 ≤ vivid.alpha ∧ vivid.alpha ≤ 1.0 ∧
        ¬ComesBack "color" vivid := by
  intro red vivid
  have finite : ∀ x ∈ red.channels.toList, IsFinite x := by decide +kernel
  have finite' : ∀ x ∈ vivid.channels.toList, IsFinite x := by decide +kernel
  have least : (0.0 : Float) ≤ 1.0 := by decide +kernel
  have most : (1.0 : Float) ≤ 1.0 := by decide +kernel
  refine ⟨by decide +kernel, ⟨finite, least, most, fun back => ?_⟩, finite', least, most, fun back => ?_⟩
  · have two : Denotes 2.0 2 := ⟨⟨false, 2 ^ 52, -51⟩, by decide +kernel, by norm_num [Binary.value]⟩
    have inside := (inRange_iff two).mp ((comesBack_srgb_iff finite least most).mp back).1
    norm_num at inside
  · have before : Denotes 109951162777609.0 109951162777609 :=
      ⟨⟨false, 109951162777609 * 2 ^ 6, -6⟩, by decide +kernel, by norm_num [Binary.value]⟩
    have after : Denotes (109951162777609.0 / 100.0 * 100.0) (109951162777609 + 1 / 64) :=
      ⟨⟨false, 109951162777609 * 2 ^ 6 + 1, -6⟩, by decide +kernel, by norm_num [Binary.value]⟩
    rcases ((comesBack_hsl_iff finite' least most).mp back).1 with ⟨r, denotes, small⟩ | ⟨close⟩
    · rw [denotes.unique before] at small
      norm_num at small
    · have near := (close_iff before after).mp close
      norm_num at near

end Retouch.Style
