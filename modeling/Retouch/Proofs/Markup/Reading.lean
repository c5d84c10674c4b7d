import Retouch.Proofs.Markup.Lexis
import Retouch.Proofs.Text.Blank

/-!
# What markup is read as

The pieces of a source, joined, are the source, whatever is read and however far reading goes. Elements begin
and end with the signs of their tags, and between their children there is no such sign outside the children
that hold one.

## Main statements

* `keeping`: no reading loses a character.
* `charsOf_parse`: the characters of the pieces of a source are the source.
* `formed_parse`: how the elements of a source begin and end.
-/
namespace Retouch.Markup

/-- No sign stands in a text that ends it, a reference is one, and gaps are blank. -/
def Piece.Mild : Piece → Prop
  | .code cs => ∀ c ∈ cs, Text.isBlank c = true
  | .text cs => ∀ c ∈ cs, endsText c = false
  | .reference cs => cutReference cs = some (cs, [])
  | _ => True

/-- What is no text is blank. -/
theorem blank_of_isText {cs : List Char} (none : isText false cs = false) : ∀ c ∈ cs, Text.isBlank c = true := by
  have fresh (cs : List Char) (none : isText true cs = false) : ∀ c ∈ cs, Text.isBlank c = true := by
    induction cs with
    | nil => simp
    | cons d rest ih =>
      rw [isText] at none
      split at none
      · rename_i feed
        subst feed
        intro c member
        rcases List.mem_cons.mp member with rfl | later
        · decide
        · exact ih none c later
      · simp only [Bool.true_and, Bool.or_eq_false_iff, Bool.not_eq_false'] at none
        intro c member
        rcases List.mem_cons.mp member with rfl | later
        · simp only [isSpacing, Text.isWhiteSpace, Bool.and_eq_true] at none
          exact none.1.1.1
        · exact ih none.2 c later
  cases cs with
  | nil => simp
  | cons d rest =>
    rw [isText] at none
    split at none
    · rename_i feed
      subst feed
      intro c member
      rcases List.mem_cons.mp member with rfl | later
      · decide
      · exact fresh rest none c later
    · simp at none

theorem unmarked_of_blank {cs : List Char} (blank : ∀ c ∈ cs, Text.isBlank c = true) : Unmarked cs := by
  intro c member
  have plain := Text.of_blank (p := fun c => !isMarkupMark c) (by decide) (blank c member)
  simpa using plain

/-- No sign of markup is blank or belongs to a text. -/
theorem Piece.Mild.unmarked {piece : Piece} (mild : piece.Mild) (flat : piece.isSolid = false) :
    Unmarked piece.chars := by
  cases piece with
  | code cs => exact unmarked_of_blank mild
  | text cs =>
    intro c member
    have plain := mild c member
    simp only [endsText, Bool.or_eq_false_iff] at plain
    simp [isMarkupMark, plain.1.1.1.1, plain.1.1.1.2, plain.1.1.2, plain.1.2]
  | reference cs => exact unmarked_of_cutReference mild
  | stray | braces | element => cases flat

/-- An opening tag begins with its sign, which stands outside every element in the tag. -/
def BeginsTag (opening : List Piece) : Prop := ∃ text more, opening = .code ('<' :: text) :: more

mutual

/-- The elements in a piece begin and end with the signs of tags, and their children are mild. -/
def Piece.Formed : Piece → Prop
  | .code _ => True
  | .stray _ => True
  | .text _ => True
  | .reference _ => True
  | .braces inner => AreFormed inner
  | .element _ opening children closing =>
    BeginsTag opening ∧ (closing.getD (charsOf opening)).getLast? = some '>' ∧
      (∀ piece ∈ children, piece.Mild) ∧ AreFormed opening ∧ AreFormed children
termination_by structural piece => piece

def AreFormed : List Piece → Prop
  | [] => True
  | piece :: rest => piece.Formed ∧ AreFormed rest
termination_by structural pieces => pieces

end

variable {tags : Bool} {fuel : Nat} {pieces more : List Piece} {piece : Piece} {cs rest front text : List Char}

theorem charsOf_append (xs ys : List Piece) : charsOf (xs ++ ys) = charsOf xs ++ charsOf ys := by
  induction xs with
  | nil => rfl
  | cons x xs ih => simp [charsOf, ih]

@[simp] theorem charsOf_cons (piece : Piece) (rest : List Piece) :
    charsOf (piece :: rest) = piece.chars ++ charsOf rest := by
  rw [charsOf]

@[simp] theorem charsOf_nil : charsOf [] = [] := rfl

theorem BeginsTag.head (begins : BeginsTag pieces) : (charsOf pieces).head? = some '<' := by
  obtain ⟨text, more, rfl⟩ := begins
  simp [Piece.chars]

theorem beginsTag_consCode (begins : text = '<' :: cs) : BeginsTag (consCode text pieces) := by
  subst begins
  unfold consCode
  split
  · exact ⟨_, _, rfl⟩
  · exact ⟨_, _, rfl⟩

@[simp] theorem areFormed_nil : AreFormed [] := trivial

@[simp] theorem areFormed_cons : AreFormed (piece :: pieces) ↔ piece.Formed ∧ AreFormed pieces := by
  rw [AreFormed]

theorem areFormed_append : AreFormed (pieces ++ more) ↔ AreFormed pieces ∧ AreFormed more := by
  induction pieces with
  | nil => simp
  | cons x xs ih => simp [ih, and_assoc]

@[simp] theorem areFormed_consCode : AreFormed (consCode text pieces) ↔ AreFormed pieces := by
  unfold consCode
  split <;> simp [Piece.Formed]

/-! ### One reading -/

/-- The pieces and the rest, joined, are the text, and the elements are formed as they must be. -/
structure Keeps (pieces : List Piece) (rest cs : List Char) : Prop where
  whole : charsOf pieces ++ rest = cs
  formed : AreFormed pieces

namespace Keeps

theorem nil (cs : List Char) : Keeps [] cs cs := ⟨rfl, trivial⟩

theorem consCode {inner : List Char} (keeps : Keeps pieces rest inner) (whole : text ++ inner = cs) :
    Keeps (consCode text pieces) rest cs := by
  refine ⟨?_, areFormed_consCode.mpr keeps.formed⟩
  rw [charsOf_consCode, List.append_assoc, keeps.whole, whole]

theorem cons {inner : List Char} (formed : piece.Formed) (keeps : Keeps pieces rest inner)
    (whole : piece.chars ++ inner = cs) : Keeps (piece :: pieces) rest cs := by
  refine ⟨?_, areFormed_cons.mpr ⟨formed, keeps.formed⟩⟩
  rw [charsOf_cons, List.append_assoc, keeps.whole, whole]

theorem append {inner : List Char} (first : Keeps pieces inner cs) (second : Keeps more rest inner) :
    Keeps (pieces ++ more) rest cs := by
  refine ⟨?_, areFormed_append.mpr ⟨first.formed, second.formed⟩⟩
  rw [charsOf_append, List.append_assoc, second.whole, first.whole]

end Keeps

/-- What is read of a tag behind some text ends with the sign of tags. -/
structure KeepsTag (tag : TagEnd) (cs : List Char) : Prop where
  keeps : Keeps tag.pieces tag.rest cs
  last : (charsOf tag.pieces).getLast? = some '>'

/-- What is read of the children of an element, and its closing tag, which ends with the sign of tags. -/
structure KeepsBody (body : Body) (cs : List Char) : Prop where
  keeps : Keeps body.children (body.closing ++ body.rest) cs
  mild : ∀ piece ∈ body.children, piece.Mild
  last : body.closing.getLast? = some '>'

/-- No reading with so much fuel loses a character. -/
structure Keeping (tags : Bool) (fuel : Nat) : Prop where
  code : ∀ before cs pieces rest, readCode tags fuel before cs = (pieces, rest) → Keeps pieces rest cs
  template : ∀ cs pieces rest, readTemplate tags fuel cs = some (pieces, rest) → Keeps pieces rest cs
  element : ∀ cs piece rest, readElement tags fuel cs = some (piece, rest) → piece.Mild ∧ Keeps [piece] rest cs
  tag : ∀ cs tag, readTag tags fuel cs = some tag → KeepsTag tag cs
  braces : ∀ front cs tag, readTagBraces tags fuel front cs = some tag → KeepsTag tag (front ++ '{' :: cs)
  children : ∀ cs body, readChildren tags fuel cs = some body → KeepsBody body cs

namespace Keeping

theorem zero (tags : Bool) : Keeping tags 0 where
  code before cs pieces rest found := by
    rw [readCode] at found
    cases found
    exact ⟨by simp [Piece.chars], by simp [Piece.Formed]⟩
  template cs pieces rest found := by
    rw [readTemplate] at found
    cases found
  element cs piece rest found := by
    rw [readElement] at found
    cases found
  tag cs tag found := by
    unfold readTag at found
    cases found
  braces front cs tag found := nomatch (readTagBraces.eq_1 tags front cs).symm.trans found
  children cs body found := by
    rw [readChildren] at found
    cases found

variable (keeping : Keeping tags fuel)

include keeping

/-- Program text in front of what is read. -/
theorem plain {before : Before} {after : List Char} (whole : text ++ rest = cs)
    (found : (match readCode tags fuel before rest with | (pieces, last) => (consCode text pieces, last)) =
      (pieces, after)) : Keeps pieces after cs := by
  rcases read : readCode tags fuel before rest with ⟨inner, last⟩
  rw [read] at found
  obtain ⟨rfl, rfl⟩ := Prod.mk.inj found
  exact (keeping.code _ _ _ _ read).consCode whole

/-- What fits nowhere in front of what is read. -/
theorem stray {before : Before} {after : List Char} (whole : text ++ rest = cs)
    (found : (match readCode tags fuel before rest with | (pieces, last) => (.stray text :: pieces, last)) =
      (pieces, after)) : Keeps pieces after cs := by
  rcases read : readCode tags fuel before rest with ⟨inner, last⟩
  rw [read] at found
  obtain ⟨rfl, rfl⟩ := Prod.mk.inj found
  exact (keeping.code _ _ _ _ read).cons trivial whole

theorem code_succ {before : Before} (found : readCode tags (fuel + 1) before cs = (pieces, rest)) :
    Keeps pieces rest cs := by
  cases cs with
  | nil =>
    rw [readCode] at found
    cases found
    exact .nil []
  | cons c cs =>
    rw [readCode.eq_3] at found
    by_cases closing : isClosing c = true
    · rw [if_pos closing] at found
      cases found
      exact .nil _
    rw [if_neg closing] at found
    by_cases blank : isBlankChar c = true
    · rw [if_pos blank] at found
      exact keeping.plain rfl found
    rw [if_neg blank] at found
    cases comment : cutAnyComment (c :: cs) with
    | some parts =>
      rw [comment] at found
      exact keeping.plain (cuts_anyComment _ _ _ comment) found
    | none =>
      rw [comment] at found
      dsimp only at found
      by_cases quote : (decide (c = '"') || decide (c = '\'')) = true
      · rw [if_pos quote] at found
        cases cut : cutQuoted c cs with
        | some parts =>
          rw [cut] at found
          exact keeping.plain (congrArg (c :: ·) (cuts_quoted _ _ _ _ cut)) found
        | none =>
          rw [cut] at found
          exact keeping.stray rfl found
      rw [if_neg quote] at found
      by_cases template : c = '`'
      · rw [if_pos template] at found
        cases read : readTemplate tags fuel cs with
        | some parts =>
          obtain ⟨inner, behind⟩ := parts
          rw [read] at found
          dsimp only at found
          rcases later : readCode tags fuel .operand behind with ⟨more, last⟩
          rw [later] at found
          obtain ⟨rfl, rfl⟩ := Prod.mk.inj found
          exact ((keeping.template _ _ _ read).append (keeping.code _ _ _ _ later)).consCode rfl
        | none =>
          rw [read] at found
          exact keeping.stray rfl found
      rw [if_neg template] at found
      by_cases opening : isOpening c = true
      · rw [if_pos opening] at found
        rcases read : readCode tags fuel .start cs with ⟨inner, more⟩
        have first := keeping.code _ _ _ _ read
        rw [read] at found
        dsimp only at found
        cases more with
        | nil =>
          cases found
          exact first.cons trivial rfl
        | cons d behind =>
          dsimp only at found
          split at found
          · rcases later : readCode tags fuel (if d = '}' then .start else .operand) behind with ⟨after, last⟩
            rw [later] at found
            obtain ⟨rfl, rfl⟩ := Prod.mk.inj found
            have second : Keeps (consCode [d] after) _ (d :: behind) := (keeping.code _ _ _ _ later).consCode rfl
            exact (first.append second).consCode rfl
          · cases found
            exact first.cons trivial rfl
      rw [if_neg opening] at found
      by_cases word : isWordStart c = true
      · rw [if_pos word] at found
        exact keeping.plain (by rw [List.cons_append, List.takeWhile_append_dropWhile]) found
      rw [if_neg word] at found
      by_cases digit : c.isDigit = true
      · rw [if_pos digit] at found
        exact keeping.plain (by rw [List.cons_append, List.takeWhile_append_dropWhile]) found
      rw [if_neg digit] at found
      by_cases point : c = '.'
      · rw [if_pos point] at found
        exact keeping.plain rfl found
      rw [if_neg point] at found
      by_cases pattern : (decide (c = '/') && before != Before.operand) = true
      · rw [if_pos pattern] at found
        cases cut : cutPattern false cs with
        | some parts =>
          rw [cut] at found
          exact keeping.plain (congrArg (c :: ·) (cuts_pattern _ _ _ _ cut)) found
        | none =>
          rw [cut] at found
          exact keeping.plain rfl found
      rw [if_neg pattern] at found
      by_cases element : (decide (c = '<') && before != Before.operand && tags) = true
      · rw [if_pos element] at found
        cases read : readElement tags fuel (c :: cs) with
        | some parts =>
          obtain ⟨piece, after⟩ := parts
          rw [read] at found
          dsimp only at found
          split at found
          · exact keeping.plain rfl found
          · rcases later : readCode tags fuel .operand after with ⟨more, last⟩
            rw [later] at found
            obtain ⟨rfl, rfl⟩ := Prod.mk.inj found
            exact (keeping.element _ _ _ read).2.append (keeping.code _ _ _ _ later)
        | none =>
          rw [read] at found
          dsimp only at found
          split at found
          · exact keeping.plain rfl found
          · exact keeping.stray rfl found
      rw [if_neg element] at found
      exact keeping.plain rfl found

theorem template_succ (found : readTemplate tags (fuel + 1) cs = some (pieces, rest)) : Keeps pieces rest cs := by
  -- Some more text, and then the rest of the template.
  have more {text behind cs : List Char} (whole : text ++ behind = cs)
      (found : (readTemplate tags fuel behind).map (fun (pieces, last) => (consCode text pieces, last)) =
        some (pieces, rest)) : Keeps pieces rest cs := by
    obtain ⟨⟨inner, last⟩, read, parts⟩ := Option.map_eq_some_iff.mp found
    obtain ⟨rfl, rfl⟩ := Prod.mk.inj parts
    exact (keeping.template _ _ _ read).consCode whole
  unfold readTemplate at found
  dsimp only at found
  split at found
  · cases found
  · cases found
    exact ⟨by simp [Piece.chars], by simp [Piece.Formed]⟩
  · exact more rfl found
  · split at found
    · rename_i inner behind read
      obtain ⟨⟨later, last⟩, template, parts⟩ := Option.map_eq_some_iff.mp found
      obtain ⟨rfl, rfl⟩ := Prod.mk.inj parts
      have second : Keeps (consCode ['}'] later) _ ('}' :: behind) :=
        (keeping.template _ _ _ template).consCode rfl
      exact ((keeping.code _ _ _ _ read).append second).consCode rfl
    · cases found
  · exact more rfl found

theorem children_succ {body : Body} (found : readChildren tags (fuel + 1) cs = some body) : KeepsBody body cs := by
  -- One more child, and then the rest of the children.
  have more (piece : Piece) {behind : List Char} (mild : piece.Mild) (formed : piece.Formed)
      (whole : piece.chars ++ behind = cs) (found : (readChildren tags fuel behind).map (.push piece) = some body) :
      KeepsBody body cs := by
    obtain ⟨inner, read, rfl⟩ := Option.map_eq_some_iff.mp found
    have later := keeping.children _ _ read
    refine ⟨later.keeps.cons formed whole, ?_, later.last⟩
    intro child member
    rcases List.mem_cons.mp member with rfl | member
    · exact mild
    · exact later.mild child member
  unfold readChildren at found
  dsimp only at found
  split at found
  · cases found
  · rename_i c cs
    split at found
    · split at found
      · rename_i closing behind cut
        cases found
        exact ⟨⟨by simpa using cuts_closingTag _ _ _ cut, trivial⟩, by simp, getLast?_of_cutClosingTag cut⟩
      · split at found
        · rename_i piece behind read
          obtain ⟨mild, element⟩ := keeping.element _ _ _ read
          exact more piece mild element.formed.1 (by simpa using element.whole) found
        · cases found
    · split at found
      · rename_i brace
        split at found
        · rename_i inner behind read
          have code := keeping.code _ _ _ _ read
          refine more (.braces _) trivial ?_ ?_ found
          · simp [Piece.Formed, areFormed_append, code.formed]
          · simp [Piece.chars, charsOf_consCode, charsOf_append, brace, ← code.whole]
        · cases found
      · split at found
        · split at found
          · rename_i reference behind cut
            have again := cutReference_again cut []
            rw [List.append_nil] at again
            exact more (.reference reference) again trivial (cuts_reference _ _ _ cut) found
          · exact more (.stray [c]) trivial trivial rfl found
        · split at found
          · exact more (.stray [c]) trivial trivial rfl found
          · have whole := List.takeWhile_append_dropWhile (p := fun d => !endsText d) (l := c :: cs)
            have mild : ∀ d ∈ (c :: cs).takeWhile (fun d => !endsText d), endsText d = false := by
              intro d member
              simpa using List.mem_takeWhile_imp member
            split at found
            · exact more (.text _) mild trivial whole found
            · rename_i none
              exact more (.code _) (blank_of_isText (Bool.eq_false_iff.mpr none)) trivial whole found

theorem braces_succ {tag : TagEnd} (found : readTagBraces tags (fuel + 1) front cs = some tag) :
    KeepsTag tag (front ++ '{' :: cs) := by
  rw [readTagBraces.eq_2] at found
  split at found
  · rename_i inner behind read
    obtain ⟨inside, last, rfl⟩ := Option.map_eq_some_iff.mp found
    have first := keeping.code _ _ _ _ read
    have later := keeping.tag _ _ last
    have second : Keeps (consCode ['}'] inside.pieces) _ ('}' :: behind) := later.keeps.consCode rfl
    refine ⟨(first.append second).consCode (by simp), ?_⟩
    simp only [charsOf_consCode, charsOf_append, ← List.append_assoc]
    rw [List.getLast?_append, later.last]
    rfl
  · cases found

theorem tag_succ {tag : TagEnd} (found : readTag tags (fuel + 1) cs = some tag) : KeepsTag tag cs := by
  -- Some more text, and then the rest of the tag.
  have more {text behind cs : List Char} (whole : text ++ behind = cs)
      (found : (readTag tags fuel behind).map (.push text) = some tag) : KeepsTag tag cs := by
    obtain ⟨inner, read, rfl⟩ := Option.map_eq_some_iff.mp found
    have later := keeping.tag _ _ read
    refine ⟨later.keeps.consCode whole, ?_⟩
    rw [TagEnd.push, charsOf_consCode, List.getLast?_append, later.last]
    rfl
  -- Some more pieces, and then the rest of the tag.
  have pieces {front : List Piece} {behind cs : List Char} (first : Keeps front behind cs)
      (found : (readTag tags fuel behind).map (fun tag => { tag with pieces := front ++ tag.pieces }) = some tag) :
      KeepsTag tag cs := by
    obtain ⟨inner, read, rfl⟩ := Option.map_eq_some_iff.mp found
    have later := keeping.tag _ _ read
    refine ⟨first.append later.keeps, ?_⟩
    rw [charsOf_append, List.getLast?_append, later.last]
    rfl
  unfold readTag at found
  dsimp only at found
  split at found
  · cases found
  · cases found
    exact ⟨⟨by simp [Piece.chars], by simp [Piece.Formed]⟩, by simp [Piece.chars]⟩
  · cases found
    exact ⟨⟨by simp [Piece.chars], by simp [Piece.Formed]⟩, by simp [Piece.chars]⟩
  · rename_i c cs _ _
    split at found
    · exact more rfl found
    · split at found
      · rename_i comment behind cut
        exact more (cuts_anyComment _ _ _ cut) found
      · split at found
        · rename_i brace
          exact brace ▸ keeping.braces [] _ _ found
        · split at found
          · have word := List.takeWhile_append_dropWhile (p := fun d => isTagNameChar d || decide (d = ':')) (l := cs)
            have after := blanks_append (cs.dropWhile fun d => isTagNameChar d || decide (d = ':'))
            split at found
            · rename_i value equals
              have blanks := blanks_append value
              rw [equals] at after
              -- What stands before the value.
              have front {behind : List Char} (there : withoutBlanks value = behind) :
                  ((c :: cs.takeWhile fun d => isTagNameChar d || decide (d = ':')) ++
                    blanksOf (cs.dropWhile fun d => isTagNameChar d || decide (d = ':')) ++
                      '=' :: blanksOf value) ++ behind = c :: cs := by
                rw [there] at blanks
                rw [List.append_assoc, List.append_assoc, List.cons_append, List.cons_append, blanks, after, word]
              split at found
              · rename_i inner opens
                have keeps := keeping.braces _ _ _ found
                rwa [front opens] at keeps
              · rename_i inner opens
                split at found
                · rename_i piece behind read
                  have element := (keeping.element _ _ _ read).2
                  have both : Keeps [.code _, piece] behind (c :: cs) := element.cons trivial (front opens)
                  exact pieces both found
                · cases found
              · rename_i d inner _ _ opens
                split at found
                · split at found
                  · rename_i body behind cut
                    have quoted : (d :: body) ++ behind = d :: inner :=
                      congrArg (d :: ·) (cuts_attribute _ _ _ _ cut)
                    have whole := front (opens.trans quoted.symm)
                    rw [← List.append_assoc] at whole
                    split at found
                    · exact more whole found
                    · have strays : Keeps [.stray _] behind (c :: cs) := (Keeps.nil behind).cons trivial whole
                      exact pieces strays found
                  · cases found
                · cases found
              · cases found
            · exact more (by rw [List.cons_append, word]) found
          · cases found

omit keeping in
/-- An element with children, behind its opening tag. -/
theorem element_of_body {name : List Char} {opening : List Piece} {body : Body} {inner : List Char}
    (first : BeginsTag opening) (formed : AreFormed opening) (children : KeepsBody body inner)
    (whole : charsOf opening ++ inner = cs) :
    Keeps [.element name opening body.children (some body.closing)] body.rest cs := by
  refine ⟨?_, ?_⟩
  · rw [← whole, ← children.keeps.whole]
    simp [Piece.chars]
  · simp only [areFormed_cons, areFormed_nil, and_true, Piece.Formed, Option.getD_some]
    exact ⟨first, children.last, children.mild, formed, children.keeps.formed⟩

theorem element_succ (found : readElement tags (fuel + 1) cs = some (piece, rest)) :
    piece.Mild ∧ Keeps [piece] rest cs := by
  unfold readElement at found
  dsimp only at found
  split at found
  · rename_i cs
    have blanks := blanks_append cs
    split at found
    · rename_i inner closes
      rw [closes] at blanks
      obtain ⟨body, read, parts⟩ := Option.map_eq_some_iff.mp found
      obtain ⟨rfl, rfl⟩ := Prod.mk.inj parts
      refine ⟨trivial, element_of_body ⟨_, _, rfl⟩ (by simp [Piece.Formed]) (keeping.children _ _ read) ?_⟩
      exact .trans (by simp [Piece.chars]) (congrArg ('<' :: ·) blanks)
    · split at found
      · cases found
      · rename_i name after named
        have tagged := cuts_tagName _ _ _ _ named
        split at found
        · cases found
        · rename_i front behind typed
          -- The type arguments, if there are some, belong to what stands before the attributes.
          have head : ∃ text, front = '<' :: text ∧ front ++ behind = '<' :: cs := by
            split at typed
            · rename_i inner opens
              obtain ⟨⟨arguments, last⟩, cut, parts⟩ := Option.map_eq_some_iff.mp typed
              obtain ⟨rfl, rfl⟩ := Prod.mk.inj parts
              refine ⟨_, rfl, ?_⟩
              have whole := cuts_typeArguments _ _ _ _ cut
              have gap := blanks_append after
              rw [opens] at gap
              refine .trans ?_ (congrArg ('<' :: ·) blanks)
              simp [whole, gap, tagged]
            · obtain ⟨rfl, rfl⟩ := Prod.mk.inj (Option.some.inj typed)
              exact ⟨_, rfl, .trans (by simp [tagged]) (congrArg ('<' :: ·) blanks)⟩
          obtain ⟨text, begins, whole⟩ := head
          split at found
          · cases found
          · rename_i tag read
            have inside := keeping.tag _ _ read
            have opening := inside.keeps.consCode whole
            have first : BeginsTag (consCode front tag.pieces) := beginsTag_consCode begins
            have last : (charsOf (consCode front tag.pieces)).getLast? = some '>' := by
              rw [charsOf_consCode, List.getLast?_append, inside.last]
              rfl
            split at found
            · cases found
              refine ⟨trivial, by simpa [Piece.chars] using opening.whole, ?_⟩
              simp [Piece.Formed, first, last, opening.formed]
            · obtain ⟨body, inner, parts⟩ := Option.map_eq_some_iff.mp found
              obtain ⟨rfl, rfl⟩ := Prod.mk.inj parts
              exact ⟨trivial, element_of_body first opening.formed (keeping.children _ _ inner) opening.whole⟩
  · cases found

theorem succ : Keeping tags (fuel + 1) where
  code _ _ _ _ found := keeping.code_succ found
  template _ _ _ found := keeping.template_succ found
  element _ _ _ found := keeping.element_succ found
  tag _ _ found := keeping.tag_succ found
  braces _ _ _ found := keeping.braces_succ found
  children _ _ found := keeping.children_succ found

end Keeping

/-- No reading loses a character. -/
theorem keeping (tags : Bool) (fuel : Nat) : Keeping tags fuel := by
  induction fuel with
  | zero => exact .zero tags
  | succ fuel ih => exact ih.succ

/-! ### Sources -/

theorem keeps_readAll (tags : Bool) (fuel : Nat) (cs : List Char) : Keeps (readAll tags fuel cs) [] cs := by
  induction fuel generalizing cs with
  | zero => exact ⟨by simp [readAll, Piece.chars], by simp [readAll, Piece.Formed]⟩
  | succ fuel ih =>
    rw [readAll]
    generalize 4 * cs.length + 4 = enough
    rcases read : readCode tags enough .start cs with ⟨pieces, rest⟩
    have first := (keeping tags enough).code _ _ _ _ read
    cases rest with
    | nil => exact first
    | cons c rest =>
      have later : Keeps (.stray [c] :: readAll tags fuel rest) [] (c :: rest) := (ih rest).cons trivial rfl
      exact first.append later

theorem keeps_parse (language : Language) (cs : List Char) : Keeps (parse language cs) [] cs := by
  unfold parse
  exact keeps_readAll _ _ cs

/-- The characters of the pieces of a source are the source. -/
theorem charsOf_parse (language : Language) (cs : List Char) : charsOf (parse language cs) = cs := by
  have whole := (keeps_parse language cs).whole
  rwa [List.append_nil] at whole

/-- The elements of a source begin and end with the signs of tags, and their children are mild. -/
theorem formed_parse (language : Language) (cs : List Char) : AreFormed (parse language cs) :=
  (keeps_parse language cs).formed

end Retouch.Markup
