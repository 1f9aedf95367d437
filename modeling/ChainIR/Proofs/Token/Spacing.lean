import Mathlib
import ChainIR.Proofs.Token.Intact
import ChainIR.Proofs.Token.Numbered

/-! # The spacing of a line

Spaces around tokens, tabs and carriage returns at the end are no part of the tokens of a line, so
a line has the same tokens if more of them are put in (`LineRelaid.ofLine_eq`). A space may stand
inside a literal, where it counts: only at a space with no open literal in front of it may another
one be put in. -/

namespace ChainIR

namespace Token

/-- No literal is open behind a text. -/
def NoneOpenBehind (front : List Char) : Prop :=
  ∃ tokens, ofFragments 0 none (fragments front) = .ok tokens

end Token

/-- A line is laid out in another way: one more blank is put in where it does not count, or one more
carriage return at the end. -/
inductive LineRelaid : List Char → List Char → Prop
  /-- A tab, anywhere in front of the end of the line. -/
  | tab (front back : List Char) (inside : front <+: Token.withoutLineEnd (front ++ back)) :
      LineRelaid (front ++ back) (front ++ '\t' :: back)
  /-- A space at the start. -/
  | spaceAtStart (line : List Char) : LineRelaid line (' ' :: line)
  /-- A space at the end, in front of what ends the line. -/
  | spaceAtEnd (content ending : List Char)
      (isContent : Token.withoutLineEnd (content ++ ending) = content) :
      LineRelaid (content ++ ending) (content ++ ' ' :: ending)
  /-- A space next to one that is not inside a literal. -/
  | spaceBetween (front back : List Char) (outside : Token.NoneOpenBehind front) :
      LineRelaid (front ++ ' ' :: back) (front ++ ' ' :: ' ' :: back)
  /-- A carriage return at the end. -/
  | carriageReturn (line : List Char) : LineRelaid line (line ++ ['\r'])

namespace Token

/-! ## The ends of lines -/

/-- What is dropped at the end of a line does not depend on what is kept in front. -/
theorem withoutLineEnd_append_of_prefix {front back : List Char}
    (h : front <+: withoutLineEnd (front ++ back)) :
    withoutLineEnd (front ++ back) = front ++ withoutLineEnd back := by
  rw [withoutLineEnd, List.reverse_append, List.dropWhile_append] at h ⊢
  split
  · next hend =>
    -- all that stands behind is dropped, and so nothing in front of it is
    rw [if_pos hend] at h
    have hfront : withoutLineEnd front <+: front := withoutLineEnd_front front
    have hback : withoutLineEnd back = [] := by
      rw [withoutLineEnd, List.isEmpty_iff.1 hend, List.reverse_nil]
    rw [hback, List.append_nil]
    exact List.IsPrefix.eq_of_length_le hfront h.length_le
  · rw [List.reverse_append, List.reverse_reverse, withoutLineEnd]

/-- A carriage return at the end belongs to the end of the line. -/
theorem withoutLineEnd_concat_return (line : List Char) :
    withoutLineEnd (line ++ ['\r']) = withoutLineEnd line := by
  simp [withoutLineEnd]

/-! ## Fragments in a row -/

/-- Fragments that leave no literal open are read before those behind them. -/
theorem ofFragments_append {number : Nat} {pending : Option QuotedText}
    {front : List (List Char)} {tokens : List Token}
    (h : ofFragments number pending front = .ok tokens) (back : List (List Char)) :
    ofFragments number pending (front ++ back) =
      (ofFragments number none back).map (tokens ++ ·) := by
  induction front generalizing pending tokens with
  | nil =>
    cases pending with
    | none =>
      obtain rfl : [] = tokens := Except.ok.inj h
      cases hback : ofFragments number none back <;> simp [hback, Except.map]
    | some literal => cases h
  | cons fragment rest ih =>
    -- a token in front of those of the other fragments
    have hcons {first : Token}
        (hrest : (ofFragments number none rest).map (first :: ·) = .ok tokens) :
        (ofFragments number none (rest ++ back)).map (first :: ·) =
          (ofFragments number none back).map (tokens ++ ·) := by
      obtain ⟨others, hothers, rfl⟩ := exists_of_map_cons hrest
      rw [ih hothers]
      cases ofFragments number none back <;> rfl
    rw [List.cons_append, ofFragments]
    rw [ofFragments] at h
    split
    · next literal hliteral =>
      rw [hliteral] at h
      dsimp only at h
      split
      · next hclosed =>
        rw [if_pos hclosed] at h
        exact hcons h
      · next hopen =>
        rw [if_neg hopen] at h
        exact ih h
    · next hnone =>
      rw [hnone] at h
      dsimp only at h
      split
      · next token htoken =>
        rw [htoken] at h
        exact hcons h
      · next htoken =>
        rw [htoken] at h
        exact ih h

/-- The fragments on both sides of a space. -/
theorem fragments_append_space (front back : List Char) :
    fragments (front ++ ' ' :: back) = fragments front ++ fragments back := by
  rw [fragments, List.splitOn_append_cons_self, List.map_append, fragments, fragments]

/-- One space more between fragments that leave no literal open. -/
theorem ofFragments_space {front : List Char} (h : NoneOpenBehind front) (number : Nat)
    (back : List Char) : ofFragments number none (fragments (front ++ ' ' :: ' ' :: back)) =
      ofFragments number none (fragments (front ++ ' ' :: back)) := by
  obtain ⟨unnumbered, hzero⟩ := h
  have hfront : ofFragments number none (fragments front) =
      .ok (unnumbered.map (onLine number)) := by
    rw [ofFragments_onLine number 0, hzero]
    rfl
  have hspace : fragments (' ' :: back) = [] :: fragments back := fragments_append_space [] back
  rw [fragments_append_space, fragments_append_space, hspace, ofFragments_append hfront,
    ofFragments_append hfront]
  rfl

end Token

/-- **Spacing does not matter**: a line that is laid out in another way has the same tokens. -/
theorem LineRelaid.ofLine_eq {line line' : List Char} (h : LineRelaid line line') {number : Nat}
    {tokens : List Token} (htokens : Token.ofLine number line = .ok tokens) :
    Token.ofLine number line' = .ok tokens := by
  cases h with
  | tab front back hinside =>
    rw [← htokens, Token.ofLine_eq_scan, Token.ofLine_eq_scan,
      Token.withoutLineEnd_append_cons (by decide), Token.withoutLineEnd_append_of_prefix hinside,
      List.filter_append, List.filter_append, List.filter_cons_of_neg (by decide)]
  | spaceAtStart =>
    have hend : Token.withoutLineEnd (' ' :: line) = ' ' :: Token.withoutLineEnd line :=
      Token.withoutLineEnd_append_cons (by decide) [] line
    rw [← htokens, Token.ofLine_eq_scan, Token.ofLine_eq_scan, hend,
      List.filter_cons_of_pos (by decide), Token.scan_space]
  | spaceAtEnd content ending hcontent =>
    have hinside : content <+: Token.withoutLineEnd (content ++ ending) :=
      hcontent.symm ▸ List.prefix_rfl
    -- all that stands behind the content is dropped
    have hend : Token.withoutLineEnd ending = [] := by
      have hkept := Token.withoutLineEnd_append_of_prefix hinside
      rw [hcontent] at hkept
      simpa using hkept
    rw [Token.ofLine, hcontent] at htokens
    have hempty : Token.fragments [] = [[]] := rfl
    rw [Token.ofLine, Token.withoutLineEnd_append_cons (by decide), hend,
      Token.fragments_append_space, Token.ofFragments_append htokens, hempty]
    simp [Token.ofFragments, QuotedText.open?, Token.ofWord?, Except.map]
  | spaceBetween front back houtside =>
    have hback : Token.withoutLineEnd (front ++ ' ' :: ' ' :: back) =
        front ++ ' ' :: ' ' :: Token.withoutLineEnd back := by
      rw [Token.withoutLineEnd_append_cons (by decide)]
      exact congrArg (front ++ ' ' :: ·) (Token.withoutLineEnd_append_cons (by decide) [] back)
    rw [Token.ofLine, hback, Token.ofFragments_space houtside]
    rw [Token.ofLine, Token.withoutLineEnd_append_cons (by decide)] at htokens
    exact htokens
  | carriageReturn =>
    rw [Token.ofLine, Token.withoutLineEnd_concat_return]
    exact htokens

/-- A line of spaces and tabs has no tokens. -/
theorem Token.ofLine_of_blank {line : List Char} (h : ∀ c ∈ line, c = ' ' ∨ c = '\t')
    (number : Nat) : ofLine number line = .ok [] := by
  have hspaces : ∀ c ∈ (withoutLineEnd line).filter (· != '\t'), c = ' ' := by
    intro c hc
    obtain ⟨hmem, htab⟩ := List.mem_filter.1 hc
    exact (h c ((withoutLineEnd_front line).subset hmem)).resolve_right (by simpa using htab)
  rw [ofLine_eq_scan]
  generalize (withoutLineEnd line).filter (· != '\t') = spaces at hspaces
  induction spaces with
  | nil => exact scan_nil number
  | cons c rest ih =>
    obtain rfl := hspaces c (.head _)
    rw [scan_space]
    exact ih fun c hc => hspaces c (.tail _ hc)

end ChainIR
