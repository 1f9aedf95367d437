import Mathlib
import ChainIR.Proofs.Reading.Grammar
import ChainIR.Proofs.Token.Intact

/-! # Names that are read as targets

A target is written without its mark, so the first character of its name decides afresh what it is
read as, and a carriage return at the end of the line is dropped. A name is read as a target with
this name exactly if it starts as a word or a number does, and does not stand at the end of the line
with a carriage return at its own end.

* `Token.scan_target_iff`: one name at the end of a line.
* `Token.scan_targets_iff`: two names at the end of a line. -/

namespace ChainIR

/-! ## Texts that start as targets do -/

/-- A text that starts as a word or a number does. -/
def OpensTarget (text : List Char) : Prop :=
  ∃ c ∈ text.head?, c.isDigit ∨ c = '.' ∨ c.isAlpha ∨ c = '_'

instance (text : List Char) : Decidable (OpensTarget text) :=
  decidable_of_iff
    (text.head?.any fun c => c.isDigit || c == '.' || c.isAlpha || c == '_')
    (by simp [OpensTarget, Option.any_eq_true, or_assoc])

/-- The first characters of words and numbers. -/
theorem TokenKind.startedBy_iff {c : Char} :
    startedBy c = .number ∨ startedBy c = .identifier ↔
      c.isDigit ∨ c = '.' ∨ c.isAlpha ∨ c = '_' := by
  constructor
  · intro h
    grind [startedBy]
  · intro h
    have hmark : ∀ mark ∈ ['"', '\'', '%', '@', '$'], c ≠ mark := by
      rintro mark hmark rfl
      fin_cases hmark <;> exact absurd h (by decide)
    simp only [List.forall_mem_cons] at hmark
    rw [startedBy]
    simp only [hmark, if_false]
    split_ifs <;> simp_all

/-- Words and numbers are not marked. -/
theorem TokenKind.isMarked_startedBy {c : Char}
    (h : c.isDigit ∨ c = '.' ∨ c.isAlpha ∨ c = '_') : (startedBy c).isMarked = false := by
  rcases startedBy_iff.2 h with hkind | hkind
  · rw [hkind]
    rfl
  · rw [hkind]
    rfl

/-- A text that starts as a word or a number has no quote in front. -/
theorem OpensTarget.exists_cons {text : List Char} (h : OpensTarget text) :
    ∃ first rest, text = first :: rest ∧ ¬(first = '"' ∨ first = '\'') ∧
      (first.isDigit ∨ first = '.' ∨ first.isAlpha ∨ first = '_') := by
  obtain ⟨first, hfirst, hstart⟩ := h
  obtain ⟨rest, htext⟩ := List.head?_eq_some_iff.1 hfirst
  refine ⟨first, rest, htext, ?_, hstart⟩
  rintro (rfl | rfl) <;> exact absurd hstart (by decide)

/-- A text without spaces that starts as a word or a number stays whole. -/
theorem OpensTarget.intact {text : String} (h : OpensTarget text.toList)
    (htext : Unspaced text.toList) : (Word.bare text).Intact := by
  obtain ⟨first, rest, hparts, hquote, -⟩ := h.exists_cons
  exact ⟨htext, first, by simp [hparts], not_or.1 hquote⟩

/-- A word that starts as a word or a number is its own value. -/
theorem OpensTarget.value_token {text : String} (h : OpensTarget text.toList) (line : Nat) :
    ((Word.bare text).token line).value = text := by
  obtain ⟨first, rest, htext, hquote, hstart⟩ := h.exists_cons
  rw [Word.token, htext, Token.ofWord?_cons hquote, Option.getD_some, Token.ofItem,
    TokenKind.isMarked_startedBy hstart, if_neg Bool.false_ne_true, ← htext, String.ofList_toList]

/-! ## Targets on a line -/

namespace Token

variable {line : Nat} {text tail : List Char}

/-- A name that starts as a word or a number is read as a target. -/
theorem scan_target (htext : Unspaced text) (hopens : OpensTarget text) (line : Nat)
    (tail : List Char) (htail : ∀ c ∈ tail.head?, c = ' ') :
    ∃ label : Target, label.1.value = String.ofList text ∧
      scan line (text ++ tail) = (scan line tail).map (label.1 :: ·) := by
  obtain ⟨first, rest, rfl, hquote, hstart⟩ := hopens.exists_cons
  have hkind := TokenKind.startedBy_iff.2 hstart
  have hplain := TokenKind.isMarked_startedBy hstart
  have hspace : first ≠ ' ' := (htext first (.head _)).1
  have hrest : ' ' ∉ rest := fun hmem => (htext ' ' (.tail _ hmem)).1 rfl
  refine ⟨⟨ofItem line first rest, .inr hkind.symm⟩, ?_, scan_item hspace hquote line hrest htail⟩
  simp only [ofItem, hplain, Bool.false_eq_true, if_false]

/-- A target that has been read from a name is the item of the name. -/
theorem exists_item_of_scan (htext : Unspaced text) (hne : text ≠ [])
    (htail : ∀ c ∈ tail.head?, c = ' ') {label : Target} {others : List Token}
    (h : scan line (text ++ tail) = .ok (label.1 :: others)) :
    ∃ first rest, text = first :: rest ∧ label.1 = ofItem line first rest ∧
      scan line tail = .ok others := by
  obtain ⟨first, rest, rfl⟩ := List.exists_cons_of_ne_nil hne
  have hspace : first ≠ ' ' := (htext first (.head _)).1
  have hrest : ' ' ∉ rest := fun hmem => (htext ' ' (.tail _ hmem)).1 rfl
  by_cases hquote : first = '"' ∨ first = '\''
  · -- a literal is no target
    rw [List.cons_append, scan_quote hquote] at h
    split at h
    · obtain ⟨behind, -, hequal⟩ := exists_of_map_cons h
      have hkind : label.1.kind = .startedBy first := by rw [(List.cons.inj hequal).1]
      have htarget := label.2
      rw [hkind] at htarget
      rcases hquote with rfl | rfl <;> exact absurd htarget (by decide)
    · cases h
  · rw [List.cons_append, scan_item hspace hquote line hrest htail] at h
    obtain ⟨behind, hbehind, hequal⟩ := exists_of_map_cons h
    obtain ⟨hlabel, rfl⟩ := List.cons.inj hequal
    exact ⟨first, rest, rfl, hlabel, hbehind⟩

/-- An item that is a target and has a whole name as its value is not marked. -/
theorem opensTarget_of_ofItem {first : Char} {rest : List Char} {label : Target}
    (hitem : label.1 = ofItem line first rest) (hvalue : label.1.value = String.ofList text)
    (hfront : first :: rest <+: text) : text = first :: rest ∧ OpensTarget text := by
  have htext : (if (TokenKind.startedBy first).isMarked then rest else first :: rest) = text := by
    rw [hitem] at hvalue
    exact String.ofList_injective hvalue
  have hlength := hfront.length_le
  split at htext
  · rw [← htext, List.length_cons] at hlength
    omega
  · next hplain =>
    have hkind : TokenKind.startedBy first = .number ∨ TokenKind.startedBy first = .identifier := by
      have htarget := label.2
      rw [hitem, ofItem] at htarget
      rcases htarget with hblock | hidentifier | hnumber
      · rw [show TokenKind.startedBy first = .block from hblock] at hplain
        exact absurd rfl hplain
      · exact .inr hidentifier
      · exact .inl hnumber
    refine ⟨htext.symm, ?_⟩
    rw [← htext]
    exact ⟨first, rfl, TokenKind.startedBy_iff.1 hkind⟩

/-- Nothing is dropped at the end of a line that does not end with a carriage return. -/
theorem withoutLineEnd_eq_self_iff (htext : Unspaced text) :
    withoutLineEnd text = text ↔ text.getLast? ≠ some '\r' := by
  rw [withoutLineEnd_eq_rdropWhile, List.rdropWhile_eq_self_iff]
  constructor
  · intro h hlast
    obtain ⟨front, rfl⟩ := List.getLast?_eq_some_iff.1 hlast
    exact h (by simp) (by simp)
  · intro h hne
    -- a line feed would be dropped as well, but the text holds none
    have hfeed := (htext _ (List.getLast_mem hne)).2.2
    rw [List.getLast?_eq_some_getLast hne] at h
    simp_all

/-- A target that has been read from a name at the end of a line is the item of what is kept of the
name, and nothing stands behind it. -/
theorem exists_item_at_end (htext : Unspaced text) {label : Target} {others : List Token}
    (h : scan line (withoutLineEnd text) = .ok (label.1 :: others)) :
    ∃ first rest, withoutLineEnd text = first :: rest ∧ label.1 = ofItem line first rest ∧
      others = [] := by
  have hkept : Unspaced (withoutLineEnd text) :=
    fun c hc => htext c ((withoutLineEnd_front text).subset hc)
  have hne : withoutLineEnd text ≠ [] := by
    intro hnil
    rw [hnil, scan_nil] at h
    cases h
  rw [← List.append_nil (withoutLineEnd text)] at h
  obtain ⟨first, rest, hparts, hitem, hbehind⟩ := exists_item_of_scan hkept hne (by simp) h
  rw [scan_nil] at hbehind
  exact ⟨first, rest, hparts, hitem, (Except.ok.inj hbehind).symm⟩

/-- **Names as targets**: a name at the end of a line is read as a target exactly if it starts as a
word or a number and does not end with a carriage return. -/
theorem scan_target_iff (htext : Unspaced text) (line : Nat) :
    (∃ label : Target, scan line (withoutLineEnd text) = .ok [label.1] ∧
      label.1.value = String.ofList text) ↔ OpensTarget text ∧ text.getLast? ≠ some '\r' := by
  rw [← withoutLineEnd_eq_self_iff htext]
  constructor
  · rintro ⟨label, hscan, hvalue⟩
    obtain ⟨first, rest, hkept, hitem, -⟩ := exists_item_at_end htext hscan
    obtain ⟨hwhole, hopens⟩ := opensTarget_of_ofItem hitem hvalue
      (hkept ▸ withoutLineEnd_front text)
    exact ⟨hopens, hkept.trans hwhole.symm⟩
  · rintro ⟨hopens, hkept⟩
    obtain ⟨label, hvalue, hscan⟩ := scan_target htext hopens line [] (by simp)
    refine ⟨label, ?_, hvalue⟩
    rw [List.append_nil, scan_nil] at hscan
    rw [hkept, hscan]
    rfl

example : OpensTarget "2b".toList ∧ ¬ OpensTarget "@2b".toList ∧ ¬ OpensTarget "".toList := by decide

/-- Two names at the end of a line are read as targets exactly if both start as words or numbers
do, and the last one does not end with a carriage return. -/
theorem scan_targets_iff {last : List Char} (htext : Unspaced text) (hlast : Unspaced last)
    (line : Nat) :
    (∃ label other : Target,
      scan line (withoutLineEnd (text ++ ' ' :: last)) = .ok [label.1, other.1] ∧
        label.1.value = String.ofList text ∧ other.1.value = String.ofList last) ↔
      OpensTarget text ∧ OpensTarget last ∧ last.getLast? ≠ some '\r' := by
  rw [withoutLineEnd_append_cons (by decide), ← scan_target_iff hlast line]
  constructor
  · rintro ⟨label, other, hscan, hvalue, hother⟩
    by_cases hne : text = []
    · -- there is only one item on the line then
      rw [hne, List.nil_append, scan_space] at hscan
      obtain ⟨-, -, -, -, hnone⟩ := exists_item_at_end hlast hscan
      exact absurd hnone (List.cons_ne_nil _ _)
    · obtain ⟨first, rest, hfirst, hitem, hrest⟩ := exists_item_of_scan htext hne (by simp) hscan
      rw [scan_space] at hrest
      have hopens := (opensTarget_of_ofItem hitem hvalue (hfirst ▸ List.prefix_rfl)).2
      exact ⟨hopens, other, hrest, hother⟩
  · rintro ⟨hopens, other, hrest, hother⟩
    obtain ⟨label, hvalue, hscan⟩ :=
      scan_target htext hopens line (' ' :: withoutLineEnd last) (by simp)
    refine ⟨label, other, ?_, hvalue, hother⟩
    rw [hscan, scan_space, hrest]
    rfl

end Token

end ChainIR
