import Mathlib
import ChainIR.Proofs.Types.Tree
import ChainIR.Program.Function
import ChainIR.Token.Line

/-! # Slices by byte offsets

A text in UTF-8 is cut at byte offsets, and a cut is only possible where a character begins or
the text ends (`slice?`). Tokens are cut out of their fragments this way, array types out of their
names, and the fixed arguments of a call are cut off by their number. The definitions here cut and
may fail; none of them ever does.

* `Token.ofLineSliced_eq`: every line has its tokens.
* `TypeName.slice?_joined`: the name of an array type falls apart at its last bracket.
* `Signature.takesVariadicallySliced_eq`: there are enough arguments wherever some are cut off. -/

namespace ChainIR

/-! ## Texts -/

/-- The number of bytes of a text. -/
def byteLength (text : List Char) : Nat := (text.map Char.utf8Size).sum

/-- What stands behind the first bytes of a text, if they end where a character does. -/
def dropBytes? : Nat → List Char → Option (List Char)
  | 0, text => some text
  | _ + 1, [] => none
  | count + 1, c :: rest =>
    if c.utf8Size ≤ count + 1 then dropBytes? (count + 1 - c.utf8Size) rest else none

/-- The first bytes of a text, if they end where a character does. -/
def takeBytes? : Nat → List Char → Option (List Char)
  | 0, _ => some []
  | _ + 1, [] => none
  | count + 1, c :: rest =>
    if c.utf8Size ≤ count + 1 then (takeBytes? (count + 1 - c.utf8Size) rest).map (c :: ·)
    else none

/-- What stands between two byte offsets of a text, if both are offsets of characters. -/
def slice? (text : List Char) (start stop : Nat) : Option (List Char) :=
  if start ≤ stop then (dropBytes? start text).bind (takeBytes? (stop - start)) else none

@[simp] theorem byteLength_nil : byteLength [] = 0 := rfl

@[simp] theorem byteLength_cons (c : Char) (text : List Char) :
    byteLength (c :: text) = c.utf8Size + byteLength text := rfl

@[simp] theorem byteLength_append (front back : List Char) :
    byteLength (front ++ back) = byteLength front + byteLength back := by
  simp [byteLength]

/-- The bytes of the first character come off first. -/
theorem dropBytes?_cons (c : Char) (rest : List Char) (count : Nat) :
    dropBytes? (c.utf8Size + count) (c :: rest) = dropBytes? count rest := by
  obtain ⟨size, hsize⟩ := Nat.exists_eq_succ_of_ne_zero c.utf8Size_pos.ne'
  have hadd : c.utf8Size + count = (size + count) + 1 := by omega
  rw [hadd, dropBytes?, if_pos (by omega)]
  congr 1
  omega

/-- A character is taken with all its bytes. -/
theorem takeBytes?_cons (c : Char) (rest : List Char) (count : Nat) :
    takeBytes? (c.utf8Size + count) (c :: rest) = (takeBytes? count rest).map (c :: ·) := by
  obtain ⟨size, hsize⟩ := Nat.exists_eq_succ_of_ne_zero c.utf8Size_pos.ne'
  have hadd : c.utf8Size + count = (size + count) + 1 := by omega
  have hsub : size + count + 1 - c.utf8Size = count := by omega
  rw [hadd, takeBytes?, if_pos (by omega), hsub]

/-- A text is cut behind a part of it. -/
theorem dropBytes?_append (front rest : List Char) :
    dropBytes? (byteLength front) (front ++ rest) = some rest := by
  induction front with
  | nil => cases rest <;> rfl
  | cons c front ih => rw [byteLength_cons, List.cons_append, dropBytes?_cons, ih]

/-- Taking as many bytes as a text has gives the text. -/
theorem takeBytes?_append (front rest : List Char) :
    takeBytes? (byteLength front) (front ++ rest) = some front := by
  induction front with
  | nil => cases rest <;> rfl
  | cons c front ih =>
    rw [byteLength_cons, List.cons_append, takeBytes?_cons, ih, Option.map_some]

/-- A part of a text is found between its offsets. -/
theorem slice?_append (front middle back : List Char) :
    slice? (front ++ (middle ++ back)) (byteLength front)
      (byteLength front + byteLength middle) = some middle := by
  rw [slice?, if_pos (Nat.le_add_right _ _), dropBytes?_append, Option.bind_some,
    Nat.add_sub_cancel_left, takeBytes?_append]

/-- What stands behind a first character of one byte. -/
theorem slice?_tail {first : Char} (hfirst : first.utf8Size = 1) (rest : List Char) :
    slice? (first :: rest) 1 (byteLength (first :: rest)) = some rest := by
  have hslice := slice?_append [first] rest []
  rwa [byteLength_cons, byteLength_nil, hfirst, Nat.add_zero, List.append_nil,
    List.singleton_append, ← hfirst, ← byteLength_cons, hfirst] at hslice

/-- What stands between a first and a last character of one byte. -/
theorem slice?_between {first last : Char} (hfirst : first.utf8Size = 1)
    (hlast : last.utf8Size = 1) (body : List Char) :
    slice? (first :: (body ++ [last])) 1 (byteLength (first :: (body ++ [last])) - 1) =
      some body := by
  have hslice := slice?_append [first] body [last]
  have hlength : byteLength (first :: (body ++ [last])) - 1 =
      byteLength [first] + byteLength body := by
    simp only [byteLength_cons, byteLength_append, byteLength_nil]
    omega
  have hstart : byteLength [first] = 1 := hfirst
  rwa [hstart, List.singleton_append, ← hstart, ← hlength, hstart] at hslice

/-! ## Tokens -/

namespace QuotedText

/-- The token of a complete literal, its value cut out of the text by offsets. -/
def tokenSliced (literal : QuotedText) (line : Nat) : Option Token :=
  (slice? literal.text 1 (byteLength literal.text - 1)).map fun body =>
    ⟨literal.kind, String.ofList (Escape.decode body), line⟩

/-- A literal starts with its quote, which is one byte long. -/
structure Opened (literal : QuotedText) : Prop where
  /-- The text starts with the quote. -/
  text : ∃ rest, literal.text = literal.quote :: rest
  /-- The quote is one byte long. -/
  quote : literal.quote.utf8Size = 1

/-- What opens a literal starts with its quote. -/
theorem opened_of_open? {fragment : List Char} {literal : QuotedText}
    (h : open? fragment = some literal) : literal.Opened := by
  unfold open? at h
  split at h
  · obtain rfl := Option.some.inj h
    exact ⟨⟨_, rfl⟩, show '"'.utf8Size = 1 by decide⟩
  · obtain rfl := Option.some.inj h
    exact ⟨⟨_, rfl⟩, show '\''.utf8Size = 1 by decide⟩
  · exact nomatch h

/-- So does a literal that has been extended. -/
theorem Opened.extend {literal : QuotedText} (h : literal.Opened) (fragment : List Char) :
    (literal.extend fragment).Opened := by
  obtain ⟨⟨rest, htext⟩, hquote⟩ := h
  exact ⟨⟨rest ++ ' ' :: fragment, by simp [QuotedText.extend, htext]⟩, hquote⟩

/-- The value of a complete literal can be cut out of it. -/
theorem Opened.tokenSliced_eq {literal : QuotedText} (h : literal.Opened)
    (hclosed : literal.isClosed) (line : Nat) :
    literal.tokenSliced line = some (literal.token line) := by
  obtain ⟨⟨rest, htext⟩, hquote⟩ := h
  obtain ⟨body, hrest⟩ : ∃ body, rest = body ++ [literal.quote] := by
    rw [isClosed, htext, List.tail_cons, endsWithQuote] at hclosed
    split at hclosed
    · exact absurd hclosed Bool.false_ne_true
    · next last before hreverse =>
      rw [Bool.and_eq_true, beq_iff_eq] at hclosed
      refine ⟨before.reverse, ?_⟩
      rw [← hclosed.1, ← List.reverse_cons, ← hreverse, List.reverse_reverse]
  rw [tokenSliced, token, htext, hrest, slice?_between hquote hquote, List.tail_cons,
    List.dropLast_concat, Option.map_some]

end QuotedText

namespace Token

/-- The token of a fragment that opens no literal, a mark in front of it being cut off by its
offset. -/
def ofWordSliced (line : Nat) : List Char → Option (Option Token)
  | [] => some none
  | first :: rest =>
    let value? := slice? (first :: rest) 1 (byteLength (first :: rest))
    if first = '%' then value?.map fun value => some ⟨.register, String.ofList value, line⟩
    else if first = '@' then value?.map fun value => some ⟨.block, String.ofList value, line⟩
    else if first = '$' then value?.map fun value => some ⟨.global, String.ofList value, line⟩
    else some (ofWord? line (first :: rest))

/-- The tokens of the fragments that follow an open literal, their values cut by offsets. -/
def ofFragmentsSliced (line : Nat) (pending : Option QuotedText) :
    List (List Char) → Option (Except LexError (List Token))
  | [] => some (ofFragments line pending [])
  | fragment :: rest =>
    match (pending.map (·.extend fragment)).or (QuotedText.open? fragment) with
    | some literal =>
      if literal.isClosed then
        (literal.tokenSliced line).bind fun token =>
          (ofFragmentsSliced line none rest).map (Except.map (token :: ·))
      else ofFragmentsSliced line (some literal) rest
    | none =>
      (ofWordSliced line fragment).bind fun
        | some token => (ofFragmentsSliced line none rest).map (Except.map (token :: ·))
        | none => ofFragmentsSliced line none rest

/-- The tokens of the line with number `number`, their values cut by offsets. -/
def ofLineSliced (number : Nat) (line : List Char) : Option (Except LexError (List Token)) :=
  ofFragmentsSliced number none (fragments (withoutLineEnd line))

/-- A mark can be cut off. -/
theorem ofWordSliced_eq (line : Nat) (fragment : List Char) :
    ofWordSliced line fragment = some (ofWord? line fragment) := by
  cases fragment with
  | nil => rfl
  | cons first rest =>
    rw [ofWordSliced]
    by_cases hregister : first = '%'
    · subst hregister
      rw [if_pos rfl, slice?_tail (by decide)]
      rfl
    by_cases hblock : first = '@'
    · subst hblock
      rw [if_neg hregister, if_pos rfl, slice?_tail (by decide)]
      rfl
    by_cases hglobal : first = '$'
    · subst hglobal
      rw [if_neg hregister, if_neg hblock, if_pos rfl, slice?_tail (by decide)]
      rfl
    · rw [if_neg hregister, if_neg hblock, if_neg hglobal]

/-- No fragment is cut where it cannot be. -/
theorem ofFragmentsSliced_eq (line : Nat) {pending : Option QuotedText}
    (hpending : ∀ literal ∈ pending, literal.Opened) (fragments : List (List Char)) :
    ofFragmentsSliced line pending fragments = some (ofFragments line pending fragments) := by
  induction fragments generalizing pending with
  | nil => rfl
  | cons fragment rest ih =>
    have hnone : ofFragmentsSliced line none rest = some (ofFragments line none rest) :=
      ih fun _ hmem => absurd hmem (Option.not_mem_none _)
    rw [ofFragmentsSliced, ofFragments]
    cases hliteral : (pending.map (·.extend fragment)).or (QuotedText.open? fragment) with
    | some literal =>
      -- a literal starts with its quote however long it is, so its slices stay inside
      have hopened : literal.Opened := by
        cases pending with
        | none => exact QuotedText.opened_of_open? hliteral
        | some before =>
          obtain rfl := Option.some.inj hliteral
          exact (hpending before rfl).extend fragment
      simp only
      split
      · next hclosed => rw [hopened.tokenSliced_eq hclosed, Option.bind_some, hnone, Option.map_some]
      · exact ih fun other hother => Option.some.inj hother ▸ hopened
    | none =>
      simp only [ofWordSliced_eq, Option.bind_some]
      cases ofWord? line fragment with
      | none => exact hnone
      | some token => simp only [hnone, Option.map_some]

/-- **Cuts along a line are sound**: no line is cut where it cannot be. -/
theorem ofLineSliced_eq (number : Nat) (line : List Char) :
    ofLineSliced number line = some (ofLine number line) :=
  ofFragmentsSliced_eq number (fun _ hmem => absurd hmem (Option.not_mem_none _)) _

end Token

/-! ## Names of array types -/

/-- The name of an array type falls apart at the bracket in front of its last suffix. -/
theorem TypeName.slice?_joined (base suffix : List Char) (inner : List (List Char)) :
    slice? (joined base (suffix :: inner)).toList 0 (byteLength (joined base inner).toList) =
        some (joined base inner).toList ∧
      slice? (joined base (suffix :: inner)).toList (byteLength (joined base inner).toList + 1)
        (byteLength (joined base (suffix :: inner)).toList) = some suffix := by
  have hname : (joined base (suffix :: inner)).toList =
      (joined base inner).toList ++ '[' :: suffix := by
    -- the suffix read last is joined behind all pieces before it
    have hjoin : ∀ (first : List Char) (pieces : List (List Char)),
        ['['].intercalate (first :: (pieces ++ [suffix])) =
          ['['].intercalate (first :: pieces) ++ '[' :: suffix := by
      intro first pieces
      induction pieces generalizing first with
      | nil => simp [List.intercalate]
      | cons piece pieces ih =>
        rw [List.cons_append, List.intercalate_cons_cons, List.intercalate_cons_cons, ih]
        simp
    rw [joined, joined, String.toList_ofList, String.toList_ofList, List.reverse_cons, hjoin]
  rw [hname]
  constructor
  · have hslice := slice?_append [] (joined base inner).toList ('[' :: suffix)
    rwa [byteLength_nil, Nat.zero_add, List.nil_append] at hslice
  · have hslice := slice?_append ((joined base inner).toList ++ ['[']) suffix []
    have hbracket : byteLength ['['] = 1 := by decide
    have hstop : byteLength ((joined base inner).toList ++ '[' :: suffix) =
        byteLength ((joined base inner).toList ++ ['[']) + byteLength suffix := by
      simp only [byteLength_append, byteLength_cons, byteLength_nil]
      omega
    rwa [List.append_nil, List.append_assoc, List.singleton_append, ← hstop, byteLength_append,
      hbracket] at hslice

/-! ## Arguments -/

/-- The first elements of a list, if there are as many. -/
def front? {α : Type} (items : List α) (count : Nat) : Option (List α) :=
  if count ≤ items.length then some (items.take count) else none

/-- Whether a signature is variadic and its fixed parameters are the first arguments, which are cut
off by their number. -/
def Signature.takesVariadicallySliced (signature : Signature) (arguments : List TypeRef) :
    Option Bool :=
  if signature.variadic && decide (signature.params.length ≤ arguments.length) then
    (front? arguments signature.params.length).map (signature.params == ·)
  else some false

/-- There are enough arguments wherever some are cut off. -/
theorem Signature.takesVariadicallySliced_eq (signature : Signature) (arguments : List TypeRef) :
    signature.takesVariadicallySliced arguments =
      some (signature.takesVariadically arguments) := by
  rw [takesVariadicallySliced, takesVariadically]
  split
  · next hguard =>
    rw [Bool.and_eq_true, decide_eq_true_iff] at hguard
    rw [front?, if_pos hguard.2, Option.map_some, hguard.1, Bool.true_and, Option.some.injEq,
      Bool.eq_iff_iff, beq_iff_eq, List.isPrefixOf_iff_prefix, List.prefix_iff_eq_take]
  · next hguard =>
    rw [Option.some.injEq, eq_comm, Bool.and_eq_false_imp]
    intro hvariadic
    rw [Bool.eq_false_iff, Ne, List.isPrefixOf_iff_prefix]
    intro hinitial
    exact hguard (by rw [hvariadic, Bool.true_and, decide_eq_true_iff]; exact hinitial.length_le)

end ChainIR
