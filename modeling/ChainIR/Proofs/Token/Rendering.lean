import Mathlib
import ChainIR.Proofs.Token.Scanner
import ChainIR.Token.Stream

/-! # Rendered tokens are read back

A token can be written as an item of a line: its mark and its value, or for a string its escaped
value in quotes. A line of such items with a space behind each is read as the tokens that were
written, whatever a string says (`TokenStream.next_renderedLine`). `Token.Writable` is what this
asks of a value; no stream ever delivers a token without it, literals and the end apart
(`TokenStream.writable_of_next`).

* `Token.Writable`: tokens that can be written as an item.
* `Token.rendered`, `Token.renderedLine`: the text of a token and of a line of tokens. -/

namespace ChainIR

/-- A text that stays in one item of a line. -/
def Unspaced (text : List Char) : Prop := ∀ c ∈ text, c ≠ ' ' ∧ c ≠ '\t' ∧ c ≠ '\n'

instance (text : List Char) : Decidable (Unspaced text) :=
  decidable_of_iff (text.all fun c => c != ' ' && c != '\t' && c != '\n')
    (by simp [Unspaced, and_assoc])

/-- Whether the first character of an item says its class. -/
def TokenKind.Starts (kind : TokenKind) (text : List Char) : Prop :=
  ∃ first ∈ text.head?, startedBy first = kind

instance (kind : TokenKind) (text : List Char) : Decidable (kind.Starts text) :=
  decidable_of_iff (text.head?.any fun first => TokenKind.startedBy first == kind)
    (by simp [TokenKind.Starts, Option.any_eq_true])

/-- The character in front of the value of an item. -/
def TokenKind.mark : TokenKind → List Char
  | .register => ['%']
  | .block => ['@']
  | .global => ['$']
  | _ => []

namespace Token

/-- Whether a token can be written as an item: a string always, other tokens if the value has no
spaces, tabs or line feeds, and an unmarked one if its value says its class. -/
def Writable (token : Token) : Prop :=
  match token.kind with
  | .string => True
  | .char | .eof => False
  | .register | .block | .global => Unspaced token.value.toList
  | .identifier | .number | .operator =>
    Unspaced token.value.toList ∧ token.kind.Starts token.value.toList

instance (token : Token) : Decidable token.Writable :=
  match token with
  | ⟨.string, _, _⟩ => .isTrue trivial
  | ⟨.char, _, _⟩ | ⟨.eof, _, _⟩ => .isFalse id
  | ⟨.register, value, _⟩ | ⟨.block, value, _⟩ | ⟨.global, value, _⟩ =>
    inferInstanceAs (Decidable (Unspaced value.toList))
  | ⟨.identifier, value, _⟩ | ⟨.number, value, _⟩ | ⟨.operator, value, _⟩ =>
    inferInstanceAs (Decidable (Unspaced value.toList ∧ TokenKind.Starts _ value.toList))

/-- The text of a token. -/
def rendered (token : Token) : List Char :=
  match token.kind with
  | .string => '"' :: (Escape.encode token.value.toList ++ ['"'])
  | kind => kind.mark ++ token.value.toList

/-- The texts of tokens with a space behind each. -/
def renderedItems (tokens : List Token) : List Char := tokens.flatMap (·.rendered ++ [' '])

/-- A line of tokens. -/
def renderedLine (tokens : List Token) : String := String.ofList (renderedItems tokens ++ ['\n'])

/-! ## Writing and scanning -/

/-- Inside an escaped text no position closes the literal. -/
theorem closesAt_encode (value rest : List Char) {position : Nat}
    (hposition : position < (Escape.encode value).length) :
    closesAt '"' (Escape.encode value ++ rest) position = false := by
  have hcut : Escape.encode value = (Escape.encode value).take position ++
      (Escape.encode value)[position] :: (Escape.encode value).drop (position + 1) := by
    rw [← List.drop_eq_getElem_cons hposition, List.take_append_drop]
  rw [closesAt, List.getElem?_append_left hposition, List.getElem?_eq_getElem hposition,
    List.take_append_of_le_length hposition.le]
  by_cases hquote : (Escape.encode value)[position] = '"'
  · rw [hquote] at hcut
    simp [Escape.odd_trailingBackslashes hcut]
  · simp [hquote]

/-- A written string is scanned as it was, up to the space behind it. -/
theorem scan_string (line : Nat) (value : String) (rest : List Char) :
    scan line ('"' :: (Escape.encode value.toList ++ ['"'] ++ ' ' :: rest)) =
      (scan line rest).map (⟨.string, value, line⟩ :: ·) := by
  have hclosed := Escape.endsWithQuote_encode value.toList
  have hread : ∀ position < (Escape.encode value.toList ++ ['"']).length - 1,
      closesAt '"' (Escape.encode value.toList ++ ['"'] ++ ' ' :: rest) position = false := by
    intro position hlt
    rw [List.append_assoc]
    exact closesAt_encode _ _ (by simpa using hlt)
  have hvalue : (QuotedText.mk '"' ('"' :: (Escape.encode value.toList ++ ['"']))).token line =
      ⟨.string, value, line⟩ := by
    simp [QuotedText.token, QuotedText.kind, Escape.decode_encode]
  rw [scan_closed (.inl rfl) line hclosed (by simp) hread, hvalue, scan_space]

/-- A token that can be written and is no string is an item without spaces in it. -/
theorem Writable.exists_item {token : Token} (h : token.Writable) (hkind : token.kind ≠ .string) :
    ∃ first text, token.rendered = first :: text ∧ Unspaced (first :: text) ∧
      ¬(first = '"' ∨ first = '\'') ∧
        ∀ line, ofItem line first text = ⟨token.kind, token.value, line⟩ := by
  obtain ⟨kind, value, number⟩ := token
  -- a marked item is its mark and the value, a plain one the value itself
  have hmarked : ∀ mark, mark ∈ ['%', '@', '$'] → Unspaced value.toList →
      Unspaced (mark :: value.toList) ∧ ¬(mark = '"' ∨ mark = '\'') := by
    intro mark hmark hvalue
    fin_cases hmark <;> exact ⟨List.forall_mem_cons.2 ⟨by decide, hvalue⟩, by decide⟩
  have hplain : ∀ first ∈ value.toList.head?, TokenKind.startedBy first = kind →
      kind ∈ [.identifier, .number, .operator] →
      ∃ text, value.toList = first :: text ∧ ¬(first = '"' ∨ first = '\'') ∧
        ∀ line, ofItem line first text = ⟨kind, value, line⟩ := by
    rintro first hfirst rfl hplain
    obtain ⟨text, hvalue⟩ := List.head?_eq_some_iff.1 hfirst
    refine ⟨text, hvalue, ?_, fun line => ?_⟩
    · rintro (rfl | rfl) <;> exact absurd hplain (by decide)
    · have hmark : (TokenKind.startedBy first).isMarked = false := by
        revert hplain
        generalize TokenKind.startedBy first = kind
        intro hplain
        fin_cases hplain <;> rfl
      rw [ofItem, hmark, if_neg Bool.false_ne_true, ← hvalue, String.ofList_toList]
  have hofItem : ∀ mark, mark ∈ ['%', '@', '$'] → ∀ line,
      ofItem line mark value.toList = ⟨.startedBy mark, value, line⟩ := by
    intro mark hmark line
    fin_cases hmark <;> simp [ofItem, TokenKind.startedBy, TokenKind.isMarked]
  cases kind with
  | string => exact absurd rfl hkind
  | char => exact h.elim
  | eof => exact h.elim
  | register => exact ⟨'%', _, rfl, (hmarked _ (by decide) h).1, by decide, hofItem _ (by decide)⟩
  | block => exact ⟨'@', _, rfl, (hmarked _ (by decide) h).1, by decide, hofItem _ (by decide)⟩
  | global => exact ⟨'$', _, rfl, (hmarked _ (by decide) h).1, by decide, hofItem _ (by decide)⟩
  | _ =>
    obtain ⟨hunspaced, first, hfirst, hclass⟩ := h
    obtain ⟨text, hvalue, hquote, hitem⟩ := hplain first hfirst hclass (by decide)
    exact ⟨first, text, hvalue, hvalue ▸ hunspaced, hquote, hitem⟩

/-- A written token is scanned as it was. -/
theorem scan_rendered {token : Token} (h : token.Writable) (line : Nat) (rest : List Char) :
    scan line (token.rendered ++ ' ' :: rest) =
      (scan line rest).map (⟨token.kind, token.value, line⟩ :: ·) := by
  by_cases hkind : token.kind = .string
  · obtain ⟨kind, value, number⟩ := token
    obtain rfl : kind = .string := hkind
    exact scan_string line value rest
  · obtain ⟨first, text, hrendered, hunspaced, hquote, hitem⟩ := h.exists_item hkind
    have hspace : first ≠ ' ' := (hunspaced first (.head _)).1
    have htext : ' ' ∉ text := fun hmem => (hunspaced ' ' (.tail _ hmem)).1 rfl
    rw [hrendered, List.cons_append, scan_item hspace hquote line htext (by simp), scan_space,
      hitem]

/-- Written tokens are scanned as they were. -/
theorem scan_renderedItems {tokens : List Token} (h : ∀ token ∈ tokens, token.Writable)
    (line : Nat) :
    scan line (renderedItems tokens) =
      .ok (tokens.map fun token => ⟨token.kind, token.value, line⟩) := by
  induction tokens with
  | nil => exact scan_nil line
  | cons first rest ih =>
    have hitems : renderedItems (first :: rest) = first.rendered ++ ' ' :: renderedItems rest := by
      simp [renderedItems]
    rw [hitems, scan_rendered (h first (.head _)), ih fun token hmem => h token (.tail _ hmem)]
    rfl

/-- There is no tab and no line feed in what is written. -/
theorem mem_rendered {token : Token} (h : token.Writable) {c : Char} (hc : c ∈ token.rendered) :
    c ≠ '\t' ∧ c ≠ '\n' := by
  by_cases hkind : token.kind = .string
  · have hc' : c = '"' ∨ c ∈ Escape.encode token.value.toList := by
      simp only [rendered, hkind, List.mem_cons, List.mem_append, List.not_mem_nil, or_false] at hc
      tauto
    rcases hc' with rfl | hc'
    · decide
    · exact ⟨(Escape.mem_encode hc').1, (Escape.mem_encode hc').2.1⟩
  · obtain ⟨first, text, hrendered, hunspaced, -⟩ := h.exists_item hkind
    exact (hunspaced c (hrendered ▸ hc)).2

/-- A line of written tokens is read as the tokens. -/
theorem ofLine_renderedItems {tokens : List Token} (h : ∀ token ∈ tokens, token.Writable)
    (hne : tokens ≠ []) (number : Nat) :
    ofLine number (renderedItems tokens) =
      .ok (tokens.map fun token => ⟨token.kind, token.value, number⟩) := by
  have hend : withoutLineEnd (renderedItems tokens) = renderedItems tokens := by
    obtain ⟨front, last, rfl⟩ : ∃ front last, tokens = front ++ [last] :=
      ⟨_, _, (List.dropLast_concat_getLast hne).symm⟩
    simp [renderedItems, withoutLineEnd]
  have htabs : (renderedItems tokens).filter (· != '\t') = renderedItems tokens := by
    refine List.filter_eq_self.2 fun c hc => ?_
    obtain ⟨token, hmem, hc⟩ := List.mem_flatMap.1 hc
    rcases List.mem_append.1 hc with hc | hc
    · simpa using (mem_rendered (h token hmem) hc).1
    · rw [List.mem_singleton.1 hc]
      rfl
  rw [ofLine_eq_scan, hend, htabs, scan_renderedItems h]

/-! ## What a line delivers -/

/-- An item without tabs and line feeds is a token that can be written. -/
theorem writable_ofItem {first : Char} (hquote : ¬(first = '"' ∨ first = '\'')) (line : Nat)
    {text : List Char} (h : Unspaced (first :: text)) : (ofItem line first text).Writable := by
  have htext : Unspaced text := fun c hc => h c (.tail _ hc)
  have hitem : ∀ kind, TokenKind.startedBy first = kind →
      (⟨kind, String.ofList (if kind.isMarked then text else first :: text), line⟩ :
        Token).Writable := by
    intro kind hkind
    cases kind with
    | eof | string | char =>
      rw [TokenKind.startedBy] at hkind
      split_ifs at hkind <;> simp_all
    | register | block | global =>
      simpa [Writable, TokenKind.isMarked] using htext
    | identifier | number | operator =>
      exact ⟨by simpa [TokenKind.isMarked] using h, first, by simp [TokenKind.isMarked], hkind⟩
  exact hitem _ rfl

/-- A token of a scanned text without tabs and line feeds can be written, unless it is a literal
in single quotes. -/
theorem writable_of_mem_scan {line : Nat} {text : List Char}
    (htext : ∀ c ∈ text, c ≠ '\t' ∧ c ≠ '\n') {tokens : List Token}
    (h : scan line text = .ok tokens) {token : Token} (hmem : token ∈ tokens)
    (hkind : token.kind ≠ .char) : token.Writable := by
  -- the scan ends, passes a space, reads a literal, fails on an open one or reads an item
  fun_induction scan line text generalizing tokens with
  | case1 =>
    obtain rfl : [] = tokens := by simpa using h
    exact absurd hmem List.not_mem_nil
  | case2 rest ih => exact ih (fun c hc => htext c (.tail _ hc)) h hmem
  | case3 first rest hspace hquote position hclosing ih =>
    obtain ⟨others, hothers, rfl⟩ := exists_of_map_cons h
    rcases List.mem_cons.1 hmem with rfl | hmem
    · rcases hquote with rfl | rfl
      · exact trivial
      · exact absurd rfl hkind
    · exact ih (fun c hc => htext c (.tail _ (List.mem_of_mem_drop hc))) hothers hmem
  | case4 first rest hspace hquote hclosing => exact nomatch h
  | case5 first rest hspace hquote ih =>
    obtain ⟨others, hothers, rfl⟩ := exists_of_map_cons h
    rcases List.mem_cons.1 hmem with rfl | hmem
    · refine writable_ofItem hquote line (List.forall_mem_cons.2 ⟨⟨hspace, ?_⟩, fun c hc => ?_⟩)
      · exact htext first (.head _)
      · have hspace' : c ≠ ' ' := by simpa using List.mem_takeWhile_imp hc
        exact ⟨hspace', htext c (.tail _ ((List.takeWhile_sublist _).subset hc))⟩
    · have hrest : ∀ c ∈ rest.dropWhile (· != ' '), c ≠ '\t' ∧ c ≠ '\n' :=
        fun c hc => htext c (.tail _ ((List.dropWhile_sublist _).subset hc))
      exact ih hrest hothers hmem

/-- A token of a line without line feeds in it can be written, unless it is a literal in single
quotes. -/
theorem writable_of_mem_ofLine {number : Nat} {characters : List Char}
    (hcharacters : '\n' ∉ characters) {tokens : List Token}
    (h : ofLine number characters = .ok tokens) {token : Token} (hmem : token ∈ tokens)
    (hkind : token.kind ≠ .char) : token.Writable := by
  rw [ofLine_eq_scan] at h
  refine writable_of_mem_scan (fun c hc => ?_) h hmem hkind
  obtain ⟨hc, htab⟩ := List.mem_filter.1 hc
  have hc' : c ∈ characters := by
    rw [withoutLineEnd, List.mem_reverse] at hc
    exact List.mem_reverse.1 ((List.dropWhile_sublist _).subset hc)
  exact ⟨by simpa using htab, ne_of_mem_of_not_mem hc' hcharacters⟩

end Token

/-! ## Streams -/

namespace Source

/-- A source of which no line holds a line feed. -/
def Undivided (source : Source) : Prop :=
  ∀ characters, .text characters ∈ source → '\n' ∉ characters

/-- The lines of a text hold no line feeds. -/
theorem undivided_ofText (text : String) : (ofText text).Undivided := by
  intro characters hmem
  obtain ⟨piece, hpiece, heq⟩ := List.mem_map.1 hmem
  obtain rfl : piece = characters := by simpa using heq
  exact not_mem_of_mem_terminated hpiece

/-- A line feed among the characters of a line is one among its bytes. -/
theorem lineFeed_mem_of_lineOfBytes {bytes : List UInt8} {characters : List Char}
    (h : lineOfBytes bytes = .text characters) (hmem : '\n' ∈ characters) : 10 ∈ bytes := by
  rw [lineOfBytes] at h
  split at h
  · next text htext =>
    obtain rfl : text.toList = characters := by simpa using h
    have hbytes : text.toByteArray = ⟨bytes.toArray⟩ := by
      rw [String.fromUTF8?] at htext
      split at htext
      · obtain rfl := Option.some.inj htext
        rfl
      · exact nomatch htext
    obtain ⟨before, after, hparts⟩ := List.append_of_mem hmem
    have hencoded : (before ++ '\n' :: after).utf8Encode = ⟨bytes.toArray⟩ := by
      rw [← hparts, String.utf8Encode_toList, hbytes]
    rw [List.utf8Encode_append, List.utf8Encode_cons, List.utf8Encode_singleton] at hencoded
    have hlist := congrArg (fun encoded : ByteArray => encoded.data.toList) hencoded
    simp only [ByteArray.toList_data_append, List.data_toByteArray] at hlist
    rw [← hlist]
    exact List.mem_append_right _ (List.mem_append_left _ (by decide))
  · exact nomatch h

/-- The lines of a file hold no line feeds. -/
theorem undivided_ofBytes (bytes : List UInt8) : (ofBytes bytes).Undivided := by
  intro characters hmem hfeed
  obtain ⟨piece, hpiece, heq⟩ := List.mem_map.1 hmem
  exact not_mem_of_mem_terminated hpiece (lineFeed_mem_of_lineOfBytes heq hfeed)

end Source

namespace TokenStream

/-- **Written lines are delivered**: a stream delivers a written line as its tokens and goes on
behind it. -/
theorem next_renderedLine {tokens : List Token} (h : ∀ token ∈ tokens, token.Writable)
    (hne : tokens ≠ []) (following : String) (number : Nat) :
    next ⟨Source.ofText (Token.renderedLine tokens ++ following), number⟩ =
      (.ok (tokens.map fun token => ⟨token.kind, token.value, number + 1⟩),
        ⟨Source.ofText following, number + 1⟩) := by
  have hfeed : '\n' ∉ Token.renderedItems tokens := by
    intro hmem
    obtain ⟨token, htoken, hc⟩ := List.mem_flatMap.1 hmem
    rcases List.mem_append.1 hc with hc | hc
    · exact (Token.mem_rendered (h token htoken) hc).2 rfl
    · exact absurd hc (by decide)
  have hsource : Source.ofText (Token.renderedLine tokens ++ following) =
      .text (Token.renderedItems tokens) :: Source.ofText following := by
    rw [Source.ofText, Token.renderedLine, String.toList_append, String.toList_ofList,
      List.append_assoc, List.singleton_append, terminated_append_cons hfeed, List.map_cons]
    rfl
  obtain ⟨first, rest, rfl⟩ := List.exists_cons_of_ne_nil hne
  rw [hsource, next, nextFrom, Token.ofLine_renderedItems h hne]
  rfl

/-- What a stream delivers is the end or a line of its source, and what is left of it are the last
lines of its source. -/
theorem nextFrom_cases (number : Nat) (source : Source) :
    (nextFrom number source).2.rest <:+ source ∧
      ∀ tokens, (nextFrom number source).1 = .ok tokens →
        (∃ line, tokens = [.eof line]) ∨
          ∃ characters line, .text characters ∈ source ∧ Token.ofLine line characters = .ok tokens := by
  fun_induction nextFrom number source with
  | case1 number => exact ⟨List.suffix_rfl, fun tokens h => .inl ⟨number, (Except.ok.inj h).symm⟩⟩
  | case2 number rest => exact ⟨List.suffix_cons _ _, fun tokens h => nomatch h⟩
  | case3 number characters rest hline ih =>
    refine ⟨ih.1.trans (List.suffix_cons _ _), fun tokens h => (ih.2 tokens h).imp_right ?_⟩
    rintro ⟨characters, line, hmem, htokens⟩
    exact ⟨characters, line, .tail _ hmem, htokens⟩
  | case4 number characters rest first others hline =>
    exact ⟨List.suffix_cons _ _, fun tokens h => .inr ⟨characters, number + 1, .head _,
      hline.trans h⟩⟩
  | case5 number characters rest error hline =>
    exact ⟨List.suffix_cons _ _, fun tokens h => nomatch h⟩

/-- However often a stream has been asked, what is left of it are the last lines of its source. -/
theorem rest_iterate (calls : Nat) (stream : TokenStream) :
    ((fun current : TokenStream => current.next.2)^[calls] stream).rest <:+ stream.rest := by
  induction calls generalizing stream with
  | zero => exact List.suffix_rfl
  | succ calls ih => exact (ih stream.next.2).trans (nextFrom_cases stream.line stream.rest).1

/-- A token that a stream delivers can be written, unless it is a literal in single quotes or the
end. -/
theorem writable_of_next {stream : TokenStream} (hsource : stream.rest.Undivided)
    {tokens : List Token} (h : stream.next.1 = .ok tokens) {token : Token} (hmem : token ∈ tokens)
    (hchar : token.kind ≠ .char) (heof : token.kind ≠ .eof) : token.Writable := by
  rcases (nextFrom_cases stream.line stream.rest).2 tokens h with
    ⟨line, rfl⟩ | ⟨characters, line, hline, htokens⟩
  · obtain rfl := List.mem_singleton.1 hmem
    exact absurd rfl heof
  · exact Token.writable_of_mem_ofLine (hsource characters hline) htokens hmem hchar

/-- **Reading undoes writing.** Tokens that can be written are read back from a line of them with
their classes and values, whatever stands behind it, and all the tokens that a text or a file ever
delivers can be written, apart from literals and the end. -/
theorem reading_undoes_writing :
    (∀ (tokens : List Token) (following : String) (number : Nat), tokens ≠ [] →
      (∀ token ∈ tokens, token.Writable) →
      next ⟨Source.ofText (Token.renderedLine tokens ++ following), number⟩ =
        (.ok (tokens.map fun token => ⟨token.kind, token.value, number + 1⟩),
          ⟨Source.ofText following, number + 1⟩)) ∧
    ∀ source ∈ Set.range Source.ofText ∪ Set.range Source.ofBytes, ∀ (calls : Nat) tokens,
      ((fun current : TokenStream => current.next.2)^[calls] ⟨source, 0⟩).next.1 = .ok tokens →
      ∀ token ∈ tokens, token.kind ∉ [.string, .char, .eof] → token.Writable := by
  refine ⟨fun tokens following number hne h => next_renderedLine h hne following number, ?_⟩
  intro source hsource calls tokens htokens token hmem hkind
  have hundivided : source.Undivided := by
    rcases hsource with ⟨text, rfl⟩ | ⟨bytes, rfl⟩
    · exact Source.undivided_ofText text
    · exact Source.undivided_ofBytes bytes
  have hrest := rest_iterate calls ⟨source, 0⟩
  refine writable_of_next (fun characters hline => hundivided characters (hrest.subset hline))
    htokens hmem ?_ ?_ <;>
  · intro h
    simp [h] at hkind

/-- A string with a space, quotes, a backslash and a line feed in it is read back with the words
around it, and the register of that line can be written. -/
theorem reading_undoes_writing_set :
    let tokens : List Token :=
      [⟨.identifier, "set", 1⟩, ⟨.register, "x", 1⟩, ⟨.string, "a \" b\\\n\"", 1⟩]
    next ⟨Source.ofText (Token.renderedLine tokens ++ "jmp @a"), 0⟩ =
        (.ok tokens, ⟨Source.ofText "jmp @a", 1⟩) ∧
      (⟨.register, "x", 1⟩ : Token).Writable := by
  intro tokens
  have hread := reading_undoes_writing.1 tokens "jmp @a" 0 (by decide) (by decide)
  have hwritable := reading_undoes_writing.2
    (Source.ofText (Token.renderedLine tokens ++ "jmp @a")) (.inl (Set.mem_range_self _)) 0
    tokens (congrArg Prod.fst hread)
  exact ⟨hread, hwritable _ (.tail _ (.head _)) (by decide)⟩

end TokenStream

end ChainIR
