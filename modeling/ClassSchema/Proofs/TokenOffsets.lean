import ClassSchema.Proofs.Spelling

/-!
# Where tokens stand

A token found in a text stands at its offset: the text before it has as many bytes, and the tokens before it are those found in
that text, whatever comes next, if it begins as the token does (`Stands`, `stands_of_scan`). Word characters have one byte each,
so the offset of a character inside a word is that of the word and the number of characters before.
-/

namespace ClassSchema

namespace Grammar

variable {offset : Nat} {cs pre post : List Char} {before after : List Located} {t : Located}

/-! ## Characters of tokens -/

/-- A word character has one byte. -/
theorem utf8Size_of_isWordChar {c : Char} (h : isWordChar c = true) : c.utf8Size = 1 := by
  have hle : c.toNat ≤ 127 := by
    simp only [isWordChar, isWordStart, Bool.or_eq_true, beq_iff_eq] at h
    rcases h with (h | rfl) | rfl
    · have := toNat_of_isAlphanum h
      omega
    · decide
    · decide
  exact Char.utf8Size_eq_one_iff.2 hle

/-- Word characters have as many bytes as there are. -/
theorem utf8Length_of_isWordChar (h : ∀ c ∈ cs, isWordChar c = true) : utf8Length cs = cs.length := by
  induction cs with
  | nil => rfl
  | cons c cs ih =>
    rw [List.forall_mem_cons] at h
    rw [utf8Length, utf8Size_of_isWordChar h.1, ih h.2, List.length_cons, Nat.add_comm]

/-- A token begins with its first character. -/
theorem head?_tokenText (t : Token) : (tokenText t).head? = some t.firstChar := by
  cases t <;> rfl

/-- A character that is no blank begins a token. -/
theorem exists_scan_cons {c : Char} (h : isBlank c = false) (offset : Nat) (cs : List Char) :
    ∃ t after, Token.scan offset (c :: cs) = ⟨offset, t⟩ :: after ∧ t.firstChar = c := by
  rw [Token.scan, if_neg (by simp [h])]
  by_cases hw : isWordStart c = true
  · rw [if_pos hw]
    exact ⟨_, _, rfl, rfl⟩
  · rw [if_neg hw]
    exact ⟨_, _, rfl, rfl⟩

/-- The first character of a token is no blank. -/
theorem isBlank_firstChar {t : Token} (h : Proper t) : isBlank t.firstChar = false := by
  cases t with
  | word c cs =>
    rw [Bool.eq_false_iff]
    intro hb
    have hword : isWordChar c = true := isWordChar_of_isWordStart h.1
    rw [isWordChar_of_isBlank (c := c) hb] at hword
    nomatch hword
  | mark c => exact h.1

/-- Two tokens that begin alike are the same, or words that begin alike. -/
theorem eq_or_words_of_firstChar {t u : Token} (ht : Proper t) (hu : Proper u) (h : t.firstChar = u.firstChar) :
    t = u ∨ ∃ c cs ds, t = .word c cs ∧ u = .word c ds := by
  cases t with
  | word c cs =>
    cases u with
    | word d ds =>
      obtain rfl : c = d := h
      exact Or.inr ⟨c, cs, ds, rfl, rfl⟩
    | mark d =>
      obtain rfl : c = d := h
      exact absurd ht.1 (by simp [hu.2])
  | mark c =>
    cases u with
    | word d ds =>
      obtain rfl : c = d := h
      exact absurd hu.1 (by simp [ht.2])
    | mark d =>
      obtain rfl : c = d := h
      exact Or.inl rfl

/-! ## The text before a token -/

/-- A token stands between two parts of a text. The tokens before it are found in the first part, also if that part is followed
by something else that begins as the token does, or by nothing. -/
structure Stands (offset : Nat) (cs pre post : List Char) (before : List Located) (t : Located) : Prop where
  text : cs = pre ++ (tokenText t.token ++ post)
  offset_eq : t.offset = offset + utf8Length pre
  scan_append : ∀ more : List Char, (∀ d ∈ more.head?, d = t.token.firstChar) →
    Token.scan offset (pre ++ more) = before ++ Token.scan t.offset more
  ends : ∀ c tail, t.token = .word c tail → ∀ d ∈ post.head?, isWordChar d = false

/-- The tokens found before the place of a token are those before it. -/
theorem Stands.scan_eq (h : Stands offset cs pre post before t) : Token.scan offset pre = before := by
  have := h.scan_append [] (fun _ hd => nomatch hd)
  rwa [List.append_nil, Token.scan, List.append_nil] at this

/-- Whatever may come next in the place of the token begins as the rest of the text does. -/
theorem Stands.head_append (h : Stands offset cs pre post before t) {more : List Char}
    (hmore : ∀ d ∈ more.head?, d = t.token.firstChar) : ∀ d ∈ (pre ++ more).head?, d ∈ cs.head? := by
  intro d hd
  rw [h.text]
  cases pre with
  | nil =>
    rw [hmore d hd, List.nil_append, List.head?_append, head?_tokenText]
    rfl
  | cons b pre => exact hd

/-- A piece with tokens of its own may be put before a text. -/
theorem Stands.append_left {piece : List Char} {tokens : List Located}
    (h : Stands (offset + utf8Length piece) cs pre post before t)
    (hpiece : ∀ more : List Char, (∀ d ∈ more.head?, d ∈ cs.head?) →
      Token.scan offset (piece ++ more) = tokens ++ Token.scan (offset + utf8Length piece) more) :
    Stands offset (piece ++ cs) (piece ++ pre) post (tokens ++ before) t := by
  refine ⟨?_, ?_, ?_, h.ends⟩
  · rw [h.text, List.append_assoc]
  · rw [h.offset_eq, utf8Length_append, Nat.add_assoc]
  · intro more hmore
    rw [List.append_assoc, hpiece _ (h.head_append hmore), h.scan_append more hmore, List.append_assoc]

/-- A token that is found in a text stands in it. -/
theorem stands_of_scan (h : Token.scan offset cs = before ++ t :: after) :
    ∃ pre post, Stands offset cs pre post before t := by
  induction offset, cs using Token.scan.induct generalizing before with
  | case1 offset =>
    rw [Token.scan] at h
    exact absurd h.symm (List.append_ne_nil_of_right_ne_nil before (List.cons_ne_nil t after))
  | case2 offset c cs hb ih =>
    rw [Token.scan, if_pos hb] at h
    obtain ⟨pre, post, hstands⟩ := ih h
    have hpiece (more : List Char) : Token.scan offset ([c] ++ more) = [] ++ Token.scan (offset + utf8Length [c]) more := by
      rw [List.singleton_append, Token.scan, if_pos hb]
      rfl
    exact ⟨_, _, hstands.append_left fun more _ => hpiece more⟩
  | case3 offset c cs hb hw ih =>
    rw [Token.scan, if_neg hb, if_pos hw] at h
    have hrest : ∀ d ∈ (cs.dropWhile isWordChar).head?, isWordChar d = false :=
      fun d hd => eq_false_of_mem_head?_dropWhile hd
    have hsplit : c :: cs = c :: cs.takeWhile isWordChar ++ cs.dropWhile isWordChar := by
      rw [List.cons_append, List.takeWhile_append_dropWhile]
    rw [hsplit]
    rcases List.cons_eq_append_iff.1 h with ⟨rfl, ht⟩ | ⟨before', rfl, hbefore⟩
    · obtain ⟨rfl, rfl⟩ := List.cons.inj ht
      exact ⟨[], _, rfl, rfl, fun _ _ => rfl, fun _ _ _ => hrest⟩
    · obtain ⟨pre, post, hstands⟩ := ih hbefore
      have hword : ∀ d ∈ cs.takeWhile isWordChar, isWordChar d = true := fun d hd => List.mem_takeWhile_imp hd
      have hpiece (more : List Char) (hmore : ∀ d ∈ more.head?, d ∈ (cs.dropWhile isWordChar).head?) :
          Token.scan offset (c :: cs.takeWhile isWordChar ++ more) = [⟨offset, .word c (cs.takeWhile isWordChar)⟩] ++
            Token.scan (offset + utf8Length (c :: cs.takeWhile isWordChar)) more :=
        scan_word_append hw hword (fun d hd => hrest d (hmore d hd)) offset
      exact ⟨_, _, hstands.append_left hpiece⟩
  | case4 offset c cs hb hw ih =>
    rw [Token.scan, if_neg hb, if_neg hw] at h
    rcases List.cons_eq_append_iff.1 h with ⟨rfl, ht⟩ | ⟨before', rfl, hbefore⟩
    · obtain ⟨rfl, rfl⟩ := List.cons.inj ht
      exact ⟨[], cs, rfl, rfl, fun _ _ => rfl, fun _ _ h => Token.noConfusion h⟩
    · obtain ⟨pre, post, hstands⟩ := ih hbefore
      have hpiece (more : List Char) : Token.scan offset ([c] ++ more) =
          [⟨offset, .mark c⟩] ++ Token.scan (offset + utf8Length [c]) more :=
        scan_mark_cons (Bool.eq_false_iff.2 hb) (Bool.eq_false_iff.2 hw) offset more
      exact ⟨_, _, hstands.append_left fun more _ => hpiece more⟩

end Grammar

end ClassSchema
