import ClassSchema.Proofs.Descent
import ClassSchema.Proofs.Outcome
import ClassSchema.Proofs.PlaceResult
import ClassSchema.Proofs.TokenOffsets

/-!
# Steps of the descent

What a procedure of the descent does is stated once, by `Performs`: it ends, it changes the ledger only as it may (`Moves`), and
it comes to the value or the fault that is expected of it. One procedure after another performs if both do (`Performs.bind`).

The machine reads tokens, and the descent reads characters. The tokens from a position on (`tokensAt`) are what both agree on: a
mark that was eaten was the next token, and skipping blanks changes no token. With this, every procedure that reads characters has
a statement about tokens.

At the end stand the two things that are done around the procedures of the rules. A call that has returned is noted, and whatever
is done between raising the counter and lowering it leaves the counter as it was.
-/

namespace ClassSchema

namespace Descent

open Grammar

/-! ## Discipline -/

/-- What is asked of a call that has returned. -/
structure Disciplined (limit : Nat) (cs : List Char) (call : Call) : Prop where
  forward : call.start.pos ≤ call.stop.pos
  within : call.stop.pos ≤ cs.length
  consumes : call.succeeded = true → call.start.pos < call.stop.pos
  restores : call.stop.depth = call.start.depth
  /-- The counter is the number of the members around the call. -/
  counts : call.start.depth = call.around.count .member
  bounded : call.start.depth ≤ limit
  /-- The counter has been raised around what a member is made of, so it can be lowered. -/
  raised : call.rule = .memberInner → 1 ≤ call.stop.depth
  /-- A member too many is refused before anything is read. -/
  refused : call.rule = .member → call.start.depth = limit → call.succeeded = false ∧ call.stop = call.start

/-- What a procedure may do to a ledger. -/
structure Moves (limit : Nat) (cs : List Char) (l l' : Ledger) : Prop where
  forward : l.progress.pos ≤ l'.progress.pos
  within : l.progress.pos ≤ cs.length → l'.progress.pos ≤ cs.length
  restores : l'.progress.depth = l.progress.depth
  calls : ∃ more, l'.calls = l.calls ++ more ∧ ∀ call ∈ more, Disciplined limit cs call
  asked : ∃ more, l'.asked = l.asked ++ more ∧ ∀ i ∈ more, i < cs.length

/-- A failure is what the target is; of a value and the position after it, something holds. -/
def Fits {α : Type} (target : Except Fault TypeExpr) (Ok : α → Nat → Prop) (pos : Nat) : Except Fault α → Prop
  | .ok a => Ok a pos
  | .error fault => target = .error fault

/-- From a ledger, a procedure ends and moves as it may, and its outcome fits. -/
def Performs {α : Type} (limit : Nat) (cs : List Char) (l : Ledger) (x : Procedure α) (target : Except Fault TypeExpr)
    (Ok : α → Nat → Prop) : Prop :=
  ∃ out l', runFrom x l = some (out, l') ∧ Moves limit cs l l' ∧ Fits target Ok l'.progress.pos out

variable {limit : Nat} {cs : List Char} {l l' l'' : Ledger} {α β : Type} {target : Except Fault TypeExpr}

theorem Moves.refl (l : Ledger) : Moves limit cs l l :=
  ⟨Nat.le_refl _, id, rfl, ⟨[], by simp, by simp⟩, ⟨[], by simp, by simp⟩⟩

theorem Moves.trans (h : Moves limit cs l l') (h' : Moves limit cs l' l'') : Moves limit cs l l'' := by
  obtain ⟨calls, hcalls, hall⟩ := h.calls
  obtain ⟨calls', hcalls', hall'⟩ := h'.calls
  obtain ⟨asked, hasked, hbound⟩ := h.asked
  obtain ⟨asked', hasked', hbound'⟩ := h'.asked
  refine ⟨h.forward.trans h'.forward, fun hl => h'.within (h.within hl), h'.restores.trans h.restores,
    ⟨calls ++ calls', by rw [hcalls', hcalls, List.append_assoc], List.forall_mem_append.2 ⟨hall, hall'⟩⟩,
    ⟨asked ++ asked', by rw [hasked', hasked, List.append_assoc], List.forall_mem_append.2 ⟨hbound, hbound'⟩⟩⟩

/-- Reading characters that are there is a move. -/
theorem moves_advance {n : Nat} (h : l.progress.pos ≤ cs.length → l.progress.pos + n ≤ cs.length) :
    Moves limit cs l { l with progress := { l.progress with pos := l.progress.pos + n } } :=
  ⟨Nat.le_add_right _ _, h, rfl, ⟨[], by simp, by simp⟩, ⟨[], by simp, by simp⟩⟩

theorem performs_pure {a : α} {Ok : α → Nat → Prop} (h : Ok a l.progress.pos) : Performs limit cs l (pure a) target Ok :=
  ⟨.ok a, l, rfl, .refl l, h⟩

theorem performs_throw {fault : Fault} {Ok : α → Nat → Prop} (h : target = .error fault) :
    Performs limit cs l (throw fault : Procedure α) target Ok :=
  ⟨.error fault, l, rfl, .refl l, h⟩

/-- One procedure after another. -/
theorem Performs.bind {x : Procedure α} {f : α → Procedure β} {Ok : α → Nat → Prop} {Ok' : β → Nat → Prop}
    (hx : Performs limit cs l x target Ok)
    (hf : ∀ a l', Moves limit cs l l' → Ok a l'.progress.pos → Performs limit cs l' (f a) target Ok') :
    Performs limit cs l (x >>= f) target Ok' := by
  obtain ⟨out, l', hrun, hmoves, hout⟩ := hx
  cases out with
  | error fault =>
    exact ⟨.error fault, l', run_bind_of_error hrun f, hmoves, hout⟩
  | ok a =>
    obtain ⟨out, l'', hrun', hmoves', hout'⟩ := hf a l' hmoves hout
    exact ⟨out, l'', (run_bind_of_ok hrun f).trans hrun', hmoves.trans hmoves', hout'⟩

/-- What holds of a value may be weakened. -/
theorem Performs.mono {x : Procedure α} {Ok Ok' : α → Nat → Prop} (h : Performs limit cs l x target Ok)
    (hle : ∀ a pos, l.progress.pos ≤ pos → Ok a pos → Ok' a pos) : Performs limit cs l x target Ok' := by
  obtain ⟨out, l', hrun, hmoves, hout⟩ := h
  refine ⟨out, l', hrun, hmoves, ?_⟩
  cases out with
  | error fault => exact hout
  | ok a => exact hle a _ hmoves.forward hout

/-! ## Tokens from a position on -/

/-- The tokens from a position on. -/
def tokensAt (cs : List Char) (pos : Nat) : List Located := Token.scan (utf8Length (cs.take pos)) (cs.drop pos)

/-- Before a position stands a character that was just read. -/
structure Ate (cs : List Char) (c : Char) (pos pos' : Nat) : Prop where
  lt : pos < pos'
  char : cs[pos' - 1]? = some c
  tokens : tokensAt cs pos = ⟨utf8Length (cs.take (pos' - 1)), .mark c⟩ :: tokensAt cs pos'

/-- Only blanks stand between two positions, and none after them. -/
structure Skipped (cs : List Char) (pos pos' : Nat) : Prop where
  tokens : tokensAt cs pos' = tokensAt cs pos
  not_blank : ∀ c, cs[pos']? = some c → isBlank c = false

variable {pos pos' : Nat} {c : Char}

theorem drop_add_length {as bs : List Char} (h : cs.drop pos = as ++ bs) : cs.drop (pos + as.length) = bs := by
  rw [← List.drop_drop, h, List.drop_left]

/-- Tokens after a part of the text. -/
theorem tokensAt_add {as bs : List Char} (h : cs.drop pos = as ++ bs) :
    tokensAt cs (pos + as.length) = Token.scan (utf8Length (cs.take pos) + utf8Length as) bs := by
  rw [tokensAt, drop_add_length h, List.take_add, h, List.take_left, utf8Length_append]

theorem drop_eq_cons (h : cs[pos]? = some c) : cs.drop pos = c :: cs.drop (pos + 1) := by
  obtain ⟨hlt, hget⟩ := List.getElem?_eq_some_iff.1 h
  rw [List.drop_eq_getElem_cons hlt, hget]

/-- Where the text ends, there are no tokens. -/
theorem tokensAt_of_none (h : cs[pos]? = none) : tokensAt cs pos = [] := by
  rw [tokensAt, List.drop_eq_nil_of_le (List.getElem?_eq_none_iff.1 h), Token.scan]

/-- A character that is no blank begins a token. -/
theorem exists_tokensAt (h : cs[pos]? = some c) (hb : isBlank c = false) :
    ∃ t ts, tokensAt cs pos = ⟨utf8Length (cs.take pos), t⟩ :: ts ∧ t.firstChar = c := by
  rw [tokensAt, drop_eq_cons h]
  exact exists_scan_cons hb _ _

/-- A mark is a token of its own. -/
theorem tokensAt_mark (h : cs[pos]? = some c) (hb : isBlank c = false) (hw : isWordStart c = false) :
    tokensAt cs pos = ⟨utf8Length (cs.take pos), .mark c⟩ :: tokensAt cs (pos + 1) := by
  have hadd : tokensAt cs (pos + [c].length) = _ := tokensAt_add (drop_eq_cons h)
  rw [tokensAt, drop_eq_cons h, scan_mark_cons hb hw]
  exact congrArg _ hadd.symm

/-- A word is a token. -/
theorem tokensAt_word {rest : List Char} (h : cs.drop pos = c :: rest) (hw : isWordStart c = true) :
    tokensAt cs pos = ⟨utf8Length (cs.take pos), .word c (rest.takeWhile isWordChar)⟩ ::
      tokensAt cs (pos + (c :: rest.takeWhile isWordChar).length) := by
  have hsplit : cs.drop pos = (c :: rest.takeWhile isWordChar) ++ rest.dropWhile isWordChar := by
    rw [h, List.cons_append, List.takeWhile_append_dropWhile]
  have hblank : ¬isBlank c = true := by
    intro hb
    have hword := isWordChar_of_isWordStart hw
    rw [isWordChar_of_isBlank hb] at hword
    nomatch hword
  rw [tokensAt_add hsplit, tokensAt, h, Token.scan, if_neg hblank, if_pos hw]

/-! ## Procedures that read characters -/

/-- A procedure may ask how far it has come. -/
theorem performs_progress {f : Progress → Procedure α} {Ok : α → Nat → Prop}
    (h : Performs limit cs l (f l.progress) target Ok) : Performs limit cs l (liftM progress >>= f) target Ok := h

/-- The next character is looked at. -/
theorem performs_peek {f : Option Char → Procedure α} {Ok : α → Nat → Prop}
    (h : Performs limit cs l (f cs[l.progress.pos]?) target Ok) : Performs limit cs l (peek cs >>= f) target Ok := h

/-- Characters that are there may be read. -/
theorem performs_advance {n : Nat} (h : l.progress.pos ≤ cs.length → l.progress.pos + n ≤ cs.length) :
    Performs limit cs l (advance n) target fun _ pos' => pos' = l.progress.pos + n :=
  ⟨.ok (), _, rfl, moves_advance h, rfl⟩

/-- Blanks are skipped. -/
theorem performs_skipBlanks :
    Performs limit cs l (skipBlanks cs) target fun _ pos' => Skipped cs l.progress.pos pos' := by
  have hsplit := (List.takeWhile_append_dropWhile (p := isBlank) (l := cs.drop l.progress.pos)).symm
  refine performs_progress (Performs.mono (performs_advance ?_) ?_)
  · intro hl
    have hlength := congrArg List.length hsplit
    rw [List.length_append, List.length_drop] at hlength
    omega
  · rintro ⟨⟩ _ - rfl
    refine ⟨?_, ?_⟩
    · rw [tokensAt_add hsplit, ← scan_blanks_append (fun c hc => List.mem_takeWhile_imp hc), ← hsplit]
      rfl
    · intro c hc
      rw [← List.head?_drop, drop_add_length hsplit] at hc
      exact eq_false_of_mem_head?_dropWhile hc

/-- A mark is looked for after blanks. -/
theorem performs_peekIs :
    Performs limit cs l (peekIs cs c) target fun b pos' =>
      Skipped cs l.progress.pos pos' ∧ b = decide (cs[pos']? = some c) :=
  performs_skipBlanks.bind fun _ _ _ hskip => performs_peek (performs_pure ⟨hskip, rfl⟩)

/-- A character that is no part of a word and no blank. -/
def IsMark (c : Char) : Prop := isBlank c = false ∧ isWordStart c = false

/-- The next token is a mark exactly if the next character is. -/
theorem notNext_iff (hskip : Skipped cs pos pos') (hc : IsMark c) : NotNext c (tokensAt cs pos') ↔ cs[pos']? ≠ some c := by
  cases hnext : cs[pos']? with
  | none => simp [NotNext, tokensAt_of_none hnext]
  | some d =>
    obtain ⟨t, ts, htokens, hfirst⟩ := exists_tokensAt hnext (hskip.not_blank d hnext)
    rw [ne_eq, Option.some_inj]
    constructor
    · rintro hnot rfl
      rw [tokensAt_mark hnext hc.1 hc.2] at hnot
      exact hnot _ rfl rfl
    · intro hne u hu hmark
      rw [htokens] at hu
      cases hu
      have hmark : t = .mark c := hmark
      rw [hmark] at hfirst
      exact hne hfirst.symm

/-- A mark is read, or there is another token or none. -/
theorem performs_eat (hc : IsMark c) :
    Performs limit cs l (eat cs c) target fun b pos' =>
      (b = true ∧ Ate cs c l.progress.pos pos') ∨
        (b = false ∧ Skipped cs l.progress.pos pos' ∧ NotNext c (tokensAt cs pos')) := by
  refine performs_peekIs.bind ?_
  rintro b l' hmoves ⟨hskip, rfl⟩
  by_cases hnext : cs[l'.progress.pos]? = some c
  · rw [decide_eq_true hnext, if_pos rfl]
    have hlt := (List.getElem?_eq_some_iff.1 hnext).1
    refine Performs.bind (performs_advance fun _ => hlt) ?_
    rintro ⟨⟩ l'' - hpos
    refine performs_pure (Or.inl ⟨rfl, ?_⟩)
    rw [hpos]
    refine ⟨Nat.lt_succ_of_le hmoves.forward, hnext, ?_⟩
    rw [← hskip.tokens]
    exact tokensAt_mark hnext hc.1 hc.2
  · rw [decide_eq_false hnext, if_neg Bool.false_ne_true]
    exact performs_pure (Or.inr ⟨rfl, hskip, (notNext_iff hskip hc).2 hnext⟩)

/-! ## Procedures that fail -/

variable {Ok : α → Nat → Prop}

/-- A character that is there is named as unexpected. -/
theorem performs_unexpectedAt {i : Nat} (h : cs[i]? = some c) (ht : target = .error (.unexpected (utf8Length (cs.take i)) c)) :
    Performs limit cs l (unexpectedAt cs i) target Ok := by
  have hlt := (List.getElem?_eq_some_iff.1 h).1
  refine ⟨.error (.unexpected (utf8Length (cs.take i)) c), { l with asked := l.asked ++ [i] }, ?_,
    ⟨Nat.le_refl _, id, rfl, ⟨[], by simp, by simp⟩, ⟨[i], rfl, by simpa using hlt⟩⟩, ht⟩
  unfold unexpectedAt
  rw [h]
  rfl

/-- A token that cannot stand there is named by its first character. -/
theorem performs_unexpectedOrEnd {expected : Expected} (hskip : Skipped cs pos l.progress.pos)
    (ht : target = refusal expected (tokensAt cs l.progress.pos)) :
    Performs limit cs l (unexpectedOrEnd cs expected) target Ok := by
  refine performs_peek ?_
  cases hnext : cs[l.progress.pos]? with
  | none =>
    rw [tokensAt_of_none hnext] at ht
    exact performs_throw ht
  | some c =>
    obtain ⟨t, ts, htokens, rfl⟩ := exists_tokensAt hnext (hskip.not_blank c hnext)
    rw [htokens] at ht
    exact performs_progress (performs_unexpectedAt hnext ht)

/-- A mark that has to follow. -/
theorem performs_expect {expected : Expected} (hc : IsMark c)
    (ht : NotNext c (tokensAt cs l.progress.pos) → target = refusal expected (tokensAt cs l.progress.pos)) :
    Performs limit cs l (expect cs c expected) target fun _ pos' => Ate cs c l.progress.pos pos' := by
  refine (performs_eat hc).bind ?_
  rintro b l' - (⟨rfl, hate⟩ | ⟨rfl, hskip, hnot⟩)
  · exact performs_pure hate
  · refine performs_unexpectedOrEnd hskip ?_
    rw [hskip.tokens] at hnot ⊢
    exact ht hnot

/-- Only the characters after the first can be a dash at the end of a word. -/
theorem getLast?_word {w : List Char} (hc : isWordStart c = true) :
    (c :: w).getLast? = some '-' ↔ w.getLast? = some '-' := by
  cases w with
  | nil =>
    have hne : c ≠ '-' := by
      rintro rfl
      nomatch hc
    simpa using hne
  | cons d w => rw [List.getLast?_cons_cons]

/-- A dash at the end of a word stands as many bytes after the beginning as there are characters before it. -/
theorem dash_at {w rest : List Char} (h : cs.drop pos = c :: w ++ rest) (hc : isWordStart c = true)
    (hw : ∀ d ∈ w, isWordChar d = true) (hlast : w.getLast? = some '-') :
    cs[pos + w.length]? = some '-' ∧ utf8Length (cs.take (pos + w.length)) = utf8Length (cs.take pos) + w.length := by
  obtain ⟨before, rfl⟩ := List.getLast?_eq_some_iff.1 hlast
  have hbefore : ∀ d ∈ c :: before, isWordChar d = true :=
    List.forall_mem_cons.2 ⟨isWordChar_of_isWordStart hc, fun d hd => hw d (List.mem_append_left _ hd)⟩
  have hsplit : cs.drop pos = (c :: before) ++ ('-' :: rest) := by simpa using h
  have hlength : (before ++ ['-']).length = (c :: before).length := by simp
  rw [hlength]
  constructor
  · rw [← List.head?_drop, drop_add_length hsplit, List.head?_cons]
  · rw [List.take_add, hsplit, List.take_left, utf8Length_append, utf8Length_of_isWordChar hbefore]

/-- A word that is there is read. -/
theorem performs_nameOf {w rest : List Char} (h : cs.drop l.progress.pos = c :: w ++ rest) (hc : isWordStart c = true)
    (hw : ∀ d ∈ w, isWordChar d = true)
    (hdash : w.getLast? = some '-' → target = .error (.unexpected (utf8Length (cs.take l.progress.pos) + w.length) '-')) :
    Performs limit cs l (nameOf cs (c :: w)) target fun name pos' =>
      pos' = l.progress.pos + (c :: w).length ∧ w.getLast? ≠ some '-' ∧ name = .ofList (c :: w) := by
  refine Performs.bind (performs_advance ?_) ?_
  · intro _
    have hlength := congrArg List.length h
    rw [List.length_drop, List.length_append, List.length_cons] at hlength
    rw [List.length_cons]
    omega
  · rintro ⟨⟩ l' - hpos
    rw [List.isEmpty_cons, if_neg Bool.false_ne_true]
    by_cases hlast : w.getLast? = some '-'
    · rw [if_pos ((getLast?_word hc).2 hlast)]
      obtain ⟨hchar, hoffset⟩ := dash_at h hc hw hlast
      have hbefore : l'.progress.pos - 1 = l.progress.pos + w.length := by
        rw [hpos, List.length_cons, ← Nat.add_assoc, Nat.add_sub_cancel]
      refine performs_progress ?_
      rw [hbefore]
      exact performs_unexpectedAt hchar (by rw [hoffset, hdash hlast])
    · rw [if_neg (mt (getLast?_word hc).1 hlast)]
      exact performs_pure ⟨hpos, hlast, rfl⟩

/-- A word begins with its first character. -/
theorem char_of_word {t : Located} {w : List Char} (hskip : Skipped cs pos pos') (ht : t ∈ (tokensAt cs pos').head?)
    (hword : t.token = .word c w) : cs[pos']? = some c ∧ isWordStart c = true := by
  have hproper := proper_of_mem_scan _ _ t (List.mem_of_mem_head? ht)
  rw [hword] at hproper
  refine ⟨?_, hproper.1⟩
  cases hnext : cs[pos']? with
  | none =>
    rw [tokensAt_of_none hnext] at ht
    nomatch ht
  | some d =>
    obtain ⟨u, us, htokens, hfirst⟩ := exists_tokensAt hnext (hskip.not_blank d hnext)
    rw [htokens] at ht
    cases ht
    have hword : u = .word c w := hword
    rw [← hfirst, hword]
    rfl

/-- A name that has to follow. -/
theorem performs_ident
    (hnone : (∀ t ∈ (tokensAt cs l.progress.pos).head?, ∀ c w, t.token ≠ .word c w) →
      target = refusal .name (tokensAt cs l.progress.pos))
    (hdash : ∀ t ∈ (tokensAt cs l.progress.pos).head?, ∀ c w, t.token = .word c w → w.getLast? = some '-' →
      target = .error (.unexpected (t.offset + w.length) '-')) :
    Performs limit cs l (ident cs) target fun name pos' =>
      l.progress.pos < pos' ∧ ∃ t c w, tokensAt cs l.progress.pos = t :: tokensAt cs pos' ∧ t.token = .word c w ∧
        w.getLast? ≠ some '-' ∧ name = .ofList (c :: w) := by
  refine performs_skipBlanks.bind ?_
  rintro ⟨⟩ l' hmoves hskip
  refine performs_progress ?_
  rw [← hskip.tokens] at hnone hdash ⊢
  by_cases hstart : ∃ c, cs[l'.progress.pos]? = some c ∧ isWordStart c = true
  · obtain ⟨c, hnext, hc⟩ := hstart
    have hdrop := drop_eq_cons hnext
    generalize cs.drop (l'.progress.pos + 1) = rest at hdrop
    have htokens := tokensAt_word hdrop hc
    have hsplit : cs.drop l'.progress.pos = c :: rest.takeWhile isWordChar ++ rest.dropWhile isWordChar := by
      rw [hdrop, List.cons_append, List.takeWhile_append_dropWhile]
    rw [hdrop, firstWord, if_pos hc]
    rw [htokens] at hdash ⊢
    refine (performs_nameOf hsplit hc (fun d hd => List.mem_takeWhile_imp hd) fun hlast => hdash _ rfl c _ rfl hlast).mono ?_
    rintro name pos' - ⟨rfl, hlast, rfl⟩
    refine ⟨?_, _, c, _, rfl, rfl, hlast, rfl⟩
    have := hmoves.forward
    rw [List.length_cons]
    omega
  · have hword : firstWord (cs.drop l'.progress.pos) = [] := by
      cases hnext : cs[l'.progress.pos]? with
      | none => rw [List.drop_eq_nil_of_le (List.getElem?_eq_none_iff.1 hnext), firstWord]
      | some c => rw [drop_eq_cons hnext, firstWord, if_neg fun hc => hstart ⟨c, hnext, hc⟩]
    rw [hword]
    refine Performs.bind (performs_advance fun h => h) ?_
    rintro ⟨⟩ l'' - hpos
    have hpos : l''.progress.pos = l'.progress.pos := hpos
    refine performs_unexpectedOrEnd (hpos ▸ hskip) ?_
    rw [hpos]
    refine hnone ?_
    intro t ht c w hword
    exact hstart ⟨c, char_of_word hskip ht hword⟩

/-! ## Calls -/

/-- A ledger as a call finds it inside others. -/
structure Entered (limit : Nat) (cs : List Char) (around : List Rule) (l : Ledger) : Prop where
  within : l.progress.pos ≤ cs.length
  counts : l.progress.depth = around.count .member
  bounded : l.progress.depth ≤ limit

variable {around : List Rule} {rule : Rule}

theorem Entered.moves (h : Entered limit cs around l) (hmoves : Moves limit cs l l') : Entered limit cs around l' := by
  refine ⟨hmoves.within h.within, ?_, ?_⟩
  · rw [hmoves.restores, h.counts]
  · rw [hmoves.restores]
    exact h.bounded

/-- Calls that are no members are not counted. -/
theorem Entered.inside (h : Entered limit cs around l) (rule : Rule) (hrule : rule ≠ .member) :
    Entered limit cs (rule :: around) l :=
  ⟨h.within, by rw [List.count_cons_of_ne hrule, h.counts], h.bounded⟩

/-- A procedure that is noted when it returns. -/
def noted (rule : Rule) (around : List Rule) (x : Procedure α) : Procedure α :=
  (do
    let start ← progress
    let out ← x.run
    note rule around start out : StateT Ledger Option (Except Fault α))

/-- A call that has returned is noted. -/
theorem performs_noted_of_run {x : Procedure α} {out : Except Fault α} (hrun : runFrom x l = some (out, l'))
    (hmoves : Moves limit cs l l') (hcall : Disciplined limit cs ⟨rule, around, l.progress, l'.progress, out.isOk⟩)
    (hout : Fits target Ok l'.progress.pos out) :
    Performs limit cs l (noted rule around x) target Ok := by
  obtain ⟨calls, hcalls, hall⟩ := hmoves.calls
  have hnoted : runFrom (noted rule around x) l =
      some (out, { l' with calls := l'.calls ++ [⟨rule, around, l.progress, l'.progress, out.isOk⟩] }) := by
    unfold runFrom at hrun ⊢
    change (x.run.run l).bind _ = _
    rw [hrun]
    rfl
  refine ⟨out, _, hnoted, ⟨hmoves.forward, hmoves.within, hmoves.restores, ?_, hmoves.asked⟩, hout⟩
  refine ⟨calls ++ [⟨rule, around, l.progress, l'.progress, out.isOk⟩], ?_, ?_⟩
  · rw [hcalls, List.append_assoc]
  · exact List.forall_mem_append.2 ⟨hall, by simpa using hcall⟩

/-- What the counter has to be before a call: a member can be opened, or the member around has been counted. -/
def Allowed (limit : Nat) (rule : Rule) (depth : Nat) : Prop :=
  (rule = .member → depth < limit) ∧ (rule = .memberInner → 1 ≤ depth)

/-- A call that reads something if it succeeds. -/
theorem Performs.noted {x : Procedure α} (hx : Performs limit cs l x target Ok) (h : Entered limit cs around l)
    (hallowed : Allowed limit rule l.progress.depth) (hconsumes : ∀ a pos', Ok a pos' → l.progress.pos < pos') :
    Performs limit cs l (noted rule around x) target Ok := by
  obtain ⟨out, l', hrun, hmoves, hout⟩ := hx
  refine performs_noted_of_run hrun hmoves ?_ hout
  refine ⟨hmoves.forward, hmoves.within h.within, ?_, hmoves.restores, h.counts, h.bounded, ?_, ?_⟩
  · intro hok
    cases out with
    | error fault => nomatch hok
    | ok a => exact hconsumes a _ hout
  · intro hrule
    rw [hmoves.restores]
    exact hallowed.2 hrule
  · intro hrule hlimit
    exact absurd hlimit (Nat.ne_of_lt (hallowed.1 hrule))

/-! ## The counter -/

/-- The counter is not raised at the limit. -/
theorem runFrom_descend_of_le (h : limit ≤ l.progress.depth) : runFrom (descend limit) l = some (.error (.tooDeep limit), l) := by
  change runFrom (if limit ≤ l.progress.depth then throw (.tooDeep limit) else _) l = _
  rw [if_pos h]
  rfl

/-- The counter is raised below the limit. -/
theorem runFrom_descend_of_lt (h : l.progress.depth < limit) :
    runFrom (descend limit) l = some (.ok (), { l with progress := { l.progress with depth := l.progress.depth + 1 } }) := by
  change runFrom (if limit ≤ l.progress.depth then throw (.tooDeep limit) else _) l = _
  rw [if_neg (Nat.not_le.2 h)]
  rfl

/-- A member that would be one too many is refused. -/
theorem performs_refused {x : Procedure α} (h : Entered limit cs around l) (hlimit : limit ≤ l.progress.depth)
    (ht : target = .error (.tooDeep limit)) :
    Performs limit cs l (noted .member around (descend limit >>= fun _ => x)) target Ok := by
  refine performs_noted_of_run (run_bind_of_error (runFrom_descend_of_le hlimit) _) (.refl l) ?_ ht
  exact ⟨Nat.le_refl _, h.within, nofun, rfl, h.counts, h.bounded, nofun, fun _ _ => ⟨rfl, rfl⟩⟩

/-- A procedure after which the counter is lowered. -/
def lowered (x : Procedure α) : Procedure α :=
  (do
    let out ← x.run
    change fun p => { p with depth := p.depth - 1 }
    return out : StateT Ledger Option (Except Fault α))

/-- What is done between raising the counter and lowering it leaves it as it was. -/
theorem performs_raised {x : Procedure α} (hlimit : l.progress.depth < limit)
    (hx : Performs limit cs { l with progress := { l.progress with depth := l.progress.depth + 1 } } x target Ok) :
    Performs limit cs l (descend limit >>= fun _ => lowered x) target Ok := by
  obtain ⟨out, l', hrun, hmoves, hout⟩ := hx
  have hlowered : runFrom (lowered x) { l with progress := { l.progress with depth := l.progress.depth + 1 } } =
      some (out, { l' with progress := { l'.progress with depth := l'.progress.depth - 1 } }) := by
    unfold runFrom at hrun ⊢
    change (x.run.run _).bind _ = _
    rw [hrun]
    rfl
  refine ⟨out, _, (run_bind_of_ok (runFrom_descend_of_lt hlimit) _).trans hlowered,
    ⟨hmoves.forward, hmoves.within, ?_, hmoves.calls, hmoves.asked⟩, hout⟩
  rw [hmoves.restores, Nat.add_sub_cancel]

end Descent
end ClassSchema
