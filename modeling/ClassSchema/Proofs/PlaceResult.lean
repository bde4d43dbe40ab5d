import ClassSchema.TypeExpr.Parser

/-!
# What the machine makes of the tokens that are left

The machine that reads an annotation, seen from a place inside it: what it makes of the tokens from there on (`Place.result`), and
what it makes of them once a member is complete (`Place.afterMember`). One statement for every kind of place says how the next
token leads to another place, or what the tokens are refused for.
-/

namespace ClassSchema

/-- The next token is not this mark. -/
def NotNext (c : Char) (ts : List Located) : Prop := ∀ t ∈ ts.head?, t.token ≠ .mark c

/-- The failure where a token cannot stand, or where there is none. -/
def refusal (expected : Expected) : List Located → Except Fault TypeExpr
  | [] => .error (.unexpectedEnd expected)
  | t :: _ => .error t.unexpected

namespace Place

/-- What the machine makes of tokens from a place on. -/
def result (limit : Nat) (p : Place) (ts : List Located) : Except Fault TypeExpr := ts.foldlM (step limit) p >>= finish limit

/-- What the machine makes of tokens after a complete member. -/
def afterMember (limit : Nat) (frames : List Frame) (members : List TypeExpr) (e : TypeExpr) :
    List Located → Except Fault TypeExpr
  | [] => endText members frames e
  | t :: ts => endMember members t frames e >>= fun p => p.result limit ts

variable {limit : Nat} {frames : List Frame} {members : List TypeExpr} {e : TypeExpr} {ts : List Located} {t : Located}
  {p : Place}

theorem result_nil : p.result limit [] = p.finish limit := rfl

theorem result_cons : p.result limit (t :: ts) = p.step limit t >>= fun q => q.result limit ts := by
  unfold result
  rw [List.foldlM_cons, bind_assoc]

/-- After an expression without another suffix, the member is complete. -/
theorem result_suffixed {wraps : Nat} (h : NotNext '[' ts) :
    result limit ⟨frames, members, .suffixed e wraps⟩ ts = afterMember limit frames members e ts := by
  cases ts with
  | nil => rfl
  | cons t ts =>
    have hstep : step limit ⟨frames, members, .suffixed e wraps⟩ t = endMember members t frames e := if_neg (h t rfl)
    rw [result_cons, hstep, afterMember]

/-- A name without a bracket is an expression. -/
theorem result_named {name : String} (hangle : NotNext '<' ts) (hbrace : NotNext '{' ts) :
    result limit ⟨frames, members, .named name⟩ ts =
      result limit ⟨frames, members, .suffixed (.ident name) 0⟩ ts := by
  cases ts with
  | nil => rfl
  | cons t ts =>
    have hstep : step limit ⟨frames, members, .named name⟩ t = afterExpr frames members (.ident name) 0 t := by
      rw [step]
      simp only [if_neg (hangle t rfl), if_neg (hbrace t rfl)]
    rw [result_cons, hstep, result_cons]
    rfl

/-- A member after `?` makes a nullable member. -/
theorem afterMember_nullable :
    afterMember limit (.nullable :: frames) members e ts = afterMember limit frames members e.nullable ts := by
  cases ts <;> rfl

section Union

variable (hframes : frames.head? ≠ some .nullable)

include hframes

/-- After a mark, another member begins. -/
theorem afterMember_bar {offset : Nat} :
    afterMember limit frames members e (⟨offset, .mark '|'⟩ :: ts) =
      result limit ⟨frames, members ++ [e], .start⟩ ts := by
  cases frames with
  | nil => rfl
  | cons frame frames =>
    cases frame with
    | nullable => exact absurd rfl hframes
    | entries base bracket done outer => rfl

/-- Where no other member begins, the members make a union. -/
theorem afterMember_unionOf (hbar : NotNext '|' ts) :
    afterMember limit frames members e ts = afterMember limit frames [] (unionOf members e) ts := by
  have hself : unionOf [] (unionOf members e) = unionOf members e := rfl
  cases ts with
  | nil =>
    cases frames with
    | nil => rfl
    | cons frame frames =>
      cases frame with
      | nullable => exact absurd rfl hframes
      | entries base bracket done outer => rfl
  | cons t ts =>
    have hbar := hbar t rfl
    cases frames with
    | nil => simp only [afterMember, endMember, if_neg hbar]
    | cons frame frames =>
      cases frame with
      | nullable => exact absurd rfl hframes
      | entries base bracket done outer => simp only [afterMember, endMember, if_neg hbar, hself]

end Union

/-- Outside of all brackets, nothing else can stand after a member. -/
theorem afterMember_outside (hbar : NotNext '|' (t :: ts)) : afterMember limit [] [] e (t :: ts) = .error t.unexpected := by
  simp only [afterMember, endMember, if_neg (hbar t rfl)]
  rfl

section Entries

variable {base : String} {bracket : Bracket} {done outer : List TypeExpr} {offset : Nat}

/-- After a comma, another entry begins. -/
theorem afterMember_comma :
    afterMember limit (.entries base bracket done outer :: frames) [] e (⟨offset, .mark ','⟩ :: ts) =
      result limit ⟨.entries base bracket (done ++ [e]) outer :: frames, [], .start⟩ ts := rfl

/-- After the closing mark, the entries are complete. -/
theorem afterMember_close :
    afterMember limit (.entries base bracket done outer :: frames) [] e (⟨offset, .mark bracket.close⟩ :: ts) =
      closeEntries base bracket (done ++ [e]) >>= fun e => result limit ⟨frames, outer, .suffixed e 0⟩ ts := by
  have hbar : Token.mark bracket.close ≠ .mark '|' := by cases bracket <;> decide
  have hcomma : Token.mark bracket.close ≠ .mark ',' := by cases bracket <;> decide
  simp only [afterMember, endMember, if_neg hbar, if_neg hcomma]
  change (closeEntries base bracket (done ++ [e])).map _ >>= _ = _
  cases closeEntries base bracket (done ++ [e]) <;> rfl

/-- Nothing else can stand after an entry. -/
theorem afterMember_refused (hbar : NotNext '|' ts) (hcomma : NotNext ',' ts) (hclose : NotNext bracket.close ts) :
    afterMember limit (.entries base bracket done outer :: frames) [] e ts = refusal (.entryEnd bracket) ts := by
  cases ts with
  | nil => rfl
  | cons t ts =>
    simp only [afterMember, endMember, if_neg (hbar t rfl), if_neg (hcomma t rfl), if_neg (hclose t rfl)]
    rfl

/-- A bracket that does not close at once has an entry. -/
theorem result_opened (hclose : NotNext bracket.close ts) :
    result limit ⟨frames, members, .opened base bracket⟩ ts =
      result limit ⟨.entries base bracket [] members :: frames, [], .start⟩ ts := by
  cases ts with
  | nil => rfl
  | cons t ts =>
    have hstep : step limit ⟨frames, members, .opened base bracket⟩ t =
        beginMember limit (.entries base bracket [] members :: frames) [] t := if_neg (hclose t rfl)
    rw [result_cons, hstep, result_cons]
    rfl

end Entries

section Start

/-- A member that begins too deep is refused, whatever follows. -/
theorem result_start_deep (h : limit ≤ frames.length) :
    result limit ⟨frames, members, .start⟩ ts = .error (.tooDeep limit) := by
  cases ts with
  | nil =>
    have hfinish : finish limit ⟨frames, members, .start⟩ = .error (.tooDeep limit) := congrArg Except.error (if_pos h)
    rw [result_nil, hfinish]
  | cons t ts =>
    have hstep : step limit ⟨frames, members, .start⟩ t = .error (.tooDeep limit) := if_pos h
    rw [result_cons, hstep]
    rfl

variable (hlimit : frames.length < limit)

include hlimit

theorem step_start : step limit ⟨frames, members, .start⟩ t =
    match t.token with
    | .word c cs =>
      if cs.getLast? = some '-' then .error (.unexpected (t.offset + cs.length) '-')
      else .ok ⟨frames, members, .named (.ofList (c :: cs))⟩
    | .mark c => if c = '?' then .ok ⟨.nullable :: frames, members, .start⟩ else .error t.unexpected :=
  if_neg (Nat.not_le.2 hlimit)

/-- After `?`, a member begins inside. -/
theorem result_start_nullable {offset : Nat} :
    result limit ⟨frames, members, .start⟩ (⟨offset, .mark '?'⟩ :: ts) =
      result limit ⟨.nullable :: frames, members, .start⟩ ts := by
  rw [result_cons, step_start hlimit]
  rfl

/-- A word is a name. -/
theorem result_start_word {c : Char} {w : List Char} (ht : t.token = .word c w) (hlast : w.getLast? ≠ some '-') :
    result limit ⟨frames, members, .start⟩ (t :: ts) =
      result limit ⟨frames, members, .named (.ofList (c :: w))⟩ ts := by
  rw [result_cons, step_start hlimit]
  simp only [ht, if_neg hlast]
  rfl

/-- A word with a dash at its end is refused for the dash. -/
theorem result_start_dash {c : Char} {w : List Char} (ht : t.token = .word c w) (hlast : w.getLast? = some '-') :
    result limit ⟨frames, members, .start⟩ (t :: ts) = .error (.unexpected (t.offset + w.length) '-') := by
  rw [result_cons, step_start hlimit]
  simp only [ht, if_pos hlast]
  rfl

/-- Nothing else begins a member. -/
theorem result_start_refused (hnullable : NotNext '?' ts) (hword : ∀ t ∈ ts.head?, ∀ c w, t.token ≠ .word c w) :
    result limit ⟨frames, members, .start⟩ ts = refusal .name ts := by
  cases ts with
  | nil =>
    have hfinish : finish limit ⟨frames, members, .start⟩ = .error (.unexpectedEnd .name) :=
      congrArg Except.error (if_neg (Nat.not_le.2 hlimit))
    rw [result_nil, hfinish, refusal]
  | cons t ts =>
    rw [result_cons, step_start hlimit, refusal]
    cases ht : t.token with
    | word c w => exact absurd ht (hword t rfl c w)
    | mark c =>
      have hc : c ≠ '?' := by
        rintro rfl
        exact hnullable t rfl ht
      simp only [if_neg hc]
      rfl

end Start

section Names

variable {name : String} {offset : Nat}

theorem result_named_angle :
    result limit ⟨frames, members, .named name⟩ (⟨offset, .mark '<'⟩ :: ts) =
      result limit ⟨frames, members, .opened name .angle⟩ ts := rfl

/-- Only `array` may have entries in braces. -/
theorem result_named_brace :
    result limit ⟨frames, members, .named name⟩ (⟨offset, .mark '{'⟩ :: ts) =
      if TypeExpr.isArrayName name then result limit ⟨frames, members, .opened name .brace⟩ ts
      else .error (.shapeBase name) := by
  have hstep : step limit ⟨frames, members, .named name⟩ ⟨offset, .mark '{'⟩ =
      if TypeExpr.isArrayName name then .ok ⟨frames, members, .opened name .brace⟩ else .error (.shapeBase name) := rfl
  rw [result_cons, hstep]
  split <;> rfl

theorem result_opened_close_angle :
    result limit ⟨frames, members, .opened name .angle⟩ (⟨offset, .mark Bracket.angle.close⟩ :: ts) =
      .error (.unexpected offset Bracket.angle.close) := rfl

theorem result_opened_close_brace :
    result limit ⟨frames, members, .opened name .brace⟩ (⟨offset, .mark Bracket.brace.close⟩ :: ts) =
      result limit ⟨frames, members, .suffixed (.tuple []) 0⟩ ts := rfl

end Names

section Suffixes

variable {wraps offset : Nat}

theorem result_openSquare :
    result limit ⟨frames, members, .suffixed e wraps⟩ (⟨offset, .mark '['⟩ :: ts) =
      result limit ⟨frames, members, .square e wraps⟩ ts := rfl

/-- A suffix is counted on top of the frames. -/
theorem result_closeSquare :
    result limit ⟨frames, members, .square e wraps⟩ (⟨offset, .mark ']'⟩ :: ts) =
      if limit ≤ frames.length + wraps + 1 then .error (.tooDeep limit)
      else result limit ⟨frames, members, .suffixed e.arrayOf (wraps + 1)⟩ ts := by
  have hstep : step limit ⟨frames, members, .square e wraps⟩ ⟨offset, .mark ']'⟩ =
      if limit ≤ frames.length + wraps + 1 then .error (.tooDeep limit)
      else .ok ⟨frames, members, .suffixed e.arrayOf (wraps + 1)⟩ := rfl
  rw [result_cons, hstep]
  split <;> rfl

/-- Nothing else can stand after the first half of a suffix. -/
theorem result_square_refused (h : NotNext ']' ts) :
    result limit ⟨frames, members, .square e wraps⟩ ts = refusal .closeSquare ts := by
  cases ts with
  | nil => rfl
  | cons t ts =>
    have hstep : step limit ⟨frames, members, .square e wraps⟩ t = .error t.unexpected := if_neg (h t rfl)
    rw [result_cons, hstep]
    rfl

end Suffixes

end Place

end ClassSchema
