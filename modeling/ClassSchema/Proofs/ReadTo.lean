import ClassSchema.Proofs.Spelling
import ClassSchema.Proofs.Value

/-!
# What has been read at a place

At every place that the machine reaches, the tokens behind it are the beginning of an annotation: complete members and
entries, each with its value at the depth where it stands, and around them the members that have begun (`ReadTo`). A step
keeps this (`ReadTo.step`), so a run does (`ReadTo.run`). Where the text may end, the tokens behind the place are those of a
whole annotation, and what has been read is its value (`ReadTo.finish`).
-/

namespace ClassSchema

namespace Grammar

variable {α : Type} {limit depth : Nat} {ts us vs : List Token}

/-! ## Parts that are complete -/

/-- Tokens of a member with a value. -/
def WritesMember (limit depth : Nat) (e : TypeExpr) (ts : List Token) : Prop :=
  ∃ m : Member, m.tokens = ts ∧ m.value limit depth = .ok e

/-- Tokens of an annotation whose members have values. -/
def WritesUnion (limit depth : Nat) (es : List TypeExpr) (ts : List Token) : Prop :=
  ∃ a : Alternation, a.tokens = ts ∧ a.value limit depth = .ok es

/-- Tokens of an annotation with a value. -/
def WritesEntry (limit depth : Nat) (e : TypeExpr) (ts : List Token) : Prop :=
  ∃ es, e = ofMembers es ∧ WritesUnion limit depth es ts

/-- Tokens of entries with values. -/
def WritesEntries (limit depth : Nat) (es : List TypeExpr) (ts : List Token) : Prop :=
  ∃ entries : Entries, entries.tokens = ts ∧ entries.value limit depth = .ok es

/-- Parts one after the other, each with a mark after it. -/
inductive Pending (mark : Char) (part : α → List Token → Prop) : List α → List Token → Prop where
  | nil : Pending mark part [] []
  | snoc {as : List α} {a : α} {ts us : List Token} :
      Pending mark part as ts → part a us → Pending mark part (as ++ [a]) (ts ++ (us ++ [.mark mark]))

/-- What may be put before a whole part by part may be put before it at once. -/
theorem Pending.append {mark : Char} {part : α → List Token → Prop} (whole : List α → List Token → Prop)
    (hcons : ∀ {a bs us vs}, part a us → whole bs vs → whole (a :: bs) (us ++ .mark mark :: vs)) {as bs : List α}
    (h : Pending mark part as ts) (hbs : whole bs vs) : whole (as ++ bs) (ts ++ vs) := by
  induction h generalizing bs vs with
  | nil => exact hbs
  | snoc _ ha ih =>
    have := ih (hcons ha hbs)
    simpa only [List.append_assoc, List.singleton_append, List.cons_append, List.nil_append] using this

/-- The members before the last make a union with it. -/
theorem Pending.union {before : List TypeExpr} {last : TypeExpr}
    (h : Pending '|' (WritesMember limit depth) before ts) (hlast : WritesMember limit depth last us) :
    WritesUnion limit depth (before ++ [last]) (ts ++ us) := by
  refine h.append (WritesUnion limit depth) ?_ ?_
  · rintro e es _ _ ⟨m, rfl, hm⟩ ⟨a, rfl, ha⟩
    refine ⟨.alternative m a, rfl, ?_⟩
    unfold Alternation.value
    rw [hm, ha]
    rfl
  · obtain ⟨m, rfl, hm⟩ := hlast
    refine ⟨.single m, rfl, ?_⟩
    unfold Alternation.value
    rw [hm]
    rfl

/-- The entries before the last make the entries of a bracket with it. -/
theorem Pending.entries {done : List TypeExpr} {last : TypeExpr}
    (h : Pending ',' (WritesEntry limit depth) done ts) (hlast : WritesEntry limit depth last us) :
    WritesEntries limit depth (done ++ [last]) (ts ++ us) := by
  refine h.append (WritesEntries limit depth) ?_ ?_
  · rintro e es _ _ ⟨members, rfl, a, rfl, ha⟩ ⟨rest, rfl, hrest⟩
    refine ⟨.more a rest, rfl, ?_⟩
    rw [Entries.value, ha, hrest]
    rfl
  · obtain ⟨members, rfl, a, rfl, ha⟩ := hlast
    refine ⟨.single a, rfl, ?_⟩
    rw [Entries.value, ha]
    rfl

/-! ## The invariant -/

/-- The tokens before the place where a member begins: the members before it in its union, and outside them the members
that have begun and wait for it. -/
inductive Opened (limit : Nat) : List Frame → List TypeExpr → List Token → Prop where
  | outside {members : List TypeExpr} {ts : List Token} :
      Pending '|' (WritesMember limit 0) members ts → Opened limit [] members ts
  | nullable {frames : List Frame} {members : List TypeExpr} {ts : List Token} :
      frames.length < limit → Opened limit frames members ts →
        Opened limit (.nullable :: frames) members (ts ++ [.mark '?'])
  | entries {frames : List Frame} {base : Name} {bracket : Bracket} {done outer members : List TypeExpr}
      {ts us vs : List Token} :
      frames.length < limit → base.Opens bracket → Opened limit frames outer ts →
        Pending ',' (WritesEntry limit (frames.length + 1)) done us →
        Pending '|' (WritesMember limit (frames.length + 1)) members vs →
        Opened limit (.entries base.text bracket done outer :: frames) members
          (ts ++ base.token :: .mark (opening bracket) :: (us ++ vs))

/-- The tokens before a place: those before the member being read, and what has been read of the member. -/
inductive ReadTo (limit : Nat) : Place → List Token → Prop where
  | start {frames : List Frame} {members : List TypeExpr} {ts : List Token} :
      Opened limit frames members ts → ReadTo limit ⟨frames, members, .start⟩ ts
  | opened {frames : List Frame} {members : List TypeExpr} {ts : List Token} {base : Name} {bracket : Bracket} :
      Opened limit frames members ts → frames.length < limit → base.Opens bracket →
        ReadTo limit ⟨frames, members, .opened base.text bracket⟩ (ts ++ [base.token, .mark (opening bracket)])
  | named {frames : List Frame} {members : List TypeExpr} {ts : List Token} {n : Name} :
      Opened limit frames members ts → frames.length < limit →
        ReadTo limit ⟨frames, members, .named n.text⟩ (ts ++ [n.token])
  | suffixed {frames : List Frame} {members : List TypeExpr} {ts : List Token} {p : Primary} {wraps : Nat}
      {e : TypeExpr} :
      Opened limit frames members ts → (Member.plain p wraps).value limit frames.length = .ok e →
        ReadTo limit ⟨frames, members, .suffixed e wraps⟩ (ts ++ (Member.plain p wraps).tokens)
  | square {frames : List Frame} {members : List TypeExpr} {ts : List Token} {p : Primary} {wraps : Nat}
      {e : TypeExpr} :
      Opened limit frames members ts → (Member.plain p wraps).value limit frames.length = .ok e →
        ReadTo limit ⟨frames, members, .square e wraps⟩ (ts ++ ((Member.plain p wraps).tokens ++ [.mark '[']))

variable {frames : List Frame} {members : List TypeExpr} {e : TypeExpr} {q : Place}

/-! ## The values of what has been read -/

/-- A member may begin below the limit. -/
theorem begin_eq_ok (h : depth < limit) : begin limit depth = .ok () := begin_eq_ok_iff.2 h

/-- A `?` before a member makes it nullable. -/
theorem WritesMember.nullable (h : WritesMember limit (depth + 1) e ts) (hd : depth < limit) :
    WritesMember limit depth e.nullable (.mark '?' :: ts) := by
  obtain ⟨m, rfl, hm⟩ := h
  refine ⟨.nullable m, rfl, ?_⟩
  rw [Member.value, begin_eq_ok hd, hm]
  rfl

/-- A name is a member. -/
theorem value_name (n : Name) (hd : depth < limit) :
    (Member.plain (.name n) 0).value limit depth = .ok (.ident n.text) := by
  rw [Member.value, Primary.value, begin_eq_ok hd]
  rfl

/-- The shape without elements is a member. -/
theorem value_empty {base : Name} (opens : base.Opens .brace) (hd : depth < limit) :
    (Member.plain (.empty base opens) 0).value limit depth = .ok (.tuple []) := by
  rw [Member.value, Primary.value, begin_eq_ok hd]
  rfl

/-- A bracket that closes is a member. -/
theorem value_bracketed {base : Name} {bracket : Bracket} (opens : base.Opens bracket) {entries : Entries}
    {es : List TypeExpr} (hd : depth < limit) (hes : entries.value limit (depth + 1) = .ok es)
    (hclose : closeEntries base.text bracket es = .ok e) :
    (Member.plain (.bracketed base bracket opens entries) 0).value limit depth = .ok e := by
  rw [Member.value, Primary.value, begin_eq_ok hd, hes]
  change closeEntries base.text bracket es >>= suffixed limit depth 0 = _
  rw [hclose]
  rfl

/-- One suffix more makes an array. -/
theorem value_wrap {p : Primary} {wraps : Nat} (h : (Member.plain p wraps).value limit depth = .ok e)
    (hd : depth + wraps + 1 < limit) : (Member.plain p (wraps + 1)).value limit depth = .ok e.arrayOf := by
  obtain ⟨t, ht, hs⟩ := bind_eq_ok_iff.1 h
  obtain ⟨-, rfl⟩ := suffixed_eq_ok_iff.1 hs
  refine bind_eq_ok_iff.2 ⟨t, ht, suffixed_eq_ok_iff.2 ⟨.inr hd, ?_⟩⟩
  exact Function.iterate_succ_apply' _ _ _

/-- One suffix more is written at the end. -/
theorem suffixTokens_succ (wraps : Nat) : suffixTokens (wraps + 1) = suffixTokens wraps ++ [.mark '[', .mark ']'] := by
  induction wraps with
  | zero => rfl
  | succ wraps ih =>
    change .mark '[' :: .mark ']' :: suffixTokens (wraps + 1) =
      .mark '[' :: .mark ']' :: (suffixTokens wraps ++ [.mark '[', .mark ']'])
    rw [ih]

/-! ## What a step keeps -/

/-- A token that begins a member. -/
theorem Opened.readTo_beginMember (h : Opened limit frames members ts) {t : Located} (ht : Proper t.token)
    (hq : beginMember limit frames members t = .ok q) : ReadTo limit q (ts ++ [t.token]) := by
  unfold beginMember at hq
  by_cases hd : limit ≤ frames.length
  · rw [if_pos hd] at hq
    nomatch hq
  have hd' : frames.length < limit := Nat.lt_of_not_le hd
  rw [if_neg hd] at hq
  cases htoken : t.token with
  | word c cs =>
    simp only [htoken] at hq ht
    by_cases hlast : cs.getLast? = some '-'
    · rw [if_pos hlast] at hq
      nomatch hq
    · rw [if_neg hlast] at hq
      cases hq
      exact ReadTo.named (n := ⟨c, cs, ht.1, ht.2, hlast⟩) h hd'
  | mark c =>
    simp only [htoken] at hq
    by_cases hc : c = '?'
    · rw [if_pos hc] at hq
      cases hq
      rw [hc]
      exact .start (.nullable hd' h)
    · rw [if_neg hc] at hq
      nomatch hq

/-- A closing mark after the last entry of a bracket. -/
theorem Opened.readTo_close (h : Opened limit frames members ts) {base : Name} {bracket : Bracket}
    {done last : List TypeExpr} (hd : frames.length < limit) (hopens : base.Opens bracket)
    (hdone : Pending ',' (WritesEntry limit (frames.length + 1)) done us)
    (hlast : WritesUnion limit (frames.length + 1) last vs) {r : TypeExpr}
    (hr : closeEntries base.text bracket (done ++ [ofMembers last]) = .ok r) :
    ReadTo limit ⟨frames, members, .suffixed r 0⟩
      (ts ++ base.token :: .mark (opening bracket) :: (us ++ (vs ++ [.mark bracket.close]))) := by
  obtain ⟨entries, htokens, hvalue⟩ := hdone.entries ⟨last, rfl, hlast⟩
  have hq := ReadTo.suffixed h (value_bracketed hopens hd hvalue hr)
  simp only [Member.tokens, Primary.tokens, suffixTokens, htokens, List.append_nil, List.append_assoc] at hq
  exact hq

/-- A token after a member of an entry: another member, another entry, or the end of the bracket. -/
theorem Opened.readTo_endEntry (h : Opened limit frames members ts) {base : Name} {bracket : Bracket}
    {done before : List TypeExpr} {ws : List Token} (hd : frames.length < limit) (hopens : base.Opens bracket)
    (hdone : Pending ',' (WritesEntry limit (frames.length + 1)) done us)
    (hbefore : Pending '|' (WritesMember limit (frames.length + 1)) before vs)
    (he : WritesMember limit (frames.length + 1) e ws) {t : Located}
    (hq : endMember before t (.entries base.text bracket done members :: frames) e = .ok q) :
    ReadTo limit q (ts ++ base.token :: .mark (opening bracket) :: (us ++ (vs ++ (ws ++ [t.token])))) := by
  unfold endMember at hq
  by_cases hbar : t.token = .mark '|'
  · rw [if_pos hbar] at hq
    cases hq
    rw [hbar]
    exact .start (.entries hd hopens h hdone (hbefore.snoc he))
  rw [if_neg hbar, unionOf_eq_ofMembers] at hq
  have hunion := hbefore.union he
  by_cases hcomma : t.token = .mark ','
  · rw [if_pos hcomma] at hq
    cases hq
    have := ReadTo.start (Opened.entries hd hopens h (hdone.snoc ⟨_, rfl, hunion⟩) .nil)
    rw [hcomma]
    simpa only [List.append_assoc, List.append_nil] using this
  rw [if_neg hcomma] at hq
  by_cases hclose : t.token = .mark bracket.close
  · rw [if_pos hclose] at hq
    cases hr : closeEntries base.text bracket (done ++ [ofMembers (before ++ [e])]) with
    | error fault =>
      rw [hr] at hq
      nomatch hq
    | ok r =>
      rw [hr] at hq
      cases hq
      have := h.readTo_close hd hopens hdone hunion hr
      rw [hclose]
      simpa only [List.append_assoc] using this
  · rw [if_neg hclose] at hq
    nomatch hq

/-- A token after a member. The `?` around the member are complete with it, so the induction is on the frames. -/
theorem Opened.readTo_endMember (h : Opened limit frames members ts) (he : WritesMember limit frames.length e us)
    {t : Located} (hq : endMember members t frames e = .ok q) : ReadTo limit q (ts ++ (us ++ [t.token])) := by
  induction h generalizing e us with
  | outside hmembers =>
    unfold endMember at hq
    by_cases hbar : t.token = .mark '|'
    · rw [if_pos hbar] at hq
      cases hq
      rw [hbar]
      exact .start (.outside (hmembers.snoc he))
    · rw [if_neg hbar] at hq
      nomatch hq
  | nullable hd h ih =>
    have := ih (he.nullable hd) hq
    simpa only [List.append_assoc, List.cons_append, List.nil_append] using this
  | entries hd hopens h hdone hmembers ih =>
    have := h.readTo_endEntry hd hopens hdone hmembers he hq
    simpa only [List.append_assoc, List.cons_append] using this

/-- A token after a primary and its suffixes. -/
theorem Opened.readTo_afterExpr (h : Opened limit frames members ts) {p : Primary} {wraps : Nat}
    (he : (Member.plain p wraps).value limit frames.length = .ok e) {t : Located}
    (hq : afterExpr frames members e wraps t = .ok q) :
    ReadTo limit q (ts ++ ((Member.plain p wraps).tokens ++ [t.token])) := by
  unfold afterExpr at hq
  by_cases hsquare : t.token = .mark '['
  · rw [if_pos hsquare] at hq
    cases hq
    rw [hsquare]
    exact .square h he
  · rw [if_neg hsquare] at hq
    exact h.readTo_endMember ⟨_, rfl, he⟩ hq

/-- A token after an opening mark: the bracket closes, or its first entry begins. -/
theorem Opened.readTo_afterOpening (h : Opened limit frames members ts) {base : Name} {bracket : Bracket}
    (hd : frames.length < limit) (hopens : base.Opens bracket) {t : Located} (ht : Proper t.token)
    (hq : Place.step limit ⟨frames, members, .opened base.text bracket⟩ t = .ok q) :
    ReadTo limit q (ts ++ [base.token, .mark (opening bracket), t.token]) := by
  simp only [Place.step] at hq
  by_cases hclose : t.token = .mark bracket.close
  · rw [if_pos hclose] at hq
    cases bracket with
    | angle => nomatch hq
    | brace =>
      cases hq
      rw [hclose]
      exact .suffixed h (value_empty hopens hd)
  · rw [if_neg hclose] at hq
    have := (Opened.entries hd hopens h .nil .nil).readTo_beginMember ht hq
    simpa only [List.append_assoc, List.cons_append, List.nil_append] using this

/-- A token after a name: a bracket opens, or what follows a member. -/
theorem Opened.readTo_afterName (h : Opened limit frames members ts) {n : Name} (hd : frames.length < limit)
    {t : Located} (hq : Place.step limit ⟨frames, members, .named n.text⟩ t = .ok q) :
    ReadTo limit q (ts ++ [n.token, t.token]) := by
  simp only [Place.step] at hq
  by_cases hangle : t.token = .mark '<'
  · rw [if_pos hangle] at hq
    cases hq
    have hopens : n.Opens .angle := fun hbrace => nomatch hbrace
    rw [hangle]
    exact .opened h hd hopens
  rw [if_neg hangle] at hq
  by_cases hbrace : t.token = .mark '{'
  · rw [if_pos hbrace] at hq
    by_cases harray : TypeExpr.isArrayName n.text = true
    · rw [if_pos harray] at hq
      cases hq
      have hopens : n.Opens .brace := fun _ => harray
      rw [hbrace]
      exact .opened h hd hopens
    · rw [if_neg harray] at hq
      nomatch hq
  · rw [if_neg hbrace] at hq
    exact h.readTo_afterExpr (value_name n hd) hq

/-- A token after the `[` of a suffix: the suffix is complete. -/
theorem Opened.readTo_afterSquare (h : Opened limit frames members ts) {p : Primary} {wraps : Nat}
    (he : (Member.plain p wraps).value limit frames.length = .ok e) {t : Located}
    (hq : Place.step limit ⟨frames, members, .square e wraps⟩ t = .ok q) :
    ReadTo limit q (ts ++ ((Member.plain p wraps).tokens ++ [.mark '[', t.token])) := by
  simp only [Place.step] at hq
  by_cases hclose : t.token = .mark ']'
  · rw [if_pos hclose] at hq
    by_cases hd : limit ≤ frames.length + wraps + 1
    · rw [if_pos hd] at hq
      nomatch hq
    · rw [if_neg hd] at hq
      cases hq
      have := ReadTo.suffixed h (value_wrap he (Nat.lt_of_not_le hd))
      rw [hclose]
      simpa only [Member.tokens, suffixTokens_succ, List.append_assoc] using this
  · rw [if_neg hclose] at hq
    nomatch hq

/-- A step of the machine keeps what is known of the tokens behind it. -/
theorem ReadTo.step {p : Place} (h : ReadTo limit p ts) {t : Located} (ht : Proper t.token)
    (hq : p.step limit t = .ok q) : ReadTo limit q (ts ++ [t.token]) := by
  cases h with
  | start h => exact h.readTo_beginMember ht hq
  | opened h hd hopens =>
    rw [List.append_assoc]
    exact h.readTo_afterOpening hd hopens ht hq
  | named h hd =>
    rw [List.append_assoc]
    exact h.readTo_afterName hd hq
  | suffixed h he =>
    rw [List.append_assoc]
    exact h.readTo_afterExpr he hq
  | square h he =>
    rw [List.append_assoc, List.append_assoc]
    exact h.readTo_afterSquare he hq

/-- A run of the machine keeps what is known of the tokens behind it. -/
theorem ReadTo.run {p : Place} {lts : List Located} (h : ReadTo limit p ts) (hproper : ∀ t ∈ lts, Proper t.token)
    (hq : lts.foldlM (Place.step limit) p = .ok q) : ReadTo limit q (ts ++ lts.map (·.token)) := by
  induction lts generalizing p ts with
  | nil =>
    cases hq
    rw [List.map_nil, List.append_nil]
    exact h
  | cons t lts ih =>
    rw [List.foldlM_cons] at hq
    obtain ⟨p', hp', hq⟩ := bind_eq_ok_iff.1 hq
    have := ih (h.step (hproper t List.mem_cons_self) hp') (fun s hs => hproper s (List.mem_cons_of_mem t hs)) hq
    rw [List.append_assoc] at this
    exact this

/-- Nothing has been read before the first token. -/
theorem readTo_initial (limit : Nat) : ReadTo limit .initial [] := .start (.outside .nil)

/-! ## Where the text may end -/

/-- The text may end after a member when only `?` are open, and then the tokens are those of a whole annotation. -/
theorem Opened.endText_writes (h : Opened limit frames members ts) (he : WritesMember limit frames.length e us)
    {r : TypeExpr} (hr : endText members frames e = .ok r) : WritesEntry limit 0 r (ts ++ us) := by
  induction h generalizing e us with
  | outside hmembers =>
    cases hr
    exact ⟨_, unionOf_eq_ofMembers _ _, hmembers.union he⟩
  | nullable hd h ih =>
    have := ih (he.nullable hd) hr
    rw [List.append_assoc]
    exact this
  | entries => nomatch hr

/-- Where the text may end, the tokens behind are those of a whole annotation, and what has been read is its value. -/
theorem ReadTo.finish {p : Place} (h : ReadTo limit p ts) {r : TypeExpr} (hr : p.finish limit = .ok r) :
    WritesEntry limit 0 r ts := by
  cases h with
  | start => nomatch hr
  | opened => nomatch hr
  | named h hd => exact h.endText_writes ⟨_, rfl, value_name _ hd⟩ hr
  | suffixed h he => exact h.endText_writes ⟨_, rfl, he⟩ hr
  | square => nomatch hr

end Grammar

end ClassSchema
